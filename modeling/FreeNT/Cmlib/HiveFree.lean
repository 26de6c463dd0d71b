import FreeNT.Cmlib.HiveAlloc

/-!
# Freeing cells

`HvFreeCell` makes an allocated cell free, merges it with the free cell after it
(`mergeNext_spec`), looks for a free cell before it (`findPrevious_spec`), and
either grows that cell (`mergeInto_spec`) or puts the cell on its list.
`hvFreeCell_spec`: it always returns, keeps the invariant of the storage, and
changes no byte outside of the cell and of free cells.
-/

namespace FreeNT.Cmlib

open FreeNT.Rtl List Option Hole

/-! ## Merging two cells -/

variable {x : Cell} {a : Nat}

section Merge

variable {h : HHive} {t : HStorageType} {H : Hole} {x y : Cell} {fl : Nat → List Nat} {ex : Nat → Prop}

/-- Two neighbours as one free cell. -/
def merged (x y : Cell) : Cell := ⟨x.Offset, (x.len + y.len : Nat)⟩

lemma merged_len (x y : Cell) : (merged x y).len = x.len + y.len := Int.natAbs_natCast _

lemma merged_free (y : Cell) (hx : 16 ≤ x.len) : (merged x y).Free := by
  simp only [Cell.Free, merged]
  omega

lemma writeMerged_spec (ex' : Nat → Prop) (hr : Rep t (h.Storage t) (H.fill [x, y]) fl ex)
    (hxy : ∀ i o, OnList [x, y] ex i o ↔ OnList [merged x y] ex' i o)
    (hrs : ∀ c, H.Rest c → (ex c.Offset ↔ ex' c.Offset)) {h' : HHive}
    (hh' : h' = h.writeUlong ⟨t, x.Offset⟩ (x.len + y.len)) :
    Rep t (h'.Storage t) (H.fill [merged x y]) fl ex' ∧ Upd t x.Has h h' := by
  subst hh'
  have hx := H.mem_head x [y]
  have hy : y ∈ cells (H.fill [x, y]) := mem_cells_fill.mpr (.inl (by simp))
  have hxk := hr.layout.cell_ok hx
  have hyk := hr.layout.cell_ok hy
  have hxl := hxk.len_pos
  have hxa := hxk.aligned
  have hya := hyk.aligned
  have hrn := hr.layout.range
  obtain ⟨p, q, -, ⟨hp, hyo, hq⟩, -⟩ := hr.layout.hole_tiles
  have he := hr.layout.cell_end hy
  have hst := HHive.modifyMem_same h t (·.writeUlong x.Offset (x.len + y.len))
  refine ⟨?_, (Upd.writeUlong h t _ _).mono fun a ha => by unfold Cell.Has; omega⟩
  rw [HHive.writeUlong, hst]
  refine hr.refill rfl rfl rfl (fun a ha => ?_)
    (fun i hi o ho => hr.links_header (hr.layout.cell_aligned hx) _ _ hi ho) (fun p q ht =>
      ?_) (fun c hc => ?_) hxy hrs
  · have := ha x mem_cons_self
    unfold Cell.Has at this
    exact Mem.writeUlong_of_ne _ _ (by omega)
  · obtain ⟨h1, -, h3⟩ := ht
    refine ⟨h1, ?_⟩
    rw [merged_len]
    exact (Nat.add_assoc ..).symm.trans h3
  rw [mem_singleton.mp hc]
  refine .of_readUlong ?_ (by omega) (by omega) (by omega)
  rw [Mem.readUlong_self]
  omega

lemma merged_has (hr : Layout (h.Storage t) (H.fill [x, y])) (ha : (merged x y).Has a) : x.Has a ∨ y.Has a := by
  obtain ⟨p, q, -, ⟨hp, hyo, -⟩, -⟩ := hr.hole_tiles
  unfold Cell.Has at ha ⊢
  rw [merged_len] at ha
  dsimp only [merged] at ha
  omega

end Merge

/-! ## The cell after -/

variable {h : HHive} {t : HStorageType} {c : Cell}

lemma neighborIndex_eq {bn : List Bin} (hl : Layout (h.Storage t) bn)
    {b : Bin} (hb : b ∈ bn) (hc : c ∈ cells bn) (hx : x ∈ b.Cells) (ha : b.Offset = a) :
    neighborIndex h ⟨t, a⟩ x.Offset (orType t c.Offset) = orType t x.Offset := by
  subst ha
  have hfo : h.readUlong (Ptr.add ⟨t, b.Offset⟩ 4) = b.Offset := (hl.binOk b hb).fileOffset
  have hbn := hl.cell_bounds hb hx
  have hlt := hl.offset_lt (mem_cells.mpr ⟨b, hb, hx⟩)
  rw [neighborIndex, cellType_orType t (hl.offset_lt hc), hfo, Nat.sub_add_cancel (by dsimp only; omega),
    Nat.mod_eq_of_lt (by omega)]

/-- What `mergeNext` leaves: the free cell `c'` in place of `c`, and no free cell after it. -/
structure MergedNext (t : HStorageType) (h h' : HHive) (H H' : Hole) (c c' : Cell) : Prop where
  rep : ∃ fl, Rep t (h'.Storage t) (H'.fill [c']) fl (· = c.Offset)
  upd : Upd t (FreeAt (H.fill [c])) h h'
  offset : c'.Offset = c.Offset
  free : c'.Free
  hole : ∃ zs, H' = { H with cs' := zs } ∧ zs.IsSuffix H.cs'
  next : ∀ z ∈ H'.cs'.head?, ¬ z.Free
  freeAt : ∀ a, FreeAt (H'.fill [c']) a → FreeAt (H.fill [c]) a
  others : ∀ x, x.Allocated → (H'.Rest x ↔ H.Rest x)

variable {H : Hole} {fl : Nat → List Nat}

lemma mergeNext_spec (hr : Rep t (h.Storage t) (H.fill [c]) fl (· = c.Offset)) (hf : c.Free)
    (hch : H.cs'.IsChain NotBothFree) :
    ∃ (h' : HHive) (H' : Hole) (c' : Cell), mergeNext h ⟨t, c.Offset⟩ ⟨t, H.Offset⟩ (orType t c.Offset) = some h' ∧
      MergedNext t h h' H H' c c' := by
  have hc := H.mem_head c []
  have hb := hr.layout.binOk _ (H.bin_mem [c])
  have hlt := hr.layout.offset_lt hc
  have hrn := hr.layout.range
  have hbn := hr.layout.bin_bounds (H.bin_mem [c])
  dsimp only [bin] at hbn
  have hrd : h.readUlong ⟨t, c.Offset⟩ = c.len := (hr.layout.cell_ok hc).readUlong hf
  have hfo : h.readUlong (Ptr.add ⟨t, H.Offset⟩ 4) = H.Offset := hb.fileOffset
  have hsz : h.readUlong (Ptr.add ⟨t, H.Offset⟩ 8) = H.Size := hb.size
  obtain ⟨p, q, -, ⟨hp, hq⟩, haf⟩ := hr.layout.hole_tiles
  change p + c.len = q at hq
  have hqe := haf.le
  -- nothing is merged
  have hk : (∀ z ∈ H.cs'.head?, ¬ z.Free) → MergedNext t h h H H c c := fun hn =>
    ⟨⟨fl, hr⟩, Upd.refl .., rfl, hf, ⟨H.cs', rfl, suffix_rfl⟩, hn, fun _ => id, fun _ _ => Iff.rfl⟩
  unfold mergeNext
  rw [hrd, hfo, hsz, orType_mod t hlt, Nat.mod_eq_of_lt (by omega), Nat.mod_eq_of_lt (by omega)]
  obtain ⟨bs, off, size, cs, cs', bs'⟩ := H
  dsimp only at *
  cases cs' with
  | nil =>
    have hqn : q = off + size := haf
    rw [if_neg (by omega)]
    exact ⟨h, _, c, rfl, hk fun z hz => by cases hz⟩
  | cons y ys =>
    obtain ⟨hyo, hys⟩ := haf
    have hyn : y ∈ (bin ⟨bs, off, size, cs, y :: ys, bs'⟩ [c]).Cells := by simp [bin]
    have hy : y ∈ cells (fill ⟨bs, off, size, cs, y :: ys, bs'⟩ [c]) := mem_cells.mpr ⟨_, bin_mem _ _, hyn⟩
    have hyk := hr.layout.cell_ok hy
    have hyl := hyk.len_pos
    have hyle := hys.le
    have hnb : (⟨t, c.Offset⟩ : Ptr).add c.len = ⟨t, y.Offset⟩ := by rw [hyo, ← hq, ← hp]; rfl
    have hry : h.readLong ⟨t, y.Offset⟩ = y.Size := hyk.header
    rw [if_pos (by omega), hnb, hry]
    by_cases hyf : y.Free
    swap
    · rw [if_neg (show ¬ 0 < y.Size from hyf)]
      exact ⟨h, _, c, rfl, hk fun z hz => by cases hz; exact hyf⟩
    rw [if_pos (show 0 < y.Size from hyf), neighborIndex_eq (a := off) hr.layout (bin_mem _ _) hc hyn rfl]
    have hcl := (hr.layout.cell_ok hc).len_pos
    obtain ⟨h₁, hrm, ⟨fl1, hr1⟩, u1⟩ := hvpRemoveFree_spec hr hy hyf (by omega)
    let H' : Hole := ⟨bs, off, size, cs, ys, bs'⟩
    have hr1' : Rep t (h₁.Storage t) (H'.fill [c, y]) fl1 fun o => o = c.Offset ∨ o = y.Offset := hr1
    obtain ⟨hr2, u2⟩ := writeMerged_spec (· = c.Offset) hr1' (unlisted (by simp) (by simp [merged]))
      (fun z hz => or_iff_left (hr1'.rest_ne (x := y) (by simp) hz)) rfl
    have hfr : ∀ a, FreeAt (H'.fill [merged c y]) a →
        FreeAt (fill ⟨bs, off, size, cs, y :: ys, bs'⟩ [c]) a := fun a ha =>
      FreeAt.refill H' [c, y] [merged c y] (fun z hz _ a hza => by
        rw [mem_singleton.mp hz] at hza
        rcases merged_has hr1'.layout hza with h1 | h1
        · exact ⟨c, by simp, hf, h1⟩
        · exact ⟨y, by simp, hyf, h1⟩) ha
    have hcr : h₁.readUlong ⟨t, c.Offset⟩ = c.len := (hr1.layout.cell_ok hc).readUlong hf
    have hyr : h₁.readUlong ⟨t, y.Offset⟩ = y.len := (hr1.layout.cell_ok hy).readUlong hyf
    refine ⟨_, H', merged c y, ?_, ⟨fl1, hr2⟩, u1.trans (u2.mono fun a ha => ⟨c, hc, hf, ha⟩), rfl,
      merged_free y hcl,
      ⟨ys, rfl, suffix_cons y ys⟩, fun z hz hzf => ?_, hfr, fun x hx => ?_⟩
    · rw [hrm, do_some, hcr, hyr]
      rfl
    · cases ys with
      | nil => cases hz
      | cons z' zs =>
        cases hz
        exact (isChain_cons_cons.mp hch).1 ⟨hyf, hzf⟩
    · have hxy : x ≠ y := fun heq => hx.not_free (heq ▸ hyf)
      simp [Hole.Rest, H', mem_cons, hxy, false_or]

/-! ## The cell before -/

/-- The walk over the cells before `e` finds the last of them, if it is free. -/
lemma findPrevious_spec {e k : Nat} {cs : List Cell}
    (ht : Tiles Cell.Offset Cell.len a e cs) (hok : ∀ c ∈ cs, c.Ok (h.Storage t).Mem) (hfl : e - a < k) :
    findPrevious h ⟨t, e⟩ k a = some ((cs.getLast?.filter fun c => decide c.Free).map fun c => ⟨t, c.Offset⟩) := by
  induction cs generalizing a k with
  | nil =>
    obtain ⟨k, rfl⟩ := Nat.exists_eq_add_one.mpr (Nat.zero_lt_of_lt hfl)
    rw [findPrevious, if_neg (Nat.not_lt.mpr (Nat.le_of_eq ht.symm))]
    rfl
  | cons c cs ih =>
    obtain ⟨k, rfl⟩ := Nat.exists_eq_add_one.mpr (Nat.zero_lt_of_lt hfl)
    obtain ⟨rfl, hr⟩ := ht
    have hc := hok c mem_cons_self
    have hp := hc.len_pos
    have hle := hr.le
    have hrd : h.readLong ⟨t, c.Offset⟩ = c.Size := hc.header
    have hfl' : e - (c.Offset + c.len) < k := by omega
    have hn := ih hr (fun x hx => hok x (mem_cons_of_mem _ hx)) hfl'
    rw [findPrevious, if_pos (show c.Offset < e by omega), hrd]
    dsimp only
    by_cases hf : c.Free
    · rw [if_pos (show 0 < c.Size from hf), hf.toNat]
      cases cs with
      | nil =>
        rw [if_pos (show c.Offset + c.len = e from hr)]
        simp [hf]
      | cons x xs =>
        have := (hok x (by simp)).len_pos
        have := hr.2.le
        rw [if_neg (by omega), hn, getLast?_cons_cons]
    rw [if_neg (show ¬ 0 < c.Size from hf), Cell.toNat_neg hf, hn]
    cases cs with
    | nil => simp [hf]
    | cons x xs => rw [getLast?_cons_cons]

/-- The cell `x` before the free cell `c` grows by it, and is moved to the list of
its new size if that is another one. -/
lemma mergeInto_spec
    (hr : Rep t (h.Storage t) (H.fill [x, c]) fl (· = c.Offset)) (hok : HiveOk h) (hx : x.Free) (hc : c.Free) :
    ∃ h', mergeInto h ⟨t, x.Offset⟩ ⟨t, c.Offset⟩ ⟨t, H.Offset⟩ (orType t c.Offset) = some h' ∧
      (∃ fl', Rep t (h'.Storage t) (H.fill [merged x c]) fl' fun _ => False) ∧
        Upd t (FreeAt (H.fill [x, c])) h h' := by
  have hxm := H.mem_head x [c]
  have hcm : c ∈ cells (H.fill [x, c]) := mem_cells_fill.mpr (.inl (by simp))
  have hxk := hr.layout.cell_ok hxm
  have hck := hr.layout.cell_ok hcm
  have hxl := hxk.len_pos
  have hrn := hr.layout.range
  obtain ⟨p, q, -, ⟨hp, hco, hq⟩, -⟩ := hr.layout.hole_tiles
  have he := hr.layout.cell_end hcm
  have hxr : h.readUlong ⟨t, x.Offset⟩ = x.len := hxk.readUlong hx
  have hcr : h.readUlong ⟨t, c.Offset⟩ = c.len := hck.readUlong hc
  have hxs := hx.toNat
  have hmf := merged_free c hxl
  have hms : (merged x c).Size.toNat = x.len + c.len := Int.toNat_natCast _
  have hs : ∀ a, x.Has a → FreeAt (H.fill [x, c]) a := fun a ha => ⟨x, hxm, hx, ha⟩
  have hf : ∀ a, FreeAt (H.fill [merged x c]) a → FreeAt (H.fill [x, c]) a := fun a ha =>
    ha.refill _ _ _ fun z hz _ a hza => by
      rw [mem_singleton.mp hz] at hza
      rcases merged_has hr.layout hza with h1 | h1
      · exact ⟨x, by simp, hx, h1⟩
      · exact ⟨c, by simp, hc, h1⟩
  have hme := H.mem_head (merged x c) []
  -- a cell around the two starts at neither of them
  have hrs : ∀ z, H.Rest z → z.Offset ≠ c.Offset ∧ z.Offset ≠ x.Offset := fun z hz =>
    ⟨hr.rest_ne (by simp) hz, hr.rest_ne mem_cons_self hz⟩
  have hid := neighborIndex_eq (a := H.Offset) hr.layout (H.bin_mem _) hcm (x := x) (by simp [bin]) rfl
  unfold mergeInto
  dsimp only
  rw [hxr, hcr, hid, cellType_orType t (hr.layout.offset_lt hcm), Nat.mod_eq_of_lt (by omega),
    freeListIndex_of_le hxl, freeListIndex_of_le (by omega)]
  simp only [bind_eq_bind, bind_some]
  by_cases hcl : freeListIndex x.len = freeListIndex (x.len + c.len)
  · -- the cell stays on its list
    rw [if_neg (not_not.mpr hcl)]
    obtain ⟨hr1, u1⟩ := writeMerged_spec (fun _ => False) hr (fun i o => by
      constructor
      · rintro ⟨z, hz, hzo, -, hzi, hex⟩
        rcases mem_cons.mp hz with rfl | hz
        · exact ⟨merged z c, by simp, hzo, hmf, by rw [hms, ← hcl, ← hxs, hzi], id⟩
        · rw [mem_singleton.mp hz] at hzo
          exact absurd hzo.symm hex
      rintro ⟨z, hz, hzo, -, hzi, -⟩
      rw [mem_singleton.mp hz] at hzo hzi
      have hzo' : x.Offset = o := hzo
      rw [hms, ← hcl, ← hxs] at hzi
      exact ⟨x, by simp, hzo', hx, hzi, by omega⟩) (fun z hz => iff_of_false (hrs z hz).1 id) rfl
    obtain ⟨h2, hm, hst2, u2, -⟩ := markIfStable_spec hr1.layout (hok.of_upd u1) hme (FreeAt (H.fill [x, c]))
    exact ⟨h2, hm, ⟨fl, by rw [hst2]; exact hr1⟩, (u1.mono hs).trans u2⟩
  · rw [if_pos hcl]
    obtain ⟨h₁, hrm, ⟨fl1, hr1⟩, u1⟩ := hvpRemoveFree_spec hr hxm hx (by omega)
    have hxr1 : h₁.readUlong ⟨t, x.Offset⟩ = x.len := (hr1.layout.cell_ok hxm).readUlong hx
    have hcr1 : h₁.readUlong ⟨t, c.Offset⟩ = c.len := (hr1.layout.cell_ok hcm).readUlong hc
    obtain ⟨hr2, u2⟩ := writeMerged_spec (· = x.Offset) hr1 (unlisted (by simp) (by simp [merged]))
      (fun z hz => iff_of_false (fun hor => hor.elim (hrs z hz).1 (hrs z hz).2) (hrs z hz).2) rfl
    obtain ⟨h3, had, ⟨fl3, hr3⟩, u3⟩ := hvpAddFree_spec hr2 hme hmf rfl
    have u := (u1.trans (u2.mono hs)).trans (u3.mono hf)
    obtain ⟨h4, hm, hst4, u4, -⟩ := markIfStable_spec hr3.layout (hok.of_upd u) hme (FreeAt (H.fill [x, c]))
    refine ⟨h4, ?_, ⟨fl3, ?_⟩, u.trans u4⟩
    · rw [hrm, bind_some, hxr1, hcr1]
      exact (congrArg (bind · fun h => markIfStable h t (orType t x.Offset)) had).trans hm
    · rw [hst4]
      exact hr3.ex_congr fun o => ⟨fun ho => ho.2 ho.1, False.elim⟩

/-! ## Freeing -/

lemma release_spec (hr : Rep t (h.Storage t) (H.fill [c]) fl fun _ => False) (hc : c.Allocated) {h' : HHive}
    (hh' : h' = h.writeLong ⟨t, c.Offset⟩ (-h.readLong ⟨t, c.Offset⟩)) :
    Rep t (h'.Storage t) (H.fill [⟨c.Offset, -c.Size⟩]) fl (· = c.Offset) ∧ Upd t c.Has h h' := by
  have hcm := H.mem_head c []
  have hck := hr.layout.cell_ok hcm
  have hl := hck.len_pos
  have hrn := hr.layout.range
  have he := hr.layout.cell_end hcm
  have hrd : h.readLong ⟨t, c.Offset⟩ = c.Size := hck.header
  have hsz := Cell.toNat_neg hc.not_free
  rw [hrd] at hh'
  subst hh'
  refine ⟨?_, (Upd.writeLong h t c.Offset _).mono fun a ha => by unfold Cell.Has; omega⟩
  rw [HHive.writeLong, HHive.modifyMem_same]
  refine hr.flip (fun a ha => ?_) (Mem.readLong_writeLong_self _ _ (by omega) (by omega)) (absurd · hc.not_free)
    (fun _ => rfl) fun x hx => iff_of_false id (hr.rest_ne mem_cons_self hx)
  unfold Cell.Has at ha
  exact Mem.writeUlong_of_ne _ _ (by dsimp only; omega)

/-- The last step of `HvFreeCell`, on the free cell `c`, which is on no list and
has no free cell after it. -/
lemma putBack_spec (hr : Rep t (h.Storage t) (H.fill [c]) fl (· = c.Offset)) (hok : HiveOk h) (hfr : c.Free)
    (hbs : ∀ b, b ∈ H.bs ∨ b ∈ H.bs' → b.Cells.IsChain NotBothFree) (hcs : H.cs.IsChain NotBothFree)
    (hcs' : H.cs'.IsChain NotBothFree) (hn : ∀ z ∈ H.cs'.head?, ¬ z.Free) :
    ∃ h' bn', putBack h ⟨t, c.Offset⟩ ⟨t, H.Offset⟩ (orType t c.Offset) = some h' ∧
      StorageInv t (h'.Storage t) bn' ∧ Upd t (FreeAt (H.fill [c])) h h' ∧
      ∀ x, x.Allocated → (x ∈ cells bn' ↔ H.Rest x) := by
  have hcm := H.mem_head c []
  obtain ⟨p, q, hb, ⟨rfl, -⟩, -⟩ := hr.layout.hole_tiles
  have hw := findPrevious_spec hb (fun x hx => hr.layout.cell_ok (mem_cells_fill.mpr (.inr (.inr (.inl hx)))))
    (show c.Offset - (H.Offset + 32) < c.Offset + 1 by omega)
  unfold putBack
  rw [hw, cellType_orType t (hr.layout.offset_lt hcm), do_some]
  obtain ⟨bs, off, size, cs, cs', bs'⟩ := H
  by_cases hp : ∀ x ∈ cs.getLast?, ¬ x.Free
  · -- no free cell before: the cell goes on its list
    have hno : (cs.getLast?.filter fun x => decide x.Free) = none := by
      rw [filter_eq_none_iff]
      simpa using hp
    obtain ⟨h1, ha, ⟨fl1, hr1⟩, u1⟩ := hvpAddFree_spec hr hcm hfr rfl
    obtain ⟨h2, hmr, hst2, u2, -⟩ := markIfStable_spec hr1.layout (hok.of_upd u1) hcm _
    rw [hno, map_none]
    rw [ha, do_some]
    refine ⟨h2, fill ⟨bs, off, size, cs, cs', bs'⟩ [c], hmr, ⟨⟨fl1, ?_⟩, ?_⟩, u1.trans u2, fun x hx => ?_⟩
    · rw [hst2]
      exact hr1.ex_congr fun o => ⟨fun ho => ho.2 ho.1, False.elim⟩
    · exact (Coalesced.iff_fill (cons_ne_nil _ _)).mpr ⟨hbs, hcs, isChain_singleton _, hcs',
        fun x hx _ _ hf => hp x hx hf.1, fun x _ y hy hf => hn y hy hf.2⟩
    · rw [mem_cells_fill, mem_singleton]
      exact ⟨fun hor => hor.resolve_left fun heq => hx.not_free (heq ▸ hfr), .inr⟩
  · -- the free cell before grows
    simp only [not_forall, not_not] at hp
    obtain ⟨x, hxl, hxf⟩ := hp
    obtain ⟨ws, rfl⟩ := getLast?_eq_some_iff.mp hxl
    let H : Hole := ⟨bs, off, size, ws, cs', bs'⟩
    have hfl : fill ⟨bs, off, size, ws ++ [x], cs', bs'⟩ [c] = H.fill [x, c] := by
      simp [fill, bin, H, append_assoc, cons_append, nil_append]
    rw [hfl] at hr ⊢
    obtain ⟨h1, hm, ⟨fl1, hr1⟩, u1⟩ := mergeInto_spec hr hok hxf hfr
    rw [getLast?_concat, filter_some, decide_eq_true hxf]
    obtain ⟨hws, -, hj⟩ := isChain_append.mp hcs
    refine ⟨h1, H.fill [merged x c], hm, ⟨⟨fl1, hr1⟩, ?_⟩, u1, fun y hy => ?_⟩
    · exact (Coalesced.iff_fill (cons_ne_nil _ _)).mpr ⟨hbs, hws, isChain_singleton _, hcs',
        fun y hy _ _ hf => hj y hy x rfl ⟨hf.1, hxf⟩, fun _ _ y hy hf => hn y hy hf.2⟩
    have hyx : y ≠ x := fun heq => hy.not_free (heq ▸ hxf)
    have hxn := (hr.layout.cell_ok (H.mem_head x [c])).len_pos
    have hym : y ≠ merged x c := fun heq => hy.not_free (heq ▸ merged_free c hxn)
    rw [mem_cells_fill, mem_singleton]
    simp [Hole.Rest, H, mem_append, hyx, hym, or_false, false_or]

/-- The cells after `c` is freed. -/
structure Frees (t : HStorageType) (h h' : HHive) (bins bins' : List Bin) (c : Cell) : Prop where
  inv : StorageInv t (h'.Storage t) bins'
  upd : Upd t (fun a => FreeAt bins a ∨ c.Has a) h h'
  others : ∀ x, x.Allocated → (x ∈ cells bins' ↔ x ∈ cells bins ∧ x ≠ c)

lemma hvFreeCell_spec {b : List Bin}
    (hin : StorageInv t (h.Storage t) b) (hok : HiveOk h) (hcm : c ∈ cells b) (hc : c.Allocated) :
    ∃ h' b', hvFreeCell h (orType t c.Offset) = some h' ∧ Frees t h h' b b' c := by
  obtain ⟨fl, hr⟩ := hin.rep
  obtain ⟨H, rfl⟩ := exists_of_mem hcm
  have hlt := hr.layout.offset_lt hcm
  have hbn := hr.layout.cell_bounds (H.bin_mem [c]) (c := c) (by simp [bin])
  dsimp only [bin] at hbn
  have hl := (hr.layout.cell_ok hcm).len_pos
  have hrd : h.readLong ⟨t, c.Offset⟩ = c.Size := (hr.layout.cell_ok hcm).header
  obtain ⟨hr1, u1⟩ := release_spec hr hc rfl
  have hn : h.readLong ⟨t, c.Offset⟩ < 0 := by rw [hrd]; exact hc
  unfold hvFreeCell
  rw [hr.layout.header hcm, do_some, if_pos hn]
  generalize h.writeLong ⟨t, c.Offset⟩ (-h.readLong ⟨t, c.Offset⟩) = h1 at hr1 u1 ⊢
  have hb : ((h1.Storage t).BlockList (hvGetCellBlock (orType t c.Offset))).BinAddress = some H.Offset := by
    rw [hvGetCellBlock, orType_mod t hlt,
      hr1.layout.block (H.bin_mem _) (a := c.Offset) (by dsimp only [bin]; omega) (by dsimp only [bin]; omega)]
    rfl
  dsimp only
  rw [hb, do_some]
  let c1 : Cell := ⟨c.Offset, -c.Size⟩
  have hfr1 : c1.Free := by simp only [Cell.Free, Cell.Allocated, c1] at hc ⊢; omega
  have hl1 : c1.len = c.len := Int.natAbs_neg _
  obtain ⟨hbs, hch, -, hch', -, -⟩ := (Coalesced.iff_fill (cons_ne_nil c [])).mp hin.coalesced
  obtain ⟨h2, H2, c2, hmr, hm⟩ := mergeNext_spec (c := c1) hr1 hfr1 hch'
  obtain ⟨fl2, hr2⟩ := hm.rep
  obtain ⟨zs, hH2, hs⟩ := hm.hole
  have hof : c2.Offset = c.Offset := hm.offset
  have hf : ∀ a, FreeAt (H.fill [c1]) a → FreeAt (H.fill [c]) a ∨ c.Has a := by
    rintro a ⟨x, hx, hxf, hxa⟩
    rcases mem_cells_fill.mp hx with hx | hx
    · rw [mem_singleton.mp hx] at hxa
      unfold Cell.Has at hxa ⊢
      rw [hl1] at hxa
      exact .inr hxa
    · exact .inl ⟨x, mem_cells_fill.mpr (.inr hx), hxf, hxa⟩
  have u2 := (u1.mono fun a ha => .inr ha).trans (hm.upd.mono hf)
  obtain ⟨h3, b3, hp, hin3, u3, ho⟩ := putBack_spec (H := H2) (c := c2)
    (hr2.ex_congr fun o => by rw [hm.offset]) (hok.of_upd u2) hm.free (by rw [hH2]; exact hbs)
    (by rw [hH2]; exact hch) (by rw [hH2]; exact hch'.suffix hs) hm.next
  refine ⟨h3, b3, ?_, hin3, u2.trans (u3.mono fun a ha => hf a (hm.freeAt a ha)), fun x hx => ?_⟩
  · have hOffset : H2.Offset = H.Offset := by rw [hH2]
    rw [hof, hOffset] at hp
    exact (congrArg (bind · _) hmr).trans hp
  rw [ho x hx, hm.others x hx, mem_cells_fill, mem_singleton]
  refine ⟨fun hrs => ⟨.inr hrs, fun heq => ?_⟩, fun hor => hor.1.resolve_left hor.2⟩
  have := hr.layout.rest_disjoint (mem_singleton.mpr rfl) (heq ▸ hrs)
  omega

end FreeNT.Cmlib
