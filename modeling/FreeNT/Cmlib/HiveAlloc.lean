import FreeNT.Cmlib.HiveGrow

/-!
# Allocating cells

The invariant of a storage is `StorageInv`: it holds bins that cells tile, with
no two free neighbours, and its lists hold every free cell once, in the class
of its size.

`allocateCell_spec`: `HvAllocateCell` keeps the invariant; a cell it returns
was part of a free cell or of a new bin, and the bytes outside of free cells are
as before.
-/

namespace FreeNT.Cmlib

open FreeNT.Rtl List Option Mem

/-- The storage holds the bins `bins`, and is as the allocator keeps it. -/
structure StorageInv (t : HStorageType) (d : Dual) (bins : List Bin) : Prop where
  rep : ∃ fl, Rep t d bins fl fun _ => False
  coalesced : Coalesced bins

variable {t : HStorageType} {d : Dual} {bins : List Bin}

lemma StorageInv.layout (h : StorageInv t d bins) : Layout d bins := by
  obtain ⟨fl, hr⟩ := h.rep
  exact hr.layout

/-! ## Splitting a cell -/

variable {fl : Nat → List Nat}

lemma Rep.ex_congr {ex ex' : Nat → Prop} (hr : Rep t d bins fl ex) (heq : ∀ o, ex o ↔ ex' o) :
    Rep t d bins fl ex' := by
  rwa [show ex' = ex from funext fun o => propext (heq o).symm]

lemma FreeAt.refill (H : Hole) (xs ys : List Cell)
    (hs : ∀ y ∈ ys, y.Free → ∀ a, y.Has a → ∃ x ∈ xs, x.Free ∧
      x.Has a) {a : Nat} (h : FreeAt (H.fill ys) a) : FreeAt (H.fill xs) a := by
  obtain ⟨c, hc, hf, ha⟩ := h
  rcases Hole.mem_cells_fill.mp hc with hc | hc
  · obtain ⟨x, hx, hxf, hxa⟩ := hs c hc hf a ha
    exact ⟨x, Hole.mem_cells_fill.mpr (.inl hx), hxf, hxa⟩
  · exact ⟨c, Hole.mem_cells_fill.mpr (.inr hc), hf, ha⟩

variable {size : Nat}

lemma FreeAt.append {a : Nat} (h : FreeAt (bins ++ [newBin d size]) a) : FreeAt bins a ∨ 4096 * d.Length ≤ a := by
  obtain ⟨c, hc, hf, ha⟩ := h
  rw [cells_append] at hc
  rcases mem_append.mp hc with hc | hc
  · exact .inl ⟨c, hc, hf, ha⟩
  rw [mem_singleton.mp hc] at ha
  have := ha.1
  dsimp only at this
  exact .inr (by omega)

/-- The part of the cell `c` that is kept for `size` bytes, and the rest. -/
def splitCells (c : Cell) (size : Nat) : Cell × List Cell :=
  if size + 16 < c.len then (⟨c.Offset, size⟩, [⟨c.Offset + size, (c.len - size : Nat)⟩]) else (c, [])

/-- How many bytes an allocation of `size` bytes takes from the free cell `c`. -/
def takenLen (c : Cell) (size : Nat) : Nat := if size + 16 < c.len then size else c.len

variable {c : Cell}

lemma splitCells_spec (hf : c.Free) (hsz : 16 ≤ size) (hle : size ≤ c.len) :
    (splitCells c size).1.Offset = c.Offset ∧ (splitCells c size).1.Free ∧ size ≤ (splitCells c size).1.len ∧
      (splitCells c size).1.len = takenLen c size ∧ (∀ y ∈ (splitCells c size).2, y.Free) := by
  unfold splitCells takenLen
  split
  · refine ⟨rfl, ?_, Nat.le_refl _, rfl, fun y hy => ?_⟩
    · simp only [Cell.Free]; omega
    · rw [mem_singleton.mp hy]
      simp only [Cell.Free]; omega
  · exact ⟨rfl, hf, hle, rfl, by simp⟩

/-- The parts lie in the cell; what is split off has no free neighbour in it. -/
lemma splitCells_parts (hle : size ≤ c.len) :
    (∀ y ∈ (splitCells c size).1 :: (splitCells c size).2, ∀ a, y.Has a → c.Has a) ∧
      ∀ x : Cell, ¬ x.Free → (x :: (splitCells c size).2).IsChain NotBothFree := by
  unfold splitCells
  split
  swap
  · refine ⟨fun y hy a ha => ?_, fun x _ => isChain_singleton x⟩
    rwa [mem_singleton.mp hy] at ha
  refine ⟨fun y hy a ha => ?_, fun x hx => ?_⟩
  · unfold Cell.Has at ha ⊢
    rcases mem_cons.mp hy with rfl | hy
    · simp only [Cell.len, Int.natAbs_natCast] at ha hle ⊢
      omega
    rw [mem_singleton.mp hy] at ha
    simp only [Cell.len, Int.natAbs_natCast] at ha hle ⊢
    omega
  · exact isChain_pair.mpr fun hf => hx hf.1

variable {h : HHive}

lemma splitCell_spec {H : Hole} (hr : Rep t (h.Storage t) (H.fill [c]) fl (· = c.Offset))
    (hd : HiveOk h) (hf : c.Free)
    (hsz : 16 ≤ size) (h16 : size % 16 = 0) (hle : size ≤ c.len) :
    ∃ h', splitCell h ⟨t, c.Offset⟩ (orType t c.Offset) size t = some h' ∧
      (∃ fl', Rep t (h'.Storage t) (H.fill ((splitCells c size).1 :: (splitCells c size).2)) fl' (· = c.Offset)) ∧
      Upd t (FreeAt (H.fill [c])) h h' := by
  have hc := H.mem_head c []
  have hck := hr.layout.cell_ok hc
  have hrn := hr.layout.range
  have he := hr.layout.cell_end hc
  have hal := hr.layout.cell_aligned hc
  have hl16 := hck.aligned
  have hrd : h.readUlong ⟨t, c.Offset⟩ = c.len := hck.readUlong hf
  unfold splitCell splitCells
  rw [hrd, Nat.mod_eq_of_lt (by omega)]
  split
  swap
  · exact ⟨h, rfl, ⟨fl, hr⟩, Upd.refl ..⟩
  -- the headers of the two parts
  let m1 := (h.Storage t).Mem.writeUlong (c.Offset + size) (c.len + 2 ^ 32 - size)
  let m2 := m1.writeUlong c.Offset size
  let h₂ := (h.writeUlong ⟨t, c.Offset + size⟩ (c.len + 2 ^ 32 - size)).writeUlong ⟨t, c.Offset⟩ size
  have hst : h₂.Storage t = { h.Storage t with Mem := m2 } := by
    simp [h₂, HHive.writeUlong, HHive.modifyMem_same, m2, m1]
  have hrd2 : m2.readUlong (c.Offset + size) = c.len - size := by
    rw [readUlong_sep _ _ (by omega), readUlong_self]
    omega
  have hrd1 : m2.readUlong c.Offset = size := by
    rw [readUlong_self]
    omega
  let c1 : Cell := ⟨c.Offset, size⟩
  let c2 : Cell := ⟨c.Offset + size, (c.len - size : Nat)⟩
  have hl2 : c2.len = c.len - size := rfl
  have hr2 : Rep t (h₂.Storage t) (H.fill [c1, c2]) fl fun o => o = c.Offset ∨ o = c2.Offset := by
    rw [hst]
    refine hr.refill rfl rfl rfl (fun a ha => ?_) (fun i hi o ho => ?_) (fun p q ht => ?_) (fun y hy => ?_)
      (unlisted (by simp) (by simp [c1])) fun x hx => ?_
    · have := ha c (mem_singleton.mpr rfl)
      unfold Cell.Has at this
      exact (m1.writeUlong_of_ne size (by omega)).trans (writeUlong_of_ne _ _ (by omega))
    · exact (hr.links_header (by omega) _ _ hi ho).trans (hr.links_header (by omega) _ _ hi ho)
    · obtain ⟨h1, h2⟩ := ht
      refine ⟨h1, by dsimp only [c2, c1]; rw [Cell.len]; dsimp only; omega, ?_⟩
      change p + c.len = q at h2
      change p + c1.len + c2.len = q
      rw [hl2, show c1.len = size from rfl]
      omega
    · rcases mem_cons.mp hy with rfl | hy
      · exact .of_readUlong hrd1 (by omega) (by omega) h16
      · rw [mem_singleton.mp hy]
        exact .of_readUlong hrd2 (by omega) (by omega) (by omega)
    have hds := hr.layout.rest_disjoint (mem_singleton.mpr rfl) hx
    refine ⟨.inl, fun hor => hor.resolve_right fun heq => ?_⟩
    dsimp only [c2] at heq
    omega
  have hc2 : c2 ∈ cells (H.fill [c1, c2]) := Hole.mem_cells_fill.mpr (.inl (by simp))
  have hf2 : c2.Free := by simp only [Cell.Free, c2]; omega
  have hid : (orType t c.Offset + size) % 2 ^ 32 = orType t c2.Offset := orType_add t (by omega)
  have hin : ∀ a x, c.Offset ≤ a → a + 4 ≤ c.Offset + c.len → a ≤ x ∧ x < a + 4 → FreeAt (H.fill [c]) x :=
    fun a x h1 h2 hx => ⟨c, hc, hf, by unfold Cell.Has; omega⟩
  have u2 : Upd t (FreeAt (H.fill [c])) h h₂ :=
    ((Upd.writeUlong h t _ _).mono fun x => hin _ x (by omega) (by omega)).trans
      ((Upd.writeUlong _ t _ _).mono fun x => hin _ x (by omega) (by omega))
  obtain ⟨h3, had, ⟨fl3, hr3⟩, u3⟩ := hvpAddFree_spec hr2 hc2 hf2 (.inr rfl)
  have u3' := u3.mono (Q := FreeAt (H.fill [c])) fun a => FreeAt.refill _ _ _ fun y hy _ a ha => by
    refine ⟨c, mem_singleton.mpr rfl, hf, ?_⟩
    unfold Cell.Has at ha ⊢
    rcases mem_cons.mp hy with rfl | hy
    · rw [show c1.len = size from rfl, show c1.Offset = c.Offset from rfl] at ha
      omega
    · rw [mem_singleton.mp hy, hl2, show c2.Offset = c.Offset + size from rfl] at ha
      omega
  obtain ⟨h4, hm, hst4, u4, -⟩ := markIfStable_spec hr3.layout (hd.of_upd (u2.trans u3')) hc2 (FreeAt (H.fill [c]))
  refine ⟨h4, ?_, ⟨fl3, ?_⟩, (u2.trans u3').trans u4⟩
  · rw [hid]
    exact (congrArg (· >>= fun h => markIfStable h t (orType t c2.Offset)) had).trans hm
  rw [hst4]
  refine hr3.ex_congr fun o => ⟨fun ho => ho.1.resolve_right ho.2, fun ho => ⟨.inl ho, fun ho' => ?_⟩⟩
  dsimp only [c2] at ho'
  omega

/-! ## Taking a cell -/

/-- There is a free cell of `size` bytes, or room for a bin with one. -/
def Room (d : Dual) (bins : List Bin) (size : Nat) : Prop :=
  (∃ c ∈ cells bins, c.Free ∧ size ≤ c.len) ∨ 4096 * d.Length + roundUp (size + 32) 4096 < 2 ^ 31

/-- The allocation of a larger dirty vector succeeds, when it is made. -/
def BitmapOk (t : HStorageType) (alloc : BinAlloc) : Prop :=
  t = .stable → alloc.Bin = true → alloc.BlockList = true → alloc.Bitmap = true

lemma takeCell_spec {a : BinAlloc}
    (hin : StorageInv t (h.Storage t) bins) (hok : HiveOk h) (hsz : 16 ≤ size) (h16 : size % 16 = 0)
    (hrm : Room (h.Storage t) bins size) (hbt : BitmapOk t a) :
    takeCell h size t a = some (HCELL_NIL, h) ∨
      ∃ (h' : HHive) (H : Hole) (c : Cell) (fl : Nat → List Nat),
        takeCell h size t a = some (orType t c.Offset, h') ∧
        Rep t (h'.Storage t) (H.fill [c]) fl (· = c.Offset) ∧ Coalesced (H.fill [c]) ∧ HiveOk h' ∧
        Ext t (FreeAt bins) h h' ∧ c.Free ∧ size ≤ c.len ∧
        (H.fill [c] = bins ∨ H.fill [c] = bins ++ [newBin (h.Storage t) size]) := by
  obtain ⟨fl, hr⟩ := hin.rep
  unfold takeCell
  rcases hvpFindFree_spec hr hsz with ⟨hf, hs⟩ | ⟨c, hc, hfr, -, hle, h', hf, ⟨fl', hr'⟩, u⟩
  swap
  · right
    obtain ⟨H, rfl⟩ := Hole.exists_of_mem hc
    refine ⟨h', H, c, fl', ?_, hr'.ex_congr fun o => ⟨fun ho => ho.resolve_left id, .inr⟩, hin.coalesced,
      hok.of_upd u, Ext.of_upd u, hfr, hle, .inl rfl⟩
    rw [hf, do_some]
    dsimp only
    rw [if_neg (hr.layout.cell_ne_nil hc t)]
    rfl
  -- no free cell is large enough: a new bin
  have hrn : 4096 * (h.Storage t).Length + roundUp (size + 32) 4096 < 2 ^ 31 := by
    refine hrm.resolve_left ?_
    rintro ⟨c, hc, hfr, hle⟩
    have := hs c hc hfr id trivial
    omega
  rw [hf, do_some]
  dsimp only
  rcases hvpAddBin_spec hr hok hrn h16 hsz hbt with ha | ⟨h', ha, hst, hok', e⟩
  · exact .inl (by rw [ha]; rfl)
  right
  have hr' := hr.appendBin hrn h16 hsz
  rw [← hst] at hr'
  let c : Cell := ⟨4096 * (h.Storage t).Length + 32, (roundUp (size + 32) 4096 - 32 : Nat)⟩
  obtain ⟨hm, hle⟩ := roundUp_bin size
  have hrd : h'.readUlong (Ptr.add ⟨t, 4096 * (h.Storage t).Length⟩ 4) = 4096 * (h.Storage t).Length :=
    (hr'.layout.binOk (newBin (h.Storage t) size) (by simp)).fileOffset
  refine ⟨h', ⟨bins, 4096 * (h.Storage t).Length, roundUp (size + 32) 4096, [], [], []⟩, c, fl, ?_,
    hr'.ex_congr fun o => ⟨fun ho => ho.resolve_left id, .inr⟩, fun b hb => ?_, hok',
    e.mono fun _ _ => False.elim, ?_, ?_, .inr rfl⟩
  · rw [ha, do_some]
    dsimp only
    rw [hrd, Nat.mod_eq_of_lt (by omega)]
    rfl
  · rcases mem_append.mp hb with hb | hb
    · exact hin.coalesced b hb
    · rw [mem_singleton.mp hb]
      exact isChain_singleton _
  · simp only [Cell.Free, c]; omega
  · simp only [Cell.len, c]; omega

/-! ## Allocating -/

lemma cellSize_spec (hsz : roundUp (size + 4) 16 < 2 ^ 32) :
    cellSize size % 16 = 0 ∧ size + 4 ≤ cellSize size ∧ 16 ≤ cellSize size := by
  have h1 : roundUp (size + 4) 16 % 16 = 0 := Nat.mul_mod_left ..
  have h2 := le_roundUp (size + 4) (b := 16) (by decide)
  rw [cellSize, Nat.mod_eq_of_lt hsz]
  omega

/-- The last steps of `HvAllocateCell`: the free cell `c`, on no list, becomes an
allocated cell, and its first `size` bytes are cleared. -/
lemma claim_spec {H : Hole}
    (hr : Rep t (h.Storage t) (H.fill [c]) fl (· = c.Offset)) (hf : c.Free) (hsz : 4 ≤ size) (hle : size ≤ c.len)
    {h' : HHive} (hh' : h' = (h.writeLong ⟨t, c.Offset⟩ (-h.readLong ⟨t, c.Offset⟩)).modifyMem t
      (·.fill (c.Offset + 4) (size - 4) 0)) :
    (∃ fl', Rep t (h'.Storage t) (H.fill [⟨c.Offset, -c.Size⟩]) fl' fun _ => False) ∧ Upd t c.Has h h' ∧
      ∀ a, c.Offset + 4 ≤ a → a < c.Offset + size → (h'.Storage t).Mem a = 0 := by
  have hc := H.mem_head c []
  have hck := hr.layout.cell_ok hc
  have hrn := hr.layout.range
  have he := hr.layout.cell_end hc
  have hl := hf.toNat
  have hrd : h.readLong ⟨t, c.Offset⟩ = c.Size := hck.header
  rw [hrd] at hh'
  let m := (h.Storage t).Mem.writeLong c.Offset (-c.Size)
  have hst : h'.Storage t = { h.Storage t with Mem := m.fill (c.Offset + 4) (size - 4) 0 } := by
    rw [hh', HHive.modifyMem_same, HHive.writeLong, HHive.modifyMem_same]
  refine ⟨⟨fl, ?_⟩, ?_, fun a h1 h2 => ?_⟩
  · rw [hst]
    refine hr.flip (fun a ha => ?_) ?_ (fun _ => rfl) (absurd hf) fun x hx =>
      iff_of_false (hr.rest_ne mem_cons_self hx) id
    · unfold Cell.Has at ha
      exact (if_neg (by omega)).trans (writeUlong_of_ne _ _ (by omega))
    · rw [readLong_congr (fill_sep m 0 (by omega)), readLong_writeLong_self _ _ (by omega) (by omega)]
  · rw [hh']
    refine Upd.trans ((Upd.writeLong h t _ _).mono fun a ha => ?_) (Upd.modifyMem _ _ _ fun a ha => if_neg ?_)
    · unfold Cell.Has; omega
    · unfold Cell.Has at ha; omega
  · rw [hst]
    exact if_pos (by omega)

/-- The cells after an allocation of `c`. -/
structure Allocates (t : HStorageType) (h h' : HHive) (bins bins' : List Bin) (c : Cell) (size : Nat) : Prop where
  inv : StorageInv t (h'.Storage t) bins'
  ok : HiveOk h'
  ext : Ext t (FreeAt bins) h h'
  mem : c ∈ cells bins'
  alloc : c.Allocated
  sizeLe : size ≤ c.len
  zero : ∀ a, c.Offset + 4 ≤ a → a < c.Offset + size → (h'.Storage t).Mem a = 0
  /-- The cell was part of a free cell or of a new bin. -/
  fresh : ∀ a, c.Has a → FreeAt bins a ∨ 4096 * (h.Storage t).Length ≤ a
  /-- No other cell was allocated or freed. -/
  others : ∀ x, x.Allocated → (x ∈ cells bins' ↔ x ∈ cells bins ∨ x = c)
  /-- The cell is the start of a free cell, or in a new bin. -/
  taken : (∃ f ∈ cells bins, f.Free ∧ size ≤ f.len ∧ c.Offset = f.Offset ∧ c.len = takenLen f size) ∨
    4096 * (h.Storage t).Length ≤ c.Offset
  freeAt : ∀ a, FreeAt bins' a → FreeAt bins a ∨ 4096 * (h.Storage t).Length ≤ a
  /-- The block of the header is dirty, unless it starts with the header. -/
  dirty : t = .stable → c.Offset % 4096 ≠ 0 → h'.DirtyVector.testBit (c.Offset / 4096) = true

lemma allocateCell_spec {al : BinAlloc}
    (hin : StorageInv t (h.Storage t) bins) (hok : HiveOk h) (hsz : roundUp (size + 4) 16 < 2 ^ 32)
    (hrm : Room (h.Storage t) bins (cellSize size)) (hbt : BitmapOk t al) :
    hvAllocateCell h size t al = some (HCELL_NIL, h) ∨
      ∃ (h' : HHive) (bins' : List Bin) (c : Cell), hvAllocateCell h size t al = some (orType t c.Offset, h') ∧
        Allocates t h h' bins bins' c (cellSize size) := by
  obtain ⟨h16, -, hps⟩ := cellSize_spec hsz
  unfold hvAllocateCell
  dsimp only
  generalize cellSize size = size at *
  rcases takeCell_spec hin hok hps h16 hrm hbt with
    htk | ⟨h1, H, c, fl, htk, hr1, hco, hok1, e1, hfr, hle, hb⟩
  · left
    rw [htk, do_some]
    rfl
  right
  have hc := H.mem_head c []
  obtain ⟨ho, hfr1, hle1, hta, hfr2⟩ := splitCells_spec hfr hps hle
  obtain ⟨h2, hs, ⟨fl2, hr2⟩, u2⟩ := splitCell_spec hr1 hok1 hfr hps h16 hle
  have hco2 := hco.around hfr
  have hc1 : (splitCells c size).1 ∈ cells (H.fill ((splitCells c size).1 :: (splitCells c size).2)) :=
    Hole.mem_cells_fill.mpr (.inl mem_cons_self)
  obtain ⟨h3, hm, hst3, u3, hd⟩ := markIfStable_spec hr2.layout (hok1.of_upd u2) hc1 (FreeAt (H.fill [c]))
  have hp := splitCells_parts hle
  generalize (splitCells c size).1 = c1, (splitCells c size).2 = ys at *
  -- the cell taken, with what was split off as its neighbour
  let H' : Hole := { H with cs' := ys ++ H.cs' }
  have hr3 : Rep t (h3.Storage t) (H'.fill [c1]) fl2 (· = c1.Offset) := by rw [hst3, ho]; exact hr2
  obtain ⟨⟨fl4, hr4⟩, u4, hz⟩ := claim_spec hr3 hfr1 (by omega) hle1 rfl
  have hh : ∀ a, c1.Has a → FreeAt (H.fill [c]) a := fun a ha => ⟨c, hc, hfr, hp.1 c1 mem_cons_self a ha⟩
  have hft : ∀ a, FreeAt (H.fill [c]) a → FreeAt bins a ∨ 4096 * (h.Storage t).Length ≤ a := fun a ha => by
    rcases hb with heq | heq
    · exact .inl (heq ▸ ha)
    · exact FreeAt.append (heq ▸ ha)
  have u := (u2.trans u3).trans (u4.mono hh)
  have hn : ¬ (⟨c1.Offset, -c1.Size⟩ : Cell).Free := by
    simp only [Cell.Free] at hfr1 ⊢
    omega
  have hl : (⟨c1.Offset, -c1.Size⟩ : Cell).len = c1.len := Int.natAbs_neg _
  refine ⟨_, H'.fill [⟨c1.Offset, -c1.Size⟩], ⟨c1.Offset, -c1.Size⟩, ?_, ⟨⟨fl4, hr4⟩, ?_⟩, hok1.of_upd u,
    e1.trans (Ext.of_upd u) fun a ha hf => (hft a hf).resolve_right (by omega),
    Hole.mem_cells_fill.mpr (.inl (mem_singleton.mpr rfl)), ?_, by rwa [hl], hz, fun a ha => ?_,
    fun x hx => ?_, ?_, fun a ha =>
      hft a (FreeAt.refill H [c] (⟨c1.Offset, -c1.Size⟩ :: ys) (fun y hy hyf a hya => ?_) ha),
    fun ht hne => u4.dirty _ (hd ht hne)⟩
  · rw [htk, do_some]
    rw [if_neg (hr1.layout.cell_ne_nil hc t), hr1.layout.header hc, do_some, hs, do_some, ← ho, hm]
    rfl
  · show Coalesced (H.fill (⟨c1.Offset, -c1.Size⟩ :: ys))
    refine hco.refill (cons_ne_nil _ _) (cons_ne_nil _ _) (hp.2 _ hn) (fun y hy hyf => ?_) fun _ _ _ => hco2.2
    cases hy
    exact absurd hyf hn
  · simp only [Cell.Free, Cell.Allocated] at hfr1 ⊢
    omega
  · refine hft a (hh a ?_)
    unfold Cell.Has at ha ⊢
    rwa [hl] at ha
  · have hnw : x ∈ cells bins ↔ x ∈ cells (H.fill [c]) := by
      rcases hb with heq | heq
      · rw [heq]
      rw [heq, cells_append, mem_append]
      refine ⟨.inl, fun hor => hor.resolve_right fun hme => hx.not_free ?_⟩
      rw [mem_singleton.mp hme]
      have := (roundUp_bin size).2
      simp only [Cell.Free]
      omega
    have hxc : x ≠ c := fun heq => hx.not_free (heq ▸ hfr)
    have hxy : x ∉ ys := fun hme => hx.not_free (hfr2 x hme)
    rw [hnw]
    change x ∈ cells (H.fill (⟨c1.Offset, -c1.Size⟩ :: ys)) ↔ _
    rw [Hole.mem_cells_fill, Hole.mem_cells_fill, mem_cons, mem_singleton]
    constructor
    · rintro ((hx | hx) | hx)
      exacts [.inr hx, absurd hx hxy, .inl (.inr hx)]
    · rintro ((hx | hx) | hx)
      exacts [absurd hx hxc, .inr hx, .inl (.inl hx)]
  · have hcl : c ∈ cells bins ∨ 4096 * (h.Storage t).Length ≤ c.Offset := by
      rcases hb with heq | heq
      · exact .inl (heq ▸ hc)
      rw [heq, cells_append, mem_append] at hc
      refine hc.imp_right fun hme => ?_
      rw [mem_singleton.mp hme]
      exact Nat.le_add_right _ _
    rcases hcl with hcl | hcl
    · exact .inl ⟨c, hcl, hfr, hle, ho, hl.trans hta⟩
    · exact .inr (by dsimp only; omega)
  refine ⟨c, mem_singleton.mpr rfl, hfr, hp.1 y ?_ a hya⟩
  rcases mem_cons.mp hy with rfl | hy
  · exact absurd hyf hn
  · exact mem_cons_of_mem _ hy

end FreeNT.Cmlib
