import FreeNT.Cmlib.HiveLayout
import Mathlib.Data.List.Perm.Subperm

/-!
# The free lists of a storage

What the list operations of `hivecell.c` do to a storage that holds the bins
`bins` and the lists `fl` (`Rep`), with the free cells in `ex` on no list:

* `hvpAddFree_spec`: a free cell of `ex` goes on the list of its size;
* `hvpRemoveFree_spec`: a listed free cell leaves its list, and the walk to it
  never comes to the end of the list;
* `hvpFindFree_spec`: a listed cell of at least the size asked for leaves its
  list, or no listed cell has that size.

`Upd t P h h'` is the frame of such an operation: it changes the lists of `t` and
the memory of `t` at addresses in `P`, and nothing else.
-/

namespace FreeNT.Cmlib

open FreeNT.Rtl List Option HHive

structure Rep (t : HStorageType) (d : Dual) (bins : List Bin) (fl : Nat → List Nat) (ex : Nat → Prop) : Prop where
  layout : Layout d bins
  chained : Chained t d fl
  listed : Listed bins fl ex

structure Upd (t : HStorageType) (P : Nat → Prop) (h h' : HHive) : Prop where
  other : ∀ t' ≠ t, h'.Storage t' = h.Storage t'
  length : (h'.Storage t).Length = (h.Storage t).Length
  blocks : (h'.Storage t).BlockList = (h.Storage t).BlockList
  mem : ∀ a, ¬ P a → (h'.Storage t).Mem a = (h.Storage t).Mem a
  baseBlock : h'.BaseBlock = h.BaseBlock
  version : h'.Version = h.Version
  dirtySize : h'.DirtyVector.SizeOfBitMap = h.DirtyVector.SizeOfBitMap
  dirty : ∀ i, h.DirtyVector.testBit i = true → h'.DirtyVector.testBit i = true
  dirtyNew : ∀ i, h'.DirtyVector.testBit i = true → h.DirtyVector.testBit i = true ∨ i < (h.Storage .stable).Length

namespace Upd

variable {t : HStorageType} {P Q : Nat → Prop} {h h' h'' : HHive}

lemma refl (t : HStorageType) (P : Nat → Prop) (h : HHive) : Upd t P h h :=
  ⟨fun _ _ => rfl, rfl, rfl, fun _ _ => rfl, rfl, rfl, rfl, fun _ => id, fun _ => .inl⟩

lemma lengths (u : Upd t P h h') (t' : HStorageType) : (h'.Storage t').Length = (h.Storage t').Length := by
  by_cases ht : t' = t
  · rw [ht]; exact u.length
  · rw [u.other t' ht]

lemma trans (u : Upd t P h h') (u' : Upd t P h' h'') : Upd t P h h'' := by
  refine ⟨fun t' ht => (u'.other t' ht).trans (u.other t' ht), u'.length.trans u.length,
    u'.blocks.trans u.blocks, fun a ha => (u'.mem a ha).trans (u.mem a ha), u'.baseBlock.trans u.baseBlock,
    u'.version.trans u.version, u'.dirtySize.trans u.dirtySize, fun i hi => u'.dirty i (u.dirty i hi),
    fun i hi => ?_⟩
  rcases u'.dirtyNew i hi with hi | hi
  · exact u.dirtyNew i hi
  · exact .inr (u.lengths .stable ▸ hi)

lemma mono (u : Upd t P h h') (hPQ : ∀ a, P a → Q a) : Upd t Q h h' :=
  { u with mem := fun a ha => u.mem a fun hp => ha (hPQ a hp) }

lemma of_storage {h' : HHive} (hd : h'.DirtyVector = h.DirtyVector) (hb : h'.BaseBlock = h.BaseBlock)
    (hv : h'.Version = h.Version) (ho : ∀ t' ≠ t, h'.Storage t' = h.Storage t')
    (hl : (h'.Storage t).Length = (h.Storage t).Length)
    (hbl : (h'.Storage t).BlockList = (h.Storage t).BlockList)
    (hm : ∀ a, ¬ P a → (h'.Storage t).Mem a = (h.Storage t).Mem a) : Upd t P h h' :=
  ⟨ho, hl, hbl, hm, hb, hv, by rw [hd], fun i hi => by rw [hd]; exact hi, fun i hi => .inl (by rw [← hd]; exact hi)⟩

lemma modifyMem (h : HHive) (t : HStorageType) (f : Mem → Mem)
    (hf : ∀ a, ¬ P a → f (h.Storage t).Mem a = (h.Storage t).Mem a) : Upd t P h (h.modifyMem t f) := by
  refine of_storage rfl rfl rfl (fun t' ht => h.modifyMem_ne f ht) ?_ ?_ fun a ha => ?_ <;> rw [modifyMem_same]
  exact hf a ha

lemma writeUlong (h : HHive) (t : HStorageType) (a v : Nat) : Upd t (fun x => a ≤ x ∧ x < a + 4)
    h (h.writeUlong ⟨t, a⟩ v) :=
  modifyMem h t _ fun _ hx => if_neg hx

lemma writeLong (h : HHive) (t : HStorageType) (a : Nat) (v : Int) :
    Upd t (fun x => a ≤ x ∧ x < a + 4) h (h.writeLong ⟨t, a⟩ v) :=
  modifyMem h t _ fun _ hx => if_neg hx

lemma writeDisplay (h : HHive) (t : HStorageType) (i c : Nat) : Upd t P h (h.writeSlot (.display t i) c) := by
  unfold writeSlot
  refine of_storage rfl rfl rfl (fun t' ht => h.modifyStorage_ne _ ht) ?_ ?_ fun a _ => ?_ <;>
    rw [modifyStorage_same]

end Upd

/-! ## Cell indexes -/

variable {o : Nat}

section

variable (t : HStorageType)

include t

lemma orType_cases (ho : o < 2 ^ 31) : t = .stable ∧ orType t o = o ∨ t = .volatile ∧ orType t o = o + 2 ^ 31 := by
  cases t
  · exact .inl ⟨rfl, rfl⟩
  · exact .inr ⟨rfl, by rw [orType, Nat.mod_eq_of_lt ho]⟩

lemma cellType_orType (ho : o < 2 ^ 31) : hvGetCellType (orType t o) = t := by
  rcases orType_cases t ho with ⟨rfl, h⟩ | ⟨rfl, h⟩ <;> rw [h]
  · exact if_pos (by omega)
  · exact if_neg (by omega)

lemma orType_mod (ho : o < 2 ^ 31) : orType t o % 2 ^ 31 = o := by
  rcases orType_cases t ho with ⟨-, h⟩ | ⟨-, h⟩ <;> omega

lemma orType_lt (ho : o < 2 ^ 31) : orType t o < 2 ^ 32 := by
  rcases orType_cases t ho with ⟨-, h⟩ | ⟨-, h⟩ <;> omega

lemma orType_add {n : Nat} (h : o + n < 2 ^ 31) : (orType t o + n) % 2 ^ 32 = orType t (o + n) := by
  cases t <;> simp only [orType] <;> omega

lemma orType_inj {o' : Nat} (ho : o < 2 ^ 31) (ho' : o' < 2 ^ 31) (h : orType t o = orType t o') : o = o' := by
  rw [← orType_mod t ho, h, orType_mod t ho']

lemma orType_ne_nil (ho : o < 2 ^ 31) (ha : o % 16 = 0) : orType t o ≠ HCELL_NIL := by
  intro h
  have := orType_mod t ho
  rw [h] at this
  unfold HCELL_NIL at this
  omega

end

variable {d : Dual} {c : Cell} {a : Nat}

namespace Layout

variable {h : HHive} {t : HStorageType} {bins : List Bin}

lemma offset_lt (hl : Layout d bins) (hc : c ∈ cells bins) : c.Offset < 2 ^ 31 := by
  have := hl.cell_end hc
  have := hl.range
  omega

lemma cell_ne_nil (hl : Layout d bins) (hc : c ∈ cells bins) (t : HStorageType) :
    orType t c.Offset ≠ HCELL_NIL := orType_ne_nil t (hl.offset_lt hc) (hl.cell_aligned hc)

lemma block (hl : Layout (h.Storage t) bins) {b : Bin} (hb : b ∈ bins) (ha : b.Offset ≤ a)
    (ha' : a < b.Offset + b.Size) :
    (h.Storage t).BlockList (a / 4096) = ⟨some (4096 * (a / 4096)), some b.Offset⟩ := by
  have h1 := hl.bin_aligned hb
  exact hl.blocks b hb _ (by omega) (by omega)

lemma header (hl : Layout (h.Storage t) bins) (hc : c ∈ cells bins) :
    hvpGetCellHeader h (orType t c.Offset) = some ⟨t, c.Offset⟩ := by
  have hlt := hl.offset_lt hc
  have he := hl.cell_end hc
  have hp := (hl.cell_ok hc).len_pos
  obtain ⟨b, hb, hcb⟩ := mem_cells.mp hc
  have hbn := hl.cell_bounds hb hcb
  have ho : hvGetCellOffset (orType t c.Offset) = c.Offset % 4096 := by
    have := orType_mod t hlt
    unfold hvGetCellOffset
    omega
  unfold hvpGetCellHeader
  rw [if_neg (hl.cell_ne_nil hc t), cellType_orType t hlt, hvGetCellBlock, orType_mod t hlt, ho,
    if_pos (by omega), hl.block hb (by omega) (by omega)]
  simp [map_some, Nat.div_add_mod]

lemma data (hl : Layout (h.Storage t) bins) (hc : c ∈ cells bins) :
    hvGetCell h (orType t c.Offset) = some ⟨t, c.Offset + 4⟩ := by
  rw [hvGetCell, hl.header hc]
  rfl

end Layout

/-! ## List indexes -/

lemma findFirstSet_eq_log2 : ∀ i < 128, findFirstSet.getD i 0 = Nat.log2 i := by decide

lemma freeListIndex_lt (size : Nat) : freeListIndex size < 24 := by
  unfold freeListIndex
  dsimp only
  have hl : ∀ i < 128, Nat.log2 i ≤ 6 := by decide
  split
  · split
    · omega
    have := hl (size / 8 - 1) (by omega)
    rw [findFirstSet_eq_log2 _ (by omega)]
    omega
  · omega

lemma freeListIndex_mono {b : Nat} (hab : a ≤ b) : freeListIndex a ≤ freeListIndex b := by
  have hlt := freeListIndex_lt a
  unfold freeListIndex at hlt ⊢
  dsimp only at hlt ⊢
  generalize hi : a / 8 - 1 = i at hlt ⊢
  generalize hj : b / 8 - 1 = j
  have hij : i ≤ j := by omega
  by_cases hj16 : 16 ≤ j
  swap
  · rw [if_neg hj16, if_neg (by omega)]
    exact hij
  rw [if_pos hj16]
  by_cases hj127 : 127 < j
  · rw [if_pos hj127]; omega
  rw [if_neg hj127, findFirstSet_eq_log2 j (by omega)]
  split
  · rw [if_neg (by omega), findFirstSet_eq_log2 i (by omega)]
    have : i.log2 ≤ j.log2 := (Nat.le_log2 (by omega)).mpr ((Nat.log2_self_le (by omega)).trans hij)
    omega
  · omega

lemma freeListIndex_of_le {size : Nat} (hs : 16 ≤ size) :
    hvpComputeFreeListIndex size = some (freeListIndex size) := if_pos (by omega)

/-! ## Links -/

/-- `a` is the address of a byte of a free cell. -/
def FreeAt (bins : List Bin) (a : Nat) : Prop := ∃ c ∈ cells bins, c.Free ∧ c.Has a

namespace Layout

variable {d : Dual} {bins : List Bin}

lemma withDisplay (hl : Layout d bins) (f : Nat → Nat) : Layout { d with FreeDisplay := f } bins :=
  ⟨⟨hl.tiles, hl.binOk, hl.blocks⟩, hl.range⟩

lemma writeLink (hl : Layout d bins) (hc : c ∈ cells bins) (v : Nat) :
    Layout { d with Mem := d.Mem.writeUlong (c.Offset + 4) v } bins := by
  have hca := hl.cell_aligned hc
  have hln := (hl.cell_ok hc).len_pos
  refine hl.congr rfl rfl (fun b hb => Mem.writeUlong_sep _ _ ?_) fun c' hc' => Mem.writeUlong_sep _ _ ?_
  · rcases hl.cell_bin_disjoint hc hb with hd | hd <;> omega
  · have := hl.cell_aligned hc'
    omega

lemma link_sep (hl : Layout d bins) {c' : Cell} (hc : c ∈ cells bins) (hc' : c' ∈ cells bins)
    (hne : c'.Offset ≠ c.Offset) (v : Nat) :
    d.Mem.Agree (d.Mem.writeUlong (c.Offset + 4) v) (c'.Offset + 4) 4 := by
  have h1 := hl.cell_aligned hc
  have h2 := hl.cell_aligned hc'
  exact Mem.writeUlong_sep _ _ (by omega)

end Layout

variable {i : Nat}

namespace Rep

variable {t : HStorageType} {d : Dual} {bins : List Bin} {fl : Nat → List Nat} {ex : Nat → Prop} {h : HHive}

lemma mem_list (hr : Rep t d bins fl ex) (hi : i < 24) (ho : o ∈ fl i) :
    ∃ c ∈ cells bins, c.Offset = o ∧ c.Free ∧ freeListIndex c.Size.toNat = i ∧ ¬ ex o :=
  (hr.listed.mem_iff i hi o).mp ho

lemma display_lt (hr : Rep t d bins fl ex) (hi : i < 24) : d.FreeDisplay i < 2 ^ 32 := by
  have hch := hr.chained i hi
  cases hfl : fl i with
  | nil =>
    rw [hfl] at hch
    rw [show d.FreeDisplay i = HCELL_NIL from hch]
    decide
  | cons o os =>
    rw [hfl] at hch
    obtain ⟨c, hc, rfl, -⟩ := hr.mem_list hi (o := o) (by simp [hfl])
    rw [hch.1]
    exact orType_lt t (hr.layout.offset_lt hc)

lemma list_length (hr : Rep t d bins fl ex) (hi : i < 24) : (fl i).length ≤ 256 * d.Length := by
  have hm : ∀ o ∈ fl i, o % 16 = 0 ∧ o / 16 < 256 * d.Length := fun o ho => by
    obtain ⟨c, hc, rfl, -⟩ := hr.mem_list hi ho
    have := hr.layout.cell_aligned hc
    have := hr.layout.cell_end hc
    have := (hr.layout.cell_ok hc).len_pos
    omega
  have hnd : ((fl i).map (· / 16)).Nodup := by
    refine (hr.listed.nodup i hi).map_on fun x hx y hy hxy => ?_
    have := hm x hx
    have := hm y hy
    omega
  have hs : (fl i).map (· / 16) ⊆ range (256 * d.Length) := fun x hx => by
    obtain ⟨o, ho, rfl⟩ := mem_map.mp hx
    exact mem_range.mpr (hm o ho).2
  have := (hnd.subperm hs).length_le
  rwa [length_map, length_range] at this

end Rep

/-! ## Adding a cell -/

variable {h : HHive} {t : HStorageType} {bins : List Bin} {fl : Nat → List Nat} {ex : Nat → Prop}

lemma hvpAddFree_spec (hr : Rep t (h.Storage t) bins fl ex) (hc : c ∈ cells bins) (hf : c.Free)
    (hex : ex c.Offset) :
    ∃ h', hvpAddFree h ⟨t, c.Offset⟩ (orType t c.Offset) = some h' ∧
      (∃ fl', Rep t (h'.Storage t) bins fl' fun o => ex o ∧ o ≠ c.Offset) ∧ Upd t (FreeAt bins) h h' := by
  have hl := (hr.layout.cell_ok hc).len_pos
  have hsz := hf.toNat
  have hi := freeListIndex_lt c.len
  have hrd : h.readUlong ⟨t, c.Offset⟩ = c.len := (hr.layout.cell_ok hc).readUlong hf
  unfold hvpAddFree
  rw [hrd, freeListIndex_of_le hl, cellType_orType t (hr.layout.offset_lt hc),
    show (⟨t, c.Offset⟩ : Ptr).add 4 = ⟨t, c.Offset + 4⟩ from rfl]
  refine ⟨_, rfl, ⟨fun i => if i = freeListIndex c.len then c.Offset :: fl i else fl i, ?_⟩, ?_⟩
  swap
  · refine Upd.trans ((Upd.writeUlong h t _ _).mono fun a ha => ⟨c, hc, hf, ?_⟩) (Upd.writeDisplay ..)
    constructor <;> omega
  have hs : ∀ v : Nat, (((h.writeUlong ⟨t, c.Offset + 4⟩ v).writeSlot
      (.display t (freeListIndex c.len)) (orType t c.Offset)).Storage t) =
      { h.Storage t with
        Mem := (h.Storage t).Mem.writeUlong (c.Offset + 4) v
        FreeDisplay := fun j => if j = freeListIndex c.len then orType t c.Offset
          else (h.Storage t).FreeDisplay j } := fun v => by
    simp [writeSlot, writeUlong, modifyStorage_same, modifyMem_same]
  rw [hs]
  -- a listed cell is not `c`
  have hot : ∀ i < 24, ∀ o ∈ fl i, (h.Storage t).Mem.Agree
      ((h.Storage t).Mem.writeUlong (c.Offset + 4) ((h.Storage t).FreeDisplay (freeListIndex c.len))) (o + 4) 4 :=
    fun i hi o ho => by
      obtain ⟨c', hc', rfl, -, -, hn⟩ := hr.mem_list hi ho
      exact hr.layout.link_sep hc hc' (fun heq => hn (heq ▸ hex)) _
  refine ⟨(hr.layout.writeLink hc _).withDisplay _, fun i hi => ?_, fun i hi => ?_, fun i hi o => ?_⟩
  · have hch := (hr.chained i hi).congr fun o ho => Mem.readUlong_congr (hot i hi o ho)
    dsimp only
    split
    · rename_i heq
      refine ⟨rfl, ?_⟩
      beta_reduce
      rw [Mem.readUlong_self, ← heq, Nat.mod_eq_of_lt (hr.display_lt hi)]
      rw [← heq] at hch
      exact hch
    · exact hch
  · split
    · refine nodup_cons.mpr ⟨fun hm => ?_, hr.listed.nodup i hi⟩
      obtain ⟨_, _, _, _, _, hn⟩ := hr.mem_list hi hm
      exact hn hex
    · exact hr.listed.nodup i hi
  have hif := hr.listed.mem_iff i hi o
  constructor
  · intro ho
    split at ho
    · rename_i heq
      rcases mem_cons.mp ho with rfl | ho
      · exact ⟨c, hc, rfl, hf, by rw [hsz, heq], fun hx => hx.2 rfl⟩
      · obtain ⟨c', hc', h1, h2, h3, h4⟩ := hif.mp ho
        exact ⟨c', hc', h1, h2, h3, fun hx => h4 hx.1⟩
    · obtain ⟨c', hc', h1, h2, h3, h4⟩ := hif.mp ho
      exact ⟨c', hc', h1, h2, h3, fun hx => h4 hx.1⟩
  rintro ⟨c', hc', h1, h2, h3, h4⟩
  by_cases heq : o = c.Offset
  · obtain rfl := hr.layout.cell_eq hc' hc (h1.trans heq)
    rw [← h3, hsz, if_pos rfl, heq]
    exact mem_cons_self
  have ho : o ∈ fl i := hif.mpr ⟨c', hc', h1, h2, h3, fun hx => h4 ⟨hx, heq⟩⟩
  split
  · exact mem_cons_of_mem _ ho
  · exact ho

/-! ## Removing a cell -/

/-- Where the link after the cells `os` of a list is kept; `slot` holds the
link to the first of them. -/
def lastSlot (t : HStorageType) (slot : Slot) : List Nat → Slot
  | [] => slot
  | o :: os => lastSlot t (.link ⟨t, o + 4⟩) os

lemma lastSlot_concat (t : HStorageType) (s : Slot) (os : List Nat) (p : Nat) :
    lastSlot t s (os ++ [p]) = .link ⟨t, p + 4⟩ := by
  induction os generalizing s with
  | nil => rfl
  | cons o os ih => exact ih _

variable {os os' : List Nat}

namespace Rep

variable {t : HStorageType} {bins : List Bin} {fl : Nat → List Nat} {ex : Nat → Prop} {h : HHive}

lemma listed_unlink (hr : Rep t d bins fl ex) (hi : i < 24) (hfl : fl i = os ++ o :: os') :
    Listed bins (fun j => if j = i then os ++ os' else fl j) fun x => ex x ∨ x = o := by
  have ho : o ∈ fl i := by simp [hfl]
  obtain ⟨c, hc, hco, -, hci, -⟩ := hr.mem_list hi ho
  have hnd := hr.listed.nodup i hi
  rw [hfl, nodup_middle, nodup_cons] at hnd
  refine ⟨fun j hj => ?_, fun j hj x => ?_⟩
  · split
    · exact hnd.2
    · exact hr.listed.nodup j hj
  have hif := hr.listed.mem_iff j hj x
  have hm : x ∈ (if j = i then os ++ os' else fl j) ↔ x ∈ fl j ∧ x ≠ o := by
    split
    · rename_i hji
      rw [hji, hfl]
      constructor
      · intro hx
        refine ⟨?_, fun hxo => hnd.1 (hxo ▸ hx)⟩
        simp only [mem_append, mem_cons] at hx ⊢
        tauto
      rintro ⟨hx, hne⟩
      simp only [mem_append, mem_cons] at hx ⊢
      tauto
    rename_i hji
    refine ⟨fun hx => ⟨hx, fun hxo => hji ?_⟩, And.left⟩
    obtain ⟨c', hc', hco', -, hcj, -⟩ := hif.mp hx
    obtain rfl := hr.layout.cell_eq hc' hc (by rw [hco', hxo, hco])
    exact hcj.symm.trans hci
  rw [hm, hif]
  constructor
  · rintro ⟨⟨c', hc', h1, h2, h3, h4⟩, hne⟩
    exact ⟨c', hc', h1, h2, h3, fun hx => hx.elim h4 hne⟩
  · rintro ⟨c', hc', h1, h2, h3, h4⟩
    exact ⟨⟨c', hc', h1, h2, h3, fun hx => h4 (.inl hx)⟩, fun hx => h4 (.inr hx)⟩

lemma unlink (hr : Rep t (h.Storage t) bins fl ex) (hi : i < 24) (hfl : fl i = os ++ o :: os') {h' : HHive}
    (hh' : h' = h.writeSlot (lastSlot t (.display t i) os) ((h.Storage t).Mem.readUlong (o + 4))) :
    (∃ fl', Rep t (h'.Storage t) bins fl' fun x => ex x ∨ x = o) ∧ Upd t (FreeAt bins) h h' := by
  subst hh'
  have hch := hr.chained i hi
  rw [hfl] at hch
  rcases eq_nil_or_concat' os with rfl | ⟨ps, p, rfl⟩
  · refine ⟨⟨_, ?_, fun j hj => ?_, hr.listed_unlink hi hfl⟩, Upd.writeDisplay ..⟩
    · simp only [lastSlot, writeSlot, modifyStorage_same]
      exact hr.layout.withDisplay _
    simp only [lastSlot, writeSlot, modifyStorage_same, nil_append]
    by_cases hji : j = i
    · rw [if_pos hji, if_pos hji]
      exact hch.2
    · rw [if_neg hji, if_neg hji]
      exact hr.chained j hj
  have hp : p ∈ fl i := by simp [hfl]
  obtain ⟨c, hc, rfl, hf, hci, -⟩ := hr.mem_list hi hp
  have hl := (hr.layout.cell_ok hc).len_pos
  have hnd := hr.listed.nodup i hi
  rw [hfl] at hnd
  simp only [append_assoc, singleton_append] at hch hnd
  rw [lastSlot_concat]
  have hs := modifyMem_same h t (·.writeUlong (c.Offset + 4) ((h.Storage t).Mem.readUlong (o + 4)))
  refine ⟨⟨_, ?_, fun j hj => ?_, hr.listed_unlink hi hfl⟩, ?_⟩
  · rw [writeSlot, writeUlong, hs]
    exact hr.layout.writeLink hc _
  · rw [writeSlot, writeUlong, hs]
    -- the links of all other cells are as before
    have ho : ∀ j < 24, ∀ x ∈ fl j, x ≠ c.Offset →
        ((h.Storage t).Mem.writeUlong (c.Offset + 4) ((h.Storage t).Mem.readUlong (o + 4))).readUlong (x + 4) =
          (h.Storage t).Mem.readUlong (x + 4) := fun j hj x hx hne => by
      obtain ⟨c', hc', rfl, -⟩ := hr.mem_list hj hx
      exact Mem.readUlong_congr (hr.layout.link_sep hc hc' hne _)
    split
    swap
    · rename_i hji
      refine (hr.chained j hj).congr fun x hx => ho j hj x hx fun hxp => hji ?_
      obtain ⟨c', hc', hco', -, hcj, -⟩ := hr.mem_list hj hx
      obtain rfl := hr.layout.cell_eq hc' hc (hco'.trans hxp)
      exact hcj.symm.trans hci
    rename_i hji
    subst hji
    rw [append_assoc]
    refine hch.unlink ?_ fun x hx => ho j hj x ?_ fun hxp => ?_
    · rw [Mem.readUlong_self, Nat.mod_eq_of_lt (Mem.readUlong_lt _ _)]
    · rw [hfl]
      simp only [mem_append, mem_cons] at hx ⊢
      tauto
    subst hxp
    rw [nodup_middle, nodup_cons] at hnd
    refine hnd.1 ?_
    simp only [mem_append, mem_cons] at hx ⊢
    tauto
  · refine (Upd.writeUlong h t _ _).mono fun a ha => ⟨c, hc, hf, ?_⟩
    constructor <;> omega

end Rep

lemma removeFreeLoop_spec {k : Nat} {s : Slot}
    (hc : ∀ x ∈ os ++ o :: os', x < 2 ^ 31 ∧ orType t x ≠ HCELL_NIL ∧ hvGetCell h (orType t x) = some ⟨t, x + 4⟩)
    (hch : Chain (orType t) (fun x => (h.Storage t).Mem.readUlong (x + 4)) HCELL_NIL (h.readSlot s)
      (os ++ o :: os')) (ho : o ∉ os) (hf : os.length < k) :
    removeFreeLoop h (orType t o) k s =
      some (h.writeSlot (lastSlot t s os) ((h.Storage t).Mem.readUlong (o + 4))) := by
  induction os generalizing k s with
  | nil =>
    cases k with
    | zero => cases hf
    | succ k =>
      obtain ⟨-, hn, hg⟩ := hc o (by simp)
      rw [removeFreeLoop, hch.1, if_neg hn, hg, do_some, if_pos rfl]
      rfl
  | cons p ps ih =>
    cases k with
    | zero => cases hf
    | succ k =>
      obtain ⟨hlt, hn, hg⟩ := hc p (by simp)
      have hl := (hc o (by simp)).1
      have hne : orType t p ≠ orType t o := fun heq =>
        ho (by rw [orType_inj t hlt hl heq]; exact mem_cons_self)
      rw [removeFreeLoop, hch.1, if_neg hn, hg, do_some, if_neg hne]
      exact ih (fun x hx => hc x (mem_cons_of_mem _ hx)) hch.2 (fun hm =>
        ho (mem_cons_of_mem _ hm)) (Nat.lt_of_succ_lt_succ hf)

lemma Rep.list_cells (hr : Rep t (h.Storage t) bins fl ex) (hi : i < 24) :
    ∀ x ∈ fl i, x < 2 ^ 31 ∧ orType t x ≠ HCELL_NIL ∧ hvGetCell h (orType t x) = some ⟨t, x + 4⟩ := fun x hx => by
  obtain ⟨c, hc, rfl, -⟩ := hr.mem_list hi hx
  exact ⟨hr.layout.offset_lt hc, hr.layout.cell_ne_nil hc t, hr.layout.data hc⟩

lemma hvpRemoveFree_spec (hr : Rep t (h.Storage t) bins fl ex) (hc : c ∈ cells bins) (hf : c.Free)
    (hex : ¬ ex c.Offset) :
    ∃ h', hvpRemoveFree h ⟨t, c.Offset⟩ (orType t c.Offset) = some h' ∧
      (∃ fl', Rep t (h'.Storage t) bins fl' fun o => ex o ∨ o = c.Offset) ∧ Upd t (FreeAt bins) h h' := by
  have hln := (hr.layout.cell_ok hc).len_pos
  have hsz := hf.toNat
  have hi := freeListIndex_lt c.len
  have hrd : h.readUlong ⟨t, c.Offset⟩ = c.len := (hr.layout.cell_ok hc).readUlong hf
  have hm : c.Offset ∈ fl (freeListIndex c.len) :=
    (hr.listed.mem_iff _ hi _).mpr ⟨c, hc, rfl, hf, by rw [hsz], hex⟩
  obtain ⟨os, os', hfl⟩ := append_of_mem hm
  have hnd := hr.listed.nodup _ hi
  rw [hfl, nodup_middle, nodup_cons, mem_append] at hnd
  have hl := hr.list_length hi
  rw [hfl, length_append, length_cons] at hl
  have hcl := hr.list_cells hi
  have hch := hr.chained _ hi
  rw [hfl] at hcl hch
  unfold hvpRemoveFree
  rw [hrd, freeListIndex_of_le hln, cellType_orType t (hr.layout.offset_lt hc)]
  refine ⟨_, removeFreeLoop_spec hcl hch (fun hx => hnd.1 (.inl hx)) (by unfold listFuel; omega), ?_⟩
  exact hr.unlink hi hfl rfl

/-! ## Finding a cell -/

lemma findFreeLoop_spec (size : Nat) {k : Nat} (s : Slot) {xs : List Nat}
    (hcl : ∀ x ∈ xs, x < 2 ^ 31 ∧ orType t x ≠ HCELL_NIL ∧ hvGetCell h (orType t x) = some ⟨t, x + 4⟩)
    (hc : Chain (orType t) (fun x => (h.Storage t).Mem.readUlong (x + 4)) HCELL_NIL (h.readSlot s) xs)
    (hf : xs.length < k) :
    findFreeLoop h size k s = some (HCELL_NIL, h) ∧ (∀ x ∈ xs, (h.Storage t).Mem.readUlong x < size) ∨
      ∃ os o os', xs = os ++ o :: os' ∧ size ≤ (h.Storage t).Mem.readUlong o ∧ findFreeLoop h size k s =
          some (orType t o, h.writeSlot (lastSlot t s os) ((h.Storage t).Mem.readUlong (o + 4))) := by
  induction xs generalizing k s with
  | nil =>
    cases k with
    | zero => cases hf
    | succ k =>
      refine .inl ⟨?_, fun x hx => by cases hx⟩
      rw [findFreeLoop, if_pos (show h.readSlot s = HCELL_NIL from hc)]
  | cons x xs ih =>
    cases k with
    | zero => cases hf
    | succ k =>
      obtain ⟨-, hn, hg⟩ := hcl x mem_cons_self
      rw [findFreeLoop, hc.1, if_neg hn, hg, do_some, Nat.add_sub_cancel]
      by_cases hsz : size ≤ (h.Storage t).Mem.readUlong x
      · rw [if_pos (show size ≤ h.readUlong ⟨t, x⟩ from hsz)]
        exact .inr ⟨[], x, xs, rfl, hsz, rfl⟩
      rw [if_neg (show ¬ size ≤ h.readUlong ⟨t, x⟩ from hsz)]
      rcases ih (.link ⟨t, x + 4⟩) (fun y hy => hcl y (mem_cons_of_mem _ hy)) hc.2
        (Nat.lt_of_succ_lt_succ hf) with
        ⟨hr, ha⟩ | ⟨os, o, os', rfl, ho, hr⟩
      · refine .inl ⟨hr, fun y hy => ?_⟩
        rcases mem_cons.mp hy with rfl | hy
        · exact Nat.lt_of_not_le hsz
        · exact ha y hy
      · exact .inr ⟨x :: os, o, os', rfl, ho, hr⟩

/-- What `HvpFindFree` gives: `HCELL_NIL` if no listed cell of the lists searched
has `size` bytes, or such a cell, which is then on no list. -/
def Found (t : HStorageType) (h : HHive) (bins : List Bin) (ex : Nat → Prop) (size : Nat) (P : Nat → Prop)
    (res : Option (Nat × HHive)) : Prop :=
  res = some (HCELL_NIL, h) ∧ (∀ c ∈ cells bins, c.Free → ¬ ex c.Offset → P (freeListIndex c.len) → c.len < size) ∨
    ∃ c ∈ cells bins, c.Free ∧ ¬ ex c.Offset ∧ size ≤ c.len ∧ ∃ h', res = some (orType t c.Offset, h') ∧
      (∃ fl', Rep t (h'.Storage t) bins fl' fun o => ex o ∨ o = c.Offset) ∧ Upd t (FreeAt bins) h h'

lemma findFreeLists_spec (hr : Rep t (h.Storage t) bins fl ex) (size : Nat) {n : Nat} (hn : n ≤ 24) :
    Found t h bins ex size (24 - n ≤ ·) (findFreeLists h size t n) := by
  induction n with
  | zero => exact .inl ⟨rfl, fun c _ _ _ hle => absurd (freeListIndex_lt c.len) (by omega)⟩
  | succ n ih =>
    have hi : 23 - n < 24 := by omega
    have hln := hr.list_length hi
    rw [findFreeLists]
    have hfu : (fl (23 - n)).length < listFuel h t := by unfold listFuel; omega
    rcases findFreeLoop_spec size (.display t (23 - n)) (hr.list_cells hi) (hr.chained _ hi) hfu with
      ⟨hrs, ha⟩ | ⟨os, o, os', hfl, ho, hrs⟩
    swap
    · obtain ⟨c, hc, rfl, hf, -, hex⟩ := hr.mem_list hi (o := o) (by simp [hfl])
      rw [(hr.layout.cell_ok hc).readUlong hf] at ho
      rw [hrs, do_some]
      dsimp only
      rw [if_neg (hr.layout.cell_ne_nil hc t)]
      exact .inr ⟨c, hc, hf, hex, ho, _, rfl, hr.unlink hi hfl rfl⟩
    rw [hrs, do_some]
    dsimp only
    rcases ih (by omega) with ⟨hnl, hs⟩ | hfn
    · refine .inl ⟨hnl, fun c hc hf hex hle => ?_⟩
      by_cases hl : freeListIndex c.len = 23 - n
      · have hsz := hf.toNat
        have hm : c.Offset ∈ fl (23 - n) := (hr.listed.mem_iff _ hi _).mpr ⟨c, hc, rfl, hf, by rw [hsz, hl], hex⟩
        have := ha _ hm
        rwa [(hr.layout.cell_ok hc).readUlong hf] at this
      · exact hs c hc hf hex (by omega)
    · exact .inr hfn

lemma hvpFindFree_spec (hr : Rep t (h.Storage t) bins fl ex) {size : Nat} (hsz : 16 ≤ size) :
    Found t h bins ex size (fun _ => True) (hvpFindFree h size t) := by
  unfold hvpFindFree
  rw [freeListIndex_of_le hsz, do_some]
  rcases findFreeLists_spec hr size (n := 24 - freeListIndex size) (by omega) with ⟨hrs, hs⟩ | hf
  · refine .inl ⟨hrs, fun c hc hfr hex _ => ?_⟩
    by_contra hle
    have hm := freeListIndex_mono (Nat.le_of_not_lt hle)
    exact hle (hs c hc hfr hex (by omega))
  · exact .inr hf

/-! ## Changing cells -/

/-- A free cell at `o`, of the class of list `i`. -/
def OnList (cs : List Cell) (ex : Nat → Prop) (i o : Nat) : Prop :=
  ∃ c ∈ cs, c.Offset = o ∧ c.Free ∧ freeListIndex c.Size.toNat = i ∧ ¬ ex o

/-- The lists stay right when a run of cells is replaced, if the listed cells
of the run stay where they are and in their class. -/
lemma Listed.refill {H : Hole} {xs ys : List Cell} {ex' : Nat → Prop} (hl : Listed (H.fill xs) fl ex)
    (hxy : ∀ i o, OnList xs ex i o ↔ OnList ys ex' i o)
    (hr : ∀ c, H.Rest c → (ex c.Offset ↔ ex' c.Offset)) : Listed (H.fill ys) fl ex' := by
  refine ⟨hl.nodup, fun i hi o => (hl.mem_iff i hi o).trans ?_⟩
  have hs : ∀ (zs : List Cell) (ez : Nat → Prop),
      (∃ c ∈ cells (H.fill zs), c.Offset = o ∧ c.Free ∧ freeListIndex c.Size.toNat = i ∧ ¬ ez o) ↔
        OnList zs ez i o ∨
        ∃ c, H.Rest c ∧ c.Offset = o ∧ c.Free ∧ freeListIndex c.Size.toNat = i ∧ ¬ ez o := by
    simp [OnList, Hole.mem_cells_fill, or_and_right, exists_or]
  rw [hs, hs, hxy]
  refine or_congr_right (exists_congr fun c => and_congr_right fun hc => and_congr_right fun hco => ?_)
  rw [← hco, hr c hc]

lemma Rep.refill {d' : Dual} {H : Hole} {xs ys : List Cell}
    {ex' : Nat → Prop} (hr : Rep t d (H.fill xs) fl ex) (hln : d'.Length = d.Length)
    (hb : d'.BlockList = d.BlockList) (hd : d'.FreeDisplay = d.FreeDisplay)
    (hm : ∀ a, (∀ x ∈ xs, ¬ x.Has a) → d'.Mem a = d.Mem a)
    (hl : ∀ i < 24, ∀ o ∈ fl i, d.Mem.Agree d'.Mem (o + 4) 4)
    (hys : ∀ p q, Tiles Cell.Offset Cell.len p q xs → Tiles Cell.Offset Cell.len p q ys)
    (hok : ∀ c ∈ ys, c.Ok d'.Mem)
    (hxy : ∀ i o, OnList xs ex i o ↔ OnList ys ex' i o)
    (hrs : ∀ c, H.Rest c → (ex c.Offset ↔ ex' c.Offset)) : Rep t d' (H.fill ys) fl ex' :=
  ⟨hr.layout.refill hln hb hm hys hok, hr.chained.congr (fun _ _ => by rw [hd]) hl, hr.listed.refill hxy hrs⟩

/-- Free cells that are on no list, before and after. -/
lemma unlisted {xs ys : List Cell} {ex' : Nat → Prop} (hxs : ∀ c ∈ xs, c.Free → ex c.Offset)
    (hys : ∀ c ∈ ys, c.Free → ex' c.Offset) (i o : Nat) :
    OnList xs ex i o ↔ OnList ys ex' i o := by
  refine iff_of_false ?_ ?_
  · rintro ⟨c, hc, rfl, hf, -, hex⟩
    exact hex (hxs c hc hf)
  · rintro ⟨c, hc, rfl, hf, -, hex⟩
    exact hex (hys c hc hf)

lemma Rep.links_header (hr : Rep t d bins fl ex) (ha : a % 16 = 0) (v : Nat) (m : Mem) (hi : i < 24)
    (ho : o ∈ fl i) : m.Agree (m.writeUlong a v) (o + 4) 4 := by
  obtain ⟨c, hc, rfl, -⟩ := hr.mem_list hi ho
  have := hr.layout.cell_aligned hc
  exact Mem.writeUlong_sep _ _ (by omega)

lemma Rep.rest_ne {H : Hole} {xs : List Cell} {x y : Cell} (hr : Rep t d (H.fill xs) fl ex)
    (hx : x ∈ xs) (hy : H.Rest y) :
    y.Offset ≠ x.Offset := by
  have := hr.layout.rest_disjoint hx hy
  have := (hr.layout.cell_ok (Hole.mem_cells_fill.mpr (.inl hx))).len_pos
  have := (hr.layout.cell_ok (Hole.mem_cells_fill.mpr (.inr hy))).len_pos
  omega

/-- The sign of the size of a cell that is on no list may change, with the bytes after its header. -/
lemma Rep.flip {H : Hole} {ex' : Nat → Prop} {m : Mem} (hr : Rep t d (H.fill [c]) fl ex)
    (hm : ∀ a, ¬ c.Has a → m a = d.Mem a) (hh : m.readLong c.Offset = -c.Size)
    (hex : c.Free → ex c.Offset) (hex' : ¬ c.Free → ex' c.Offset)
    (hrs : ∀ x, H.Rest x → (ex x.Offset ↔ ex' x.Offset)) :
    Rep t { d with Mem := m } (H.fill [⟨c.Offset, -c.Size⟩]) fl ex' := by
  have hc := H.mem_head c []
  have hck := hr.layout.cell_ok hc
  have hl : (⟨c.Offset, -c.Size⟩ : Cell).len = c.len := Int.natAbs_neg _
  refine hr.refill rfl rfl rfl (fun a ha => hm a (ha c mem_cons_self)) (fun i hi o ho a h1 h2 => hm a ?_)
    (fun p q ht => ⟨ht.1, by rw [hl]; exact ht.2⟩) (fun y hy =>
      ?_) (unlisted (by simpa using hex) fun y hy hf => ?_) hrs
  · -- a listed cell is apart from `c`
    obtain ⟨x, hx, rfl, hxf, -, hne⟩ := hr.mem_list hi ho
    have hxl := (hr.layout.cell_ok hx).len_pos
    unfold Cell.Has
    rcases hr.layout.cell_disjoint hx hc with rfl | hd | hd
    · exact absurd (hex hxf) hne
    · omega
    · omega
  · rw [mem_singleton.mp hy]
    exact ⟨hh, Int.neg_ne_zero.mpr hck.ne_zero, hl ▸ hck.aligned⟩
  rw [mem_singleton.mp hy] at hf ⊢
  refine hex' ?_
  simp only [Cell.Free] at hf ⊢
  omega

end FreeNT.Cmlib
