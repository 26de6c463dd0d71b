import FreeNT.Lib.Run
import FreeNT.Cmlib.HiveInit
import FreeNT.Cmlib.HiveFree

/-!
# Runs of the cell allocator

The clients of a hive allocate, reallocate and free cells (`HiveOp`). A call is
as its contract wants it (`CallOk`) if the cell it names is allocated and the
size it asks for can be rounded; it is in range (`InRange`) if a free cell is
large enough or a new bin leaves the storage below `2 ^ 31` bytes.

`hiveStep_spec`: such a call returns and keeps the invariant of the hive. From
it, for every run from a new hive: the invariant of the allocator
(`allocator_invariant`), and that cells are isolated (`allocator_isolation`).
Without the range the first allocation can break both
(`allocator_invariant_fails`, `allocator_isolation_fails`).
-/

namespace FreeNT.Cmlib

open FreeNT.Rtl List Option

inductive HiveOp where
  | allocate (size : Nat) (t : HStorageType) (alloc : BinAlloc)
  | reallocate (cell size : Nat) (alloc : BinAlloc)
  | free (cell : Nat)

def hiveStep (h : HHive) : HiveOp → Option HHive
  | .allocate size t alloc => (hvAllocateCell h size t alloc).map Prod.snd
  | .reallocate cell size alloc => (hvReallocateCell h cell size alloc).map Prod.snd
  | .free cell => hvFreeCell h cell

/-- `c` is a cell of the storage `t`. -/
def IsCell (h : HHive) (t : HStorageType) (c : Cell) : Prop := ∃ bins, Holds (h.Storage t) bins ∧ c ∈ cells bins

/-- `cell` is the index of the allocated cell `c` of `t`. -/
structure AllocatedAt (h : HHive) (cell : Nat) (t : HStorageType) (c : Cell) : Prop where
  isCell : IsCell h t c
  allocated : c.Allocated
  index : cell = orType t c.Offset

/-- The contract of the calls. -/
def CallOk (h : HHive) : HiveOp → Prop
  | .allocate size _ _ => roundUp (size + 4) 16 < 2 ^ 32
  | .reallocate cell size _ => (∃ t c, AllocatedAt h cell t c) ∧ roundUp (size + 4) 16 < 2 ^ 32
  | .free cell => ∃ t c, AllocatedAt h cell t c

/-- A cell for `size` bytes can be had from `t` below `2 ^ 31`. -/
def Fits (h : HHive) (t : HStorageType) (size : Nat) (alloc : BinAlloc) : Prop :=
  (∀ bins, Holds (h.Storage t) bins → Room (h.Storage t) bins (cellSize size)) ∧ BitmapOk t alloc

def InRange (h : HHive) : HiveOp → Prop
  | .allocate size t alloc => Fits h t size alloc
  | .reallocate cell size alloc => ∀ t c, AllocatedAt h cell t c → c.len - 4 < size → Fits h t size alloc
  | .free _ => True

/-- The invariant of the hive. -/
structure HiveInv (h : HHive) : Prop where
  ok : HiveOk h
  storage : ∀ t, ∃ bins, StorageInv t (h.Storage t) bins

variable {h : HHive} {t : HStorageType} {bins : List Bin} {c : Cell}

lemma HiveInv.isCell (hs : StorageInv t (h.Storage t) bins) : IsCell h t c ↔ c ∈ cells bins := by
  constructor
  · rintro ⟨bins', hh, hc⟩
    rwa [hs.layout.toHolds.unique hh]
  · exact fun hc => ⟨bins, hs.layout.toHolds, hc⟩

/-! ## Writing data -/

/-- `a` is the address of a data byte of an allocated cell. -/
def DataAt (bins : List Bin) (a : Nat) : Prop :=
  ∃ c ∈ cells bins, c.Allocated ∧ c.Offset + 4 ≤ a ∧ a < c.Offset + c.len

variable {d : Dual}

lemma StorageInv.writeData (h : StorageInv t d bins) {m : Mem}
    (hm : ∀ a, ¬ DataAt bins a → m a = d.Mem a) : StorageInv t { d with Mem := m } bins := by
  obtain ⟨fl, hr⟩ := h.rep
  have hl := hr.layout
  refine ⟨⟨fl, hl.congr rfl rfl (fun b hb a h1 h2 => ?_) fun c hc a h1 h2 => ?_,
    hr.chained.congr (fun _ _ => rfl) fun i hi o ho a h1 h2 => ?_, hr.listed⟩, h.coalesced⟩ <;> refine hm a ?_ <;>
    rintro ⟨x, hx, hxa, h3, h4⟩
  · rcases hl.cell_bin_disjoint hx hb with hd | hd <;> omega
  · have := (hl.cell_ok hc).len_pos
    rcases hl.cell_disjoint hx hc with rfl | hd | hd <;> omega
  obtain ⟨c, hc, rfl, hcf, -⟩ := hr.mem_list hi ho
  have := (hl.cell_ok hc).len_pos
  rcases hl.cell_disjoint hx hc with rfl | hd | hd
  · exact hxa.not_free hcf
  · omega
  · omega

/-! ## Reallocating -/

/-- The cells after `c` is reallocated as `c'`. -/
structure Reallocates (t : HStorageType) (h h' : HHive) (bins bins' : List Bin) (c c' : Cell)
    (size : Nat) : Prop where
  inv : StorageInv t (h'.Storage t) bins'
  ok : HiveOk h'
  ext : Ext t (fun a => FreeAt bins a ∨ c.Has a) h h'
  mem : c' ∈ cells bins'
  alloc : c'.Allocated
  sizeLe : size ≤ c'.len
  copied : ∀ k < c.len - 4, (h'.Storage t).Mem (c'.Offset + 4 + k) = (h.Storage t).Mem (c.Offset + 4 + k)
  fresh : ∀ a, c'.Has a → FreeAt bins a ∨ 4096 * (h.Storage t).Length ≤ a
  taken : (∃ f ∈ cells bins, f.Free ∧ size ≤ f.len ∧ c'.Offset = f.Offset ∧ c'.len = takenLen f size) ∨
    4096 * (h.Storage t).Length ≤ c'.Offset
  others : ∀ x, x.Allocated → (x ∈ cells bins' ↔ x ∈ cells bins ∧ x ≠ c ∨ x = c')
  dirty : t = .stable → c'.Offset % 4096 ≠ 0 → h'.DirtyVector.testBit (c'.Offset / 4096) = true

lemma hvGetCellSize_eq (hd : h.Storage t = d) (hl : Layout d bins) (hc : c ∈ cells bins) (ha : c.Allocated) :
    hvGetCellSize h ⟨t, c.Offset + 4⟩ = (c.len - 4 : Nat) := by
  have hok := hl.cell_ok hc
  have hln := hok.len_pos
  have he := hl.cell_end hc
  have hrn := hl.range
  have hsz : c.Size = -(c.len : Int) := by unfold Cell.Allocated at ha; unfold Cell.len; omega
  have hr : h.readLong ⟨t, c.Offset⟩ = c.Size := by subst hd; exact hok.header
  rw [hvGetCellSize]
  rw [Nat.add_sub_cancel, hr, toLong_ofLong (by omega) (by omega)]
  omega

variable {size : Nat}

lemma hvReallocateCell_spec {al : BinAlloc} (hiv : StorageInv t (h.Storage t) bins) (hok : HiveOk h)
    (hc : c ∈ cells bins)
    (ha : c.Allocated) (hsz : roundUp (size + 4) 16 < 2 ^ 32)
    (hr : c.len - 4 < size → Room (h.Storage t) bins (cellSize size) ∧ BitmapOk t al) :
    (size ≤ c.len - 4 ∧ hvReallocateCell h (orType t c.Offset) size al = some (orType t c.Offset, h)) ∨
      hvReallocateCell h (orType t c.Offset) size al = some (HCELL_NIL, h) ∨
      c.len - 4 < size ∧ ∃ (h' : HHive) (bins' : List Bin) (c' : Cell),
        hvReallocateCell h (orType t c.Offset) size al = some (orType t c'.Offset, h') ∧
        Reallocates t h h' bins bins' c c' (cellSize size) := by
  have hl := hiv.layout
  have hln := (hl.cell_ok hc).len_pos
  have hlt := hl.offset_lt hc
  unfold hvReallocateCell
  rw [hl.data hc, do_some, hvGetCellSize_eq rfl hl hc ha, cellType_orType t hlt, if_pos (by omega),
    Int.toNat_natCast]
  by_cases hg : c.len - 4 < size
  swap
  · rw [if_neg hg]
    exact .inl ⟨by omega, rfl⟩
  rw [if_pos hg]
  right
  obtain ⟨hr, hb⟩ := hr hg
  obtain ⟨-, hsz4, -⟩ := cellSize_spec hsz
  rcases allocateCell_spec hiv hok hsz hr hb with hn | ⟨h1, bins1, c', hal, hA⟩
  · left
    rw [hn, do_some]
    dsimp only
    rfl
  right
  have hl1 := hA.inv.layout
  have hle' := hA.sizeLe
  have hc1 : c ∈ cells bins1 := (hA.others c ha).mpr (.inl hc)
  have he := hl.cell_end hc
  -- the old cell is apart from the new one
  have hap : c.Offset + c.len ≤ c'.Offset ∨ c'.Offset + c'.len ≤ c.Offset := by
    refine (hl1.cell_disjoint hc1 hA.mem).resolve_left fun heq => ?_
    subst heq
    omega
  -- the copy writes data of the new cell only
  let m1 := (h1.Storage t).Mem
  let h2 := h1.modifyMem t (·.copy (c'.Offset + 4) m1 (c.Offset + 4) (c.len - 4))
  have hst2 : h2.Storage t = { h1.Storage t with Mem := m1.copy (c'.Offset + 4) m1 (c.Offset + 4) (c.len - 4) } :=
    HHive.modifyMem_same h1 t _
  have hiv2 : StorageInv t (h2.Storage t) bins1 := by
    rw [hst2]
    exact hA.inv.writeData fun a hna => if_neg fun hin => hna ⟨c', hA.mem, hA.alloc, hin.1, by omega⟩
  have u2 : Upd t c'.Has h1 h2 := Upd.modifyMem _ _ _ fun a hna => if_neg fun hin => hna (by
    unfold Cell.Has; omega)
  obtain ⟨h3, bins3, hfr, hF⟩ := hvFreeCell_spec hiv2 (hA.ok.of_upd u2) hc1 ha
  have hnt : ∀ a, c'.Has a → ¬ (FreeAt bins1 a ∨ c.Has a) := by
    rintro a ha' (⟨x, hx, hxf, hxa⟩ | hca)
    · unfold Cell.Has at ha' hxa
      rcases hl1.cell_disjoint hx hA.mem with rfl | hd | hd
      · exact hA.alloc.not_free hxf
      · omega
      · omega
    · unfold Cell.Has at ha' hca
      omega
  refine ⟨hg, h3, bins3, c', ?_, hF.inv, (hA.ok.of_upd u2).of_upd hF.upd, ?_, ?_, hA.alloc,
    hA.sizeLe, fun k hk => ?_,
    hA.fresh, hA.taken, fun x hx => ?_, fun ht hne => hF.upd.dirty _ (u2.dirty _ (hA.dirty ht hne))⟩
  · rw [hal, do_some]
    dsimp only
    rw [if_neg (hl1.cell_ne_nil hA.mem t), hl1.data hA.mem, do_some]
    exact congrArg (bind · fun h => some (orType t c'.Offset, h)) hfr
  · have e1 := hA.ext.mono (Q := fun a => FreeAt bins a ∨ c.Has a) fun a _ hf => .inl hf
    refine (e1.trans (Ext.of_upd u2) fun a ha' hc' => ?_).trans (Ext.of_upd hF.upd) fun a ha' hor => ?_
    · exact .inl ((hA.fresh a hc').resolve_right (by omega))
    · exact hor.imp_left fun hf => (hA.freeAt a hf).resolve_right (by omega)
  · exact (hF.others c' hA.alloc).mpr ⟨hA.mem, fun heq => by subst heq; omega⟩
  · rw [hF.upd.mem _ (hnt _ (by unfold Cell.Has; omega)), hst2]
    dsimp only [Mem.copy]
    rw [if_pos (by omega), show c.Offset + 4 + (c'.Offset + 4 + k - (c'.Offset + 4)) = c.Offset + 4 + k by omega]
    refine hA.ext.mem _ (by omega) ?_
    rintro ⟨x, hx, hxf, hxa⟩
    unfold Cell.Has at hxa
    rcases hl.cell_disjoint hx hc with rfl | hd | hd
    · exact ha.not_free hxf
    · omega
    · omega
  rw [hF.others x hx, hA.others x hx]
  constructor
  · rintro ⟨hx | hx, hne⟩
    exacts [.inl ⟨hx, hne⟩, .inr hx]
  rintro (⟨hx, hne⟩ | hx)
  · exact ⟨.inl hx, hne⟩
  · exact ⟨.inr hx, fun heq => by subst hx heq; omega⟩

/-! ## What a step does -/

/-- A step changes one storage: `gone` is the cell it frees, `new` the one it allocates for `size` bytes. -/
structure Effect (t : HStorageType) (h h' : HHive) (bins bins' : List Bin) (gone new : Option Cell) (size : Nat) :
    Prop where
  before : StorageInv t (h.Storage t) bins
  after : StorageInv t (h'.Storage t) bins'
  ok : HiveOk h'
  ext : Ext t (fun a => FreeAt bins a ∨ ∃ c ∈ gone, c.Has a) h h'
  others : ∀ x, x.Allocated → (x ∈ cells bins' ↔ x ∈ cells bins ∧ x ∉ gone ∨ x ∈ new)
  goneMem : ∀ c ∈ gone, c ∈ cells bins
  isNew : ∀ c ∈ new, c.Allocated
  taken : ∀ c ∈ new, (∃ f ∈ cells bins, f.Free ∧ size ≤ f.len ∧ c.Offset = f.Offset ∧ c.len = takenLen f size) ∨
    4096 * (h.Storage t).Length ≤ c.Offset
  dirty : ∀ c ∈ new, t = .stable → c.Offset % 4096 ≠ 0 → h'.DirtyVector.testBit (c.Offset / 4096) = true

namespace Effect

variable {t : HStorageType} {h h' : HHive} {bins bins' : List Bin} {c c' : Cell} {size : Nat}

section

variable (hs : StorageInv t (h.Storage t) bins)

include hs

lemma refl (hok : HiveOk h) (size : Nat) : Effect t h h bins bins none none size :=
  ⟨hs, hs, hok, Ext.refl .., fun _ _ => by simp, nofun, nofun, nofun, nofun⟩

lemma of_allocates (hA : Allocates t h h' bins bins' c size) : Effect t h h' bins bins' none (some c) size := by
  refine ⟨hs, hA.inv, hA.ok, hA.ext.mono fun a _ => .inl, fun x hx => (hA.others x hx).trans ?_,
    nofun, fun x hx => ?_, fun x hx => ?_, fun x hx => ?_⟩
  · simp [eq_comm]
  · cases hx; exact hA.alloc
  · cases hx; exact hA.taken
  · cases hx; exact hA.dirty

lemma of_frees (hok : HiveOk h) (hc : c ∈ cells bins)
    (hF : Frees t h h' bins bins' c) (size : Nat) : Effect t h h' bins bins' (some c) none size := by
  refine ⟨hs, hF.inv, hok.of_upd hF.upd, (Ext.of_upd hF.upd).mono fun a _ => ?_, fun x hx =>
    (hF.others x hx).trans ?_,
    fun x hx => by cases hx; exact hc, nofun, nofun, nofun⟩
  · exact Or.imp_right fun hc => ⟨c, rfl, hc⟩
  · simp [eq_comm]

lemma of_reallocates (hc : c ∈ cells bins) (hR : Reallocates t h h' bins bins' c c' size) :
    Effect t h h' bins bins' (some c) (some c') size := by
  refine ⟨hs, hR.inv, hR.ok, hR.ext.mono fun a _ => ?_, fun x hx => (hR.others x hx).trans ?_,
    fun x hx => by cases hx; exact hc, fun x hx => ?_, fun x hx => ?_, fun x hx => ?_⟩
  · exact Or.imp_right fun hc => ⟨c, rfl, hc⟩
  · simp [eq_comm]
  · cases hx; exact hR.alloc
  · cases hx; exact hR.taken
  · cases hx; exact hR.dirty

end

lemma hiveInv {g n : Option Cell} (he : Effect t h h' bins bins' g n size) (hin : HiveInv h) : HiveInv h' := by
  refine ⟨he.ok, fun t' => ?_⟩
  by_cases ht : t' = t
  · subst ht
    exact ⟨bins', he.after⟩
  · rw [he.ext.other t' ht]
    exact hin.storage t'

end Effect

/-- The cell that a call gives up. -/
def HiveOp.target : HiveOp → Option Nat
  | .allocate .. => none
  | .reallocate cell .. => some cell
  | .free cell => some cell

lemma HiveInv.allocatedAt (hin : HiveInv h) {cl : Nat}
    (ha : AllocatedAt h cl t c) : ∃ bins, StorageInv t (h.Storage t) bins ∧ c ∈ cells bins := by
  obtain ⟨bins, hs⟩ := hin.storage t
  exact ⟨bins, hs, (HiveInv.isCell hs).mp ha.isCell⟩

/-- The call looks for a cell in the storage `t`. -/
def HiveOp.Takes (h : HHive) (t : HStorageType) : HiveOp → Prop
  | .allocate _ t' _ => t' = t
  | .reallocate cell size _ => ∃ c, AllocatedAt h cell t c ∧ c.len - 4 < size
  | .free _ => False

/-- The size of the cell that a call needs. -/
def HiveOp.request : HiveOp → Nat
  | .allocate size _ _ => cellSize size
  | .reallocate _ size _ => cellSize size
  | .free _ => 0

/-- A call in range returns, and this is what it does. -/
lemma hiveStep_spec {op : HiveOp} (hin : HiveInv h) (hcl : CallOk h op) (hrn : InRange h op) :
    ∃ h' t bins bins' g n, hiveStep h op = some h' ∧ Effect t h h' bins bins' g n op.request ∧
      (∀ c ∈ g, op.target = some (orType t c.Offset)) ∧ ∀ c ∈ n, op.Takes h t := by
  cases op with
  | allocate size t al =>
    obtain ⟨bins, hs⟩ := hin.storage t
    rcases allocateCell_spec hs hin.ok hcl (hrn.1 bins hs.layout.toHolds) hrn.2 with
      hn | ⟨h', bins', c, hrs, hA⟩
    · exact ⟨h, t, bins, bins, none, none, by rw [hiveStep, hn]; rfl, .refl hs hin.ok _, nofun, nofun⟩
    · exact ⟨h', t, bins, bins', none,
        some c, by rw [hiveStep, hrs]; rfl, .of_allocates hs hA, nofun, fun _ _ => rfl⟩
  | reallocate cl size al =>
    obtain ⟨⟨t, c, ha⟩, hsz⟩ := hcl
    obtain ⟨bins, hs, hc⟩ := hin.allocatedAt ha
    have hrm := fun hg => (hrn t c ha hg).imp_left fun hr => hr bins hs.layout.toHolds
    obtain rfl := ha.index
    rcases hvReallocateCell_spec hs hin.ok hc ha.allocated hsz hrm with
      ⟨-, hsm⟩ | hn | ⟨hg, h', bins', c', hrs, hR⟩
    · exact ⟨h, t, bins, bins, none, none, by rw [hiveStep, hsm]; rfl, .refl hs hin.ok _, nofun, nofun⟩
    · exact ⟨h, t, bins, bins, none, none, by rw [hiveStep, hn]; rfl, .refl hs hin.ok _, nofun, nofun⟩
    · exact ⟨h', t, bins, bins', some c, some c', by rw [hiveStep, hrs]; rfl, .of_reallocates hs hc hR,
        fun x hx => by cases hx; rfl, fun _ _ => ⟨c, ha, hg⟩⟩
  | free cl =>
    obtain ⟨t, c, ha⟩ := hcl
    obtain ⟨bins, hs, hc⟩ := hin.allocatedAt ha
    obtain rfl := ha.index
    obtain ⟨h', bins', hrs, hF⟩ := hvFreeCell_spec hs hin.ok hc ha.allocated
    exact ⟨h', t, bins, bins', some c, none, hrs, .of_frees hs hin.ok hc hF _, fun x hx => by cases hx; rfl, nofun⟩

/-! ## New hives -/

variable {a : Nat}

lemma initFileName_of_lt (b : Mem) (fn : Option (List (BitVec 16))) (ha : a < 48 ∨ 112 ≤ a) :
    hvpInitFileName b fn a = b a := by
  unfold hvpInitFileName
  dsimp only
  split
  · exact if_neg (by omega)
  rename_i n
  have : (n.drop (n.length - 31)).length ≤ 31 := by rw [length_drop]; omega
  rw [if_neg (by omega)]
  exact if_neg (by omega)

lemma newBlock_readUlong (fn : Option (List (BitVec 16))) (ha : a + 4 ≤ 48 ∨ 112 ≤ a) :
    (newBaseBlock fn).readUlong a = (newBaseBlock none).readUlong a := by
  refine Mem.readUlong_congr fun x hx hx' => ?_
  unfold newBaseBlock
  rw [initFileName_of_lt _ fn (by omega), initFileName_of_lt _ none (by omega)]

lemma hvpCreateHive_inv {fn : Option (List (BitVec 16))} (hn : hvpCreateHive fn true = .ok h) : HiveInv h := by
  cases hn
  refine ⟨⟨show 0 = roundUp 0 32 by decide, fun i hi => ?_, ?_⟩, fun t =>
    ⟨[], ⟨fun _ => [], ⟨⟨rfl, nofun, nofun⟩, Nat.zero_lt_succ _⟩,
    fun i _ => rfl, fun _ _ => nodup_nil, fun i _ o => ⟨nofun, ?_⟩⟩, nofun⟩⟩
  · simp [newHive, RtlBitmap.testBit] at hi
  · exact (newBlock_readUlong fn (by omega)).trans (show _ = 4096 * 0 by decide)
  · rintro ⟨c, hc, -⟩
    cases hc

/-! ## The invariant of the allocator -/

/-- What the allocator keeps up in a storage: the bins and their cells, and the
cells `fl i` that the list `i` leads to before it ends. -/
structure AllocatorInv (t : HStorageType) (d : Dual) (bins : List Bin) (fl : Nat → List Nat) : Prop where
  holds : Holds d bins
  coalesced : Coalesced bins
  chained : Chained t d fl
  nodup : ∀ i < 24, (fl i).Nodup
  listed : ∀ i < 24, ∀ c ∈ cells bins, c.Offset ∈ fl i ↔ c.Free ∧ hvpComputeFreeListIndex c.Size.toNat = some i
  isCell : ∀ i < 24, ∀ o ∈ fl i, ∃ c ∈ cells bins, c.Offset = o

lemma StorageInv.allocatorInv (h : StorageInv t d bins) : ∃ fl, AllocatorInv t d bins fl := by
  obtain ⟨fl, hr⟩ := h.rep
  refine ⟨fl, hr.layout.toHolds, h.coalesced, hr.chained, hr.listed.nodup, fun i hi c hc => ?_,
    fun i hi o ho => ?_⟩
  swap
  · obtain ⟨c, hc, heq, -⟩ := hr.mem_list hi ho
    exact ⟨c, hc, heq⟩
  have hl := (hr.layout.cell_ok hc).len_pos
  have hid (hf : c.Free) : hvpComputeFreeListIndex c.Size.toNat = some (freeListIndex c.Size.toNat) :=
    freeListIndex_of_le (by unfold Cell.Free at hf; unfold Cell.len at hl; omega)
  rw [hr.listed.mem_iff i hi]
  constructor
  · rintro ⟨x, hx, heq, hf, rfl, -⟩
    obtain rfl := hr.layout.cell_eq hx hc heq
    exact ⟨hf, hid hf⟩
  rintro ⟨hf, hsm⟩
  rw [hid hf] at hsm
  exact ⟨c, hc, rfl, hf, some.inj hsm, id⟩

/-- The calls of a run meet the contract and stay in range. -/
def GoodCall (h : HHive) (op : HiveOp) : Prop := CallOk h op ∧ InRange h op

lemma run_hiveInv {fn : Option (List (BitVec 16))} {h0 : HHive} {o : List HiveOp}
    (hn : hvpCreateHive fn true = .ok h0) (hrn : Run hiveStep GoodCall h0 o h) : HiveInv h := by
  refine hrn.invariant HiveInv (fun {s op s'} hin hg hst => ?_) (hvpCreateHive_inv hn)
  obtain ⟨h', t, bins, bins', g, n, hr, he, -⟩ := hiveStep_spec hin hg.1 hg.2
  cases hr.symm.trans hst
  exact he.hiveInv hin

/-- In every run of calls in range, from a new hive, the invariant of the
allocator holds in both storages, and every further call in range returns: no
assertion fails and no walk along a list goes on for ever. -/
theorem allocator_invariant {fileName : Option (List (BitVec 16))} {h₀ h : HHive} {ops : List HiveOp}
    (hcreate : hvpCreateHive fileName true = .ok h₀) (hrun : Run hiveStep GoodCall h₀ ops h) :
    (∀ t, ∃ bins fl, AllocatorInv t (h.Storage t) bins fl) ∧
      ∀ op, CallOk h op → InRange h op → ∃ h', hiveStep h op = some h' := by
  have hin := run_hiveInv hcreate hrun
  refine ⟨fun t => ?_, fun op hc hr => ?_⟩
  · obtain ⟨bins, hs⟩ := hin.storage t
    exact ⟨bins, hs.allocatorInv⟩
  · obtain ⟨h', _, _, _, _, _, hrs, -⟩ := hiveStep_spec hin hc hr
    exact ⟨h', hrs⟩

lemma goodCall_of_length (t : HStorageType) (hl : (h.Storage t).Length ≤ 1) (hsz : size ≤ 8192) :
    GoodCall h (.allocate size t ⟨true, true, true⟩) := by
  have hr : roundUp (size + 4) 16 < 2 ^ 32 := by unfold roundUp; omega
  refine ⟨hr, fun bins _ => .inr ?_, fun _ _ _ => rfl⟩
  show 4096 * (h.Storage t).Length + roundUp (cellSize size + 32) 4096 < 2 ^ 31
  unfold cellSize roundUp
  omega

lemma newHive_goodCall (t : HStorageType) (hsz : size ≤ 8192) :
    GoodCall (newHive none) (.allocate size t ⟨true, true, true⟩) :=
  goodCall_of_length t (Nat.zero_le 1) hsz

theorem allocator_invariant_one_cell : ∃ h₀ h, hvpCreateHive none true = .ok h₀ ∧
    Run hiveStep GoodCall h₀ [.allocate 20 .stable ⟨true, true, true⟩] h ∧
    (∀ t, ∃ bins fl, AllocatorInv t (h.Storage t) bins fl) ∧
      ∀ op, CallOk h op → InRange h op → ∃ h', hiveStep h op = some h' := by
  have hg := newHive_goodCall .stable (show 20 ≤ 8192 by decide)
  obtain ⟨h, _, _, _, _, _, hrs, -⟩ := hiveStep_spec (hvpCreateHive_inv rfl) hg.1 hg.2
  have hr := Run.single hg hrs
  exact ⟨newHive none, h, rfl, hr, allocator_invariant rfl hr⟩

/-- A request for a bin of more than `2 ^ 31` bytes. -/
def hugeRequest : HiveOp := .allocate 0x80000FDC .stable ⟨true, true, true⟩

/-- The headers that the huge request leaves: that of the bin, of its first cell,
and of the cell after it. -/
lemma hugeRequest_headers : (hiveStep (newHive none) hugeRequest).map (fun h =>
    ((h.Storage .stable).Length, (h.Storage .stable).Mem.readUlong 8, (h.Storage .stable).Mem.readLong 32,
      (h.Storage .stable).Mem.readLong 0x7FFFF040)) = some (0x80001, 0x80001000, 0x7FFFF020, 0) := by
  decide +kernel

/-- Cells cannot tile a bin that holds these headers. -/
lemma not_holds_of_headers (hl : d.Length = 0x80001) (hbn : d.Mem.readUlong 8 = 0x80001000)
    (hcll : d.Mem.readLong 32 = 0x7FFFF020) (hn : d.Mem.readLong 0x7FFFF040 = 0) (bins : List Bin) :
    ¬ Holds d bins := by
  rintro ⟨ht, hb, -⟩
  rw [hl] at ht
  obtain _ | ⟨b, bs⟩ := bins
  · have : 0 = 4096 * 0x80001 := ht
    omega
  obtain ⟨-, -, hsz, -, -, hcl, hce⟩ := hb b mem_cons_self
  rw [ht.1] at hsz hcl
  have hsz : b.Size = 0x80001000 := hsz.symm.trans hbn
  rw [hsz] at hcl
  generalize b.Cells = cs at hcl hce
  obtain _ | ⟨c, _ | ⟨c', cs⟩⟩ := cs
  · have : 0 + 32 = 0 + 0x80001000 := hcl
    omega
  · have hc := (hce c mem_cons_self).header
    have he := hcl.2
    rw [hcl.1] at hc
    have hc : c.Size = 0x7FFFF020 := hc.symm.trans hcll
    unfold Tiles Cell.len at he
    omega
  have hc := (hce c mem_cons_self).header
  have hc' := hce c' (mem_cons_of_mem _ mem_cons_self)
  rw [hcl.1] at hc
  have hc : c.Size = 0x7FFFF020 := hc.symm.trans hcll
  have ho : c'.Offset = 0x7FFFF040 := by rw [hcl.2.1, Cell.len, hc]; rfl
  have hz := hc'.header
  rw [ho, hn] at hz
  exact hc'.ne_zero hz.symm

/-- The first call is the huge request: it returns, and the cells do not tile the bin. -/
theorem allocator_invariant_fails : ∃ h₀ h, hvpCreateHive none true = .ok h₀ ∧ CallOk h₀ hugeRequest ∧
    hiveStep h₀ hugeRequest = some h ∧ ¬ ∃ bins fl, AllocatorInv .stable (h.Storage .stable) bins fl := by
  obtain ⟨h, hst, hh⟩ := map_eq_some_iff.mp hugeRequest_headers
  simp only [Prod.mk.injEq] at hh
  obtain ⟨h1, h2, h3, h4⟩ := hh
  refine ⟨newHive none, h, rfl, by unfold hugeRequest CallOk; decide, hst, ?_⟩
  rintro ⟨bins, fl, hin⟩
  exact not_holds_of_headers h1 h2 h3 h4 bins hin.holds

/-! ## Isolation of the cells -/

/-- What a successful `HvAllocateCell` promises: the cell was not allocated, it
has `size` bytes, all zero, and it overlaps no other allocated cell. -/
def AllocateOk (h : HHive) (size : Nat) (t : HStorageType) (cell : Nat) (h' : HHive) : Prop :=
  (¬ ∃ t' x, AllocatedAt h cell t' x) ∧ ∃ c, AllocatedAt h' cell t c ∧ size ≤ c.len - 4 ∧
    (∀ k < size, (h'.Storage t).Mem (c.Offset + 4 + k) = 0) ∧
    ∀ cell' x, AllocatedAt h' cell' t x → cell' ≠ cell → x.Offset + x.len ≤ c.Offset ∨ c.Offset + c.len ≤ x.Offset

/-- What a successful `HvReallocateCell` promises: the cell it returns has
`size` bytes, and the data of the old one. -/
def ReallocateOk (h : HHive) (cell size newCell : Nat) (h' : HHive) : Prop :=
  ∀ t c, AllocatedAt h cell t c → ∃ c', AllocatedAt h' newCell t c' ∧ size ≤ c'.len - 4 ∧
    ∀ k < min (c.len - 4) (c'.len - 4),
      (h'.Storage t).Mem (c'.Offset + 4 + k) = (h.Storage t).Mem (c.Offset + 4 + k)

/-- The allocated cells other than `target` stay so, with their data. -/
def Isolated (h h' : HHive) (target : Option Nat) : Prop :=
  ∀ cell t c, AllocatedAt h cell t c → target ≠ some cell → AllocatedAt h' cell t c ∧
    ∀ k < c.len - 4, (h'.Storage t).Mem (c.Offset + 4 + k) = (h.Storage t).Mem (c.Offset + 4 + k)

lemma FreeAt.not_mem (hl : Layout d bins) (hc : c ∈ cells bins) (ha : c.Allocated) (hca : c.Has a) :
    ¬ FreeAt bins a := by
  rintro ⟨x, hx, hxf, hxa⟩
  unfold Cell.Has at hca hxa
  rcases hl.cell_disjoint hx hc with rfl | hd | hd
  · exact ha.not_free hxf
  · omega
  · omega

lemma Allocates.allocateOk {h' : HHive} {bins' : List Bin}
    (hin : HiveInv h) (hs : StorageInv t (h.Storage t) bins) (hsz : roundUp (size + 4) 16 < 2 ^ 32)
    (hA : Allocates t h h' bins bins' c (cellSize size)) : AllocateOk h size t (orType t c.Offset) h' := by
  have hl' := hA.inv.layout
  have hlt := hl'.offset_lt hA.mem
  have hle := hA.sizeLe
  obtain ⟨-, hsz4, -⟩ := cellSize_spec hsz
  refine ⟨?_, c, ⟨⟨bins', hl'.toHolds, hA.mem⟩, hA.alloc,
    rfl⟩, by omega, fun k hk => hA.zero _ (by omega) (by omega),
    fun cl' x hx hne => ?_⟩
  swap
  · have hxm := (HiveInv.isCell hA.inv).mp hx.isCell
    refine (hl'.cell_disjoint hxm hA.mem).resolve_left fun heq => hne ?_
    rw [hx.index, heq]
  rintro ⟨t', x, hx⟩
  obtain ⟨bins1, hs1, hxm⟩ := hin.allocatedAt hx
  have hxt := hs1.layout.offset_lt hxm
  have hxl := (hs1.layout.cell_ok hxm).len_pos
  have hxn := hs1.layout.cell_end hxm
  have ht : t' = t := by rw [← cellType_orType t' hxt, ← hx.index, cellType_orType t hlt]
  subst ht
  have ho : c.Offset = x.Offset := orType_inj t' hlt hxt hx.index
  obtain rfl := hs.layout.toHolds.unique hs1.layout.toHolds
  rcases hA.fresh c.Offset (by unfold Cell.Has; omega) with hf | hf
  · exact FreeAt.not_mem hs.layout hxm hx.allocated (by unfold Cell.Has; omega) hf
  · omega

lemma Effect.isolated {h' : HHive} {bins' : List Bin} {g n : Option Cell} {target : Option Nat}
    (he : Effect t h h' bins bins' g n size)
    (htr : ∀ c ∈ g, target = some (orType t c.Offset)) : Isolated h h' target := by
  intro cl t' c ha hne
  by_cases ht : t' = t
  swap
  · have ho := he.ext.other t' ht
    obtain ⟨⟨bins1, hh, hc⟩, hal, hid⟩ := ha
    exact ⟨⟨⟨bins1, by rwa [ho], hc⟩, hal, hid⟩, fun k _ => by rw [ho]⟩
  subst ht
  have hl := he.before.layout
  have hc := (HiveInv.isCell he.before).mp ha.isCell
  have hgn : c ∉ g := fun hg => hne (by rw [htr c hg, ha.index])
  have hen := hl.cell_end hc
  have hc' := (he.others c ha.allocated).mpr (.inl ⟨hc, hgn⟩)
  refine ⟨⟨⟨bins', he.after.layout.toHolds, hc'⟩, ha.allocated, ha.index⟩, fun k hk => he.ext.mem _ (by omega) ?_⟩
  have hca : c.Has (c.Offset + 4 + k) := by unfold Cell.Has; omega
  rintro (hf | ⟨x, hx, hxa⟩)
  · exact FreeAt.not_mem hl hc ha.allocated hca hf
  have hxm := he.goneMem x hx
  unfold Cell.Has at hca hxa
  rcases hl.cell_disjoint hxm hc with rfl | hd | hd
  · exact hgn hx
  · omega
  · omega

/-- In every run of calls in range, from a new hive, the next call in range
returns what it promises, and leaves the other allocated cells alone. -/
theorem allocator_isolation {fileName : Option (List (BitVec 16))} {h₀ h : HHive} {ops : List HiveOp}
    (hcreate : hvpCreateHive fileName true = .ok h₀) (hrun : Run hiveStep GoodCall h₀ ops h) :
    (∀ size t alloc cell h', GoodCall h (.allocate size t alloc) →
      hvAllocateCell h size t alloc = some (cell, h') → cell ≠ HCELL_NIL → AllocateOk h size t cell h') ∧
    (∀ cell size alloc newCell h', GoodCall h (.reallocate cell size alloc) →
      hvReallocateCell h cell size alloc = some (newCell, h') → newCell ≠ HCELL_NIL →
      ReallocateOk h cell size newCell h') ∧
    ∀ op h', GoodCall h op → hiveStep h op = some h' → Isolated h h' op.target := by
  have hin := run_hiveInv hcreate hrun
  refine ⟨fun size t alloc cell h' hg hrs hne => ?_, fun cell size alloc newCell h' hg hrs hne t c ha => ?_,
    fun op h' hg hrs => ?_⟩
  · obtain ⟨bins, hs⟩ := hin.storage t
    rcases allocateCell_spec hs hin.ok hg.1 (hg.2.1 bins hs.layout.toHolds) hg.2.2 with
      hn | ⟨h₁, bins', c, hrs', hA⟩
    · cases hn.symm.trans hrs
      exact absurd rfl hne
    · cases hrs'.symm.trans hrs
      exact hA.allocateOk hin hs hg.1
  · obtain ⟨bins, hs, hc⟩ := hin.allocatedAt ha
    have hrm := fun hgr => (hg.2 t c ha hgr).imp_left fun hr => hr bins hs.layout.toHolds
    obtain rfl := ha.index
    rcases hvReallocateCell_spec hs hin.ok hc ha.allocated hg.1.2 hrm with
      ⟨hle, hsm⟩ | hn | ⟨-, h₁, bins', c', hrs', hR⟩
    · cases hsm.symm.trans hrs
      exact ⟨c, ha, hle, fun k _ => rfl⟩
    · cases hn.symm.trans hrs
      exact absurd rfl hne
    cases hrs'.symm.trans hrs
    have hle := hR.sizeLe
    obtain ⟨-, hsz4, -⟩ := cellSize_spec hg.1.2
    exact ⟨c', ⟨⟨bins', hR.inv.layout.toHolds, hR.mem⟩, hR.alloc,
      rfl⟩, by omega, fun k hk => hR.copied k (by omega)⟩
  · obtain ⟨h₁, t, bins, bins', g, n, hrs', he, ht, -⟩ := hiveStep_spec hin hg.1 hg.2
    cases hrs'.symm.trans hrs
    exact he.isolated ht

/-- Two cells, one after the other. -/
theorem allocator_isolation_two_cells : ∃ h cell h', Run hiveStep GoodCall (newHive none)
    [.allocate 20 .stable ⟨true, true, true⟩] h ∧
    hvAllocateCell h 100 .stable ⟨true, true, true⟩ = some (cell, h') ∧ cell ≠ HCELL_NIL ∧
    AllocateOk h 100 .stable cell h' ∧ Isolated h h' none := by
  have hc : ((hiveStep (newHive none) (.allocate 20 .stable ⟨true, true, true⟩)).bind fun h =>
      (hvAllocateCell h 100 .stable ⟨true, true, true⟩).map fun r =>
        ((h.Storage .stable).Length, r.1)) = some (1, 64) := by
    decide +kernel
  obtain ⟨h, hs, hc⟩ := bind_eq_some_iff.mp hc
  obtain ⟨⟨cell, h'⟩, ha, hc⟩ := map_eq_some_iff.mp hc
  obtain ⟨hl, rfl⟩ := Prod.mk.inj hc
  have hrun := Run.single (newHive_goodCall .stable (show 20 ≤ 8192 by decide)) hs
  have hg : GoodCall h (.allocate 100 .stable ⟨true, true, true⟩) :=
    goodCall_of_length .stable (Nat.le_of_eq hl) (by decide)
  have hiso := allocator_isolation rfl hrun
  exact ⟨h, 64, h', hrun, ha, by decide, hiso.1 100 .stable _ 64 h' hg ha (by decide),
    hiso.2.2 (.allocate 100 .stable ⟨true, true, true⟩) h' hg (by rw [hiveStep, ha]; rfl)⟩

/-- The size of the cell for `0xFFFFFFFF` bytes wraps: the cell has room for 12. -/
theorem allocator_isolation_fails : ∃ h₀ cell h', hvpCreateHive none true = .ok h₀ ∧
    hvAllocateCell h₀ 0xFFFFFFFF .stable ⟨true, true, true⟩ = some (cell, h') ∧ cell ≠ HCELL_NIL ∧
    ¬ AllocateOk h₀ 0xFFFFFFFF .stable cell h' := by
  obtain ⟨⟨cell, h'⟩, hr, hcl⟩ := map_eq_some_iff.mp (show
    (hvAllocateCell (newHive none) 0xFFFFFFFF .stable ⟨true, true, true⟩).map
      (fun r => (r.1, (r.2.Storage .stable).Mem.readLong 32)) = some (32, -16) by decide +kernel)
  simp only [Prod.mk.injEq] at hcl
  obtain ⟨rfl, hh⟩ := hcl
  refine ⟨newHive none, 32, h', rfl, hr, by decide, ?_⟩
  rintro ⟨-, c, ⟨⟨bins, hhl, hc⟩, -, hin⟩, hsz, -⟩
  obtain ⟨b, hb, hc⟩ := mem_cells.mp hc
  have hsz16 : c.Size = -16 := by
    rw [← ((hhl.binOk b hb).cellOk c hc).header, ← show 32 = c.Offset from hin, hh]
  unfold Cell.len at hsz
  omega

end FreeNT.Cmlib
