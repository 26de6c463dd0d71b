import FreeNT.Cmlib.HiveLists

/-!
# The dirty vector and new bins

`HiveOk` ties the dirty vector and the base block to the stable storage.
`hvMarkCellDirty_spec` says which bit `HvMarkCellDirty` sets: that of the block in which the
cell starts, unless the cell starts on a block boundary, and no other.
`hvpAddBin_spec`: `HvpAddBin` adds a bin with one free cell, on no list, and
marks its blocks. `Ext t P h h'` is the frame of operations that may add bins.
-/

namespace FreeNT.Cmlib

open FreeNT.Rtl List

/-- The dirty vector has a bit for each stable block, and no other bit is set;
the base block has the length of the stable storage. -/
structure HiveOk (h : HHive) : Prop where
  size : h.DirtyVector.SizeOfBitMap = roundUp (h.Storage .stable).Length 32
  below : ∀ i, h.DirtyVector.testBit i = true → i < (h.Storage .stable).Length
  length : BaseBlock.Length h.BaseBlock = 4096 * (h.Storage .stable).Length

variable {t : HStorageType} {h : HHive}

lemma HiveOk.of_upd {P : Nat → Prop} {h' : HHive} (hd : HiveOk h) (u : Upd t P h h') : HiveOk h' := by
  refine ⟨by rw [u.dirtySize, u.lengths, hd.size], fun i hi => ?_, by rw [u.baseBlock, u.lengths, hd.length]⟩
  rw [u.lengths]
  exact (u.dirtyNew i hi).elim (hd.below i) id

lemma le_roundUp (a : Nat) {b : Nat} (hb : 0 < b) : a ≤ roundUp a b := by
  unfold roundUp
  have := Nat.div_add_mod (a + b - 1) b
  have := Nat.mod_lt (a + b - 1) hb
  rw [Nat.mul_comm]
  omega

/-! ## Marking a cell dirty -/

variable {bins : List Bin}

lemma hvMarkCellDirty_spec (hl : Layout (h.Storage .stable) bins) (hd : HiveOk h) {c : Cell}
    (hc : c ∈ cells bins) :
    ∃ bm, hvMarkCellDirty h c.Offset =
      some { h with DirtyVector := bm, DirtyCount := (h.DirtyCount + 1) % 2 ^ 32 } ∧
      bm.SizeOfBitMap = h.DirtyVector.SizeOfBitMap ∧
      ∀ i, bm.testBit i = (h.DirtyVector.testBit i || decide (i = c.Offset / 4096 ∧ c.Offset % 4096 ≠ 0)) := by
  have hlt := hl.offset_lt hc
  have he := hl.cell_end hc
  have hr := hl.range
  have hcv := le_roundUp (h.Storage .stable).Length (b := 32) (by decide)
  have hbl : hvGetCellBlock c.Offset = c.Offset / 4096 := by unfold hvGetCellBlock; omega
  -- the block of the byte 4095 after the header: the next one, unless the header starts its block
  have hls : hvGetCellBlock ((c.Offset + 4096 - 1) % 2 ^ 32) = (c.Offset + 4095) / 4096 := by
    unfold hvGetCellBlock; omega
  have hcn : ((c.Offset + 4095) / 4096 + 2 ^ 32 - c.Offset / 4096) % 2 ^ 32 =
      if c.Offset % 4096 = 0 then 0 else 1 := by
    split <;> omega
  have hb : c.Offset / 4096 + (if c.Offset % 4096 = 0 then 0 else 1) ≤ h.DirtyVector.SizeOfBitMap := by
    rw [hd.size]
    split <;> omega
  unfold hvMarkCellDirty
  rw [show hvGetCellType c.Offset = .stable from cellType_orType .stable hlt, hbl, hls]
  dsimp only
  rw [hcn, setDirtyBits, if_pos hb]
  refine ⟨_, rfl, rtlSetBits_SizeOfBitMap .., fun i => ?_⟩
  rw [rtlSetBits_testBit]
  congr 1
  rw [decide_eq_decide]
  split <;> omega

lemma markIfStable_spec (hl : Layout (h.Storage t) bins) (hd : HiveOk h) {c : Cell}
    (hc : c ∈ cells bins) (P : Nat → Prop) :
    ∃ h', markIfStable h t (orType t c.Offset) = some h' ∧ h'.Storage = h.Storage ∧ Upd t P h h' ∧
      (t = .stable → c.Offset % 4096 ≠ 0 → h'.DirtyVector.testBit (c.Offset / 4096)) := by
  cases t with
  | volatile => exact ⟨h, rfl, rfl, Upd.refl .., fun ht => by cases ht⟩
  | stable =>
    obtain ⟨bm, hr, hsz, hb⟩ := hvMarkCellDirty_spec hl hd hc
    have he := hl.cell_end hc
    refine ⟨_, (if_pos rfl).trans hr, rfl, ⟨fun _ _ => rfl, rfl, rfl, fun _ _ => rfl, rfl, rfl, hsz,
      fun i hi => ?_, fun i hi => ?_⟩, fun _ hne => ?_⟩
    · rw [hb, hi, Bool.true_or]
    · rw [hb, Bool.or_eq_true, decide_eq_true_iff] at hi
      exact hi.imp_right fun hi => by omega
    · rw [hb, decide_eq_true ⟨rfl, hne⟩, Bool.or_true]


/-! ## Adding a bin -/

/-- From `h` to `h'` only the storage `t` changed, below its old end only at
addresses in `P`; blocks after its old end are dirty. -/
structure Ext (t : HStorageType) (P : Nat → Prop) (h h' : HHive) : Prop where
  other : ∀ t' ≠ t, h'.Storage t' = h.Storage t'
  length : (h.Storage t).Length ≤ (h'.Storage t).Length
  mem : ∀ a < 4096 * (h.Storage t).Length, ¬ P a → (h'.Storage t).Mem a = (h.Storage t).Mem a
  baseBlock : ∀ a, ¬ (40 ≤ a ∧ a < 44) → h'.BaseBlock a = h.BaseBlock a
  version : h'.Version = h.Version
  dirty : ∀ i, h.DirtyVector.testBit i = true → h'.DirtyVector.testBit i = true
  grown : t = .stable → ∀ k, (h.Storage t).Length ≤ k → k < (h'.Storage t).Length → h'.DirtyVector.testBit k = true

namespace Ext

variable {t : HStorageType} {P Q : Nat → Prop} {h h' h'' : HHive}

lemma of_upd (u : Upd t P h h') : Ext t P h h' :=
  ⟨u.other, Nat.le_of_eq u.length.symm, fun a _ => u.mem a, fun _ _ => by rw [u.baseBlock], u.version, u.dirty,
    fun _ k h1 h2 => absurd h2 (by rw [u.length]; omega)⟩

lemma refl (t : HStorageType) (P : Nat → Prop) (h : HHive) : Ext t P h h := of_upd (Upd.refl t P h)

lemma mono (e : Ext t P h h') (hPQ : ∀ a < 4096 * (h.Storage t).Length, P a → Q a) : Ext t Q h h' :=
  { e with mem := fun a ha hq => e.mem a ha fun hp => hq (hPQ a ha hp) }

lemma trans (e : Ext t P h h') (e' : Ext t Q h' h'') (hPQ : ∀ a < 4096 * (h.Storage t).Length, Q a → P a) :
    Ext t P h h'' := by
  have hl := e.length
  refine ⟨fun t' ht => (e'.other t' ht).trans (e.other t' ht), hl.trans e'.length,
    fun a ha hp => (e'.mem a (by omega) fun hq => hp (hPQ a ha hq)).trans (e.mem a ha hp),
    fun a ha => (e'.baseBlock a ha).trans (e.baseBlock a ha), e'.version.trans e.version,
    fun i hi => e'.dirty i (e.dirty i hi), fun ht k h1 h2 => ?_⟩
  by_cases hk : k < (h'.Storage t).Length
  · exact e'.dirty k (e.grown ht k h1 hk)
  · exact e'.grown ht k (by omega) h2

lemma readUlong (e : Ext t P h h') {a : Nat} (ha : a + 4 ≤ 40 ∨ 44 ≤ a) :
    h'.BaseBlock.readUlong a = h.BaseBlock.readUlong a :=
  Mem.readUlong_congr fun x h1 h2 => e.baseBlock x (by omega)

end Ext

lemma growDirtyVector_spec {bm : RtlBitmap} {length length' : Nat} (hsz : bm.SizeOfBitMap = roundUp length 32)
    (hb : ∀ i, bm.testBit i → i < length) (hle : length ≤ length') :
    ∃ bm', growDirtyVector bm length' true = some bm' ∧ bm'.SizeOfBitMap = roundUp length' 32 ∧
      ∀ i, bm'.testBit i = bm.testBit i := by
  unfold growDirtyVector
  dsimp only
  unfold roundUp at hsz ⊢
  split
  swap
  · refine ⟨bm, rfl, by omega, fun _ => rfl⟩
  refine ⟨_, if_pos rfl, by dsimp only [rtlInitializeBitMap]; omega, fun i => ?_⟩
  dsimp only [rtlInitializeBitMap, RtlBitmap.testBit, copyBitmapBytes]
  by_cases hw : i / 32 < bm.SizeOfBitMap / 32
  · rw [show min 4 (bm.SizeOfBitMap / 8 - 4 * (i / 32)) = 4 by omega,
      Nat.mod_eq_of_lt (by have := (bm.Buffer (i / 32)).isLt; omega), BitVec.ofNat_toNat, BitVec.setWidth_eq]
  rw [show min 4 (bm.SizeOfBitMap / 8 - 4 * (i / 32)) = 0 by omega, Nat.mul_zero, Nat.pow_zero, Nat.mod_one]
  have ho : bm.testBit i = false := Bool.eq_false_iff.mpr fun hi => by have := hb i hi; omega
  exact BitVec.getLsbD_zero.trans ho.symm

/-- The bin that `HvpAddBin` adds for a cell of `size` bytes. -/
def newBin (d : Dual) (size : Nat) : Bin :=
  ⟨4096 * d.Length, roundUp (size + 32) 4096, [⟨4096 * d.Length + 32, (roundUp (size + 32) 4096 - 32 : Nat)⟩]⟩

section AddBin

variable {t : HStorageType} {d : Dual} {bins : List Bin} {fl : Nat → List Nat} {ex : Nat → Prop} {size : Nat}

lemma appendBin_Length (hr : 4096 * d.Length + roundUp (size + 32) 4096 < 2 ^ 31) :
    (appendBin d (roundUp (size + 32) 4096)).Length = d.Length + roundUp (size + 32) 4096 / 4096 := by
  dsimp only [appendBin]
  omega

lemma roundUp_bin (size : Nat) : roundUp (size + 32) 4096 % 4096 = 0 ∧ size + 32 ≤ roundUp (size + 32) 4096 :=
  ⟨Nat.mul_mod_left .., le_roundUp _ (by decide)⟩

lemma appendBin_mem (d : Dual) (n : Nat) {a : Nat} (ha : a < 4096 * d.Length) :
    (appendBin d n).Mem a = d.Mem a := by
  dsimp only [appendBin, initBin]
  rw [Mem.writeUlong_of_ne _ _ (by omega), Mem.writeUlong_of_ne _ _ (by omega),
    Mem.writeUlong_of_ne _ _ (by omega),
    Mem.writeUlong_of_ne _ _ (by omega)]
  exact if_neg (by omega)

lemma tiles_one_cell (a : Nat) {n : Nat} (h : 32 ≤ n) :
    Tiles Cell.Offset Cell.len (a + 32) (a + n) [⟨a + 32, (n - 32 : Nat)⟩] := by
  simp only [Tiles, Cell.len, Int.natAbs_natCast, true_and]
  omega

lemma newBin_ok (hr : 4096 * d.Length + roundUp (size + 32) 4096 < 2 ^ 31) (h16 : size % 16 = 0)
    (hp : 16 ≤ size) : (newBin d size).Ok (appendBin d (roundUp (size + 32) 4096)).Mem := by
  obtain ⟨hm, hle⟩ := roundUp_bin size
  unfold newBin
  generalize roundUp (size + 32) 4096 = n at *
  dsimp only [appendBin, initBin]
  refine ⟨?_, ?_, ?_, by dsimp only; omega, by dsimp only; omega, tiles_one_cell _ (by dsimp only; omega), fun c hc => ?_⟩
  · dsimp only
    rw [Mem.readUlong_sep _ _ (by omega), Mem.readUlong_sep _ _ (by omega),
      Mem.readUlong_sep _ _ (by omega), Mem.readUlong_self]
    exact Nat.mod_eq_of_lt (by decide)
  · dsimp only
    rw [Mem.readUlong_sep _ _ (by omega), Mem.readUlong_sep _ _ (by omega), Mem.readUlong_self]
    omega
  · dsimp only
    rw [Mem.readUlong_sep _ _ (by omega), Mem.readUlong_self]
    omega
  rw [mem_singleton.mp hc]
  refine .of_readUlong ?_ (by omega) (by omega) (by omega)
  rw [Mem.readUlong_self]
  omega

lemma Layout.appendBin (hl : Layout d bins) (hr : 4096 * d.Length + roundUp (size + 32) 4096 < 2 ^ 31)
    (h16 : size % 16 = 0) (hp : 16 ≤ size) :
    Layout (appendBin d (roundUp (size + 32) 4096)) (bins ++ [newBin d size]) := by
  have hln := appendBin_Length hr
  obtain ⟨hm, hle⟩ := roundUp_bin size
  refine ⟨⟨?_, fun b hb => ?_, fun b hb k h1 h2 => ?_⟩, by rw [hln]; omega⟩
  · refine Tiles.append_iff.mpr ⟨_, hl.tiles, rfl, ?_⟩
    rw [hln]
    change 4096 * d.Length + roundUp (size + 32) 4096 = _
    omega
  · rcases mem_append.mp hb with hb | hb
    · have := hl.bin_bounds hb
      exact (hl.binOk b hb).congr fun a ha ha' => appendBin_mem d _ (by omega)
    · rw [mem_singleton.mp hb]
      exact newBin_ok hr h16 hp
  dsimp only [Cmlib.appendBin]
  rcases mem_append.mp hb with hb | hb
  · have := hl.bin_bounds hb
    rw [if_neg (by omega)]
    exact hl.blocks b hb k h1 h2
  rw [mem_singleton.mp hb] at h1 h2 ⊢
  dsimp only [newBin] at h1 h2 ⊢
  rw [if_pos (by omega), show 4096 * d.Length + (k - d.Length) * 4096 = 4096 * k by omega]

lemma cells_append (bins : List Bin) (b : Bin) : cells (bins ++ [b]) = cells bins ++ b.Cells := by
  unfold cells
  rw [flatMap_append, flatMap_singleton]

lemma Rep.appendBin (hr : Rep t d bins fl ex) (hrn : 4096 * d.Length + roundUp (size + 32) 4096 < 2 ^ 31)
    (h16 : size % 16 = 0) (hp : 16 ≤ size) :
    Rep t (appendBin d (roundUp (size + 32) 4096)) (bins ++ [newBin d size]) fl
      fun o => ex o ∨ o = 4096 * d.Length + 32 := by
  have hol : ∀ c ∈ cells bins, c.Offset + 16 ≤ 4096 * d.Length := fun c hc => by
    have := hr.layout.cell_end hc
    have := (hr.layout.cell_ok hc).len_pos
    omega
  refine ⟨hr.layout.appendBin hrn h16 hp, hr.chained.congr (fun _ _ => rfl) fun i hi o ho => ?_,
    hr.listed.nodup, fun i hi o => (hr.listed.mem_iff i hi o).trans ?_⟩
  · obtain ⟨c, hc, rfl, -⟩ := hr.mem_list hi ho
    have := hol c hc
    exact fun a _ ha' => appendBin_mem d _ (by omega)
  rw [cells_append]
  constructor
  · rintro ⟨c, hc, hco, h1, h2, h3⟩
    have := hol c hc
    exact ⟨c, mem_append_left _ hc, hco, h1, h2, fun hx => hx.elim h3 fun heq => by omega⟩
  rintro ⟨c, hc, hco, h1, h2, h3⟩
  rcases mem_append.mp hc with hc | hc
  · exact ⟨c, hc, hco, h1, h2, fun hx => h3 (.inl hx)⟩
  · rw [mem_singleton.mp hc] at hco
    exact absurd (.inr hco.symm) h3

end AddBin

/-- `HvpAddBin` fails and changes nothing, or adds a bin. -/
lemma hvpAddBin_spec {fl : Nat → List Nat} {ex : Nat → Prop}
    {size : Nat} {al : BinAlloc} (hr : Rep t (h.Storage t) bins fl ex) (hok : HiveOk h)
    (hrn : 4096 * (h.Storage t).Length + roundUp (size + 32) 4096 < 2 ^ 31) (h16 : size % 16 = 0)
    (hp : 16 ≤ size) (hbt : t = .stable → al.Bin → al.BlockList → al.Bitmap) :
    hvpAddBin h size t al = some (none, h) ∨ ∃ h',
      hvpAddBin h size t al = some (some ⟨t, 4096 * (h.Storage t).Length⟩, h') ∧
        h'.Storage t = appendBin (h.Storage t) (roundUp (size + 32) 4096) ∧ HiveOk h' ∧
        Ext t (fun _ => False) h h' := by
  unfold hvpAddBin
  split
  · exact .inl rfl
  rename_i hal
  simp only [Bool.or_eq_true, Bool.not_eq_true', not_or, Bool.not_eq_false] at hal
  right
  have hl := appendBin_Length hrn
  obtain ⟨hmd, hle⟩ := roundUp_bin size
  let h₁ := h.modifyStorage t (appendBin · (roundUp (size + 32) 4096))
  have hst : h₁.Storage t = appendBin (h.Storage t) (roundUp (size + 32) 4096) := h.modifyStorage_same t _
  have ho : ∀ t' ≠ t, h₁.Storage t' = h.Storage t' := fun t' ht => h.modifyStorage_ne _ ht
  have hm : ∀ a < 4096 * (h.Storage t).Length, (h₁.Storage t).Mem a = (h.Storage t).Mem a := fun a ha => by
    rw [hst]; exact appendBin_mem _ _ ha
  cases t with
  | volatile =>
    have hs := ho .stable (by decide)
    refine ⟨h₁, rfl, hst, ⟨?_, ?_, ?_⟩, ho, by rw [hst, hl]; omega, fun a ha _ => hm a ha, fun _ _ => rfl,
      rfl, fun _ => id, fun ht => by cases ht⟩
    · rw [hs]; exact hok.size
    · rw [hs]; exact hok.below
    · rw [hs]; exact hok.length
  | stable =>
    have hn := newBin_ok hrn h16 hp
    obtain ⟨bm, hg, hsz, hb⟩ := growDirtyVector_spec hok.size hok.below
      (show (h.Storage .stable).Length ≤ (h₁.Storage .stable).Length by rw [hst, hl]; omega)
    have hof : h₁.readUlong (Ptr.add ⟨.stable, 4096 * (h.Storage .stable).Length⟩ 4) / 4096 =
      (h.Storage .stable).Length := by
      have hfo := hn.fileOffset
      dsimp only [newBin] at hfo
      change (h₁.Storage .stable).Mem.readUlong (4096 * (h.Storage .stable).Length + 4) / 4096 = _
      rw [hst, hfo]
      omega
    have hc := le_roundUp (h₁.Storage .stable).Length (b := 32) (by decide)
    have hse : setDirtyBits bm (h.Storage .stable).Length (roundUp (size + 32) 4096 / 4096 % 2 ^ 32) =
        some (rtlSetBits bm (h.Storage .stable).Length (roundUp (size + 32) 4096 / 4096)) := by
      rw [hst, hl] at hc hsz
      rw [setDirtyBits, Nat.mod_eq_of_lt (by omega), if_pos (by omega)]
    have hb' : ∀ i, (rtlSetBits bm (h.Storage .stable).Length (roundUp (size + 32) 4096 / 4096)).testBit i =
        (h.DirtyVector.testBit i || decide ((h.Storage .stable).Length ≤ i ∧ i < (h₁.Storage .stable).Length)) :=
      fun i => by rw [rtlSetBits_testBit, hb, hst, hl]
    let h₂ : HHive := { h₁ with
      DirtyVector := rtlSetBits bm (h.Storage .stable).Length (roundUp (size + 32) 4096 / 4096)
      BaseBlock := BaseBlock.setLength h.BaseBlock (BaseBlock.Length h.BaseBlock + roundUp (size + 32) 4096) }
    refine ⟨h₂, ?_, hst, ⟨?_, fun i hi => ?_, ?_⟩, ho, ?_, fun a ha _ => hm a ha, fun a ha => ?_, rfl,
      fun i hi => ?_, fun _ k h1 h2 => ?_⟩
    · rw [hbt rfl hal.1 hal.2]
      change (growDirtyVector h.DirtyVector (h₁.Storage .stable).Length true >>= fun bm' =>
        setDirtyBits bm' (h₁.readUlong (Ptr.add ⟨.stable, 4096 * (h.Storage .stable).Length⟩ 4) / 4096)
          (roundUp (size + 32) 4096 / 4096 % 2 ^ 32) >>= fun bm'' => _) = _
      rw [hg, hof, do_some, hse]
      rfl
    · rw [rtlSetBits_SizeOfBitMap, hsz]
    · rw [hb', Bool.or_eq_true, decide_eq_true_iff] at hi
      rcases hi with hi | hi
      · have := hok.below i hi
        rw [hst, hl]
        omega
      · exact hi.2
    · change BaseBlock.Length (BaseBlock.setLength _ _) = 4096 * (h₁.Storage .stable).Length
      rw [BaseBlock.Length, BaseBlock.setLength, Mem.readUlong_self, hok.length, hst, hl]
      omega
    · change (h.Storage .stable).Length ≤ (h₁.Storage .stable).Length
      rw [hst, hl]
      omega
    · exact Mem.writeUlong_of_ne _ _ (by omega)
    · rw [hb', hi, Bool.true_or]
    · rw [hb', decide_eq_true ⟨h1, h2⟩, Bool.or_true]

end FreeNT.Cmlib
