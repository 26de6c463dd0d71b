import FreeNT.Cmlib.HiveWrite

/-!
# A hive and its file

The clients of a hive also write the data of cells, which they announce with
`HvMarkCellDirty`, and flush the hive (`PersistOp`). What is lost if the machine stops is
what the file does not have: every byte of an allocated stable cell should be
in the file, or its block marked dirty.

`HvMarkCellDirty` marks the block of the cell's header only, and none if the
header starts its block. `persistStep_inv`: a step keeps the property if
every block it writes to is dirty already or gets marked (`Covered`). From it
`hive_persistent`, for every run of such steps from a new hive; without the
condition data is lost (`hive_persistent_fails`).
-/

namespace FreeNT.Cmlib

open FreeNT.Rtl Option

structure HiveFile where
  Hive : HHive
  File : Device

inductive PersistOp where
  | call (op : HiveOp)
  /-- `HvMarkCellDirty` on the cell, and a write to its data from `offset` on. -/
  | write (cell offset : Nat) (data : List (BitVec 8))
  | sync (time : Nat)

/-- The bytes `data` at `a`. -/
def writeBytes (m : Mem) (a : Nat) (data : List (BitVec 8)) : Mem := fun x =>
  if a ≤ x ∧ x < a + data.length then data.getD (x - a) 0 else m x

def persistStep (s : HiveFile) : PersistOp → Option HiveFile
  | .call op => (hiveStep s.Hive op).map fun h => { s with Hive := h }
  | .write cell offset data => do
    let h ← hvMarkCellDirty s.Hive cell
    let p ← hvGetCell h cell
    return { s with Hive := h.modifyMem p.Storage (writeBytes · (p.Addr + offset) data) }
  | .sync time => (hvSyncHive s.Hive time s.File).map fun r => ⟨r.2.1, r.2.2⟩

/-- The contract of the steps: calls are on allocated cells, and clients write
to the data of allocated stable cells. -/
def PersistOk (s : HiveFile) : PersistOp → Prop
  | .call op => CallOk s.Hive op
  | .write cell offset data => ∃ c, AllocatedAt s.Hive cell .stable c ∧ offset + data.length ≤ c.len - 4
  | .sync _ => True

/-- The block of the byte `a` is dirty, or `HvMarkCellDirty` on a cell at `o` marks it. -/
def Marks (h : HHive) (o a : Nat) : Prop :=
  h.DirtyVector.testBit (a / 4096) = true ∨ a / 4096 = o / 4096 ∧ o % 4096 ≠ 0

/-- So are all blocks that a cell of `size` bytes takes from a free stable cell. -/
def FreeMarks (h : HHive) (size : Nat) : Prop :=
  ∀ f, IsCell h .stable f → f.Free → size ≤ f.len → ∀ a, f.Offset ≤ a →
    a < f.Offset + takenLen f size → Marks h f.Offset a

/-- The blocks that a step writes to are dirty, or get marked. -/
def Covered (s : HiveFile) : PersistOp → Prop
  | .call op => InRange s.Hive op ∧ (op.Takes s.Hive .stable → FreeMarks s.Hive op.request)
  | .write cell offset data => ∀ c, AllocatedAt s.Hive cell .stable c → ∀ k < data.length,
    Marks s.Hive c.Offset (c.Offset + 4 + offset + k)
  | .sync _ => True

/-- The byte at `a` of the stable storage is in the file. -/
def Saved (s : HiveFile) (a : Nat) : Prop := s.File.Bytes (4096 + a) = (s.Hive.Storage .stable).Mem a

/-- Each byte of an allocated stable cell is in the file, or its block is dirty. -/
structure PersistInv (s : HiveFile) : Prop where
  inv : HiveInv s.Hive
  sequence : BaseBlock.Sequence1 s.Hive.BaseBlock = BaseBlock.Sequence2 s.Hive.BaseBlock
  outcomes : s.File.Outcomes = []
  saved : ∀ c, IsCell s.Hive .stable c → c.Allocated → ∀ a, c.Has a →
    s.Hive.DirtyVector.testBit (a / 4096) = true ∨ Saved s a

/-! ## The steps -/

variable {s : HiveFile}

lemma Effect.persistInv {h' : HHive} {t : HStorageType} {b b' : List Bin}
    {g n : Option Cell} {size : Nat} (hp : PersistInv s) (he : Effect t s.Hive h' b b' g n size)
    (hm : ∀ c ∈ n, t = .stable → FreeMarks s.Hive size) : PersistInv { s with Hive := h' } := by
  refine ⟨he.hiveInv hp.inv, ?_, hp.outcomes, fun c hc ha a hca => ?_⟩
  · have hsq := hp.sequence
    simp only [BaseBlock.Sequence1, BaseBlock.Sequence2] at hsq ⊢
    rw [he.ext.readUlong (by omega), he.ext.readUlong (by omega), hsq]
  by_cases ht : t = .stable
  swap
  · have ho := he.ext.other .stable (Ne.symm ht)
    obtain ⟨b1, hh, hcm⟩ := hc
    rw [ho] at hh
    rcases hp.saved c ⟨b1, hh, hcm⟩ ha a hca with hdr | hs
    · exact .inl (he.ext.dirty _ hdr)
    · exact .inr (hs.trans (by change _ = (h'.Storage .stable).Mem a; rw [ho]))
  subst ht
  have hl := he.before.layout
  have hl' := he.after.layout
  have hcm := (HiveInv.isCell he.after).mp hc
  have hen := hl'.cell_end hcm
  rcases (he.others c ha).mp hcm with ⟨hol, hg⟩ | hn
  · -- a cell that was there before: its bytes are as they were
    have hen := hl.cell_end hol
    have hb : (h'.Storage .stable).Mem a = (s.Hive.Storage .stable).Mem a := by
      refine he.ext.mem a (by unfold Cell.Has at hca; omega) ?_
      rintro (hf | ⟨x, hx, hxa⟩)
      · exact FreeAt.not_mem hl hol ha hca hf
      unfold Cell.Has at hca hxa
      rcases hl.cell_disjoint (he.goneMem x hx) hol with rfl | hd | hd
      · exact hg hx
      · omega
      · omega
    rcases hp.saved c ⟨b, hl.toHolds, hol⟩ ha a hca with hdr | hs
    · exact .inl (he.ext.dirty _ hdr)
    · exact .inr (hs.trans hb.symm)
  · -- the new cell: its blocks are dirty
    left
    unfold Cell.Has at hca
    rcases he.taken c hn with ⟨f, hf, hfr, hle, hof, hln⟩ | hbn
    · rcases hm c hn rfl f ⟨b, hl.toHolds, hf⟩ hfr hle a (by omega) (by omega) with hdr | ⟨hbl, hne⟩
      · exact he.ext.dirty _ hdr
      · rw [hbl, ← hof]
        exact he.dirty c hn rfl (by rwa [hof])
    · exact he.ext.grown rfl _ (by omega) (by omega)

lemma call_inv {op : HiveOp} (hp : PersistInv s) (hok : CallOk s.Hive op)
    (hcv : Covered s (.call op)) : ∃ s', persistStep s (.call op) = some s' ∧ PersistInv s' := by
  obtain ⟨h', t, b, b', g, n, hr, he, -, htk⟩ := hiveStep_spec hp.inv hok hcv.1
  refine ⟨{ s with Hive := h' }, ?_, he.persistInv hp fun c hc ht => ?_⟩
  · rw [persistStep, hr]
    rfl
  · subst ht
    exact hcv.2 (htk c hc)

lemma write_inv {cl o : Nat} {data : List (BitVec 8)} (hp : PersistInv s)
    (hok : PersistOk s (.write cl o data)) (hcv : Covered s (.write cl o data)) :
    ∃ s', persistStep s (.write cl o data) = some s' ∧ PersistInv s' := by
  obtain ⟨c, ha, hf⟩ := hok
  obtain ⟨b, hs, hc⟩ := hp.inv.allocatedAt ha
  have hl := hs.layout
  have hln := (hl.cell_ok hc).len_pos
  have hcl : cl = c.Offset := ha.index
  subst hcl
  obtain ⟨bm, hm, hsz, hb⟩ := hvMarkCellDirty_spec hl hp.inv.ok hc
  let h1 : HHive := { s.Hive with DirtyVector := bm, DirtyCount := (s.Hive.DirtyCount + 1) % 2 ^ 32 }
  have hg : hvGetCell h1 c.Offset = some ⟨.stable, c.Offset + 4⟩ := Layout.data (h := h1) (t := .stable) hl hc
  let h2 := h1.modifyMem .stable (writeBytes · (c.Offset + 4 + o) data)
  have hst : h2.Storage .stable = { s.Hive.Storage .stable with
      Mem := writeBytes (s.Hive.Storage .stable).Mem (c.Offset + 4 + o) data } :=
    HHive.modifyMem_same h1 .stable _
  have ho : ∀ t ≠ .stable, h2.Storage t = s.Hive.Storage t := fun t ht => HHive.modifyMem_ne h1 _ ht
  have hs2 : StorageInv .stable (h2.Storage .stable) b := by
    rw [hst]
    exact hs.writeData fun a hna => if_neg fun hin => hna ⟨c, hc, ha.allocated, by omega, by omega⟩
  have hdr : ∀ i, s.Hive.DirtyVector.testBit i → bm.testBit i := fun i hi => by rw [hb, hi, Bool.true_or]
  refine ⟨{ s with Hive := h2 }, ?_, ⟨⟨?_, ?_, ?_⟩, fun t => ?_⟩, hp.sequence, hp.outcomes,
    fun x hx hxa a hxh => ?_⟩
  · rw [persistStep, hm, do_some, hg]
    rfl
  · rw [hst]
    exact hsz.trans hp.inv.ok.size
  · intro i hi
    change bm.testBit i = true at hi
    rw [hb, Bool.or_eq_true, decide_eq_true_iff] at hi
    rw [hst]
    rcases hi with hi | ⟨rfl, -⟩
    · exact hp.inv.ok.below i hi
    have := hl.cell_end hc
    dsimp only
    omega
  · rw [hst]
    exact hp.inv.ok.length
  · by_cases ht : t = .stable
    · subst ht
      exact ⟨b, hs2⟩
    · rw [ho t ht]
      exact hp.inv.storage t
  change bm.testBit (a / 4096) ∨ s.File.Bytes (4096 + a) = (h2.Storage .stable).Mem a
  have hxm := (HiveInv.isCell hs2).mp hx
  by_cases hin : c.Offset + 4 + o ≤ a ∧ a < c.Offset + 4 + o + data.length
  · -- a byte that is written
    left
    rcases hcv c ha (a - (c.Offset + 4 + o)) (by omega) with hd | ⟨hbl, hne⟩
    · rw [show c.Offset + 4 + o + (a - (c.Offset + 4 + o)) = a by omega] at hd
      exact hdr _ hd
    · rw [show c.Offset + 4 + o + (a - (c.Offset + 4 + o)) = a by omega] at hbl
      rw [hb, decide_eq_true ⟨hbl, hne⟩, Bool.or_true]
  have hby : (h2.Storage .stable).Mem a = (s.Hive.Storage .stable).Mem a := by
    rw [hst]
    exact if_neg hin
  rcases hp.saved x ⟨b, hl.toHolds, hxm⟩ hxa a hxh with hd | hsv
  · exact .inl (hdr _ hd)
  · exact .inr (hsv.trans hby.symm)

lemma clearDirty_testBit {h : HHive} (hok : HiveOk h) (i : Nat) :
    (clearDirty h).DirtyVector.testBit i = false := by
  have ho : h.DirtyVector.SizeOfBitMap ≤ i → h.DirtyVector.testBit i = false := fun hi => by
    by_contra hs
    have hlt := hok.below i (Bool.eq_true_of_not_eq_false hs)
    have hle := le_roundUp (h.Storage .stable).Length (b := 32) (by decide)
    rw [hok.size] at hi
    omega
  by_cases hi : i < h.DirtyVector.SizeOfBitMap
  · exact rtlClearAllBits_testBit _ hi
  change (rtlClearAllBits h.DirtyVector).testBit i = false
  rw [rtlClearAllBits, fillMemory_testBit]
  split
  · exact BitVec.getLsbD_zero
  · exact ho (by omega)

/-- A flush without failures brings the file up to date. -/
lemma sync_inv (hp : PersistInv s) (t : Nat) :
    ∃ h' d', hvSyncHive s.Hive t s.File = some (true, h', d') ∧ h'.Storage = s.Hive.Storage ∧
      PersistInv ⟨h', d'⟩ ∧ ∀ c, IsCell h' .stable c → c.Allocated → ∀ a, c.Has a → Saved ⟨h', d'⟩ a := by
  have hf := hp.inv.flushOk
  by_cases hcl : ∀ i, s.Hive.DirtyVector.testBit i = false
  · refine ⟨s.Hive, s.File, hvSyncHive_clean hf hcl t s.File, rfl, hp, fun c hc ha a hca => ?_⟩
    refine (hp.saved c hc ha a hca).resolve_left fun hd => ?_
    rw [hcl] at hd
    cases hd
  let b := BaseBlock.setTimeStamp s.Hive.BaseBlock t
  obtain ⟨d', hr, hot, hw⟩ := writeResult_ok s.Hive b true hp.outcomes
  let h' : HHive := clearDirty { s.Hive with BaseBlock := closeHeader (openHeader b) }
  have hsy := hvSyncHive_dirty hf hp.sequence hcl t s.File
  rw [hr] at hsy
  have hl : BaseBlock.Length (closeHeader (openHeader b)) = BaseBlock.Length s.Hive.BaseBlock := by
    simp only [BaseBlock.Length, b]
    rw [close_readUlong _ (by omega), open_readUlong _ (by omega), stamp_readUlong _ _ (by omega)]
  have hbt : ∀ i, h'.DirtyVector.testBit i = false := clearDirty_testBit (h := { s.Hive with BaseBlock := _ })
    ⟨hp.inv.ok.size, hp.inv.ok.below, hl.trans hp.inv.ok.length⟩
  have hsv : ∀ c, IsCell h' .stable c → c.Allocated → ∀ a, c.Has a → Saved ⟨h', d'⟩ a := by
    intro c hc ha a hca
    obtain ⟨bn, hs⟩ := hp.inv.storage .stable
    have he := hs.layout.cell_end ((HiveInv.isCell hs).mp hc)
    have hmd := Nat.mod_lt a (show 0 < 4096 by decide)
    have hsp : 4096 + a = 4096 * (a / 4096 + 1) + a % 4096 := by omega
    by_cases hd : s.Hive.DirtyVector.testBit (a / 4096)
    · have hm : a / 4096 ∈ blocksFrom s.Hive true 0 := mem_blocksFrom.mpr
        ⟨⟨Nat.zero_le _, by unfold Cell.Has at hca; omega⟩, fun _ => hd⟩
      have hb := hw.blocks _ hm _ hmd
      rw [Nat.div_add_mod] at hb
      rw [Saved, hsp]
      exact hb
    have hm : a / 4096 ∉ blocksFrom s.Hive true 0 := fun hm => hd ((mem_blocksFrom.mp hm).2 rfl)
    have hb := hw.others _ hm _ hmd
    have ho := (hp.saved c hc ha a hca).resolve_left hd
    rw [Saved, hsp] at ho ⊢
    exact hb.trans ho
  refine ⟨h', d', hsy, rfl, ⟨⟨⟨hp.inv.ok.size, fun i hi => ?_, hl.trans hp.inv.ok.length⟩, hp.inv.storage⟩,
    closeHeader_eq (setTimeStamp_eq hp.sequence t), hot, fun c hc ha a hca => .inr (hsv c hc ha a hca)⟩,
    hsv⟩
  rw [hbt i] at hi
  cases hi

lemma persistStep_inv {op : PersistOp} (hp : PersistInv s) (hok : PersistOk s op)
    (hc : Covered s op) : ∃ s', persistStep s op = some s' ∧ PersistInv s' := by
  cases op with
  | call op => exact call_inv hp hok hc
  | write c o data => exact write_inv hp hok hc
  | sync t =>
    obtain ⟨h', d', hs, -, hp', -⟩ := sync_inv hp t
    refine ⟨⟨h', d'⟩, ?_, hp'⟩
    rw [persistStep, hs]
    rfl

lemma persistInv_new {fn : Option (List (BitVec 16))} {h0 : HHive} {d : Device}
    (hn : hvpCreateHive fn true = .ok h0) (hd : d.Outcomes = []) : PersistInv ⟨h0, d⟩ := by
  have hin := hvpCreateHive_inv hn
  cases hn
  refine ⟨hin, ?_, hd, fun c hc => ?_⟩
  · change BaseBlock.Sequence1 (newBaseBlock fn) = BaseBlock.Sequence2 (newBaseBlock fn)
    rw [BaseBlock.Sequence1, BaseBlock.Sequence2, newBlock_readUlong fn (by omega),
      newBlock_readUlong fn (by omega)]
    decide +kernel
  obtain ⟨b, hs⟩ := hin.storage .stable
  have he := hs.layout.cell_end ((HiveInv.isCell hs).mp hc)
  have hl := (hs.layout.cell_ok ((HiveInv.isCell hs).mp hc)).len_pos
  change c.Offset + c.len ≤ 4096 * 0 at he
  omega

/-- In every run of covered steps from a new hive, a block in which the content
of an allocated cell differs from the file is dirty, and after a flush without
failures the file has all bytes of the allocated stable cells. -/
theorem hive_persistent {fileName : Option (List (BitVec 16))} {h₀ : HHive} {dev : Device} {ops : List PersistOp}
    {s : HiveFile} (hcreate : hvpCreateHive fileName true = .ok h₀) (hdev : dev.Outcomes = [])
    (hrun : Run persistStep (fun s op => PersistOk s op ∧ Covered s op) ⟨h₀, dev⟩ ops s) :
    (∀ c, IsCell s.Hive .stable c → c.Allocated → ∀ a, c.Has a → ¬ Saved s a →
      s.Hive.DirtyVector.testBit (a / 4096) = true) ∧
    ∀ time, ∃ h' dev', hvSyncHive s.Hive time s.File = some (true, h', dev') ∧ h'.Storage = s.Hive.Storage ∧
      ∀ c, IsCell h' .stable c → c.Allocated → ∀ a, c.Has a → Saved ⟨h', dev'⟩ a := by
  have hp : PersistInv s := by
    refine hrun.invariant PersistInv (fun {s op s'} hp hok hsp => ?_) (persistInv_new hcreate hdev)
    obtain ⟨s₁, hr, hp'⟩ := persistStep_inv hp hok.1 hok.2
    cases hr.symm.trans hsp
    exact hp'
  refine ⟨fun c hc ha a hca hns => (hp.saved c hc ha a hca).resolve_right hns, fun time => ?_⟩
  obtain ⟨h', dev', hsy, hst, -, hs⟩ := sync_inv hp time
  exact ⟨h', dev', hsy, hst, hs⟩

theorem hive_persistent_one_cell : ∃ h₀ s, hvpCreateHive none true = .ok h₀ ∧
    Run persistStep (fun s op => PersistOk s op ∧ Covered s op) ⟨h₀, ⟨fun _ => 0, [], []⟩⟩
      [.call (.allocate 20 .stable ⟨true, true, true⟩), .sync 0] s ∧
    (∀ c, IsCell s.Hive .stable c → c.Allocated → ∀ a, c.Has a → ¬ Saved s a →
      s.Hive.DirtyVector.testBit (a / 4096) = true) ∧
    ∀ time, ∃ h' dev', hvSyncHive s.Hive time s.File = some (true, h', dev') ∧ h'.Storage = s.Hive.Storage ∧
      ∀ c, IsCell h' .stable c → c.Allocated → ∀ a, c.Has a → Saved ⟨h', dev'⟩ a := by
  let s₀ : HiveFile := ⟨newHive none, ⟨fun _ => 0, [], []⟩⟩
  let op : PersistOp := .call (.allocate 20 .stable ⟨true, true, true⟩)
  have hp : PersistInv s₀ := persistInv_new (show hvpCreateHive none true = .ok (newHive none) from rfl) rfl
  have hg := newHive_goodCall .stable (show 20 ≤ 8192 by decide)
  have hok : PersistOk s₀ op := hg.1
  have hc : Covered s₀ op := by
    refine ⟨hg.2, fun _ f hf => ?_⟩
    obtain ⟨b, hs⟩ := hp.inv.storage .stable
    have he := hs.layout.cell_end ((HiveInv.isCell hs).mp hf)
    have hl := (hs.layout.cell_ok ((HiveInv.isCell hs).mp hf)).len_pos
    change f.Offset + f.len ≤ 4096 * 0 at he
    omega
  obtain ⟨s₁, hst₁, hp₁⟩ := persistStep_inv hp hok hc
  obtain ⟨s₂, hst₂, -⟩ : ∃ s₂, persistStep s₁ (.sync 0) = some s₂ ∧ PersistInv s₂ :=
    persistStep_inv hp₁ trivial trivial
  have hr : Run persistStep (fun s op => PersistOk s op ∧ Covered s op) s₀ [op, .sync 0] s₂ :=
    .cons ⟨hok, hc⟩ hst₁ (.single ⟨trivial, trivial⟩ hst₂)
  exact ⟨newHive none, s₂, rfl, hr, hive_persistent rfl rfl hr⟩

/-- What can be read of a storage with one bin of two blocks, in which an allocated cell
of 5008 bytes is followed by a free one. -/
def SpanReads (d : Dual) : Prop :=
  d.Length = 2 ∧ (∀ k < 2, (d.BlockList k).BlockAddress = some (4096 * k) ∧ (d.BlockList k).BinAddress = some 0) ∧
    d.Mem.readUlong 0 = HV_BIN_SIGNATURE ∧ d.Mem.readUlong 4 = 0 ∧ d.Mem.readUlong 8 = 8192 ∧
    d.Mem.readLong 32 = -5008 ∧ d.Mem.readLong 5040 = 3152

instance (d : Dual) : Decidable (SpanReads d) := by unfold SpanReads; infer_instance

lemma SpanReads.holds {d : Dual} (h : SpanReads d) : Holds d [⟨0, 8192, [⟨32, -5008⟩, ⟨5040, 3152⟩]⟩] := by
  obtain ⟨hl, hbl, hs, ho, hsz, hc, hc'⟩ := h
  refine ⟨?_, fun b hb => ?_, fun b hb k h1 h2 => ?_⟩
  · rw [hl]
    exact ⟨rfl, rfl⟩
  · cases List.mem_singleton.mp hb
    refine ⟨hs, ho, hsz, by decide, by decide, ⟨rfl, rfl, rfl⟩, fun c hcm => ?_⟩
    simp only [List.mem_cons, List.not_mem_nil, or_false] at hcm
    rcases hcm with rfl | rfl
    · exact ⟨hc, by decide, by decide⟩
    · exact ⟨hc', by decide, by decide⟩
  cases List.mem_singleton.mp hb
  obtain ⟨h3, h4⟩ := hbl k (by dsimp only at h2; omega)
  cases heq : d.BlockList k with
  | mk ba bs =>
    rw [heq] at h3 h4
    simp_all

lemma SpanReads.allocatedAt {h : HHive} (hr : SpanReads (h.Storage .stable)) :
    AllocatedAt h 32 .stable ⟨32, -5008⟩ :=
  ⟨⟨_, hr.holds, by decide⟩, by decide, rfl⟩

/-- A cell is allocated over two blocks and flushed; then a byte in its second block is
written and announced. The next flush does not write the block. -/
theorem hive_persistent_fails : ∃ h₀ s h' dev', hvpCreateHive none true = .ok h₀ ∧
    Run persistStep PersistOk ⟨h₀, ⟨fun _ => 0, [], []⟩⟩
      [.call (.allocate 5000 .stable ⟨true, true, true⟩), .sync 0, .write 32 4200 [1]] s ∧
    hvSyncHive s.Hive 0 s.File = some (true, h', dev') ∧
    ∃ c, IsCell h' .stable c ∧ c.Allocated ∧ ∃ a, c.Has a ∧ ¬ Saved ⟨h', dev'⟩ a := by
  have hrd : ((persistStep ⟨newHive none,
    ⟨fun _ => 0, [], []⟩⟩ (.call (.allocate 5000 .stable ⟨true, true, true⟩))).bind
      fun s₁ => (persistStep s₁ (.sync 0)).bind fun s₂ => (persistStep s₂ (.write 32 4200 [1])).bind fun s₃ =>
        (hvSyncHive s₃.Hive 0 s₃.File).map fun r => (decide (SpanReads (s₂.Hive.Storage .stable)),
          decide (SpanReads (r.2.1.Storage .stable)), r.1, r.2.2.Bytes 8332, (r.2.1.Storage .stable).Mem 4236)) =
      some (true, true, true, 0, 1) := by
    decide +kernel
  obtain ⟨s₁, h1, hrd⟩ := bind_eq_some_iff.mp hrd
  obtain ⟨s₂, h2, hrd⟩ := bind_eq_some_iff.mp hrd
  obtain ⟨s₃, h3, hrd⟩ := bind_eq_some_iff.mp hrd
  obtain ⟨⟨ok, h', dev'⟩, h4, hrd⟩ := map_eq_some_iff.mp hrd
  simp only [Prod.mk.injEq, decide_eq_true_eq] at hrd
  obtain ⟨hr₂, hr', rfl, hb, hm⟩ := hrd
  have hrn : Run persistStep PersistOk ⟨newHive none, ⟨fun _ => 0, [], []⟩⟩
      [.call (.allocate 5000 .stable ⟨true, true, true⟩), .sync 0, .write 32 4200 [1]] s₃ :=
    .cons (show roundUp (5000 + 4) 16 < 2 ^ 32 by decide) h1
      (.cons trivial h2 (.single ⟨_, hr₂.allocatedAt, by decide⟩ h3))
  refine ⟨newHive none, s₃, h', dev', rfl, hrn, h4, ⟨32, -5008⟩, hr'.allocatedAt.isCell, by decide, 4236, ?_, ?_⟩
  · exact ⟨by decide, by decide⟩
  intro hs
  change dev'.Bytes 8332 = (h'.Storage .stable).Mem 4236 at hs
  rw [hb, hm] at hs
  exact absurd hs (by decide)

end FreeNT.Cmlib
