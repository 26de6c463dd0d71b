import FreeNT.Rtl.BitmapSearch
import FreeNT.Lib.Device
import FreeNT.Cmlib.HiveRun

/-!
# Writing a hive to its primary file (`lib/cmlib/hivewrt.c`)

`hvpWriteHive` counts `Sequence1` up, writes the base block, then all blocks or
the dirty ones, counts `Sequence2` up and writes the base block again; it
refuses a hive whose two counters differ. `hvSyncHive` writes the dirty blocks
and clears the dirty vector. `HvpWriteLog` returns at its start, and the code goes
on when `FileFlush` fails, so that neither is part of the model.

`hvpWriteHive_spec` says what is written, in the terms of a device: the requests
`blockRequests`, between two base blocks. From it:

* `hvSyncHive_ok`: a flush without failures brings the file up to date;
* `flush_recoverable_iff`: a failed flush can be repeated only if it failed at the
  last write.
-/

namespace FreeNT.Cmlib

open FreeNT.Rtl List Option BaseBlock Device

/-- The base block with `Sequence1` counted up. -/
def openHeader (b : Mem) : Mem :=
  let b := BaseBlock.setFileType b HFILE_TYPE_PRIMARY
  let b := BaseBlock.setSequence1 b (BaseBlock.Sequence1 b + 1)
  BaseBlock.setCheckSum b (hvpHiveHeaderChecksum b)

/-- The base block with `Sequence2` counted up. -/
def closeHeader (b : Mem) : Mem :=
  let b := BaseBlock.setSequence2 b (BaseBlock.Sequence2 b + 1)
  BaseBlock.setCheckSum b (hvpHiveHeaderChecksum b)

def headerRequest (b : Mem) : WriteRequest := ⟨0, b, 0, 4096⟩

/-- The loop of `HvpWriteHive` over the blocks, from `blockIndex` on. -/
def writeBlocks (h : HHive) (onlyDirty : Bool) : Nat → Nat → Device → Option (Bool × Device)
  | 0, _, _ => none
  | fuel + 1, lastIndex, dev =>
    if lastIndex < (h.Storage .stable).Length then do
      let blockIndex ← if onlyDirty then rtlFindSetBits h.DirtyVector 1 lastIndex else some lastIndex
      if onlyDirty && (blockIndex == MAXINDEX || blockIndex < lastIndex) then return (true, dev)
      else
        let blockPtr ← ((h.Storage .stable).BlockList blockIndex).BlockAddress
        let (ok, dev) := dev.write ⟨(blockIndex + 1) * 4096 % 2 ^ 32, (h.Storage .stable).Mem, blockPtr, 4096⟩
        if ok then writeBlocks h onlyDirty fuel ((blockIndex + 1) % 2 ^ 32) dev else return (false, dev)
    else some (true, dev)

def hvpWriteHive (h : HHive) (onlyDirty : Bool) (dev : Device) : Option (Bool × HHive × Device) :=
  if BaseBlock.Length h.BaseBlock = (h.Storage .stable).Length * 4096 % 2 ^ 32 then
    if BaseBlock.Sequence1 h.BaseBlock ≠ BaseBlock.Sequence2 h.BaseBlock then some (false, h, dev)
    else do
      let h := { h with BaseBlock := openHeader h.BaseBlock }
      let (ok, dev) := dev.write (headerRequest h.BaseBlock)
      if !ok then return (false, h, dev)
      else
        let (ok, dev) ← writeBlocks h onlyDirty ((h.Storage .stable).Length + 1) 0 dev
        if !ok then return (false, h, dev)
        else
          let h := { h with BaseBlock := closeHeader h.BaseBlock }
          let (ok, dev) := dev.write (headerRequest h.BaseBlock)
          return (ok, h, dev)
  else none

/-- `HvSyncHive`, at the system time `time`. -/
def hvSyncHive (h : HHive) (time : Nat) (dev : Device) : Option (Bool × HHive × Device) := do
  if (← rtlFindSetBits h.DirtyVector 1 0) = MAXINDEX then return (true, h, dev)
  else
    let h := { h with BaseBlock := BaseBlock.setTimeStamp h.BaseBlock time }
    let (ok, h, dev) ← hvpWriteHive h true dev
    if ok then return (true, { h with DirtyVector := rtlClearAllBits h.DirtyVector, DirtyCount := 0 }, dev)
    else return (false, h, dev)

/-- `HvWriteHive`, at the system time `time`. -/
def hvWriteHive (h : HHive) (time : Nat) (dev : Device) : Option (Bool × HHive × Device) :=
  hvpWriteHive { h with BaseBlock := BaseBlock.setTimeStamp h.BaseBlock time } false dev

/-! ## The blocks written -/

/-- What a flush needs of a hive: the dirty vector and the length of the base
block are those of the stable storage, and its blocks are in memory. -/
structure FlushOk (h : HHive) : Prop where
  ok : HiveOk h
  mapped : ∀ i < (h.Storage .stable).Length, ((h.Storage .stable).BlockList i).BlockAddress = some (4096 * i)
  range : 4096 * (h.Storage .stable).Length < 2 ^ 31

variable {h : HHive}

lemma HiveInv.flushOk (hin : HiveInv h) : FlushOk h := by
  obtain ⟨bn, hs⟩ := hin.storage .stable
  have hl := hs.layout
  refine ⟨hin.ok, fun i hi => ?_, hl.range⟩
  obtain ⟨b, hb, h1, h2⟩ := hl.tiles.cover (Nat.zero_le (4096 * i)) (by omega)
  rw [hl.blocks b hb i h1 h2]

/-- What a write of all blocks needs. -/
structure WriteOk (h : HHive) : Prop where
  length : BaseBlock.Length h.BaseBlock = 4096 * (h.Storage .stable).Length
  mapped : ∀ i < (h.Storage .stable).Length, ((h.Storage .stable).BlockList i).BlockAddress = some (4096 * i)
  range : 4096 * ((h.Storage .stable).Length + 1) < 2 ^ 32

lemma FlushOk.writeOk (hf : FlushOk h) : WriteOk h := by
  have hr := hf.range
  exact ⟨hf.ok.length, hf.mapped, by omega⟩

variable {b : Mem}

lemma FlushOk.withBaseBlock (hf : FlushOk h)
    (hl : BaseBlock.Length b = BaseBlock.Length h.BaseBlock) : FlushOk { h with BaseBlock := b } :=
  ⟨⟨hf.ok.size, hf.ok.below, hl.trans hf.ok.length⟩, hf.mapped, hf.range⟩

lemma WriteOk.withBaseBlock (hw : WriteOk h)
    (hl : BaseBlock.Length b = BaseBlock.Length h.BaseBlock) : WriteOk { h with BaseBlock := b } :=
  ⟨hl.trans hw.length, hw.mapped, hw.range⟩

def blockRequest (h : HHive) (i : Nat) : WriteRequest := ⟨4096 * (i + 1), (h.Storage .stable).Mem, 4096 * i, 4096⟩

/-- The blocks to write, from `k` on. -/
def blocksFrom (h : HHive) (onlyDirty : Bool) (k : Nat) : List Nat :=
  (List.range' k ((h.Storage .stable).Length - k)).filter fun i => !onlyDirty || h.DirtyVector.testBit i

def blockRequests (h : HHive) (onlyDirty : Bool) : List WriteRequest :=
  (blocksFrom h onlyDirty 0).map (blockRequest h)

variable {h : HHive} {od : Bool}

variable {k : Nat}

lemma mem_blocksFrom {i : Nat} : i ∈ blocksFrom h od k ↔
    (k ≤ i ∧ i < (h.Storage .stable).Length) ∧ (od → h.DirtyVector.testBit i) := by
  simp only [blocksFrom, mem_filter, mem_range'_1, Bool.or_eq_true, Bool.not_eq_true']
  cases od <;> simp <;> omega

lemma blocksFrom_of_le (hk : (h.Storage .stable).Length ≤ k) : blocksFrom h od k = [] := by
  simp [blocksFrom, Nat.sub_eq_zero_of_le hk]

lemma blocksFrom_next {j : Nat} (hkj : k ≤ j) (hj : j < (h.Storage .stable).Length)
    (hsk : ∀ i, k ≤ i → i < j → (od ∧ h.DirtyVector.testBit i = false))
    (hb : od → h.DirtyVector.testBit j) :
    blocksFrom h od k = j :: blocksFrom h od (j + 1) := by
  have hs : range' k ((h.Storage .stable).Length - k) =
      range' k (j - k) ++ j :: range' (j + 1) ((h.Storage .stable).Length - (j + 1)) := by
    rw [← range'_succ, show (h.Storage .stable).Length - k = (j - k) +
      ((h.Storage .stable).Length - (j + 1) + 1) by omega, ← range'_append_1, show k + (j - k) = j by omega]
  have hf : (range' k (j - k)).filter (fun i => !od || h.DirtyVector.testBit i) = [] := by
    rw [filter_eq_nil_iff]
    intro i hi
    obtain ⟨h1, h2⟩ := mem_range'_1.mp hi
    obtain ⟨hd, hc⟩ := hsk i h1 (by omega)
    simp [hd, hc]
  have hh : (!od || h.DirtyVector.testBit j) = true := by
    cases od
    · rfl
    · exact hb rfl
  rw [blocksFrom, hs, filter_append, hf, nil_append, filter_cons, if_pos hh]
  rfl

lemma blocksFrom_clear (hc : ∀ i, k ≤ i → i < (h.Storage .stable).Length → h.DirtyVector.testBit i = false) :
    blocksFrom h true k = [] := by
  rw [eq_nil_iff_forall_not_mem]
  intro i hi
  obtain ⟨⟨h1, h2⟩, hb⟩ := mem_blocksFrom.mp hi
  rw [hc i h1 h2] at hb
  exact absurd (hb rfl) (by decide)

lemma FlushOk.size_lt (hf : FlushOk h) : h.DirtyVector.SizeOfBitMap < 2 ^ 31 := by
  have := hf.range
  rw [hf.ok.size, roundUp]
  omega

lemma FlushOk.length_le (hf : FlushOk h) : (h.Storage .stable).Length ≤ h.DirtyVector.SizeOfBitMap := by
  rw [hf.ok.size]
  exact le_roundUp _ (by decide)

lemma writeBlocks_step (hw : WriteOk h) {n j : Nat} (hj : j < (h.Storage .stable).Length) (dev : Device)
    {rs : List WriteRequest} (hr : ∀ dev, writeBlocks h od n (j + 1) dev = some (dev.writeAll rs)) :
    (do
      let bp ← ((h.Storage .stable).BlockList j).BlockAddress
      let (ok, dev) := dev.write ⟨(j + 1) * 4096 % 2 ^ 32, (h.Storage .stable).Mem, bp, 4096⟩
      if ok then writeBlocks h od n ((j + 1) % 2 ^ 32) dev else return (false, dev)) =
        some (dev.writeAll (blockRequest h j :: rs)) := by
  have hrn := hw.range
  rw [hw.mapped j hj, do_some, Nat.mod_eq_of_lt (show (j + 1) * 4096 < 2 ^ 32 by omega),
    Nat.mod_eq_of_lt (show j + 1 < 2 ^ 32 by omega), Nat.mul_comm (j + 1), writeAll]
  dsimp only
  change (if (dev.write (blockRequest h j)).1 = true then _ else _) = _
  split
  · exact hr _
  · rfl

lemma writeBlocks_spec (hw : WriteOk h) (hf : od → FlushOk h) {n : Nat}
    (hfl : (h.Storage .stable).Length - k < n) (dev : Device) :
    writeBlocks h od n k dev = some (dev.writeAll ((blocksFrom h od k).map (blockRequest h))) := by
  induction n generalizing k dev with
  | zero => cases hfl
  | succ n ih =>
    rw [writeBlocks]
    by_cases hk : k < (h.Storage .stable).Length
    swap
    · rw [if_neg hk, blocksFrom_of_le (by omega)]
      rfl
    rw [if_pos hk]
    cases od with
    | false =>
      rw [blocksFrom_next (Nat.le_refl k) hk (fun i h1 h2 => by omega) (fun h => by cases h), map_cons]
      exact writeBlocks_step hw hk dev fun dev => ih (by omega) dev
    | true =>
      have hf := hf rfl
      have hl := hf.length_le
      obtain ⟨j, hfd, hj⟩ := rtlFindSetBits_one h.DirtyVector hf.size_lt (show k < _ by omega)
      rw [if_pos rfl, hfd, do_some]
      rcases hj with ⟨hn, hc⟩ | ⟨hlt, hs, ⟨hle, hc⟩ | ⟨hlt', hc⟩⟩
      · rw [blocksFrom_clear fun i _ hi => hc i (by omega)]
        simp [hn, writeAll]
      · have hj := hf.ok.below j hs
        have hne : j ≠ MAXINDEX := by
          have := hf.size_lt
          simp only [MAXINDEX]
          omega
        rw [blocksFrom_next hle hj (fun i h1 h2 => ⟨rfl, hc i h1 h2⟩) fun _ => hs, map_cons]
        simp only [Bool.true_and, beq_eq_false_iff_ne.mpr hne, Bool.false_or, decide_eq_true_eq]
        rw [if_neg (by omega)]
        exact writeBlocks_step hw hj dev fun dev => ih (by omega) dev
      · rw [blocksFrom_clear fun i h1 h2 => hc i h1 (by omega)]
        simp [hlt', writeAll]

/-! ## The base block -/

variable {a : Nat}

lemma open_readUlong (b : Mem) (ha : a + 4 ≤ 4 ∨ 8 ≤ a ∧ a + 4 ≤ 28 ∨ 32 ≤ a ∧ a + 4 ≤ 508 ∨ 512 ≤ a) :
    (openHeader b).readUlong a = b.readUlong a := by
  simp only [openHeader, setFileType, setSequence1, setCheckSum]
  rw [Mem.readUlong_sep _ _ (by omega), Mem.readUlong_sep _ _ (by omega), Mem.readUlong_sep _ _ (by omega)]

lemma openHeader_Sequence1 (b : Mem) :
    BaseBlock.Sequence1 (openHeader b) = (BaseBlock.Sequence1 b + 1) % 2 ^ 32 := by
  simp only [openHeader, setFileType, setSequence1, setCheckSum, BaseBlock.Sequence1]
  rw [Mem.readUlong_sep _ _ (by omega), Mem.readUlong_self, Mem.readUlong_sep _ _ (by omega)]

lemma close_readUlong (b : Mem) (ha : a + 4 ≤ 8 ∨ 12 ≤ a ∧ a + 4 ≤ 508 ∨ 512 ≤ a) :
    (closeHeader b).readUlong a = b.readUlong a := by
  simp only [closeHeader, setSequence2, setCheckSum]
  rw [Mem.readUlong_sep _ _ (by omega), Mem.readUlong_sep _ _ (by omega)]

lemma closeHeader_Sequence2 (b : Mem) :
    BaseBlock.Sequence2 (closeHeader b) = (BaseBlock.Sequence2 b + 1) % 2 ^ 32 := by
  simp only [closeHeader, setSequence2, setCheckSum, BaseBlock.Sequence2]
  rw [Mem.readUlong_sep _ _ (by omega), Mem.readUlong_self]

lemma stamp_readUlong (b : Mem) (t : Nat) (ha : a + 4 ≤ 12 ∨ 20 ≤ a) :
    (BaseBlock.setTimeStamp b t).readUlong a = b.readUlong a := by
  rw [setTimeStamp, Mem.readUlong_sep _ _ (by omega), Mem.readUlong_sep _ _ (by omega)]

section

variable (hseq : BaseBlock.Sequence1 b = BaseBlock.Sequence2 b)

include hseq

lemma setTimeStamp_eq (t : Nat) :
    BaseBlock.Sequence1 (BaseBlock.setTimeStamp b t) = BaseBlock.Sequence2 (BaseBlock.setTimeStamp b t) := by
  simp only [BaseBlock.Sequence1, BaseBlock.Sequence2] at hseq ⊢
  rw [stamp_readUlong _ _ (by omega), stamp_readUlong _ _ (by omega), hseq]

lemma openHeader_ne : BaseBlock.Sequence1 (openHeader b) ≠ BaseBlock.Sequence2 (openHeader b) := by
  rw [openHeader_Sequence1, hseq, BaseBlock.Sequence2, BaseBlock.Sequence2, open_readUlong b (by omega)]
  omega

lemma closeHeader_eq :
    BaseBlock.Sequence1 (closeHeader (openHeader b)) = BaseBlock.Sequence2 (closeHeader (openHeader b)) := by
  rw [closeHeader_Sequence2, BaseBlock.Sequence1, close_readUlong _ (by omega)]
  change BaseBlock.Sequence1 (openHeader b) = _
  rw [openHeader_Sequence1, hseq, BaseBlock.Sequence2, BaseBlock.Sequence2, open_readUlong b (by omega)]

end

/-! ## Writing -/

/-- The result of `HvpWriteHive` for the base block `b`: the base block and the blocks
are written up to the first failure, and then the base block again. -/
def writeResult (h : HHive) (b : Mem) (onlyDirty : Bool) (dev : Device) : Bool × HHive × Device :=
  let (ok, dev) := dev.writeAll (headerRequest (openHeader b) :: blockRequests h onlyDirty)
  if ok then
    let (ok, dev) := dev.write (headerRequest (closeHeader (openHeader b)))
    (ok, { h with BaseBlock := closeHeader (openHeader b) }, dev)
  else (false, { h with BaseBlock := openHeader b }, dev)

lemma hvpWriteHive_spec (hw : WriteOk h) (hf : od → FlushOk h)
    (hseq : BaseBlock.Sequence1 h.BaseBlock = BaseBlock.Sequence2 h.BaseBlock)
    (dev : Device) : hvpWriteHive h od dev = some (writeResult h h.BaseBlock od dev) := by
  have hr := hw.range
  have hl : BaseBlock.Length h.BaseBlock = (h.Storage .stable).Length * 4096 % 2 ^ 32 := by
    rw [hw.length]
    omega
  have ho : BaseBlock.Length (openHeader h.BaseBlock) = BaseBlock.Length h.BaseBlock := open_readUlong _ (by omega)
  have hb : ∀ dev, writeBlocks { h with BaseBlock := openHeader h.BaseBlock } od
      ((h.Storage .stable).Length + 1) 0 dev = some (dev.writeAll (blockRequests h od)) :=
    writeBlocks_spec (hw.withBaseBlock ho) (fun hd =>
      (hf hd).withBaseBlock ho) (show (h.Storage .stable).Length - 0 < _ by omega)
  rw [hvpWriteHive, if_pos hl, if_neg (not_not.mpr hseq), writeResult, writeAll]
  dsimp only
  cases hw : dev.write (headerRequest (openHeader h.BaseBlock)) with
  | mk ok dev1 =>
    cases ok with
    | false => rfl
    | true =>
      rw [hb dev1, do_some]
      cases dev1.writeAll (blockRequests h od) with
      | mk ok dev2 => cases ok <;> rfl

lemma blockRequests_apart (h : HHive) (od : Bool) (b : Mem) :
    (headerRequest b :: blockRequests h od).Pairwise WriteRequest.Apart := by
  refine pairwise_cons.mpr ⟨fun r hr => ?_, ?_⟩
  · obtain ⟨i, -, rfl⟩ := mem_map.mp hr
    exact .inl (by simp only [headerRequest, blockRequest]; omega)
  refine pairwise_map.mpr (((pairwise_lt_range' 1).filter _).imp fun {i j} hij => .inl ?_)
  simp only [blockRequest]
  omega

/-- What a write that succeeds leaves in the file. -/
structure Wrote (h : HHive) (b : Mem) (onlyDirty : Bool) (dev dev' : Device) : Prop where
  header : ∀ k < 4096, dev'.Bytes k = b k
  written : ∀ i ∈ blocksFrom h onlyDirty 0, 4096 * (i + 1) ∈ dev'.Written
  blocks : ∀ i ∈ blocksFrom h onlyDirty 0, ∀ k < 4096,
    dev'.Bytes (4096 * (i + 1) + k) = (h.Storage .stable).Mem (4096 * i + k)
  others : ∀ i, i ∉ blocksFrom h onlyDirty 0 → ∀ k < 4096,
    dev'.Bytes (4096 * (i + 1) + k) = dev.Bytes (4096 * (i + 1) + k)

variable {dev : Device}

lemma writeResult_wrote {dev' : Device} {h' : HHive} (hrs : writeResult h b od dev = (true, h', dev')) :
    h' = { h with BaseBlock := closeHeader (openHeader b) } ∧
      Wrote h (closeHeader (openHeader b)) od dev dev' := by
  rw [writeResult] at hrs
  dsimp only at hrs
  split at hrs
  case isFalse => cases (Prod.mk.inj hrs).1
  case isTrue hok =>
    have hap := blockRequests_apart h od (openHeader b)
    have hw := writeAll_written hok
    have hb := fun r (hr : r ∈ _) k (hk : k < r.Length) => writeAll_bytes (k := k) hok hap hr hk
    have hs := fun a (ha : ∀ r ∈ headerRequest (openHeader b) :: blockRequests h od, _) =>
      writeAll_bytes_sep (a := a) dev ha
    generalize (dev.writeAll (headerRequest (openHeader b) :: blockRequests h od)).2 = dev1 at *
    obtain ⟨hls, rfl, rfl⟩ := by simpa only [Prod.mk.injEq] using hrs
    have hd' := write_ok hls
    have hl : ∀ i k, (dev1.write (headerRequest (closeHeader (openHeader b)))).2.Bytes (4096 * (i + 1) + k) =
        dev1.Bytes (4096 * (i + 1) + k) := fun i k =>
      write_bytes_sep _ _ (.inr (by simp only [headerRequest]; omega))
    refine ⟨rfl, fun k hk => ?_, fun i hi => ?_, fun i hi k hk => ?_, fun i hi k hk => ?_⟩
    · rw [hd']
      exact (if_pos ⟨Nat.zero_le _, by simp only [headerRequest]; omega⟩).trans (by simp [headerRequest])
    · rw [hd', hw]
      refine mem_cons_of_mem _ (mem_append_left _ (mem_reverse.mpr ?_))
      exact mem_map.mpr ⟨blockRequest h i, mem_cons_of_mem _ (mem_map_of_mem hi), rfl⟩
    · rw [hl]
      exact hb (blockRequest h i) (mem_cons_of_mem _ (mem_map_of_mem hi)) k hk
    rw [hl]
    refine hs _ fun r hr => ?_
    rcases mem_cons.mp hr with rfl | hr
    · exact .inr (by simp only [headerRequest]; omega)
    obtain ⟨j, hj, rfl⟩ := mem_map.mp hr
    have hne : j ≠ i := fun heq => hi (heq ▸ hj)
    simp only [blockRequest]
    omega

lemma writeResult_ok (h : HHive) (b : Mem) (od : Bool) (hd : dev.Outcomes = []) :
    ∃ dev', writeResult h b od dev = (true, { h with BaseBlock := closeHeader (openHeader b) }, dev') ∧
      dev'.Outcomes = [] ∧ Wrote h (closeHeader (openHeader b)) od dev dev' := by
  have hok := (writeAll_fst dev (headerRequest (openHeader b) :: blockRequests h od)).mpr
    (succeeds_of_outcomes hd _)
  have ho := writeAll_outcomes hd (headerRequest (openHeader b) :: blockRequests h od)
  have hl : ((dev.writeAll (headerRequest (openHeader b) :: blockRequests h od)).2.write
      (headerRequest (closeHeader (openHeader b)))).1 := by simp [write, ho]
  have hr : writeResult h b od dev = (true, { h with BaseBlock := closeHeader (openHeader b) },
      ((dev.writeAll (headerRequest (openHeader b) :: blockRequests h od)).2.write
        (headerRequest (closeHeader (openHeader b)))).2) := by
    rw [writeResult]
    dsimp only
    rw [if_pos hok, hl]
  refine ⟨_, hr, ?_, (writeResult_wrote hr).2⟩
  rw [write_outcomes, ho]
  rfl

/-! ## Flushing -/

lemma rtlFindSetBits_dirty (hf : FlushOk h) :
    ∃ r, rtlFindSetBits h.DirtyVector 1 0 = some r ∧ (r = MAXINDEX ↔ ∀ i, h.DirtyVector.testBit i = false) := by
  have hl := hf.length_le
  have hb : (∀ i < h.DirtyVector.SizeOfBitMap, h.DirtyVector.testBit i = false) →
      ∀ i, h.DirtyVector.testBit i = false := fun hc i => by
    by_contra hs
    have hs := Bool.eq_true_of_not_eq_false hs
    have := hf.ok.below i hs
    rw [hc i (by omega)] at hs
    cases hs
  by_cases hsz : h.DirtyVector.SizeOfBitMap = 0
  · exact ⟨_, rtlFindSetBits_empty _ hsz 0, fun _ => hb fun i hi => by omega, fun _ => rfl⟩
  obtain ⟨r, hr, h⟩ := rtlFindSetBits_one h.DirtyVector hf.size_lt (Nat.pos_of_ne_zero hsz)
  refine ⟨r, hr, ?_⟩
  rcases h with ⟨hn, hc⟩ | ⟨hlt, hs, -⟩
  · exact ⟨fun _ => hb hc, fun _ => hn⟩
  refine ⟨fun heq => ?_, fun hc => ?_⟩
  · have := hf.size_lt
    rw [heq, MAXINDEX] at hlt
    omega
  · rw [hc] at hs
    cases hs

/-- The hive with no dirty block. -/
def clearDirty (h : HHive) : HHive := { h with DirtyVector := rtlClearAllBits h.DirtyVector, DirtyCount := 0 }

lemma hvSyncHive_clean (hf : FlushOk h) (hc : ∀ i, h.DirtyVector.testBit i = false) (t : Nat) (dev : Device) :
    hvSyncHive h t dev = some (true, h, dev) := by
  obtain ⟨r, hr, hi⟩ := rtlFindSetBits_dirty hf
  rw [hvSyncHive, hr, do_some, if_pos (hi.mpr hc)]
  rfl

lemma hvSyncHive_dirty (hf : FlushOk h) (hseq : BaseBlock.Sequence1 h.BaseBlock = BaseBlock.Sequence2 h.BaseBlock)
    (hd : ¬ ∀ i, h.DirtyVector.testBit i = false) (t : Nat) (dev : Device) :
    hvSyncHive h t dev =
      match writeResult h (BaseBlock.setTimeStamp h.BaseBlock t) true dev with
      | (true, h', dev') => some (true, clearDirty h', dev')
      | (false, h', dev') => some (false, h', dev') := by
  have ht : FlushOk { h with BaseBlock := setTimeStamp h.BaseBlock t } :=
    hf.withBaseBlock (stamp_readUlong _ _ (by omega))
  have hw : hvpWriteHive { h with BaseBlock := setTimeStamp h.BaseBlock t } true dev =
      some (writeResult h (setTimeStamp h.BaseBlock t) true dev) := 
    hvpWriteHive_spec ht.writeOk (fun _ => ht) (setTimeStamp_eq hseq t) dev
  obtain ⟨r, hr, hi⟩ := rtlFindSetBits_dirty hf
  rw [hvSyncHive, hr, do_some, if_neg fun heq => hd (hi.mp heq)]
  dsimp only
  rw [hw, do_some]
  rcases writeResult h (setTimeStamp h.BaseBlock t) true dev with ⟨_ | _, h', dev'⟩ <;> rfl

lemma writeResult_last (h : HHive) (b : Mem) (od : Bool) (hok : dev.Succeeds ((blocksFrom h od 0).length + 1)) :
    ∃ ok dev', writeResult h b od dev = (ok, { h with BaseBlock := closeHeader (openHeader b) }, dev') := by
  have ha := (writeAll_fst dev (headerRequest (openHeader b) :: blockRequests h od)).mpr
    (by simpa [blockRequests] using hok)
  rw [writeResult]
  dsimp only
  rw [if_pos ha]
  exact ⟨_, _, rfl⟩

lemma writeResult_early (h : HHive) (b : Mem) (od : Bool) (hf : ¬ dev.Succeeds ((blocksFrom h od 0).length + 1)) :
    ∃ dev', writeResult h b od dev = (false, { h with BaseBlock := openHeader b }, dev') := by
  have ha : ¬ (dev.writeAll (headerRequest (openHeader b) :: blockRequests h od)).1 = true := by
    rw [writeAll_fst]
    simpa [blockRequests] using hf
  rw [writeResult]
  dsimp only
  rw [if_neg ha]
  exact ⟨_, rfl⟩

lemma hvSyncHive_stuck (hf : FlushOk h) (hseq : BaseBlock.Sequence1 h.BaseBlock ≠ BaseBlock.Sequence2 h.BaseBlock)
    (hd : ¬ ∀ i, h.DirtyVector.testBit i = false) (t : Nat) (dev : Device) :
    ∃ h', hvSyncHive h t dev = some (false, h', dev) := by
  have hr := hf.range
  let b := setTimeStamp h.BaseBlock t
  have hl : BaseBlock.Length b = (h.Storage .stable).Length * 4096 % 2 ^ 32 := by
    change BaseBlock.Length h.BaseBlock = _
    rw [hf.ok.length]
    omega
  have hseq' : BaseBlock.Sequence1 b ≠ BaseBlock.Sequence2 b := by
    simp only [BaseBlock.Sequence1, BaseBlock.Sequence2] at hseq ⊢
    rwa [stamp_readUlong _ _ (by omega), stamp_readUlong _ _ (by omega)]
  have hw : hvpWriteHive { h with BaseBlock := b } true dev = some (false, { h with BaseBlock := b }, dev) := by
    rw [hvpWriteHive, if_pos hl, if_pos hseq']
  refine ⟨{ h with BaseBlock := b }, ?_⟩
  obtain ⟨r, hr, hi⟩ := rtlFindSetBits_dirty hf
  rw [hvSyncHive, hr, do_some, if_neg fun heq => hd (hi.mp heq)]
  dsimp only
  rw [hw, do_some]
  rfl

/-- If the flush fails, then a later one without failures succeeds, and
writes every block that was dirty. -/
def Recoverable (h : HHive) (time : Nat) (dev : Device) : Prop :=
  ∀ h₁ dev₁, hvSyncHive h time dev = some (false, h₁, dev₁) → ∀ time', ∃ h₂ dev₂,
    hvSyncHive h₁ time' ⟨dev₁.Bytes, [], []⟩ = some (true, h₂, dev₂) ∧
    BaseBlock.Sequence1 h₂.BaseBlock = BaseBlock.Sequence2 h₂.BaseBlock ∧
    ∀ i, h.DirtyVector.testBit i = true → 4096 * (i + 1) ∈ dev₂.Written ∧
      ∀ k < 4096, dev₂.Bytes (4096 * (i + 1) + k) = (h.Storage .stable).Mem (4096 * i + k)

/-- A flush can be repeated if and only if nothing is dirty, or no write before that of
the last base block fails. -/
theorem flush_recoverable_iff (hf : FlushOk h)
    (hseq : BaseBlock.Sequence1 h.BaseBlock = BaseBlock.Sequence2 h.BaseBlock) (time : Nat) (dev : Device) :
    Recoverable h time dev ↔
      (∀ i, h.DirtyVector.testBit i = false) ∨ dev.Succeeds ((blocksFrom h true 0).length + 1) := by
  let b := openHeader (setTimeStamp h.BaseBlock time)
  have hsq := setTimeStamp_eq hseq time
  have hl : BaseBlock.Length b = BaseBlock.Length h.BaseBlock := by
    simp only [BaseBlock.Length, b]
    rw [open_readUlong _ (by omega), stamp_readUlong _ _ (by omega)]
  constructor
  · -- the failure leaves `Sequence1` ahead of `Sequence2`, and the next flush refuses the hive
    intro hrc
    by_contra hn
    obtain ⟨hd, hfl⟩ := not_or.mp hn
    obtain ⟨dev', hr⟩ := writeResult_early h (setTimeStamp h.BaseBlock time) true hfl
    have hs := hvSyncHive_dirty hf hseq hd time dev
    rw [hr] at hs
    obtain ⟨h₂, dev₂, ha, -⟩ := hrc _ _ hs 0
    have hf₁ : FlushOk { h with BaseBlock := b } := hf.withBaseBlock hl
    obtain ⟨h', hst⟩ := hvSyncHive_stuck hf₁ (openHeader_ne hsq) hd 0 ⟨dev'.Bytes, [], []⟩
    cases hst.symm.trans ha
  · rintro (hc | hok) h₁ dev₁ hs time'
    · rw [hvSyncHive_clean hf hc] at hs
      cases hs
    have hd : ¬ ∀ i, h.DirtyVector.testBit i = false := fun hc => by
      rw [hvSyncHive_clean hf hc] at hs
      cases hs
    obtain ⟨ok, dev', hr⟩ := writeResult_last h (setTimeStamp h.BaseBlock time) true hok
    rw [hvSyncHive_dirty hf hseq hd time dev, hr] at hs
    cases ok with
    | true => cases hs
    | false =>
      cases hs
      have hf₁ : FlushOk { h with BaseBlock := closeHeader b } := by
        refine hf.withBaseBlock (Eq.trans ?_ hl)
        exact close_readUlong _ (by omega)
      obtain ⟨dev₂, hr₂, -, hw⟩ := writeResult_ok { h with BaseBlock := closeHeader b }
        (setTimeStamp (closeHeader b) time') true (show (⟨dev₁.Bytes, [], []⟩ : Device).Outcomes = [] from rfl)
      have hs₂ := hvSyncHive_dirty hf₁ (closeHeader_eq hsq) hd time' ⟨dev₁.Bytes, [], []⟩
      rw [hr₂] at hs₂
      refine ⟨_, dev₂, hs₂, closeHeader_eq (setTimeStamp_eq (closeHeader_eq hsq) time'), fun i hi => ?_⟩
      have hm : i ∈ blocksFrom h true 0 := mem_blocksFrom.mpr ⟨⟨Nat.zero_le _, hf.ok.below i hi⟩, fun _ => hi⟩
      exact ⟨hw.written i hm, hw.blocks i hm⟩

lemma oneCell_flushOk : ∃ h, hiveStep (newHive none)
    (.allocate 20 .stable ⟨true, true, true⟩) = some h ∧ FlushOk h ∧
    BaseBlock.Sequence1 h.BaseBlock = BaseBlock.Sequence2 h.BaseBlock := by
  have hin := hvpCreateHive_inv (show hvpCreateHive none true = .ok (newHive none) from rfl)
  have hg := newHive_goodCall .stable (show 20 ≤ 8192 by decide)
  obtain ⟨h, t, _, _, _, _, hr, he, -⟩ := hiveStep_spec hin hg.1 hg.2
  refine ⟨h, hr, (he.hiveInv hin).flushOk, ?_⟩
  rw [BaseBlock.Sequence1, BaseBlock.Sequence2, he.ext.readUlong (by omega), he.ext.readUlong (by omega)]
  decide +kernel

/-- The last write of a flush fails, and the next flush succeeds. -/
theorem flush_recoverable_at_last_write :
    ∃ h, FlushOk h ∧ BaseBlock.Sequence1 h.BaseBlock = BaseBlock.Sequence2 h.BaseBlock ∧
    (∃ i, h.DirtyVector.testBit i = true) ∧ Recoverable h 0 ⟨fun _ => 0, [], [true, true, false]⟩ := by
  obtain ⟨h, hs, hf, hseq⟩ := oneCell_flushOk
  have hb : (hiveStep (newHive none) (.allocate 20 .stable ⟨true, true, true⟩)).map
      (fun h => (blocksFrom h true 0, h.DirtyVector.testBit 0)) = some ([0], true) := by decide +kernel
  rw [hs] at hb
  simp only [map_some, some.injEq, Prod.mk.injEq] at hb
  refine ⟨h, hf, hseq, ⟨0, hb.2⟩, (flush_recoverable_iff hf hseq 0 _).mpr (.inr ?_)⟩
  rw [hb.1]
  decide

/-- The first write of a flush fails: the next flush fails too. -/
theorem flush_recoverable_fails :
    ∃ h, FlushOk h ∧ BaseBlock.Sequence1 h.BaseBlock = BaseBlock.Sequence2 h.BaseBlock ∧
    ¬ Recoverable h 0 ⟨fun _ => 0, [], [false]⟩ := by
  obtain ⟨h, hst, hf, hseq⟩ := oneCell_flushOk
  have ht : ((hiveStep (newHive none) (.allocate 20 .stable ⟨true, true, true⟩)).bind fun h =>
      (hvSyncHive h 0 ⟨fun _ => 0, [], [false]⟩).bind fun r =>
        (hvSyncHive r.2.1 0 ⟨r.2.2.Bytes, [], []⟩).map fun r' => (r.1, r'.1)) = some (false, false) := by
    decide +kernel
  refine ⟨h, hf, hseq, fun hr => ?_⟩
  rw [hst, bind_some] at ht
  obtain ⟨⟨ok, h₁, dev₁⟩, hfr, hs⟩ := bind_eq_some_iff.mp ht
  obtain ⟨⟨ok', h₂, dev₂⟩, hrs, ho⟩ := map_eq_some_iff.mp hs
  cases ho
  obtain ⟨h₃, dev₃, ha, -⟩ := hr h₁ dev₁ hfr 0
  cases hrs.symm.trans ha

end FreeNT.Cmlib
