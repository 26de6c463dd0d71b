import FreeNT.Cmlib.HiveRun

/-!
# Loading a hive (`lib/cmlib/hiveinit.c`, `hivecell.c`)

`hvpInitializeMemoryHive` copies the bins of an image in memory to a hive
(`loadBins`) and rebuilds the free lists (`hvpCreateHiveFreeCellList`). Both walk along
sizes that stand in the image. A step that would read or write out of bounds, or
fail an assertion, gives `none`, and so does a walk that takes more than `fuel`
turns: the routine returns if some `fuel` gives a result.

* `loadBins_ok`, `loadBins_rejected`: what the first walk does to bins that tile the
  image, up to its end or up to a bad header;
* `loadBins_inv`: these are the only ways it returns;
* `addFreeCells_eq`: the second walk adds the free cells of a bin in their order.
-/

namespace FreeNT.Cmlib

open FreeNT.Rtl List Option

def hvpVerifyHiveHeader (b : Mem) : Bool :=
  !(BaseBlock.Signature b != HV_SIGNATURE || BaseBlock.Major b != HSYS_MAJOR || BaseBlock.Minor b < HSYS_MINOR ||
    BaseBlock.FileType b != HFILE_TYPE_PRIMARY || BaseBlock.Format b != HBASE_FORMAT_MEMORY ||
      BaseBlock.Cluster b != 1 ||
    BaseBlock.Sequence1 b != BaseBlock.Sequence2 b || hvpHiveHeaderChecksum b != BaseBlock.CheckSum b)

/-- The outcomes of the allocations of `HvpInitializeMemoryHive`. -/
structure LoadAlloc where
  BaseBlock : Bool
  BlockList : Bool
  Bin : Nat → Bool
  Bitmap : Bool

/-- All allocations succeed. -/
def LoadAlloc.all : LoadAlloc := ⟨true, true, fun _ => true, true⟩

/-- The storage with the bin of `size` bytes at block `k` of the image. -/
def copyBin (d : Dual) (image : Mem) (k size : Nat) : Dual :=
  { d with
    BlockList := fun j =>
      if j = k ∨ k ≤ j ∧ j < k + size / 4096 then ⟨some (4096 * j), some (4096 * k)⟩ else d.BlockList j
    Mem := d.Mem.copy (4096 * k) image ((k + 1) * 4096) size }

/-- The walk over the bins of an image of `4096 + chunkSize` bytes: the `n`-th bin is at block `k`. -/
def loadBins (image : Mem) (chunkSize : Nat) (alloc : Nat → Bool) :
    Nat → Nat → Nat → Dual → Option (Except NtStatus Dual)
  | 0, _, _, _ => none
  | fuel + 1, n, k, d =>
    if k < d.Length then
      let size := image.readUlong ((k + 1) * 4096 + 8)
      if image.readUlong ((k + 1) * 4096) ≠ HV_BIN_SIGNATURE ∨ size % 4096 ≠ 0 then some (.error .registryCorrupt)
      else if !alloc n then some (.error .noMemory)
      -- the copy stays in the image, and the entries in the block list
      else if 4096 * k + size ≤ chunkSize ∧ k + size / 4096 ≤ d.Length then
        loadBins image chunkSize alloc fuel (n + 1) (k + size / 4096) (copyBin d image k size)
      else none
    else some (.ok d)

/-- The inner loop of `HvpCreateHiveFreeCellList`: the cells of the bin at `bin`, whose memory
has `size` bytes, from `freeOffset` on. -/
def addFreeCells (h : HHive) (bin : Ptr) (size : Nat) : Nat → Nat → Option HHive
  | 0, _ => none
  | fuel + 1, freeOffset =>
    if freeOffset < h.readUlong (bin.add 8) then
      if freeOffset + 4 ≤ size then
        let freeBlock := bin.add freeOffset
        let cellSize := h.readLong freeBlock
        if 0 < cellSize then
          -- the link is written after the header
          if freeOffset + 8 ≤ size then do
            let h ← hvpAddFree h freeBlock ((h.readUlong (bin.add 4) + freeOffset) % 2 ^ 32)
            addFreeCells h bin size fuel ((freeOffset + cellSize.toNat) % 2 ^ 32)
          else none
        else addFreeCells h bin size fuel ((freeOffset + (-cellSize).toNat) % 2 ^ 32)
      else none
    else some h

/-- The outer loop of `HvpCreateHiveFreeCellList`, from block `blockIndex` on. -/
def addFreeBins (fuel : Nat) : Nat → HHive → Nat → Option HHive
  | 0, _, _ => none
  | turns + 1, h, blockIndex =>
    if blockIndex < (h.Storage .stable).Length then do
      let binAddress ← ((h.Storage .stable).BlockList blockIndex).BinAddress
      let bin : Ptr := ⟨.stable, binAddress⟩
      let h ← addFreeCells h bin (h.readUlong (bin.add 8)) fuel 32
      addFreeBins fuel turns h (blockIndex + h.readUlong (bin.add 8) / 4096)
    else some h

/-- The hive with empty free lists. -/
def clearLists (h : HHive) : HHive :=
  { h with Storage := fun t => { h.Storage t with FreeDisplay := fun _ => HCELL_NIL } }

def hvpCreateHiveFreeCellList (fuel : Nat) (h : HHive) : Option HHive := addFreeBins fuel fuel (clearLists h) 0

/-- A storage of `length` blocks, before any bin is copied. -/
def blankDual (length : Nat) : Dual := { emptyDual with Length := length }

/-- The hive with the base block of the image and the stable storage `d`. -/
def loadedHive (image : Mem) (d : Dual) : HHive where
  BaseBlock := fun a => if a < 4096 then image a else 0
  DirtyVector := ⟨0, fun _ => 0⟩
  DirtyCount := 0
  Version := BaseBlock.Minor image
  Storage := fun t => if t = .stable then d else emptyDual

/-- The end of `HvpInitializeMemoryHive`, after the bins are copied. -/
def finishLoad (image : Mem) (fileName : Option (List (BitVec 16))) (allocated : Bool) (fuel : Nat) (d : Dual) :
    Option (Except NtStatus HHive) := do
  let h ← hvpCreateHiveFreeCellList fuel (loadedHive image d)
  if !allocated then return .error .noMemory
  else
    let bitmapSize := roundUp (h.Storage .stable).Length 32 / 8
    let dirtyVector := rtlClearAllBits (rtlInitializeBitMap (fun _ => 0) (bitmapSize * 8))
    return .ok { h with DirtyVector := dirtyVector, BaseBlock := hvpInitFileName h.BaseBlock fileName }

/-- `HvpInitializeMemoryHive`, into a hive structure that `HvInitialize` has cleared. -/
def hvpInitializeMemoryHive (image : Mem) (fileName : Option (List (BitVec 16))) (alloc : LoadAlloc) (fuel : Nat) :
    Option (Except NtStatus HHive) :=
  let chunkSize := BaseBlock.Length image
  if chunkSize < 4096 || !hvpVerifyHiveHeader image then some (.error .registryCorrupt)
  else if !alloc.BaseBlock || !alloc.BlockList then some (.error .noMemory)
  else do
    match ← loadBins image chunkSize alloc.Bin fuel 0 0 (blankDual (chunkSize / 4096)) with
    | .error status => return .error status
    | .ok d => finishLoad image fileName alloc.Bitmap fuel d

/-! ## The walk over the bins -/

/-- The image has a bin of the offset and the size of `b`. -/
structure ImageBin (image : Mem) (b : Bin) : Prop where
  signature : image.readUlong (4096 + b.Offset) = HV_BIN_SIGNATURE
  size : image.readUlong (4096 + b.Offset + 8) = b.Size
  pos : 0 < b.Size
  aligned : b.Size % 4096 = 0

/-- The header at the offset `e` is one that the walk refuses. -/
def BadHeader (image : Mem) (e : Nat) : Prop :=
  image.readUlong (4096 + e) ≠ HV_BIN_SIGNATURE ∨ image.readUlong (4096 + e + 8) % 4096 ≠ 0

/-- From `d` to `d'` the bytes from `a` to `e` of the image were copied, as the bins `bins`. -/
structure Copied (image : Mem) (a e : Nat) (bins : List Bin) (d d' : Dual) : Prop where
  length : d'.Length = d.Length
  mem : ∀ x, a ≤ x → x < e → d'.Mem x = image (4096 + x)
  keep : ∀ x < a, d'.Mem x = d.Mem x
  blocks : ∀ b ∈ bins, ∀ j, b.Offset ≤ 4096 * j → 4096 * j < b.Offset + b.Size →
    d'.BlockList j = ⟨some (4096 * j), some b.Offset⟩
  keepBlocks : ∀ j, 4096 * j < a → d'.BlockList j = d.BlockList j

variable {image : Mem} {cs : Nat} {al : Nat → Bool}

lemma Copied.cons {d d' : Dual} {b : Bin} {bs : List Bin} {k e : Nat} (ho : b.Offset = 4096 * k)
    (hp : 0 < b.Size) (ha : b.Size % 4096 = 0)
    (hc : Copied image (b.Offset + b.Size) e bs (copyBin d image k b.Size) d') :
    Copied image b.Offset e (b :: bs) d d' := by
  refine ⟨hc.length, fun x h1 h2 => ?_, fun x hx => ?_, fun b' hb' j h1 h2 => ?_, fun j hj => ?_⟩
  · by_cases hx : x < b.Offset + b.Size
    · rw [hc.keep x hx]
      refine (if_pos ⟨by omega, by omega⟩).trans ?_
      rw [show (k + 1) * 4096 + (x - 4096 * k) = 4096 + x by omega]
    · exact hc.mem x (by omega) h2
  · rw [hc.keep x (by omega)]
    exact if_neg (by omega)
  · rcases mem_cons.mp hb' with rfl | hb'
    · rw [hc.keepBlocks j h2, ho]
      exact if_pos (.inr ⟨by omega, by omega⟩)
    · exact hc.blocks b' hb' j h1 h2
  · rw [hc.keepBlocks j (by omega)]
    exact if_neg (by omega)

variable {b : Bin} {fuel k : Nat} {d : Dual}

lemma loadBins_step (hb : ImageBin image b) {n : Nat} (ho : b.Offset = 4096 * k)
    (hk : b.Offset + b.Size ≤ 4096 * d.Length) (he : b.Offset + b.Size ≤ cs) :
    loadBins image cs al (fuel + 1) n k d =
      if al n then
        loadBins image cs al fuel (n + 1) (k + b.Size / 4096) (copyBin d image k b.Size)
      else some (.error .noMemory) := by
  have hp := hb.pos
  have ha : (k + 1) * 4096 = 4096 + b.Offset := by omega
  rw [loadBins, if_pos (by omega), ha, hb.size]
  rw [if_neg (by rw [hb.signature, hb.aligned]; simp)]
  cases al n with
  | false => rfl
  | true =>
    rw [if_neg (by decide), if_pos ⟨by omega, by omega⟩]
    rfl

variable {bins : List Bin} {e : Nat}

/-- The walk passes the bins that tile the image up to `e`, or stops for want of memory. -/
lemma loadBins_bins (ht : Tiles Bin.Offset Bin.Size (4096 * k) e bins)
    (hbn : ∀ b ∈ bins, ImageBin image b) (he : e ≤ cs) (hl : e ≤ 4096 * d.Length) (fuel n : Nat) :
    loadBins image cs al (bins.length + fuel) n k d = some (.error .noMemory) ∧ ¬ (∀ i, al i) ∨
      ∃ d', loadBins image cs al (bins.length + fuel) n k d =
        loadBins image cs al fuel (n + bins.length) (e / 4096) d' ∧
        Copied image (4096 * k) e bins d d' := by
  induction bins generalizing k n d with
  | nil =>
    have hke : 4096 * k = e := ht
    refine .inr ⟨d, ?_, rfl, fun x h1 h2 => by omega, fun _ _ => rfl, nofun, fun _ _ => rfl⟩
    rw [length_nil, Nat.zero_add, Nat.add_zero, show e / 4096 = k by omega]
  | cons b bs ih =>
    obtain ⟨ho, hr⟩ := ht
    have hb := hbn b mem_cons_self
    have hp := hb.pos
    have hal := hb.aligned
    have hle := hr.le
    have hn : 4096 * (k + b.Size / 4096) = 4096 * k + b.Size := by omega
    rw [length_cons, show bs.length + 1 + fuel = bs.length + fuel +
      1 by omega, loadBins_step hb ho (by omega) (by omega)]
    by_cases ha : al n
    swap
    · rw [if_neg ha]
      exact .inl ⟨rfl, fun hall => ha (hall n)⟩
    rw [if_pos ha]
    rw [← hn] at hr
    rcases ih hr (fun b' hb' => hbn b' (mem_cons_of_mem _ hb')) hl (n + 1)
      (d := copyBin d image k b.Size) with hm | ⟨d', heq, hc⟩
    · exact .inl hm
    refine .inr ⟨d', by rw [heq, show n + 1 + bs.length = n + (bs.length + 1) by omega], ?_⟩
    rw [← ho]
    rw [hn, ← ho] at hc
    exact hc.cons ho hp hal

lemma loadBins_ok {bins : List Bin} {d : Dual} (ht : Tiles Bin.Offset Bin.Size 0 (4096 * d.Length) bins)
    (hb : ∀ b ∈ bins, ImageBin image b) (he : 4096 * d.Length ≤ cs) {fuel : Nat} (hf : bins.length < fuel) :
    loadBins image cs al fuel 0 0 d = some (.error .noMemory) ∧ ¬ (∀ i, al i) ∨
      ∃ d', loadBins image cs al fuel 0 0 d = some (.ok d') ∧ Copied image 0 (4096 * d.Length) bins d d' := by
  obtain ⟨fuel, rfl⟩ := Nat.exists_eq_add_of_lt hf
  refine (loadBins_bins (k := 0) ht hb he (Nat.le_refl _) (fuel + 1) 0).imp_right ?_
  intro ⟨d', heq, hc⟩
  refine ⟨d', heq.trans ?_, hc⟩
  rw [loadBins, if_neg (by rw [hc.length]; omega)]

/-- The walk comes to a bad header, and refuses the image. -/
lemma loadBins_rejected (ht : Tiles Bin.Offset Bin.Size 0 e bins)
    (hb : ∀ b ∈ bins, ImageBin image b) (he : e ≤ cs) (hl : e < 4096 * d.Length)
    (hm : e % 4096 = 0) (hbd : BadHeader image e) (hf : bins.length < fuel) :
    loadBins image cs al fuel 0 0 d = some (.error .noMemory) ∧ ¬ (∀ i, al i) ∨
      loadBins image cs al fuel 0 0 d = some (.error .registryCorrupt) := by
  obtain ⟨fuel, rfl⟩ := Nat.exists_eq_add_of_lt hf
  rw [Nat.add_assoc]
  refine (loadBins_bins (k := 0) ht hb he (Nat.le_of_lt hl) (fuel + 1) 0).imp_right ?_
  intro ⟨d', heq, hc⟩
  have hd : (e / 4096 + 1) * 4096 = 4096 + e := by omega
  rw [heq, loadBins, if_pos (by rw [hc.length]; omega), hd]
  exact if_pos hbd

/-- With enough memory, these are the only ways in which the walk returns. -/
lemma loadBins_inv {n : Nat} {r : Except NtStatus Dual} (hk : k ≤ d.Length)
    (h : loadBins image cs (fun _ => true) fuel n k d = some r) :
    ∃ bins e, Tiles Bin.Offset Bin.Size (4096 * k) e bins ∧ (∀ b ∈ bins, ImageBin image b) ∧ (bins = [] ∨ e ≤ cs) ∧
      (e = 4096 * d.Length ∧ (∃ d', r = .ok d' ∧ Copied image (4096 * k) e bins d d') ∨
        e < 4096 * d.Length ∧ e % 4096 = 0 ∧ BadHeader image e ∧ r = .error .registryCorrupt) := by
  induction fuel generalizing n k d with
  | zero => cases h
  | succ fuel ih =>
    by_cases hlt : k < d.Length
    swap
    · rw [loadBins, if_neg hlt] at h
      cases h
      refine ⟨[], 4096 * k, rfl, nofun, .inl rfl,
        .inl ⟨by omega, d, rfl, rfl, fun x h1 h2 => by omega, fun _ _ => rfl, nofun,
        fun _ _ => rfl⟩⟩
    have ha : (k + 1) * 4096 = 4096 + 4096 * k := by omega
    rw [loadBins, if_pos hlt, ha] at h
    generalize hsz : image.readUlong (4096 + 4096 * k + 8) = size at h
    by_cases hbd : image.readUlong (4096 + 4096 * k) ≠ HV_BIN_SIGNATURE ∨ size % 4096 ≠ 0
    · rw [if_pos hbd] at h
      cases h
      exact ⟨[], 4096 * k, rfl, nofun, .inl rfl, .inr ⟨by omega, by omega, by rwa [BadHeader, hsz], rfl⟩⟩
    rw [if_neg hbd, if_neg (by decide)] at h
    obtain ⟨hs, hm⟩ := not_or.mp hbd
    rw [not_not] at hs hm
    by_cases hin : 4096 * k + size ≤ cs ∧ k + size / 4096 ≤ d.Length
    swap
    · rw [if_neg hin] at h
      cases h
    rw [if_pos hin] at h
    obtain ⟨bins, e, ht, hbn, hor, hen⟩ := ih (show _ ≤ (copyBin d image k size).Length from hin.2) h
    have hp : 0 < size := by
      -- a walk that stands still meets the same bin again
      by_contra hz
      obtain rfl : size = 0 := by omega
      rw [show k + 0 / 4096 = k by omega] at ht
      cases bins with
      | nil =>
        have hke : 4096 * k = e := ht
        rcases hen with ⟨hen, -⟩ | ⟨-, -, hbd', -⟩
        · change e = 4096 * d.Length at hen
          omega
        · rw [BadHeader, ← hke, hsz] at hbd'
          exact hbd hbd'
      | cons b bs =>
        have hb := hbn b mem_cons_self
        have := hb.pos
        have hbs := hb.size
        rw [ht.1, hsz] at hbs
        omega
    have hn : 4096 * (k + size / 4096) = 4096 * k + size := by omega
    rw [hn] at ht hen
    have hb : ImageBin image ⟨4096 * k, size, []⟩ := ⟨hs, hsz, hp, hm⟩
    refine ⟨⟨4096 * k, size, []⟩ :: bins, e, ⟨rfl, ht⟩, fun b' hb' => ?_, .inr ?_, hen.imp_left ?_⟩
    · rcases mem_cons.mp hb' with rfl | hb'
      · exact hb
      · exact hbn b' hb'
    · rcases hor with rfl | he
      · have : 4096 * k + size = e := ht
        omega
      · exact he
    · intro ⟨he, d', hr, hc⟩
      exact ⟨he, d', hr, Copied.cons (b := ⟨4096 * k, size, []⟩) rfl hp hm hc⟩

/-! ## The walk over the cells -/

/-- From `h` to `h'` only links changed: free lists, and stable memory at addresses in `P`. -/
structure Relinked (P : Nat → Prop) (h h' : HHive) : Prop where
  length : ∀ t, (h'.Storage t).Length = (h.Storage t).Length
  blocks : ∀ t, (h'.Storage t).BlockList = (h.Storage t).BlockList
  mem : ∀ a, ¬ P a → (h'.Storage .stable).Mem a = (h.Storage .stable).Mem a
  baseBlock : h'.BaseBlock = h.BaseBlock
  version : h'.Version = h.Version

variable {a : Nat}

namespace Relinked

variable {P Q : Nat → Prop} {h h' h'' : HHive}

lemma refl (P : Nat → Prop) (h : HHive) : Relinked P h h := ⟨fun _ => rfl, fun _ => rfl, fun _ _ => rfl, rfl, rfl⟩

lemma trans (r : Relinked P h h') (r' : Relinked P h' h'') : Relinked P h h'' :=
  ⟨fun t => (r'.length t).trans (r.length t), fun t => (r'.blocks t).trans (r.blocks t),
    fun a ha => (r'.mem a ha).trans (r.mem a ha), r'.baseBlock.trans r.baseBlock, r'.version.trans r.version⟩

lemma mono (r : Relinked P h h') (hPQ : ∀ a, P a → Q a) : Relinked Q h h' :=
  { r with mem := fun a ha => r.mem a fun hp => ha (hPQ a hp) }

lemma of_upd {t : HStorageType} (u : Upd t P h h') (hPQ : ∀ a, P a → Q a) : Relinked Q h h' := by
  refine ⟨u.lengths, fun t' => ?_, fun a ha => ?_, u.baseBlock, u.version⟩
  · by_cases ht : t' = t
    · rw [ht, u.blocks]
    · rw [u.other t' ht]
  by_cases ht : .stable = t
  · rw [ht]
    exact u.mem a fun hp => ha (hPQ a hp)
  · rw [u.other _ ht]

section

variable (r : Relinked P h h') (ha : ∀ x, a ≤ x → x < a + 4 → ¬ P x)

include r ha

lemma readUlong :
    h'.readUlong ⟨.stable, a⟩ = h.readUlong ⟨.stable, a⟩ :=
  Mem.readUlong_congr fun x h1 h2 => r.mem x (ha x h1 h2)

lemma readLong :
    h'.readLong ⟨.stable, a⟩ = h.readLong ⟨.stable, a⟩ :=
  Mem.readLong_congr fun x h1 h2 => r.mem x (ha x h1 h2)

end

end Relinked

/-- `HvpAddFree` asserts that the cell has 8 bytes; else it writes one link. -/
lemma hvpAddFree_cases (h : HHive) (a i : Nat) :
    h.readUlong ⟨.stable, a⟩ < 8 ∧ hvpAddFree h ⟨.stable, a⟩ i = none ∨
      8 ≤ h.readUlong ⟨.stable, a⟩ ∧ ∃ h', hvpAddFree h ⟨.stable, a⟩ i = some h' ∧
        Relinked (fun x => a + 4 ≤ x ∧ x < a + 8) h h' := by
  by_cases h8 : 8 ≤ h.readUlong ⟨.stable, a⟩
  · refine .inr ⟨h8, ?_⟩
    rw [hvpAddFree, hvpComputeFreeListIndex, if_pos h8, do_some]
    refine ⟨_, rfl, ?_⟩
    refine (Relinked.of_upd (Upd.writeUlong h .stable (a + 4) _) fun x hx => ?_).trans
      (Relinked.of_upd (Upd.writeDisplay (P := fun _ => False) _ _ _ i) fun _ => False.elim)
    omega
  · exact .inl ⟨by omega, by rw [hvpAddFree, hvpComputeFreeListIndex, if_neg h8]; rfl⟩

/-- A cell of the bin, added if it is free. -/
def addCell (h : HHive) (bin : Ptr) (c : Cell) : Option HHive :=
  if c.Free then hvpAddFree h ⟨.stable, c.Offset⟩ ((h.readUlong (bin.add 4) + (c.Offset - bin.Addr)) % 2 ^ 32)
  else some h

/-- The free cells of a list, added in order. -/
def addCells (h : HHive) (bin : Ptr) : List Cell → Option HHive
  | [] => some h
  | c :: cs => do
    let h ← addCell h bin c
    addCells h bin cs

/-- The memory of the stable storage has the header of a cell, in a bin that ends at `e`. -/
structure HasHeader (m : Mem) (e : Nat) (c : Cell) : Prop where
  header : m.readLong c.Offset = c.Size
  ne_zero : c.Size ≠ 0
  inside : c.Offset + 4 ≤ e

/-- The links of the free cells of a list. -/
def LinkAt (cs : List Cell) (a : Nat) : Prop := ∃ c ∈ cs, c.Free ∧ c.Offset + 4 ≤ a ∧ a < c.Offset + 8

variable {h h' : HHive}

lemma HasHeader.relinked {o : Nat} {c : Cell} (hc : HasHeader (h.Storage .stable).Mem e c)
    (r : Relinked (fun x => o + 4 ≤ x ∧ x < o + 8) h h') (ho : o + 8 ≤ c.Offset) :
    HasHeader (h'.Storage .stable).Mem e c :=
  ⟨(r.readLong (a := c.Offset) fun x _ _ => by omega).trans hc.header, hc.ne_zero, hc.inside⟩

lemma HasHeader.readUlong {m : Mem} {c : Cell} (hc : HasHeader m e c) (hf : c.Free) :
    m.readUlong c.Offset = c.len := by
  rw [Mem.readUlong_of_readLong hc.header (Int.le_of_lt hf), Cell.len]
  simp only [Cell.Free] at hf
  omega

lemma addFreeCells_eq {bin size : Nat} {cs : List Cell} (fuel : Nat) (hlt : size < 2 ^ 32)
    (hsz : h.readUlong ⟨.stable, bin + 8⟩ = size) (ha : bin + 32 ≤ a)
    (ht : Tiles Cell.Offset Cell.len a (bin + size) cs)
    (hcs : ∀ c ∈ cs, HasHeader (h.Storage .stable).Mem (bin + size) c) :
    addFreeCells h ⟨.stable, bin⟩ size fuel (a - bin) =
      if cs.length < fuel then addCells h ⟨.stable, bin⟩ cs else none := by
  induction cs generalizing fuel h a with
  | nil =>
    have he : a = bin + size := ht
    cases fuel with
    | zero => rfl
    | succ fuel =>
      rw [addFreeCells, if_neg (by rw [show Ptr.add ⟨.stable, bin⟩ 8 = ⟨.stable, bin + 8⟩ from rfl, hsz]; omega),
        if_pos (by simp)]
      rfl
  | cons c cs ih =>
    obtain ⟨rfl, hr⟩ := ht
    have hc := hcs c mem_cons_self
    have hin := hc.inside
    have he := hr.le
    cases fuel with
    | zero => rfl
    | succ fuel =>
      have had : Ptr.add ⟨.stable, bin⟩ (c.Offset - bin) = ⟨.stable, c.Offset⟩ := by
        rw [Ptr.add, show bin + (c.Offset - bin) = c.Offset by omega]
      have hrd : h.readLong ⟨.stable, c.Offset⟩ = c.Size := hc.header
      have hn : (c.Offset - bin + c.len) % 2 ^ 32 = c.Offset + c.len - bin := by omega
      rw [addFreeCells, if_pos (by rw [show Ptr.add ⟨.stable, bin⟩ 8 = ⟨.stable, bin + 8⟩ from rfl, hsz]; omega),
        if_pos (by omega), had, addCells, addCell]
      dsimp only
      rw [hrd]
      by_cases hf : c.Free
      swap
      · rw [if_neg (show ¬ 0 < c.Size from hf), if_neg hf, Cell.toNat_neg hf, hn, do_some,
          ih fuel hsz (by omega) hr fun c' hc' => hcs c' (mem_cons_of_mem _ hc')]
        simp [length_cons]
      rw [if_pos (show 0 < c.Size from hf), if_pos hf, hf.toNat, hn]
      rcases hvpAddFree_cases h c.Offset
        ((h.readUlong (Ptr.add ⟨.stable, bin⟩ 4) + (c.Offset - bin)) % 2 ^ 32) with ⟨-, hno⟩ | ⟨h8, h', hs, r⟩
      · rw [hno]
        split <;> split <;> rfl
      have h8 : 8 ≤ c.len := by rwa [← hc.readUlong hf]
      rw [if_pos (by omega), hs]
      simp only [do_some]
      rw [ih fuel ((r.readUlong fun x _ _ => by omega).trans hsz) (by omega) hr fun c' hc' => ?_]
      · simp only [length_cons, Nat.add_lt_add_iff_right]
      · have := (hr.mem_bounds hc').1
        exact (hcs c' (mem_cons_of_mem _ hc')).relinked r (by omega)

lemma addCells_iff {h : HHive} {bin : Ptr} {a e : Nat} {cs : List Cell} (ht : Tiles Cell.Offset Cell.len a e cs)
    (hcs : ∀ c ∈ cs, HasHeader (h.Storage .stable).Mem e c) :
    (∃ h', addCells h bin cs = some h') ↔ ∀ c ∈ cs, c.Free → 8 ≤ c.len := by
  induction cs generalizing h a with
  | nil => exact ⟨fun _ => nofun, fun _ => ⟨h, rfl⟩⟩
  | cons c cs ih =>
    obtain ⟨rfl, hr⟩ := ht
    have hc := hcs c mem_cons_self
    rw [forall_mem_cons, addCells, addCell]
    by_cases hfr : c.Free
    swap
    · rw [if_neg hfr, do_some, ih hr fun c' hc' => hcs c' (mem_cons_of_mem _ hc')]
      exact ⟨fun ha => ⟨fun hf => absurd hf hfr, ha⟩, And.right⟩
    rw [if_pos hfr]
    rcases hvpAddFree_cases h c.Offset ((h.readUlong (bin.add 4) + (c.Offset - bin.Addr)) % 2 ^ 32) with
      ⟨h8, hn⟩ | ⟨h8, h', hs, r⟩
    · have h8 : c.len < 8 := by rwa [← hc.readUlong hfr]
      rw [hn]
      exact ⟨nofun, fun ha => absurd (ha.1 hfr) (by omega)⟩
    have h8 : 8 ≤ c.len := by rwa [← hc.readUlong hfr]
    rw [hs, do_some, ih hr fun c' hc' => ?_]
    · exact ⟨fun ha => ⟨fun _ => h8, ha⟩, And.right⟩
    · have := (hr.mem_bounds hc').1
      exact (hcs c' (mem_cons_of_mem _ hc')).relinked r (by omega)

lemma addCells_relinked {bin : Ptr} {cs : List Cell} (had : addCells h bin cs = some h') :
    Relinked (LinkAt cs) h h' := by
  induction cs generalizing h with
  | nil =>
    cases had
    exact .refl ..
  | cons c cs ih =>
    obtain ⟨h1, hfs, hr⟩ := bind_eq_some_iff.mp had
    refine Relinked.trans ?_ ((ih hr).mono fun a ⟨c', hc', hl⟩ => ⟨c', mem_cons_of_mem _ hc', hl⟩)
    rw [addCell] at hfs
    by_cases hf : c.Free
    · rw [if_pos hf] at hfs
      rcases hvpAddFree_cases h c.Offset ((h.readUlong (bin.add 4) + (c.Offset - bin.Addr)) % 2 ^ 32) with
        ⟨-, hn⟩ | ⟨-, h2, hs, r⟩
      · cases hn.symm.trans hfs
      · cases hs.symm.trans hfs
        exact r.mono fun a ha => ⟨c, mem_cons_self, hf, ha⟩
    rw [if_neg hf] at hfs
    cases hfs
    exact .refl ..

/-- The free cells of a list of bins, added in order. -/
def addBins (h : HHive) : List Bin → Option HHive
  | [] => some h
  | b :: bs => do
    let h ← addCells h ⟨.stable, b.Offset⟩ b.Cells
    addBins h bs

/-- The stable storage holds a bin whose cells tile it. -/
structure HasBin (d : Dual) (b : Bin) : Prop where
  binAddress : (d.BlockList (b.Offset / 4096)).BinAddress = some b.Offset
  size : d.Mem.readUlong (b.Offset + 8) = b.Size
  pos : 0 < b.Size
  aligned : b.Size % 4096 = 0
  tiles : Tiles Cell.Offset Cell.len (b.Offset + 32) (b.Offset + b.Size) b.Cells
  cells : ∀ c ∈ b.Cells, HasHeader d.Mem (b.Offset + b.Size) c

/-- Links of free cells of another bin, all of 8 bytes, are apart from a bin. -/
lemma HasBin.relinked {b' : Bin} (hb : HasBin (h.Storage .stable) b)
    (hb' : HasBin (h.Storage .stable) b') (h8 : ∀ c ∈ b'.Cells, c.Free → 8 ≤ c.len)
    (r : Relinked (LinkAt b'.Cells) h h') (he : b'.Offset + b'.Size ≤ b.Offset) :
      HasBin (h'.Storage .stable) b := by
  have hn : ∀ x, b.Offset ≤ x → ¬ LinkAt b'.Cells x := by
    rintro x hx ⟨c, hc, hf, h1, h2⟩
    have := h8 c hc hf
    have := (hb'.tiles.mem_bounds hc).2
    omega
  refine ⟨by rw [r.blocks]; exact hb.binAddress, ?_, hb.pos, hb.aligned, hb.tiles, fun c hc => ?_⟩
  · exact (r.readUlong (a := b.Offset + 8) fun x h1 _ => hn x (by omega)).trans hb.size
  have hck := hb.cells c hc
  have := (hb.tiles.mem_bounds hc).1
  exact ⟨(r.readLong (a := c.Offset) fun x h1 _ => hn x (by omega)).trans hck.header, hck.ne_zero, hck.inside⟩

lemma hasBin_after {bs : List Bin}
    (ht : Tiles Bin.Offset Bin.Size (b.Offset + b.Size) e bs) (hbn : ∀ b' ∈ b :: bs, HasBin (h.Storage .stable) b')
    (ha : addCells h ⟨.stable, b.Offset⟩ b.Cells = some h') : ∀ b' ∈ bs, HasBin (h'.Storage .stable) b' := by
  intro b' hb'
  have hb := hbn b mem_cons_self
  have h8 := (addCells_iff hb.tiles hb.cells).mp ⟨h', ha⟩
  exact (hbn b' (mem_cons_of_mem _ hb')).relinked hb h8 (addCells_relinked ha) (ht.mem_bounds hb').1

lemma addFreeBins_eq (fuel t : Nat)
    (he : e = 4096 * (h.Storage .stable).Length) (ht : Tiles Bin.Offset Bin.Size (4096 * k) e bins)
    (hbn : ∀ b ∈ bins, HasBin (h.Storage .stable) b) :
    addFreeBins fuel t h k =
      if bins.length < t ∧ ∀ b ∈ bins, b.Cells.length < fuel then addBins h bins else none := by
  induction bins generalizing t h k with
  | nil =>
    have hen : 4096 * k = e := ht
    cases t with
    | zero => rfl
    | succ t =>
      rw [addFreeBins, if_neg (by omega), if_pos ⟨by simp, nofun⟩]
      rfl
  | cons b bs ih =>
    obtain ⟨ho, hr⟩ := ht
    have hb := hbn b mem_cons_self
    have hp := hb.pos
    have hal := hb.aligned
    have hle := hr.le
    have hsz : h.readUlong ⟨.stable, b.Offset + 8⟩ = b.Size := hb.size
    cases t with
    | zero => rfl
    | succ t =>
      have hlt : b.Size < 2 ^ 32 := hb.size ▸ Mem.readUlong_lt _ _
      have hcl := addFreeCells_eq fuel hlt hsz (Nat.le_refl _) hb.tiles hb.cells
      rw [Nat.add_sub_cancel_left] at hcl
      have ha := hb.binAddress
      rw [show b.Offset / 4096 = k by omega] at ha
      rw [addFreeBins, if_pos (by omega), ha, do_some]
      dsimp only
      rw [show Ptr.add ⟨.stable, b.Offset⟩ 8 = ⟨.stable, b.Offset + 8⟩ from rfl, hsz, hcl, addBins]
      by_cases hf : b.Cells.length < fuel
      swap
      · rw [if_neg hf, if_neg fun hall => hf (hall.2 b mem_cons_self)]
        rfl
      rw [if_pos hf]
      cases had : addCells h ⟨.stable, b.Offset⟩ b.Cells with
      | none => split <;> rfl
      | some h₁ =>
        have r := addCells_relinked had
        have hsz1 : h₁.readUlong ⟨.stable, b.Offset + 8⟩ = b.Size := by
          refine (r.readUlong fun x h1 h2 => ?_).trans hsz
          rintro ⟨c, hc, -, h3, -⟩
          have := (hb.tiles.mem_bounds hc).1
          omega
        rw [bind_eq_bind, bind_some, bind_some, hsz1]
        rw [ih t (by rw [r.length]; exact he) (by rwa [Nat.mul_add, show 4096 * (b.Size / 4096) = b.Size by omega])
          (hasBin_after (by rwa [ho]) hbn had)]
        simp [length_cons, hf, true_and]

lemma addBins_iff (ht : Tiles Bin.Offset Bin.Size a e bins) (hbn : ∀ b ∈ bins, HasBin (h.Storage .stable) b) :
    (∃ h', addBins h bins = some h') ↔ ∀ b ∈ bins, ∀ c ∈ b.Cells, c.Free → 8 ≤ c.len := by
  induction bins generalizing h a with
  | nil => exact ⟨fun _ => nofun, fun _ => ⟨h, rfl⟩⟩
  | cons b bs ih =>
    obtain ⟨rfl, hr⟩ := ht
    have hb := hbn b mem_cons_self
    have hif := @addCells_iff h ⟨.stable, b.Offset⟩ _ _ _ hb.tiles hb.cells
    rw [forall_mem_cons, ← hif, addBins]
    cases had : addCells h ⟨.stable, b.Offset⟩ b.Cells with
    | none => exact ⟨nofun, fun ha => ha.1⟩
    | some h1 =>
      rw [do_some, ih hr (hasBin_after hr hbn had)]
      exact ⟨fun ha => ⟨⟨h1, rfl⟩, ha⟩, And.right⟩

lemma addBins_relinked (ha : addBins h bins = some h') : Relinked (LinkAt (cells bins)) h h' := by
  induction bins generalizing h with
  | nil =>
    cases ha
    exact .refl ..
  | cons b bs ih =>
    rw [addBins] at ha
    obtain ⟨h1, hf, hr⟩ := bind_eq_some_iff.mp ha
    refine ((addCells_relinked hf).mono ?_).trans ((ih hr).mono ?_)
    · intro a ⟨c, hc, hl⟩
      exact ⟨c, mem_cells.mpr ⟨b, mem_cons_self, hc⟩, hl⟩
    intro a ⟨c, hc, hl⟩
    obtain ⟨b', hb', hc⟩ := mem_cells.mp hc
    exact ⟨c, mem_cells.mpr ⟨b', mem_cons_of_mem _ hb', hc⟩, hl⟩

end FreeNT.Cmlib
