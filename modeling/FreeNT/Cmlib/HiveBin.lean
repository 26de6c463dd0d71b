import FreeNT.Cmlib.HiveData

/-!
# Adding a bin to a hive (`lib/cmlib/hivebin.c`)

`hvpAddBin` appends a bin to a storage: it zeroes the new memory, writes the
bin's header and one free cell that fills it, grows the block list and, for
the stable storage, the dirty vector, in which it marks the new blocks.
-/

namespace FreeNT.Cmlib

open FreeNT.Rtl

/-- The outcomes of the three allocations of `HvpAddBin`. -/
structure BinAlloc where
  Bin : Bool
  BlockList : Bool
  Bitmap : Bool
  deriving DecidableEq, Repr

/-- `RtlSetBits`, whose range must lie in the bitmap. -/
def setDirtyBits (bm : RtlBitmap) (start count : Nat) : Option RtlBitmap :=
  if start + count ≤ bm.SizeOfBitMap then some (rtlSetBits bm start count) else none

/-- The first `n` bytes of the buffer, and zeros after them. -/
def copyBitmapBytes (buffer : Nat → BitVec 32) (n : Nat) : Nat → BitVec 32 := fun w =>
  BitVec.ofNat 32 ((buffer w).toNat % 2 ^ (8 * min 4 (n - 4 * w)))

/-- The part of `HvpAddBin` that grows the dirty vector for `length` blocks. -/
def growDirtyVector (bm : RtlBitmap) (length : Nat) (allocated : Bool) : Option RtlBitmap :=
  let bitmapSize := roundUp length 32 / 8
  if bm.SizeOfBitMap / 8 < bitmapSize then
    -- the code zeroes the new buffer without having checked that it was allocated
    if allocated then
      some (rtlInitializeBitMap (copyBitmapBytes bm.Buffer (bm.SizeOfBitMap / 8)) (bitmapSize * 8))
    else none
  else some bm

/-- The memory of a new bin of `binSize` bytes at `a`. -/
def initBin (m : Mem) (a fileOffset binSize : Nat) : Mem :=
  ((((m.fill a binSize 0).writeUlong a HV_BIN_SIGNATURE).writeUlong (a + 4) fileOffset).writeUlong
    (a + 8) binSize).writeUlong (a + 32) (binSize - 32)

/-- The storage with the blocks of a new bin of `binSize` bytes. -/
def appendBin (d : Dual) (binSize : Nat) : Dual :=
  let bin := 4096 * d.Length
  let blockCount := binSize / 4096 % 2 ^ 32
  { d with
    Length := (d.Length + blockCount) % 2 ^ 32
    BlockList := fun k =>
      if d.Length ≤ k ∧ k < d.Length + blockCount then ⟨some (bin + (k - d.Length) * 4096), some bin⟩
      else d.BlockList k
    Mem := initBin d.Mem bin (d.Length * 4096 % 2 ^ 32) binSize }

/-- `HvpAddBin`: the new bin, or `none` if there was no memory for it. `BinSize` is a
`SIZE_T` of 64 bits here and does not wrap. -/
def hvpAddBin (h : HHive) (size : Nat) (t : HStorageType) (alloc : BinAlloc) :
    Option (Option Ptr × HHive) :=
  let binSize := roundUp (size + 32) 4096
  let d := h.Storage t
  let bin : Ptr := ⟨t, 4096 * d.Length⟩
  if !alloc.Bin || !alloc.BlockList then some (none, h)
  else
    let h := h.modifyStorage t (appendBin · binSize)
    match t with
    | .volatile => some (some bin, h)
    | .stable => do
      let bm ← growDirtyVector h.DirtyVector (h.Storage .stable).Length alloc.Bitmap
      let bm ← setDirtyBits bm (h.readUlong (bin.add 4) / 4096) (binSize / 4096 % 2 ^ 32)
      let baseBlock := BaseBlock.setLength h.BaseBlock (BaseBlock.Length h.BaseBlock + binSize)
      return (some bin, { h with DirtyVector := bm, BaseBlock := baseBlock })

end FreeNT.Cmlib
