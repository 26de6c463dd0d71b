import FreeNT.Lib.Memory
import FreeNT.Rtl.Bitmap

/-!
# Registry hives in memory (`lib/cmlib/hivedata.h`)

A hive is a base block, a dirty vector and two storages. A storage is made of
4096-byte blocks; its bins are runs of blocks, and a bin is a 32-byte header
followed by cells. A cell is a 4-byte header, its signed size, and data: the
size is negative for an allocated cell and positive for a free one.

The memory of the bins of one storage is one `Mem`, in which the bin that
starts at block `k` of the storage is allocated at address `4096 * k`; a `Ptr`
is an address in one of the two. The constants of the header are written out:
`HBLOCK_SIZE` is 4096, `sizeof(HBIN)` 32 and `sizeof(HCELL)` 4. The model is of
a hive opened for reading and writing: `Flat` and `ReadOnly` are `FALSE`.

A cell index (`HCELL_INDEX`) is a number below `2 ^ 32`: bit 31 is the storage,
the rest the offset in it. Fallible code gives an `Option`: `none` is a failed
`ASSERT`, an access outside what is allocated, or a loop that does not end.
-/

namespace FreeNT.Cmlib

open FreeNT.Rtl

inductive HStorageType where
  | stable
  | volatile
  deriving DecidableEq, Repr

def HCELL_NIL : Nat := 0xFFFFFFFF

/-- "regf". -/
def HV_SIGNATURE : Nat := 0x66676572

/-- "hbin". -/
def HV_BIN_SIGNATURE : Nat := 0x6e696268

def HSYS_MAJOR : Nat := 1

def HSYS_MINOR : Nat := 3

def HFILE_TYPE_PRIMARY : Nat := 0

def HBASE_FORMAT_MEMORY : Nat := 1

def hvGetCellType (cell : Nat) : HStorageType := if cell / 2 ^ 31 % 2 = 0 then .stable else .volatile

def hvGetCellBlock (cell : Nat) : Nat := cell % 2 ^ 31 / 4096

/-- `Cell & HCELL_OFFSET_MASK`. -/
def hvGetCellOffset (cell : Nat) : Nat := cell % 4096

/-- `Offset | (Storage << HCELL_TYPE_SHIFT)`. -/
def orType (t : HStorageType) (offset : Nat) : Nat :=
  match t with
  | .stable => offset
  | .volatile => offset % 2 ^ 31 + 2 ^ 31

def roundUp (a b : Nat) : Nat := (a + b - 1) / b * b

structure HMapEntry where
  BlockAddress : Option Nat
  BinAddress : Option Nat

/-- One storage of a hive (`DUAL`), with the memory of its bins. -/
structure Dual where
  Length : Nat
  BlockList : Nat → HMapEntry
  FreeDisplay : Nat → Nat
  Mem : Mem

structure HHive where
  BaseBlock : Mem
  DirtyVector : RtlBitmap
  DirtyCount : Nat
  Version : Nat
  Storage : HStorageType → Dual

/-- A pointer into a bin. -/
structure Ptr where
  Storage : HStorageType
  Addr : Nat
  deriving DecidableEq, Repr

namespace HHive

def modifyStorage (h : HHive) (t : HStorageType) (f : Dual → Dual) : HHive :=
  { h with Storage := fun t' => if t' = t then f (h.Storage t') else h.Storage t' }

@[simp] lemma modifyStorage_same (h : HHive) (t : HStorageType) (f : Dual → Dual) :
    (h.modifyStorage t f).Storage t = f (h.Storage t) := if_pos rfl

lemma modifyStorage_ne (h : HHive) {t t' : HStorageType} (f : Dual → Dual) (ht : t' ≠ t) :
    (h.modifyStorage t f).Storage t' = h.Storage t' := if_neg ht

def readUlong (h : HHive) (p : Ptr) : Nat := (h.Storage p.Storage).Mem.readUlong p.Addr

def readLong (h : HHive) (p : Ptr) : Int := (h.Storage p.Storage).Mem.readLong p.Addr

def modifyMem (h : HHive) (t : HStorageType) (f : Mem → Mem) : HHive :=
  h.modifyStorage t fun d => { d with Mem := f d.Mem }

def writeUlong (h : HHive) (p : Ptr) (v : Nat) : HHive := h.modifyMem p.Storage (·.writeUlong p.Addr v)

def writeLong (h : HHive) (p : Ptr) (v : Int) : HHive := h.modifyMem p.Storage (·.writeLong p.Addr v)

@[simp] lemma modifyMem_same (h : HHive) (t : HStorageType) (f : Mem → Mem) :
    (h.modifyMem t f).Storage t = { h.Storage t with Mem := f (h.Storage t).Mem } := modifyStorage_same h t _

lemma modifyMem_ne (h : HHive) {t t' : HStorageType} (f : Mem → Mem) (ht : t' ≠ t) :
    (h.modifyMem t f).Storage t' = h.Storage t' := modifyStorage_ne h _ ht

end HHive

/-- `p + n` bytes. -/
def Ptr.add (p : Ptr) (n : Nat) : Ptr := { p with Addr := p.Addr + n }

/-- Where a link of a free list is kept: in the table of list heads, or in the
data of a free cell. -/
inductive Slot where
  | display (t : HStorageType) (i : Nat)
  | link (p : Ptr)

def HHive.readSlot (h : HHive) : Slot → Nat
  | .display t i => (h.Storage t).FreeDisplay i
  | .link p => h.readUlong p

def HHive.writeSlot (h : HHive) : Slot → Nat → HHive
  | .display t i, c =>
    h.modifyStorage t fun d => { d with FreeDisplay := fun j => if j = i then c else d.FreeDisplay j }
  | .link p, c => h.writeUlong p c

/-! ## The base block (`HBASE_BLOCK`), by the offsets of its fields -/

namespace BaseBlock

def Signature (b : Mem) : Nat := b.readUlong 0
def Sequence1 (b : Mem) : Nat := b.readUlong 4
def Sequence2 (b : Mem) : Nat := b.readUlong 8
def Major (b : Mem) : Nat := b.readUlong 20
def Minor (b : Mem) : Nat := b.readUlong 24
def FileType (b : Mem) : Nat := b.readUlong 28
def Format (b : Mem) : Nat := b.readUlong 32
def RootCell (b : Mem) : Nat := b.readUlong 36
def Length (b : Mem) : Nat := b.readUlong 40
def Cluster (b : Mem) : Nat := b.readUlong 44
def CheckSum (b : Mem) : Nat := b.readUlong 508

def setSequence1 (b : Mem) (v : Nat) : Mem := b.writeUlong 4 v
def setSequence2 (b : Mem) (v : Nat) : Mem := b.writeUlong 8 v
def setTimeStamp (b : Mem) (v : Nat) : Mem := (b.writeUlong 12 v).writeUlong 16 (v / 2 ^ 32)
def setFileType (b : Mem) (v : Nat) : Mem := b.writeUlong 28 v
def setLength (b : Mem) (v : Nat) : Mem := b.writeUlong 40 v
def setCheckSum (b : Mem) (v : Nat) : Mem := b.writeUlong 508 v

end BaseBlock

/-- `HvpHiveHeaderChecksum` (`hivesum.c`): the exclusive or of the first 127
words, without the values 0 and -1. -/
def hvpHiveHeaderChecksum (b : Mem) : Nat :=
  let sum := (List.range 127).foldl (fun sum i => sum ^^^ b.readUlong (4 * i)) 0
  let sum := if sum = 0xFFFFFFFF then 0xFFFFFFFE else sum
  if sum = 0 then 1 else sum

inductive NtStatus where
  | success
  | noMemory
  | registryCorrupt
  deriving DecidableEq, Repr

end FreeNT.Cmlib
