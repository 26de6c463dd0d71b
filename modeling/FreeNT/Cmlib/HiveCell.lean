import FreeNT.Cmlib.HiveBin

/-!
# Cells of a hive (`lib/cmlib/hivecell.c`)

Free cells are linked in 24 lists per storage, by size: the heads are in
`FreeDisplay`, and the first data word of a free cell is the index of the next.
`hvAllocateCell` takes a cell from the lists, or from a new bin, and splits it;
`hvFreeCell` gives one back and merges it with its free neighbours.

The walks along a list take as many turns as the storage has room for cells of
16 bytes, and one; a walk that takes more does not end.
-/

namespace FreeNT.Cmlib

open FreeNT.Rtl

def hvpGetCellHeader (h : HHive) (cell : Nat) : Option Ptr :=
  let t := hvGetCellType cell
  let block := hvGetCellBlock cell
  if cell = HCELL_NIL then none
  else if block < (h.Storage t).Length then
    ((h.Storage t).BlockList block).BlockAddress.map fun a => ⟨t, a + hvGetCellOffset cell⟩
  else none

/-- `HvGetCell`: the data of a cell. -/
def hvGetCell (h : HHive) (cell : Nat) : Option Ptr := (hvpGetCellHeader h cell).map (·.add 4)

/-- `HvGetCellSize`, of the cell whose data is at `address`. -/
def hvGetCellSize (h : HHive) (address : Ptr) : Int :=
  toLong (ofLong (-h.readLong ⟨address.Storage, address.Addr - 4⟩ - 4))

def hvMarkCellDirty (h : HHive) (cell : Nat) : Option HHive :=
  match hvGetCellType cell with
  | .volatile => some h
  | .stable => do
    let cellBlock := hvGetCellBlock cell
    let cellLastBlock := hvGetCellBlock ((cell + 4096 - 1) % 2 ^ 32)
    let bm ← setDirtyBits h.DirtyVector cellBlock ((cellLastBlock + 2 ^ 32 - cellBlock) % 2 ^ 32)
    return { h with DirtyVector := bm, DirtyCount := (h.DirtyCount + 1) % 2 ^ 32 }

/-- `if (Storage == Stable) HvMarkCellDirty(RegistryHive, CellIndex, FALSE)`. -/
def markIfStable (h : HHive) (t : HStorageType) (cell : Nat) : Option HHive :=
  if t = .stable then hvMarkCellDirty h cell else some h

/-! ## Free lists -/

/-- The table `FindFirstSet` of `HvpComputeFreeListIndex`. -/
def findFirstSet : List Nat :=
  [0, 0, 1, 1, 2, 2, 2, 2, 3, 3, 3, 3, 3, 3, 3, 3, 4, 4, 4, 4, 4, 4, 4, 4, 4, 4, 4, 4, 4, 4, 4, 4,
   5, 5, 5, 5, 5, 5, 5, 5, 5, 5, 5, 5, 5, 5, 5, 5,
   5, 5, 5, 5, 5, 5, 5, 5, 5, 5, 5, 5, 5, 5, 5, 5,
   6, 6, 6, 6, 6, 6, 6, 6, 6, 6, 6, 6, 6, 6, 6, 6,
   6, 6, 6, 6, 6, 6, 6, 6, 6, 6, 6, 6, 6, 6, 6, 6,
   6, 6, 6, 6, 6, 6, 6, 6, 6, 6, 6, 6, 6, 6, 6, 6,
   6, 6, 6, 6, 6, 6, 6, 6, 6, 6, 6, 6, 6, 6, 6, 6]

/-- The list of the free cells of `size` bytes. -/
def freeListIndex (size : Nat) : Nat :=
  let index := size / 8 - 1
  if 16 ≤ index then
    if 127 < index then 23 else findFirstSet.getD index 0 + 16
  else index

def hvpComputeFreeListIndex (size : Nat) : Option Nat := if 8 ≤ size then some (freeListIndex size) else none

def hvpAddFree (h : HHive) (freeBlock : Ptr) (freeIndex : Nat) : Option HHive := do
  let t := hvGetCellType freeIndex
  let index ← hvpComputeFreeListIndex (h.readUlong freeBlock)
  let h := h.writeUlong (freeBlock.add 4) ((h.Storage t).FreeDisplay index)
  return h.writeSlot (.display t index) freeIndex

/-- The turns a walk along a free list of `t` may take. -/
def listFuel (h : HHive) (t : HStorageType) : Nat := 256 * (h.Storage t).Length + 1

/-- The loop of `HvpRemoveFree`. At the end of the list the code asserts `FALSE`. -/
def removeFreeLoop (h : HHive) (cell : Nat) : Nat → Slot → Option HHive
  | 0, _ => none
  | fuel + 1, slot =>
    if h.readSlot slot = HCELL_NIL then none
    else do
      let freeCellData ← hvGetCell h (h.readSlot slot)
      if h.readSlot slot = cell then return h.writeSlot slot (h.readUlong freeCellData)
      else removeFreeLoop h cell fuel (.link freeCellData)

def hvpRemoveFree (h : HHive) (cellBlock : Ptr) (cell : Nat) : Option HHive := do
  let t := hvGetCellType cell
  let index ← hvpComputeFreeListIndex (h.readUlong cellBlock)
  removeFreeLoop h cell (listFuel h t) (.display t index)

/-- The inner loop of `HvpFindFree`: the first cell of a list that has `size`
bytes, unlinked, or `HCELL_NIL`. -/
def findFreeLoop (h : HHive) (size : Nat) : Nat → Slot → Option (Nat × HHive)
  | 0, _ => none
  | fuel + 1, slot =>
    if h.readSlot slot = HCELL_NIL then some (HCELL_NIL, h)
    else do
      let freeCellData ← hvGetCell h (h.readSlot slot)
      if size ≤ h.readUlong ⟨freeCellData.Storage, freeCellData.Addr - 4⟩ then
        return (h.readSlot slot, h.writeSlot slot (h.readUlong freeCellData))
      else findFreeLoop h size fuel (.link freeCellData)

/-- The outer loop of `HvpFindFree`: the last `n` of the 24 lists. -/
def findFreeLists (h : HHive) (size : Nat) (t : HStorageType) : Nat → Option (Nat × HHive)
  | 0 => some (HCELL_NIL, h)
  | n + 1 => do
    let (cell, h') ← findFreeLoop h size (listFuel h t) (.display t (23 - n))
    if cell = HCELL_NIL then findFreeLists h size t n else return (cell, h')

def hvpFindFree (h : HHive) (size : Nat) (t : HStorageType) : Option (Nat × HHive) := do
  let index ← hvpComputeFreeListIndex size
  findFreeLists h size t (24 - index)

/-! ## Allocating -/

/-- `ROUND_UP(Size + sizeof(HCELL), 16)`. -/
def cellSize (size : Nat) : Nat := roundUp (size + 4) 16 % 2 ^ 32

/-- The cell that `HvAllocateCell` takes: from the lists, or the cell of a new bin. -/
def takeCell (h : HHive) (size : Nat) (t : HStorageType) (alloc : BinAlloc) :
    Option (Nat × HHive) := do
  let (cell, h) ← hvpFindFree h size t
  if cell = HCELL_NIL then
    let (bin, h) ← hvpAddBin h size t alloc
    match bin with
    | none => return (HCELL_NIL, h)
    | some bin => return (orType t ((h.readUlong (bin.add 4) + 32) % 2 ^ 32), h)
  else return (cell, h)

/-- The part of `HvAllocateCell` that splits the cell at `freeCell`. -/
def splitCell (h : HHive) (freeCell : Ptr) (cell : Nat) (size : Nat) (t : HStorageType) :
    Option HHive := do
  if (size + 16) % 2 ^ 32 < h.readUlong freeCell then
    let newCell := freeCell.add size
    let h := h.writeUlong newCell (h.readUlong freeCell + 2 ^ 32 - size)
    let h := h.writeUlong freeCell size
    let h ← hvpAddFree h newCell ((cell + size) % 2 ^ 32)
    markIfStable h t ((cell + size) % 2 ^ 32)
  else return h

def hvAllocateCell (h : HHive) (size : Nat) (t : HStorageType) (alloc : BinAlloc) :
    Option (Nat × HHive) := do
  let size := cellSize size
  let (cell, h) ← takeCell h size t alloc
  if cell = HCELL_NIL then return (HCELL_NIL, h)
  else
    let freeCell ← hvpGetCellHeader h cell
    let h ← splitCell h freeCell cell size t
    let h ← markIfStable h t cell
    let h := h.writeLong freeCell (-h.readLong freeCell)
    -- `Size - sizeof(HCELL)` bytes from the data on
    let h := h.modifyMem freeCell.Storage (·.fill (freeCell.Addr + 4) (size - 4) 0)
    return (cell, h)

/-! ## Freeing -/

/-- `Address - Bin + Bin->FileOffset`, with the type of `cell`. -/
def neighborIndex (h : HHive) (bin : Ptr) (addr : Nat) (cell : Nat) : Nat :=
  orType (hvGetCellType cell) ((addr - bin.Addr + h.readUlong (bin.add 4)) % 2 ^ 32)

/-- The part of `HvFreeCell` that merges the cell at `free` with the next one. -/
def mergeNext (h : HHive) (free bin : Ptr) (cell : Nat) : Option HHive := do
  if (cell % 2 ^ 31 + h.readUlong free) % 2 ^ 32 <
      (h.readUlong (bin.add 4) + h.readUlong (bin.add 8)) % 2 ^ 32 then
    let neighbor := free.add (h.readUlong free)
    if 0 < h.readLong neighbor then
      let h ← hvpRemoveFree h neighbor (neighborIndex h bin neighbor.Addr cell)
      return h.writeUlong free (h.readUlong free + h.readUlong neighbor)
    else return h
  else return h

/-- The part of `HvFreeCell` that grows the free cell `neighbor` by the cell
at `free`, which follows it. -/
def mergeInto (h : HHive) (neighbor free bin : Ptr) (cell : Nat) : Option HHive := do
  let index := neighborIndex h bin neighbor.Addr cell
  let grow (h : HHive) := h.writeUlong neighbor (h.readUlong neighbor + h.readUlong free)
  let oldList ← hvpComputeFreeListIndex (h.readUlong neighbor)
  let newList ← hvpComputeFreeListIndex ((h.readUlong neighbor + h.readUlong free) % 2 ^ 32)
  let h ←
    if oldList ≠ newList then do
      let h ← hvpRemoveFree h neighbor index
      hvpAddFree (grow h) neighbor index
    else some (grow h)
  markIfStable h (hvGetCellType cell) index

/-- The loop of `HvFreeCell` over the cells of the bin before `free`: the free
cell that ends at `free`, if there is one. A walk past `free` stops. -/
def findPrevious (h : HHive) (free : Ptr) : Nat → Nat → Option (Option Ptr)
  | 0, _ => none
  | fuel + 1, neighbor =>
    if neighbor < free.Addr then
      let size := h.readLong ⟨free.Storage, neighbor⟩
      if 0 < size then
        if neighbor + size.toNat = free.Addr then some (some ⟨free.Storage, neighbor⟩)
        else findPrevious h free fuel (neighbor + size.toNat)
      else findPrevious h free fuel (neighbor + (-size).toNat)
    else some none

/-- The end of `HvFreeCell`: the cell at `free` is merged into the free cell
before it, or put on its list. -/
def putBack (h : HHive) (free bin : Ptr) (cell : Nat) : Option HHive := do
  match ← findPrevious h free (free.Addr + 1) (bin.Addr + 32) with
  | some neighbor => mergeInto h neighbor free bin cell
  | none =>
    let h ← hvpAddFree h free cell
    markIfStable h (hvGetCellType cell) cell

def hvFreeCell (h : HHive) (cell : Nat) : Option HHive := do
  let free ← hvpGetCellHeader h cell
  if h.readLong free < 0 then
    let h := h.writeLong free (-h.readLong free)
    let binAddress ← ((h.Storage free.Storage).BlockList (hvGetCellBlock cell)).BinAddress
    let bin : Ptr := ⟨free.Storage, binAddress⟩
    let h ← mergeNext h free bin cell
    putBack h free bin cell
  else none

def hvReallocateCell (h : HHive) (cell : Nat) (size : Nat) (alloc : BinAlloc) :
    Option (Nat × HHive) := do
  let oldCell ← hvGetCell h cell
  let oldCellSize := hvGetCellSize h oldCell
  if 0 < oldCellSize then
    if oldCellSize.toNat < size then
      let (newCell, h) ← hvAllocateCell h size (hvGetCellType cell) alloc
      if newCell = HCELL_NIL then return (HCELL_NIL, h)
      else
        let newData ← hvGetCell h newCell
        let h := h.modifyMem newData.Storage
          (·.copy newData.Addr (h.Storage oldCell.Storage).Mem oldCell.Addr oldCellSize.toNat)
        let h ← hvFreeCell h cell
        return (newCell, h)
    else return (cell, h)
  else none

end FreeNT.Cmlib
