import Mathlib.Tactic.Ring
import FreeNT.Lib.Span

/-!
# Pages of the nonpaged pool (`ntoskrnl/mm/ARM3/pool.c`)

`MiAllocatePoolPages` and `MiFreePoolPages` for `NonPagedPool`, with protection of freed pool
off. A page is known by its number in the address space, and a page that is mapped has a frame
of its own: the marks of the frame and the `MMFREE_POOL_ENTRY` in the page are kept together
(`PoolPage`), and the frames `MiStartOfInitialPoolFrame` and `MiEndOfInitialPoolFrame` stand
for the first and the last page of the initial pool.

Where the pool is expanded, `MiReserveSystemPtes` is given by its result, and the frames come
from `MiRemoveAnyPage` with their marks clear. `VerifierAllocation` is not part of the model.
A failed assertion, or an access to a page that is not mapped, gives `none`.
-/

namespace FreeNT.Mm

/-- A page that is mapped. -/
structure PoolPage where
  StartOfAllocation : Bool
  EndOfAllocation : Bool
  Size : Nat
  /-- `Signature` is `MM_FREE_POOL_SIGNATURE`. -/
  Signature : Bool
  Owner : Nat
  deriving DecidableEq, Repr

/-- Where the pool lies: there is a page that is never mapped between the initial pool and its expansion. -/
structure PoolLayout where
  Initial : Span
  Expansion : Span
  /-- The number of pages of the address space. -/
  Pages : Nat
  SListMaximum : Nat
  initial_pos : 0 < Initial.size
  initial_le : Initial.stop ≤ Pages
  expansion_le : Expansion.stop ≤ Pages
  guard : Initial.stop < Expansion.start ∨ Expansion.stop < Initial.start

structure NonPagedPool where
  Page : Nat → Option PoolPage
  /-- `MmNonPagedPoolFreeListHead`. -/
  FreeListHead : List (List Nat)
  SList : List Nat

def maxFreePageLists : Nat := 4

/-- The list for a run of `size` pages. -/
def listIndex (size : Nat) : Nat := if maxFreePageLists ≤ size - 1 then maxFreePageLists - 1 else size - 1

namespace NonPagedPool

/-- A write to a page that is mapped. -/
def setPage (s : NonPagedPool) (i : Nat) (f : PoolPage → PoolPage) : NonPagedPool :=
  { s with Page := fun j => if j = i then (s.Page j).map f else s.Page j }

def insertTail (s : NonPagedPool) (i size : Nat) : NonPagedPool :=
  { s with FreeListHead := s.FreeListHead.modify (listIndex size) (· ++ [i]) }

/-- `RemoveEntryList`, from the list that the run is in. -/
def removeEntry (s : NonPagedPool) (i : Nat) : NonPagedPool :=
    { s with FreeListHead := s.FreeListHead.map (·.erase i) }

def miInitializeNonPagedPool (layout : PoolLayout) : NonPagedPool :=
  { Page := fun i =>
      if layout.Initial.Has i then
        some ⟨false, false, if i = layout.Initial.start then layout.Initial.size else 0, true, layout.Initial.start⟩
      else none
    FreeListHead := [[], [], [], [layout.Initial.start]]
    SList := [] }

/-! ## Allocating -/

/-- `BYTES_TO_PAGES`, as a `PFN_COUNT`. -/
def bytesToPages (n : Nat) : Nat := (n / 4096 + if n % 4096 = 0 then 0 else 1) % 2 ^ 32

/-- The walk along the free lists to a run that is large enough. -/
def findRun (s : NonPagedPool) (pages : Nat) : List Nat → Option (Option (Nat × PoolPage))
  | [] => some none
  | i :: is => do
    let page ← s.Page i
    if page.Signature = false then none
    else if pages ≤ page.Size then some (some (i, page))
    else findRun s pages is

/-- The run at `i` keeps `size` pages. -/
def cutRun (s : NonPagedPool) (i size : Nat) : NonPagedPool :=
  let s := (s.setPage i ({ · with Size := size })).removeEntry i
  if size ≠ 0 then s.insertTail i size else s

/-- Both marks of an allocation. -/
def markAllocation (s : NonPagedPool) (base pages : Nat) : Option NonPagedPool := do
  let first ← s.Page base
  if first.StartOfAllocation then none
  else
    let s := s.setPage base ({ · with StartOfAllocation := true })
    let last ← s.Page (base + (pages - 1))
    if last.EndOfAllocation then none
    else return s.setPage (base + (pages - 1)) ({ · with EndOfAllocation := true })

/-- The last pages of the run at `i` become an allocation. -/
def takeFromRun (s : NonPagedPool) (i : Nat) (entry : PoolPage) (pages : Nat) : Option (Nat × NonPagedPool) := do
  let base := i + (entry.Size - pages)
  let s ← (s.cutRun i (entry.Size - pages)).markAllocation base pages
  return (base, s)

/-- New pages from `i` on become an allocation. -/
def expand (s : NonPagedPool) (i pages : Nat) : NonPagedPool :=
  let s : NonPagedPool := { s with Page := fun j => if i ≤ j ∧ j < i + pages then some ⟨false, false, 0, false, 0⟩ else s.Page j }
  (s.setPage (i + (pages - 1)) ({ · with EndOfAllocation := true })).setPage i
    ({ · with StartOfAllocation := true })

/-- `MiAllocatePoolPages`; `reserved` is what `MiReserveSystemPtes` returns if it is called. -/
def miAllocatePoolPages (s : NonPagedPool) (sizeInBytes : Nat) (reserved : Option Nat) :
    Option (Option Nat × NonPagedPool) :=
  let pages := bytesToPages sizeInBytes
  if pages = 0 then some (none, s)
  else
    match if pages = 1 then s.SList else [] with
    | i :: is => some (some i, { s with SList := is })
    | [] => do
      match ← s.findRun pages (s.FreeListHead.drop (listIndex pages)).flatten with
      | some (i, entry) =>
        let (base, s) ← s.takeFromRun i entry pages
        return (some base, s)
      | none =>
        match reserved with
        | none => return (none, s)
        | some i => return (some i, s.expand i pages)

/-! ## Freeing -/

/-- The walk to the last page of an allocation. -/
def lastPage (s : NonPagedPool) : Nat → Nat → Option Nat
  | 0, _ => none
  | fuel + 1, i => do
    let page ← s.Page i
    if page.EndOfAllocation then some i else lastPage s fuel (i + 1)

/-- The run after the last page `i` is taken off its list: the number of its pages. -/
def takeNext (s : NonPagedPool) (layout : PoolLayout) (i : Nat) : Option (Nat × NonPagedPool) :=
  match if i = layout.Initial.stop - 1 then none else s.Page (i + 1) with
  | none => some (0, s)
  | some page =>
    if page.StartOfAllocation then some (0, s)
    else if page.Signature && page.Owner == i + 1 then some (page.Size, s.removeEntry (i + 1))
    else none

/-- The pages from `i` on are added to the run before them, if there is one: the first page of the run, or `i`. -/
def joinBefore (s : NonPagedPool) (layout : PoolLayout) (i pages : Nat) : Option (Nat × NonPagedPool) :=
  match if i = layout.Initial.start ∨ i = 0 then none else s.Page (i - 1) with
  | none => some (i, s)
  | some page =>
    if page.EndOfAllocation then some (i, s)
    else if page.Signature then do
      let entry ← s.Page page.Owner
      let size := entry.Size + pages
      let s := s.setPage page.Owner ({ · with Size := size })
      if entry.Size < maxFreePageLists - 1 then return (page.Owner, (s.removeEntry page.Owner).insertTail page.Owner size)
      else return (page.Owner, s)
    else none

/-- `Owner` and `Signature` of the pages from `i` on. -/
def label (s : NonPagedPool) (owner i : Nat) : Nat → Option NonPagedPool
  | 0 => some s
  | n + 1 => do
    let _ ← s.Page i
    label (s.setPage i ({ · with Owner := owner, Signature := true })) owner (i + 1) n

/-- `MiFreePoolPages`: the number of pages freed. -/
def miFreePoolPages (s : NonPagedPool) (layout : PoolLayout) (i : Nat) : Option (Nat × NonPagedPool) := do
  let first ← s.Page i
  if first.EndOfAllocation ∧ s.SList.length < layout.SListMaximum then return (1, { s with SList := i :: s.SList })
  else
    let last ← s.lastPage (layout.Pages - i) i
    let numberOfPages := last - i + 1
    let s := s.setPage i ({ · with StartOfAllocation := false })
    let s := s.setPage last ({ · with EndOfAllocation := false })
    let (next, s) ← s.takeNext layout last
    let freePages := numberOfPages + next
    let (entry, s) ← s.joinBefore layout i freePages
    let s := if entry = i then (s.setPage i ({ · with Size := freePages })).insertTail i freePages else s
    let s ← s.label entry i freePages
    return (numberOfPages, s)

end NonPagedPool

end FreeNT.Mm
