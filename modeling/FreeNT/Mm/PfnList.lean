import Mathlib.Logic.Function.Basic
import FreeNT.Lib.DoubleList
import FreeNT.Lib.Run
import Mathlib.Tactic.Ring

/-!
# The lists of free and zeroed pages

`ntoskrnl/mm/ARM3/pfnlist.c`, on i386. Each page has an entry in the PFN database, given here
field by field, over page numbers. A page that is free or zeroed is on two lists at once: on the
global list of its kind, by `u1.Flink` and `u2.Blink`, and on the list of its colour, by
`OriginalPte` and `u4.PteFrame`. The back link of a colour's table is the number of
the page whose entry it points to.

A failed assertion is `none`. Left out are the events that are set when a
threshold is crossed, and the bits of `u3` and `u4` that nothing here looks at.
-/

namespace FreeNT.Mm

def pfnListHead : Nat := 0xFFFFFFFF

def coloredListHead : Nat := 2 ^ 25 - 1

inductive MmLists
  | zeroedPageList | freePageList | standbyPageList | modifiedPageList | modifiedNoWritePageList
  | badPageList | activeAndValid | transitionPage
  deriving DecidableEq, Repr

/-- `ListName <= FreePageList`. -/
def MmLists.Available (l : MmLists) : Prop := l = .zeroedPageList ∨ l = .freePageList

instance (l : MmLists) : Decidable l.Available := by unfold MmLists.Available; infer_instance

/-- `u3.e1`. -/
structure PfnFlags where
  PageLocation : MmLists
  ReadInProgress : Bool
  WriteInProgress : Bool
  RemovalRequested : Bool
  Rom : Bool
  PageColor : Nat
  CacheAttribute : Nat
  deriving DecidableEq, Repr

/-- The bits of `u4` beside `PteFrame`. -/
structure PfnBits where
  InPageError : Bool
  VerifierAllocation : Bool
  AweAllocation : Bool
  Priority : Nat
  MustBeCached : Bool
  deriving DecidableEq, Repr

structure MmPfnList where
  Total : Nat
  Flink : Nat
  Blink : Nat
  deriving DecidableEq, Repr

structure MmColorTables where
  Flink : Nat
  Blink : Nat
  Count : Nat
  deriving DecidableEq, Repr

/-- The physical pages, and `MmSecondaryColorMask`. -/
structure PhysicalMemory where
  MmLowestPhysicalPage : Nat
  MmHighestPhysicalPage : Nat
  MmSecondaryColorMask : Nat
  /-- A page number fits in `PteFrame` and is not the mark in it. -/
  fits : MmHighestPhysicalPage < 2 ^ 25 - 1

structure PfnDatabase where
  Flink : Nat → Nat
  Blink : Nat → Nat
  OriginalPte : Nat → Nat
  PteFrame : Nat → Nat
  flags : Nat → PfnFlags
  bits : Nat → PfnBits
  ReferenceCount : Nat → Nat
  list : MmLists → MmPfnList
  color : MmLists → Nat → MmColorTables
  MmAvailablePages : Nat

namespace PfnDatabase

open Function (update)

variable (memory : PhysicalMemory) (s : PfnDatabase)

/-- `ASSERT_LIST_INVARIANT`. -/
def listInvariant (l : MmPfnList) : Bool :=
  (l.Total == 0 && l.Flink == pfnListHead && l.Blink == pfnListHead) ||
    (l.Total != 0 && l.Flink != pfnListHead && l.Blink != pfnListHead)

def setList (l : MmLists) (head : MmPfnList) : PfnDatabase := { s with list := update s.list l head }

def setColor (l : MmLists) (c : Nat) (table : MmColorTables) : PfnDatabase :=
  { s with color := update s.color l (update (s.color l) c table) }

def pageColor (page : Nat) : Nat := page &&& memory.MmSecondaryColorMask

def miIncrementAvailablePages : PfnDatabase :=
  { s with MmAvailablePages := (s.MmAvailablePages + 1) % 2 ^ 32 }

def miDecrementAvailablePages : Option PfnDatabase :=
  if s.MmAvailablePages = 0 then none
  else some { s with MmAvailablePages := s.MmAvailablePages - 1 }

/-- The steps that take an entry off its global list, as they stand in both routines: the count,
then the link of what follows and the link of what precedes. -/
def unlinkFromList (l : MmLists) (entry : Nat) : PfnDatabase :=
  let s := s.setList l { s.list l with Total := ((s.list l).Total + (2 ^ 32 - 1)) % 2 ^ 32 }
  let oldFlink := s.Flink entry
  let oldBlink := s.Blink entry
  let s := if oldFlink ≠ pfnListHead then { s with Blink := update s.Blink oldFlink oldBlink }
    else s.setList l { s.list l with Blink := oldBlink }
  if oldBlink ≠ pfnListHead then { s with Flink := update s.Flink oldBlink oldFlink }
  else s.setList l { s.list l with Flink := oldFlink }

/-- A colour's list goes on behind its first page. -/
def unlinkFirstOfColor (l : MmLists) (entry c : Nat) : PfnDatabase :=
  let next := s.OriginalPte entry
  let s := s.setColor l c { s.color l c with Flink := next }
  if next ≠ pfnListHead then { s with PteFrame := update s.PteFrame next coloredListHead }
  else s.setColor l c { s.color l c with Blink := pfnListHead }

def unlinkFromColor (l : MmLists) (entry c : Nat) : Option PfnDatabase :=
  if (s.color l c).Flink = entry then some (s.unlinkFirstOfColor l entry c)
  else if s.PteFrame entry = coloredListHead then none
  else
    let pfn1 := s.PteFrame entry
    let s := { s with OriginalPte := update s.OriginalPte pfn1 (s.OriginalPte entry) }
    if s.OriginalPte entry ≠ pfnListHead then
      some { s with PteFrame := update s.PteFrame (s.OriginalPte entry) (s.PteFrame entry) }
    else some (s.setColor l c { s.color l c with Blink := pfn1 })

/-- `Count--` of a colour. -/
def uncountColor (l : MmLists) (c : Nat) : Option PfnDatabase :=
  if (s.color l c).Count < 1 then none
  else some (s.setColor l c { s.color l c with Count := (s.color l c).Count - 1 })

def miUnlinkFreeOrZeroedPage (entry : Nat) : Option PfnDatabase :=
  let l := (s.flags entry).PageLocation
  if (s.flags entry).WriteInProgress ∨ (s.flags entry).ReadInProgress then none
  else if ¬ l.Available ∨ listInvariant (s.list l) = false ∨ (s.list l).Total = 0 then none
  else do
    let s ← (s.unlinkFromList l entry).unlinkFromColor l entry (pageColor memory entry)
    let s ← s.uncountColor l (pageColor memory entry)
    let s := { s with
      OriginalPte := update s.OriginalPte entry 0
      Flink := update s.Flink entry 0
      Blink := update s.Blink entry 0 }
    if listInvariant (s.list l) then s.miDecrementAvailablePages else none

/-- The colour is the caller's, and the page is taken for the first one of it. -/
def miRemovePageByColor (page c : Nat) : Option PfnDatabase :=
  let l := (s.flags page).PageLocation
  if c > memory.MmSecondaryColorMask then none
  else if (s.flags page).RemovalRequested ∨ (s.flags page).Rom then none
  else if ¬ l.Available ∨ listInvariant (s.list l) = false then none
  else
    let s := s.unlinkFromList l page
    if listInvariant (s.list l) = false then none
    else do
      let s := { s with
        Flink := update s.Flink page 0
        Blink := update s.Blink page 0
        -- all other flags are cleared, which leaves the location `ZeroedPageList`
        flags := update s.flags page
          { PageLocation := .zeroedPageList, ReadInProgress := false, WriteInProgress := false,
            RemovalRequested := false, Rom := false, PageColor := (s.flags page).PageColor,
            CacheAttribute := (s.flags page).CacheAttribute } }
      if (s.color l c).Count < 1 then none
      else
        let s ← (s.unlinkFirstOfColor l page c).uncountColor l c
        { s with OriginalPte := update s.OriginalPte page 0 }.miDecrementAvailablePages

/-- The checks at the end of the two routines below. -/
def pageTaken (page : Nat) : Bool :=
  s.ReferenceCount page == 0 && s.Blink page == 0 &&
    listInvariant (s.list .freePageList) && listInvariant (s.list .zeroedPageList)

/-- The page and the colour that `MiRemoveAnyPage` takes: a free page of the colour, a zeroed
one, and else the first page of either list. -/
def anyPage (c : Nat) : Option (Nat × Nat) :=
  if (s.color .freePageList c).Flink ≠ pfnListHead then some ((s.color .freePageList c).Flink, c)
  else if (s.color .zeroedPageList c).Flink ≠ pfnListHead then
    some ((s.color .zeroedPageList c).Flink, c)
  else if listInvariant (s.list .freePageList) = false then none
  else if (s.list .freePageList).Flink ≠ pfnListHead then
    some ((s.list .freePageList).Flink, pageColor memory (s.list .freePageList).Flink)
  else if listInvariant (s.list .zeroedPageList) = false then none
  else if (s.list .zeroedPageList).Flink ≠ pfnListHead then
    some ((s.list .zeroedPageList).Flink, pageColor memory (s.list .zeroedPageList).Flink)
  else none

def miRemoveAnyPage (c : Nat) : Option (PfnDatabase × Nat) :=
  if s.MmAvailablePages = 0 ∨ c > memory.MmSecondaryColorMask then none
  else do
    let (page, c) ← s.anyPage memory c
    let s ← s.miRemovePageByColor memory page c
    if (s.flags page).PageLocation.Available ∧ s.pageTaken page then some (s, page) else none

/-- The page and the colour that `MiRemoveZeroPage` takes: a zeroed page, of the colour if
there is one, and else a free page. -/
def zeroPage (c : Nat) : Option (Nat × Nat) :=
  if (s.color .zeroedPageList c).Flink ≠ pfnListHead then
    some ((s.color .zeroedPageList c).Flink, c)
  else if listInvariant (s.list .zeroedPageList) = false then none
  else if (s.list .zeroedPageList).Flink ≠ pfnListHead then
    some ((s.list .zeroedPageList).Flink, pageColor memory (s.list .zeroedPageList).Flink)
  else if (s.list .zeroedPageList).Total ≠ 0 then none
  else if (s.color .freePageList c).Flink ≠ pfnListHead then
    some ((s.color .freePageList c).Flink, c)
  else if listInvariant (s.list .freePageList) = false then none
  else if (s.list .freePageList).Flink ≠ pfnListHead then
    some ((s.list .freePageList).Flink, pageColor memory (s.list .freePageList).Flink)
  else none

def miRemoveZeroPage (c : Nat) : Option (PfnDatabase × Nat) :=
  if s.MmAvailablePages = 0 ∨ c > memory.MmSecondaryColorMask then none
  else do
    let (page, c) ← s.zeroPage memory c
    if ¬ (s.flags page).PageLocation.Available then none
    else
      let s ← s.miRemovePageByColor memory page c
      if s.pageTaken page then some (s, page) else none

/-- The assertions on the number of a page. -/
def isPage (page : Nat) : Bool :=
  page != 0 && decide (page ≤ memory.MmHighestPhysicalPage) &&
    decide (memory.MmLowestPhysicalPage ≤ page)

/-- `MiInsertPageInFreeList`, where `MmRosNotifyAvailablePage` refuses the page. -/
def miInsertPageInFreeList (page : Nat) : Option PfnDatabase :=
  if isPage memory page = false then none
  else if (s.bits page).MustBeCached ∨ (s.flags page).Rom ∨ (s.flags page).RemovalRequested ∨
      (s.bits page).VerifierAllocation ∨ s.ReferenceCount page ≠ 0 then none
  else if listInvariant (s.list .freePageList) = false then none
  else
    let s := s.setList .freePageList
      { s.list .freePageList with Total := ((s.list .freePageList).Total + 1) % 2 ^ 32 }
    let lastPage := (s.list .freePageList).Blink
    let s := if lastPage ≠ pfnListHead then { s with Flink := update s.Flink lastPage page }
      else s.setList .freePageList { s.list .freePageList with Flink := page }
    let s := s.setList .freePageList { s.list .freePageList with Blink := page }
    if listInvariant (s.list .freePageList) = false then none
    else
      let s := { s with
        Flink := update s.Flink page pfnListHead
        Blink := update s.Blink page lastPage
        flags := update s.flags page { s.flags page with PageLocation := .freePageList }
        bits := update s.bits page
          { s.bits page with Priority := 3, InPageError := false, AweAllocation := false } }
      let s := s.miIncrementAvailablePages
      let c := pageColor memory page
      let table := s.color .freePageList c
      let s := if table.Flink = pfnListHead then
          { s.setColor .freePageList c { table with Flink := page } with
            PteFrame := update s.PteFrame page coloredListHead }
        else
          { s with
            OriginalPte := update s.OriginalPte table.Blink page
            PteFrame := update s.PteFrame page table.Blink }
      let table := s.color .freePageList c
      some { s.setColor .freePageList c ⟨table.Flink, page, (table.Count + 1) % 2 ^ 32⟩ with
        OriginalPte := update s.OriginalPte page pfnListHead }

/-- `MiInsertPageInList` for `MmZeroedPageListHead`. -/
def miInsertPageInZeroedList (page : Nat) : Option PfnDatabase :=
  if isPage memory page = false then none
  else if s.ReferenceCount page ≠ 0 ∨ (s.flags page).Rom ∨ (s.flags page).RemovalRequested then none
  else
    let l := s.list .zeroedPageList
    let flink := l.Flink
    let s := s.setList .zeroedPageList { l with Total := (l.Total + 1) % 2 ^ 32, Flink := page }
    let s := { s with
      Flink := update s.Flink page flink
      Blink := update s.Blink page pfnListHead }
    let s := if flink ≠ pfnListHead then { s with Blink := update s.Blink flink page }
      else s.setList .zeroedPageList { s.list .zeroedPageList with Blink := page }
    let s := { s with
      flags := update s.flags page { s.flags page with PageLocation := .zeroedPageList } }
    let s := s.miIncrementAvailablePages
    if (s.bits page).InPageError then none
    else
      let c := pageColor memory page
      let table := s.color .zeroedPageList c
      let s := { s.setColor .zeroedPageList c { table with Flink := page } with
        OriginalPte := update s.OriginalPte page table.Flink
        PteFrame := update s.PteFrame page coloredListHead }
      let s := if table.Flink ≠ pfnListHead then
          { s with PteFrame := update s.PteFrame table.Flink page }
        else s.setColor .zeroedPageList c { s.color .zeroedPageList c with Blink := page }
      let table := s.color .zeroedPageList c
      some (s.setColor .zeroedPageList c { table with Count := (table.Count + 1) % 2 ^ 32 })

end PfnDatabase

end FreeNT.Mm
