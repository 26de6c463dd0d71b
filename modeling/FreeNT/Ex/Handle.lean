import Mathlib.Tactic.Ring
import Mathlib.Logic.Function.Basic
import FreeNT.Lib.Chain
import FreeNT.Lib.Run

/-!
# Handle tables

`ntoskrnl/ex/handle.c` on i386, for one table with `StrictFIFO` off and one thread. The
tables of the three levels are values, and a pointer to an entry is the index of its
handle. A handle is its 32-bit value: two tag bits, and above them the index. The word
that `GrantedAccess` and `NextFreeTableEntry` share is unsigned. Whether the pool gives out
the pages that a call asks for is up to the caller of the model (`alloc`, in the order
of the requests). An assertion that fails, a NULL pointer that is used and a wait for an entry
that stays locked are `none`.
-/

namespace FreeNT.Ex

structure HandleEntry where
  Value : Nat
  GrantedAccess : Nat
  deriving DecidableEq, Repr

/-- The value -2 of `NextFreeTableEntry`. -/
def noFreeEntry : Nat := 2 ^ 32 - 2

/-- `EXHANDLE_TABLE_ENTRY_LOCK_BIT`: set while the entry is not locked. -/
def lockBit (value : Nat) : Bool := value % 2 = 1

def setLockBit (value : Nat) : Nat := value / 2 * 2 + 1

def clearLockBit (value : Nat) : Nat := value / 2 * 2

abbrev LowTable := Nat → HandleEntry

abbrev MidTable := Nat → Option LowTable

/-- `TableCode`: the level, and the table of that level. -/
inductive TableCode
  | low (table : LowTable)
  | mid (table : MidTable)
  | high (table : Nat → Option MidTable)

namespace TableCode

/-- The low level table with the entries `512 * k` and up. -/
def page : TableCode → Nat → Option LowTable
  | low table, _ => some table
  | mid table, k => table (k % 1024)
  | high table, k => (table (k / 1024 % 1024)).bind fun m => m (k % 1024)

def setPage (c : TableCode) (k : Nat) (page : LowTable) : TableCode :=
  match c with
  | low _ => low page
  | mid table => mid (Function.update table (k % 1024) (some page))
  | high table => high (Function.update table (k / 1024 % 1024)
      ((table (k / 1024 % 1024)).map fun m => Function.update m (k % 1024) (some page)))

def entry (c : TableCode) (i : Nat) : Option HandleEntry := (c.page (i / 512)).map fun page => page (i % 512)

def setEntry (c : TableCode) (i : Nat) (e : HandleEntry) : TableCode :=
  match c.page (i / 512) with
  | none => c
  | some page => c.setPage (i / 512) (Function.update page (i % 512) e)

end TableCode

structure HandleTable where
  TableCode : TableCode
  NextHandleNeedingPool : Nat
  FirstFree : Nat
  LastFree : Nat
  HandleCount : Int

namespace HandleTable

/-- A page of free entries, each with the handle of the next. -/
def expAllocateLowLevelTable (nextHandleNeedingPool : Nat) : LowTable := fun k =>
  if k = 0 then ⟨0, noFreeEntry⟩ else if k < 511 then ⟨0, nextHandleNeedingPool + 4 * (k + 1)⟩ else ⟨0, 0⟩

def exCreateHandleTable : HandleTable := ⟨.low (expAllocateLowLevelTable 0), 4 * 512, 4, 0, 0⟩

/-- `Mid` with its first low level table. -/
def firstPage (page : LowTable) : MidTable := fun k => if k = 0 then some page else none

/-- The first part of `ExpAllocateHandleTableEntrySlow`: the new table code, or `some none` if
there is no memory or the table is full. -/
def growTable (alloc : Nat → Bool) (t : HandleTable) : Option (Option Ex.TableCode) :=
  let page := expAllocateLowLevelTable t.NextHandleNeedingPool
  match t.TableCode with
  | .low base =>
    if alloc 0 && alloc 1 then
      some (some (.mid fun k => if k = 1 then some page else if k = 0 then some base else none))
    else some none
  | .mid table =>
    let i := t.NextHandleNeedingPool / (4 * 512)
    if i < 1024 then
      if alloc 0 then
        if (table i).isSome then none else some (some (.mid (Function.update table i (some page))))
      else some none
    else if alloc 0 && alloc 1 && alloc 2 then
      some (some (.high fun k => if k = 0 then some table else if k = 1 then some (firstPage page) else none))
    else some none
  | .high table =>
    let i := t.NextHandleNeedingPool / (4 * (1024 * 512))
    if 32 ≤ i then some none
    else
      match table i with
      | none =>
        if alloc 0 && alloc 1 then some (some (.high (Function.update table i (some (firstPage page)))))
        else some none
      | some m =>
        let index := t.NextHandleNeedingPool / 4 - i * (1024 * 512)
        let j := index / 512
        if alloc 0 then
          if (m j).isSome then none
          else some (some (.high (Function.update table i (some (Function.update m j (some page))))))
        else some none

def expAllocateHandleTableEntrySlow (alloc : Nat → Bool) (t : HandleTable) : Option (HandleTable × Bool) :=
  match growTable alloc t with
  | none => none
  | some none => some (t, false)
  | some (some code) => do
    let last := t.NextHandleNeedingPool / 4 + 511
    let e ← code.entry last
    some ({ t with
      TableCode := code.setEntry last { e with GrantedAccess := t.FirstFree }
      NextHandleNeedingPool := t.NextHandleNeedingPool + 4 * 512
      FirstFree := t.NextHandleNeedingPool + 4 }, true)

def expMoveFreeHandles (t : HandleTable) : Option (HandleTable × Nat) :=
  if t.LastFree = 0 then some (t, 0)
  else if t.FirstFree = 0 then some ({ t with LastFree := 0, FirstFree := t.LastFree }, t.LastFree)
  else none

/-- The inner loop of `ExpAllocateHandleTableEntry`, which makes sure that there is a free
handle. Nobody else takes or frees one, so that it does not turn a second time. -/
def findFree (alloc : Nat → Bool) (t : HandleTable) : Option (HandleTable × Bool) :=
  if t.FirstFree ≠ 0 then some (t, true)
  else do
    let (t, moved) ← expMoveFreeHandles t
    if moved ≠ 0 then some (t, true)
    else
      let (t, result) ← expAllocateHandleTableEntrySlow alloc t
      if t.FirstFree ≠ 0 then some (t, true) else if result then none else some (t, false)

/-- The tag bits are cleared, and the handle is checked against the allocated range. -/
def expLookupHandleTableEntry (t : HandleTable) (handle : Nat) : Option Nat :=
  if t.NextHandleNeedingPool ≤ handle / 4 * 4 then none else some (handle / 4 % 2 ^ 29)

/-- The handle that is taken, or `some (t, none)` if there is none. -/
def expAllocateHandleTableEntry (alloc : Nat → Bool) (t : HandleTable) : Option (HandleTable × Option Nat) := do
  let (t, found) ← findFree alloc t
  if !found then some (t, none)
  else
    let handle := t.FirstFree
    let i ← t.expLookupHandleTableEntry handle
    let e ← t.TableCode.entry i
    if t.NextHandleNeedingPool ≤ e.GrantedAccess then none
    else some ({ t with FirstFree := e.GrantedAccess, HandleCount := t.HandleCount + 1 }, some handle)

def exUnlockHandleTableEntry (t : HandleTable) (i : Nat) : Option HandleTable := do
  let e ← t.TableCode.entry i
  if lockBit e.Value then none
  else some { t with TableCode := t.TableCode.setEntry i { e with Value := setLockBit e.Value } }

/-- The handle is NULL if there is no memory. -/
def exCreateHandle (alloc : Nat → Bool) (t : HandleTable) (e : HandleEntry) : Option (HandleTable × Nat) := do
  let (t, handle) ← t.expAllocateHandleTableEntry alloc
  match handle with
  | none => some (t, 0)
  | some handle =>
    let i ← t.expLookupHandleTableEntry handle
    let t ← exUnlockHandleTableEntry { t with TableCode := t.TableCode.setEntry i e } i
    some (t, handle)

def expLockHandleTableEntry (t : HandleTable) (i : Nat) : Option (HandleTable × Bool) := do
  let e ← t.TableCode.entry i
  if lockBit e.Value then
    some ({ t with TableCode := t.TableCode.setEntry i { e with Value := clearLockBit e.Value } }, true)
  else if e.Value = 0 then some (t, false)
  else none

/-- No lock is held, so that the entry goes to the list of `LastFree`. -/
def expFreeHandleTableEntry (t : HandleTable) (handle i : Nat) : Option HandleTable := do
  let e ← t.TableCode.entry i
  if e.Value ≠ 0 ∨ t.expLookupHandleTableEntry handle ≠ some i ∨ t.NextHandleNeedingPool ≤ t.LastFree then none
  else some { t with
    TableCode := t.TableCode.setEntry i { e with GrantedAccess := t.LastFree }
    LastFree := handle / 4 * 4
    HandleCount := t.HandleCount - 1 }

/-- The part of `ExDestroyHandle` in which the entry is locked. -/
def clearEntry (t : HandleTable) (handle i : Nat) : Option (HandleTable × Bool) := do
  let e ← t.TableCode.entry i
  if e.Value = 0 ∨ lockBit e.Value = true then none
  else
    let t ← expFreeHandleTableEntry { t with TableCode := t.TableCode.setEntry i { e with Value := 0 } } handle i
    some (t, true)

/-- `given` is the entry, locked, if the caller has it. -/
def exDestroyHandle (t : HandleTable) (handle : Nat) (given : Option Nat) : Option (HandleTable × Bool) :=
  match given with
  | some i => clearEntry t handle i
  | none =>
    match t.expLookupHandleTableEntry handle with
    | none => some (t, false)
    | some i => do
      let e ← t.TableCode.entry i
      if e.Value = 0 ∨ e.GrantedAccess = noFreeEntry then some (t, false)
      else
        let (t, locked) ← expLockHandleTableEntry t i
        if !locked then some (t, false) else clearEntry t handle i

/-- The entry that the pointer leads to is locked. -/
def exMapHandleToPointer (t : HandleTable) (handle : Nat) : Option (HandleTable × Option Nat) :=
  if handle / 4 % 2 ^ 29 % 512 = 0 then some (t, none)
  else
    match t.expLookupHandleTableEntry handle with
    | none => some (t, none)
    | some i => do
      let (t, locked) ← expLockHandleTableEntry t i
      some (t, if locked then some i else none)

end HandleTable

inductive HandleCall
  | create (alloc : Nat → Bool) (e : HandleEntry)
  | destroy (handle : Nat) (given : Option Nat)
  | map (handle : Nat)
  | unlock (i : Nat)

open HandleTable

def handleStep (t : HandleTable) : HandleCall → Option HandleTable
  | .create alloc e => (t.exCreateHandle alloc e).map (·.1)
  | .destroy handle given => (t.exDestroyHandle handle given).map (·.1)
  | .map handle => (t.exMapHandleToPointer handle).map (·.1)
  | .unlock i => t.exUnlockHandleTableEntry i

end FreeNT.Ex
