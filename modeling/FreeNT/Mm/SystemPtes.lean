import FreeNT.Lib.Span
import FreeNT.Lib.Chain
import FreeNT.Lib.Run

/-!
# System page table entries

`ntoskrnl/mm/ARM3/syspte.c`, for one pool of system PTEs. A PTE is its number, counted
from `MmSystemPteBase`. Of a free PTE the fields `OneEntry` and `NextEntry` are kept, the
latter of 20 bits as on i386. A place whose `NextEntry` leads to a cluster is a PTE or, for
`none`, `MmFirstFreeSystemPte`. A loop that does not end within as many turns as there
are numbers of PTEs is `none`.
-/

namespace FreeNT.Mm

structure ListPte where
  OneEntry : Bool
  NextEntry : Nat
  deriving DecidableEq, Repr

/-- `u.Long = 0`. -/
def ListPte.zero : ListPte := ⟨false, 0⟩

/-- The values of `NextEntry`. -/
def nextEntries : Nat := 2 ^ 20

/-- `MM_EMPTY_PTE_LIST`. -/
def emptyPteList : Nat := 0xFFFFF

structure SystemPtes where
  firstFree : ListPte
  pte : Nat → ListPte
  totalFree : Nat

namespace SystemPtes

/-- `PreviousPte->u.List.NextEntry`. -/
def nextEntry (s : SystemPtes) : Option Nat → Nat
  | none => s.firstFree.NextEntry
  | some i => (s.pte i).NextEntry

def setPte (s : SystemPtes) (i : Nat) (pte : ListPte) : SystemPtes :=
  { s with pte := fun j => if j = i then pte else s.pte j }

def setNextEntry (s : SystemPtes) (loc : Option Nat) (next : Nat) : SystemPtes :=
  match loc with
  | none => { s with firstFree := { s.firstFree with NextEntry := next % nextEntries } }
  | some i => s.setPte i { s.pte i with NextEntry := next % nextEntries }

def setOneEntry (s : SystemPtes) (i : Nat) (one : Bool) : SystemPtes := s.setPte i { s.pte i with OneEntry := one }

/-- `RtlZeroMemory` of `n` PTEs. -/
def zeroMemory (s : SystemPtes) (i n : Nat) : SystemPtes :=
  { s with pte := fun j => if i ≤ j ∧ j < i + n then .zero else s.pte j }

/-- `MI_GET_CLUSTER_SIZE`. -/
def clusterSize (s : SystemPtes) (i : Nat) : Nat :=
  if (s.pte i).OneEntry then 1 else (s.pte (i + 1)).NextEntry

/-- The one or two PTEs that a cluster uses are zeroed. -/
def zeroCluster (s : SystemPtes) (i : Nat) : SystemPtes :=
  if (s.pte i).OneEntry then s.setPte i .zero else (s.setPte i .zero).setPte (i + 1) .zero

/-- The place before the first cluster of at least `n` PTEs, or at the end of the list. -/
def findLoop (s : SystemPtes) (n : Nat) : Nat → Option Nat → Option (Option Nat)
  | 0, _ => none
  | fuel + 1, previous =>
    if s.nextEntry previous = emptyPteList then some previous
    else if n ≤ s.clusterSize (s.nextEntry previous) then some previous
    else findLoop s n fuel (some (s.nextEntry previous))

/-- The part of a cluster that stays is linked again. -/
def relink (s : SystemPtes) (i size : Nat) : Option SystemPtes := do
  let previous ← s.findLoop size nextEntries none
  let s := s.setNextEntry (some i) (s.nextEntry previous)
  some (s.setNextEntry previous i)

/-- The alignment that is asked for is not looked at. -/
def miReserveAlignedSystemPtes (s : SystemPtes) (numberOfPtes : Nat) : Option (SystemPtes × Option Nat) := do
  let previous ← s.findLoop numberOfPtes nextEntries none
  if s.nextEntry previous = emptyPteList then some (s, none)
  else
    let next := s.nextEntry previous
    let size := s.clusterSize next
    let s := s.setNextEntry previous (s.nextEntry (some next))
    let totalFree := (s.totalFree + 2 ^ 32 - numberOfPtes) % 2 ^ 32
    if size = numberOfPtes then some ({ s.zeroCluster next with totalFree := totalFree }, some next)
    else
      let rest := size - numberOfPtes
      let returned := next + rest
      let s :=
        if rest = 1 then (s.setOneEntry next true).setPte returned .zero
        else s.setNextEntry (some (next + 1)) rest
      let s ← s.relink next rest
      some ({ s with totalFree := totalFree }, some returned)

def miReserveSystemPtes (s : SystemPtes) (numberOfPtes : Nat) : Option (SystemPtes × Option Nat) :=
  s.miReserveAlignedSystemPtes numberOfPtes

/-- The loop of `MiReleaseSystemPtes`. `insert` is `InsertPte`, or `none` for NULL. The result
has the PTEs to release, with those of the clusters that they meet, and the place to put them. -/
def releaseLoop : Nat → SystemPtes → Span → Option Nat → Option (Option Nat) →
    Option (SystemPtes × Span × Option Nat)
  | 0, _, _, _, _ => none
  | fuel + 1, s, released, previous, insert =>
    if s.nextEntry previous = emptyPteList then some (s, released, insert.getD previous)
    else
      let next := s.nextEntry previous
      let size := s.clusterSize next
      if next + size = released.start ∨ released.start + released.size = next then
        let released := ⟨if next < released.start then next else released.start, (released.size + size) % 2 ^ 32⟩
        let s := s.setNextEntry previous (s.nextEntry (some next))
        releaseLoop fuel (s.zeroCluster next) released previous none
      else
        let insert := if insert = none ∧ released.size ≤ size then some previous else insert
        releaseLoop fuel s released (some next) insert

def miReleaseSystemPtes (s : SystemPtes) (startingPte numberOfPtes : Nat) : Option SystemPtes := do
  let s := s.zeroMemory startingPte numberOfPtes
  let s := { s with totalFree := (s.totalFree + numberOfPtes) % 2 ^ 32 }
  let (s, released, insert) ← releaseLoop nextEntries s ⟨startingPte, numberOfPtes⟩ none none
  let s :=
    if released.size ≠ 1 then (s.setOneEntry released.start false).setNextEntry (some (released.start + 1)) released.size
    else s.setOneEntry released.start true
  let s := s.setNextEntry (some released.start) (s.nextEntry insert)
  some (s.setNextEntry insert released.start)

/-- `s` is what was there before. -/
def miInitializeSystemPtes (s : SystemPtes) (startingPte numberOfPtes : Nat) : SystemPtes :=
  let s := s.zeroMemory startingPte numberOfPtes
  let s := s.setNextEntry (some startingPte) emptyPteList
  let s := { s with firstFree := .zero }
  let s := s.setNextEntry none startingPte
  let s := (s.setPte (startingPte + 1) .zero).setNextEntry (some (startingPte + 1)) numberOfPtes
  { s with totalFree := numberOfPtes }

end SystemPtes

/-- The PTEs of a pool: their numbers are smaller than the end mark of the list. -/
structure PteSpace extends Span where
  two_le : 2 ≤ size
  below : start + size ≤ emptyPteList

/-- The pool, and the PTEs that are reserved. -/
structure PtePool where
  ptes : SystemPtes
  reserved : List Span

inductive PteCall
  | reserve (numberOfPtes : Nat)
  | release (range : Span)
  | write (i : Nat) (pte : ListPte)

/-- The owner of reserved PTEs writes what it likes to them. -/
def pteStep (s : PtePool) : PteCall → Option PtePool
  | .reserve n => (s.ptes.miReserveSystemPtes n).map fun (ptes, returned) =>
      ⟨ptes, match returned with
        | none => s.reserved
        | some i => ⟨i, n⟩ :: s.reserved⟩
  | .release r => (s.ptes.miReleaseSystemPtes r.start r.size).map fun ptes => ⟨ptes, s.reserved.erase r⟩
  | .write i pte => some { s with ptes := s.ptes.setPte i pte }

def PteOk (s : PtePool) : PteCall → Prop
  | .reserve n => 1 ≤ n
  | .release r => r ∈ s.reserved
  | .write i _ => ∃ r ∈ s.reserved, r.Has i

def PteSpace.initial (space : PteSpace) (before : SystemPtes) : PtePool :=
  ⟨before.miInitializeSystemPtes space.start space.size, []⟩

end FreeNT.Mm
