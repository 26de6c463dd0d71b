import FreeNT.Rtl.SplayTable

/-!
# Mapping control blocks (`ntoskrnl/fsrtl/largemcb.c`)

An MCB maps the virtual blocks of a file to logical blocks. Its runs are the elements of a
generic table, and holes between them are not stored. The routines search the table with
two comparisons, `McbMappingCompare` and `McbMappingIntersectCompare`, and change the runs
that they find in place; a run is known by the address of its node.

Numbers of blocks are `LONGLONG`, and their sums wrap. A routine that would not return, or
whose assertion fails, gives `none`.
-/

namespace FreeNT.FsRtl

open FreeNT.Rtl FreeNT.Rtl.SplayTable

/-- A run; `RunEndVbn` is after its last block. -/
structure LargeMcbMappingEntry where
  RunStartVbn : Int64
  RunEndVbn : Int64
  StartingLbn : Int64
  deriving DecidableEq, Repr

abbrev LargeMcbMapping := SplayTable LargeMcbMappingEntry

structure BaseMcb where
  MaximumPairCount : Nat
  PairCount : Nat
  Mapping : LargeMcbMapping

def mcbMappingCompare (a b : LargeMcbMappingEntry) : Ordering :=
  if a.RunStartVbn = b.RunStartVbn ∧ a.RunEndVbn = b.RunEndVbn then .eq
  else if a.RunEndVbn ≤ b.RunStartVbn then .lt
  else if a.RunEndVbn ≥ b.RunStartVbn then .gt
  else .eq

def mcbMappingIntersectCompare (a b : LargeMcbMappingEntry) : Ordering :=
  if a.RunStartVbn ≤ b.RunStartVbn ∧ a.RunEndVbn > b.RunStartVbn then .eq
  else if a.RunStartVbn ≥ b.RunStartVbn ∧ b.RunEndVbn > a.RunStartVbn then .eq
  else if a.RunStartVbn < b.RunStartVbn then .lt
  else if a.RunStartVbn > b.RunStartVbn then .gt
  else .eq

def maximumPairCount : Nat := 15

def fsRtlInitializeBaseMcb : BaseMcb := ⟨maximumPairCount, 0, rtlInitializeGenericTable⟩

/-- A run as it is enumerated; a hole has the `Lbn` -1. -/
structure McbRun where
  Vbn : Int64
  Lbn : Int64
  SectorCount : Int64
  deriving DecidableEq, Repr

/-- The loop of `FsRtlGetNextBaseMcbEntry` over the runs of the table, at node `run`. -/
def getNextLoop (runIndex : Nat) :
    Nat → LargeMcbMapping → Nat → Nat → UInt64 → UInt64 → Option (LargeMcbMapping × Bool × McbRun)
  | 0, _, _, _, _, _ => none
  | fuel + 1, t, run, currentIndex, lastVbn, lastSectorCount =>
    if run = 0 then some (t, false, ⟨0xdeadbeef, 0xdeadbeef, 0xdeadbeef⟩)
    else do
      let e ← t.UserData run
      -- the comparison is unsigned
      let hole := decide (lastVbn + lastSectorCount < e.RunStartVbn.toUInt64)
      let vbn := (lastVbn + lastSectorCount).toInt64
      if hole ∧ runIndex = currentIndex then return (t, true, ⟨vbn, -1, e.RunStartVbn - vbn⟩)
      let currentIndex := if hole then (currentIndex + 1) % 2 ^ 32 else currentIndex
      if runIndex = currentIndex then return (t, true, ⟨e.RunStartVbn, e.StartingLbn, e.RunEndVbn - e.RunStartVbn⟩)
      let (t, run) ← rtlEnumerateGenericTable t false
      getNextLoop runIndex fuel t run ((currentIndex + 1) % 2 ^ 32) e.RunStartVbn.toUInt64
        (e.RunEndVbn - e.RunStartVbn).toUInt64

/-- `FsRtlGetNextBaseMcbEntry`: the result, and the run. -/
def fsRtlGetNextBaseMcbEntry (mcb : BaseMcb) (runIndex : Nat) : Option (BaseMcb × Bool × McbRun) := do
  let (t, run) ← rtlEnumerateGenericTable mcb.Mapping true
  let (t, result, entry) ← getNextLoop runIndex loopBound t run 0 0 0
  return ({ mcb with Mapping := t }, result, entry)

/-- What `FsRtlLookupBaseMcbEntry` returns; a value that it does not set is `none`. -/
structure McbLookup where
  Result : Bool
  Lbn : Int64
  SectorCountFromLbn : Option Int64
  StartingLbn : Int64
  SectorCountFromStartingLbn : Option Int64
  Index : Option Nat
  deriving DecidableEq, Repr

/-- The answer for a block of a run, or of a hole. -/
def McbRun.lookup (run : McbRun) (vbn : Int64) (i : Nat) : McbLookup where
  Result := true
  Lbn := if run.Lbn = -1 then -1 else run.Lbn + (vbn - run.Vbn)
  SectorCountFromLbn := some (run.Vbn + run.SectorCount - vbn)
  StartingLbn := run.Lbn
  SectorCountFromStartingLbn := some (run.Vbn + run.SectorCount - run.Vbn)
  Index := some i

def lookupLoop (vbn : Int64) : Nat → BaseMcb → Nat → Option (BaseMcb × McbLookup)
  | 0, _, _ => none
  | fuel + 1, mcb, i => do
    let (mcb, result, run) ← fsRtlGetNextBaseMcbEntry mcb i
    if !result then return (mcb, ⟨false, -1, none, -1, none, none⟩)
    if vbn < run.Vbn + run.SectorCount then return (mcb, run.lookup vbn i)
    lookupLoop vbn fuel mcb ((i + 1) % 2 ^ 32)

def fsRtlLookupBaseMcbEntry (mcb : BaseMcb) (vbn : Int64) : Option (BaseMcb × McbLookup) :=
    lookupLoop vbn loopBound mcb 0

/-- The loop of `FsRtlLookupLastLargeMcbEntryAndIndex_internal`, at node `run`: the last run, and
the number of runs and holes. -/
def lookupLastLoop : Nat → LargeMcbMapping → Nat → Nat → Int64 → Nat → Option (LargeMcbMapping × Nat × Nat)
  | 0, _, _, _, _, _ => none
  | fuel + 1, t, run, runIndex, lastVbn, runFound =>
    if run = 0 then some (t, runFound, runIndex)
    else do
      let e ← t.UserData run
      let runIndex := if e.RunStartVbn > lastVbn then (runIndex + 1) % 2 ^ 32 else runIndex
      let (t, next) ← rtlEnumerateGenericTable t false
      lookupLastLoop fuel t next ((runIndex + 1) % 2 ^ 32) e.RunEndVbn run

structure McbLast where
  Vbn : Int64
  Lbn : Int64
  Index : Nat
  deriving DecidableEq, Repr

/-- `FsRtlLookupLastBaseMcbEntryAndIndex`; the answer is `none` if the MCB is empty. -/
def fsRtlLookupLastBaseMcbEntryAndIndex (mcb : BaseMcb) : Option (BaseMcb × Option McbLast) := do
  let (t, run) ← rtlEnumerateGenericTable mcb.Mapping true
  let (t, runFound, runIndex) ← lookupLastLoop loopBound t run 0 0 0
  if runFound = 0 then return ({ mcb with Mapping := t }, none)
  let e ← t.UserData runFound
  return ({ mcb with Mapping := t },
    some ⟨e.RunEndVbn - 1, e.StartingLbn + (e.RunEndVbn - e.RunStartVbn) - 1, (runIndex + 2 ^ 32 - 1) % 2 ^ 32⟩)

def numberOfRunsLoop : Nat → BaseMcb → Nat → Nat → Option (BaseMcb × Nat)
  | 0, _, _, _ => none
  | fuel + 1, mcb, i, numberOfRuns => do
    let (mcb, result, _) ← fsRtlGetNextBaseMcbEntry mcb i
    if !result then return (mcb, numberOfRuns)
    numberOfRunsLoop fuel mcb ((i + 1) % 2 ^ 32) ((numberOfRuns + 1) % 2 ^ 32)

def fsRtlNumberOfRunsInBaseMcb (mcb : BaseMcb) : Option (BaseMcb × Nat) := numberOfRunsLoop loopBound mcb 0 0

/-- The loop of `FsRtlRemoveBaseMcbEntry`: a run that intersects `needle` is cut before it, or after
it, or deleted. -/
def removeLoop (needle : LargeMcbMappingEntry) : Nat → BaseMcb → Option BaseMcb
  | 0, _ => none
  | fuel + 1, mcb => do
    let (t, haystackRun) ← rtlLookupElementGenericTable mcbMappingIntersectCompare mcb.Mapping needle
    if haystackRun = 0 then return { mcb with Mapping := t }
    let run ← t.UserData haystackRun
    if run.RunStartVbn < needle.RunStartVbn then
      if ¬ run.RunEndVbn > needle.RunStartVbn then none
      else removeLoop needle fuel { mcb with Mapping := t.write haystackRun { run with RunEndVbn := needle.RunStartVbn } }
    else if run.RunEndVbn > needle.RunEndVbn then
      if ¬ run.RunStartVbn < needle.RunEndVbn then none
      else removeLoop needle fuel { mcb with Mapping := t.write haystackRun { run with RunStartVbn := needle.RunEndVbn } }
    else
      let (t, _) ← rtlDeleteElementGenericTable mcbMappingCompare t run
      removeLoop needle fuel { mcb with Mapping := t, PairCount := (mcb.PairCount + 2 ^ 32 - 1) % 2 ^ 32 }

def fsRtlRemoveBaseMcbEntry (mcb : BaseMcb) (vbn sectorCount : Int64) : Option (BaseMcb × Bool) :=
  if vbn < 0 ∨ sectorCount ≤ 0 then some (mcb, false)
  else if vbn + sectorCount ≤ vbn then some (mcb, false)
  else do
    let mcb ← removeLoop ⟨vbn, vbn + sectorCount, -1⟩ loopBound mcb
    return (mcb, true)

/-- `MAXLONG`, the greatest `LONG`. -/
def MAXLONG : Int64 := 0x7fffffff

def fsRtlTruncateBaseMcb (mcb : BaseMcb) (vbn : Int64) : Option BaseMcb :=
  (fsRtlRemoveBaseMcbEntry mcb vbn (MAXLONG - vbn + 1)).map (·.1)

/-- The run before a new one is merged with it if the logical blocks are contiguous, too. -/
def mergeLower (mcb : BaseMcb) (newRun : LargeMcbMappingEntry) : Option (BaseMcb × LargeMcbMappingEntry) := do
  let needle : LargeMcbMappingEntry := ⟨newRun.RunStartVbn - 1, newRun.RunStartVbn - 1 + 1, -1⟩
  let (t, lowerRun) ← rtlLookupElementGenericTable mcbMappingIntersectCompare mcb.Mapping needle
  if lowerRun = 0 then return ({ mcb with Mapping := t }, newRun)
  let run ← t.UserData lowerRun
  if run.StartingLbn + (run.RunEndVbn - run.RunStartVbn) = newRun.StartingLbn then
    if run.RunEndVbn ≠ newRun.RunStartVbn then none
    else
      let (t, _) ← rtlDeleteElementGenericTable mcbMappingCompare t run
      return ({ mcb with Mapping := t, PairCount := (mcb.PairCount + 2 ^ 32 - 1) % 2 ^ 32 },
        { newRun with RunStartVbn := run.RunStartVbn, StartingLbn := run.StartingLbn })
  else return ({ mcb with Mapping := t }, newRun)

/-- The run after a new one is merged with it if its logical blocks are not before those of the new one. -/
def mergeHigher (mcb : BaseMcb) (newRun : LargeMcbMappingEntry) : Option (BaseMcb × LargeMcbMappingEntry) := do
  let needle : LargeMcbMappingEntry := ⟨newRun.RunEndVbn, newRun.RunEndVbn + 1, -1⟩
  let (t, higherRun) ← rtlLookupElementGenericTable mcbMappingIntersectCompare mcb.Mapping needle
  if higherRun = 0 then return ({ mcb with Mapping := t }, newRun)
  let run ← t.UserData higherRun
  if newRun.StartingLbn ≤ run.StartingLbn then
    if run.RunStartVbn ≠ newRun.RunEndVbn then none
    else
      let (t, _) ← rtlDeleteElementGenericTable mcbMappingCompare t run
      return ({ mcb with Mapping := t, PairCount := (mcb.PairCount + 2 ^ 32 - 1) % 2 ^ 32 },
        { newRun with RunEndVbn := run.RunEndVbn })
  else return ({ mcb with Mapping := t }, newRun)

/-- The part of `FsRtlAddBaseMcbEntry` between its test and the insertion: previous runs in the
range are removed, and the new run is merged with those that are left. -/
def makeRoom (mcb : BaseMcb) (vbn lbn sectorCount : Int64) : Option (BaseMcb × LargeMcbMappingEntry) := do
  let (mcb, _) ← fsRtlRemoveBaseMcbEntry mcb vbn sectorCount
  let (mcb, newRun) ← mergeLower mcb ⟨vbn, vbn + sectorCount, lbn⟩
  mergeHigher mcb newRun

/-- `FsRtlAddBaseMcbEntry`; `allocated` is the node that the allocation gives. -/
def fsRtlAddBaseMcbEntry (mcb : BaseMcb) (vbn lbn sectorCount : Int64) (allocated : Nat) :
    Option (BaseMcb × Bool) :=
  if vbn < 0 then some (mcb, false)
  else if sectorCount ≤ 0 then some (mcb, false)
  else do
    let (mcb, int) ← fsRtlLookupBaseMcbEntry mcb vbn
    if int.Result ∧ int.Lbn ≠ -1 ∧ int.Lbn ≠ lbn then return (mcb, false)
    let (mcb, newRun) ← makeRoom mcb vbn lbn sectorCount
    let (t, _, newElement) ← rtlInsertElementGenericTable mcbMappingCompare mcb.Mapping newRun allocated
    if !newElement then none
    else return ({ mcb with Mapping := t, PairCount := (mcb.PairCount + 1) % 2 ^ 32 }, true)

/-- The loop of `FsRtlSplitBaseMcb`, at node `run`: a run that ends after `vbn` is made to start
there, and shifted. -/
def splitLoop (vbn amount : Int64) : Nat → LargeMcbMapping → Nat → Option LargeMcbMapping
  | 0, _, _ => none
  | fuel + 1, t, run =>
    if run = 0 then some t
    else do
      let e ← t.UserData run
      if vbn ≥ e.RunEndVbn then
        let (t, run) ← rtlEnumerateGenericTable t false
        splitLoop vbn amount fuel t run
      else if ¬ e.RunEndVbn + amount > e.RunEndVbn then none
      else
        let (t, run) ← rtlEnumerateGenericTable
          (t.write run ⟨vbn + amount, e.RunEndVbn + amount, e.StartingLbn⟩) false
        splitLoop vbn amount fuel t run

/-- `FsRtlSplitBaseMcb`; `InsertLowerRun` is NULL throughout, so that no run is inserted. -/
def fsRtlSplitBaseMcb (mcb : BaseMcb) (vbn amount : Int64) : Option (BaseMcb × Bool) := do
  let (t, run) ← rtlEnumerateGenericTable mcb.Mapping true
  let t ← splitLoop vbn amount loopBound t run
  return ({ mcb with Mapping := t }, true)

end FreeNT.FsRtl
