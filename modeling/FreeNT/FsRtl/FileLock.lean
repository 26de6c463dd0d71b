import FreeNT.Rtl.GenericTable

/-!
# Byte-range locks (`ntoskrnl/fsrtl/filelock.c`)

The locks on a file are kept in a generic table of ranges (`RangeTable`), in which shared
locks that overlap are merged to one entry, and in a list of the shared locks
(`SharedLocks`). `LockCompare` takes two ranges for equal if they overlap, as signed
numbers. A request that conflicts with a lock waits in a queue (`CsqList`), and is tried
again when a lock that it overlaps is released.

Allocations succeed or fail as `Pool` lists; the state also records which locks are
granted (`Granted`) and which requests have been completed (`Completed`), and no routine
reads these. A failed assertion gives `none`, and so does a loop that takes more than
`fuel` turns. Requests are not cancelled, and the routine that a file system may give for
their completion only returns a status. `fsRtlFastUnlockAllByKey` is not part of the model.
-/

namespace FreeNT.FsRtl

open FreeNT.Rtl

/-- An entry of the table (`COMBINED_LOCK_ELEMENT`). -/
structure LockElement where
  StartingByte : BitVec 64
  EndingByte : BitVec 64
  ExclusiveLock : Bool
  Key : Nat
  ProcessId : Nat
  FileObject : Nat
  deriving DecidableEq, Repr

def lockCompare (a b : LockElement) : Ordering :=
  if a.StartingByte.toInt < b.EndingByte.toInt ∧ b.StartingByte.toInt ≤ a.StartingByte.toInt ∨
      b.StartingByte.toInt < a.EndingByte.toInt ∧ a.StartingByte.toInt ≤ b.StartingByte.toInt then .eq
  else if a.StartingByte.toInt < b.StartingByte.toInt then .lt
  else if b.StartingByte.toInt < a.StartingByte.toInt then .gt
  else .eq

structure LockSharedRange where
  Start : BitVec 64
  End : BitVec 64
  Key : Nat
  ProcessId : Nat
  deriving DecidableEq, Repr

/-- The arguments of a request for a lock. -/
structure LockRequest where
  FileOffset : BitVec 64
  Length : BitVec 64
  Process : Nat
  Key : Nat
  FileObject : Nat
  FailImmediately : Bool
  ExclusiveLock : Bool
  deriving DecidableEq, Repr

def LockRequest.End (r : LockRequest) : BitVec 64 := r.FileOffset + r.Length

/-- A request packet: its arguments, and `IoStatus.Information`. -/
structure Irp where
  Request : LockRequest
  Information : Nat
  deriving DecidableEq, Repr

inductive LockStatus where
  | success
  | pending
  | invalidParameter
  | noMemory
  | fileLockConflict
  | rangeNotLocked
  deriving DecidableEq, Repr

structure LockInformation where
  RangeTable : GenericTable LockElement
  CsqList : List Irp
  SharedLocks : List LockSharedRange
  Generation : Nat

/-- A lock as its owner knows it. -/
structure Lock where
  StartingByte : BitVec 64
  EndingByte : BitVec 64
  ExclusiveLock : Bool
  Key : Nat
  ProcessId : Nat
  deriving DecidableEq, Repr

def LockElement.lock (e : LockElement) : Lock :=
    ⟨e.StartingByte, e.EndingByte, e.ExclusiveLock, e.Key, e.ProcessId⟩

def LockSharedRange.lock (r : LockSharedRange) : Lock := ⟨r.Start, r.End, false, r.Key, r.ProcessId⟩

/-- A `FILE_LOCK`. -/
structure FileLock where
  LockInformation : Option LockInformation
  Pool : List Bool
  Granted : List Lock
  Completed : List (Irp × LockStatus)

/-- What the routines find in their surroundings: the contents of a new pool block where
`Generation` will be, the bytes of a table from `OrderedPointer` on, read as an element, and
the completion routine of the file system. -/
structure LockEnv where
  Generation : Nat
  Head : GenericTable LockElement → LockElement
  CompleteLockIrpRoutine : Option (Irp → LockStatus → LockStatus)

def fsRtlInitializeFileLock : FileLock := ⟨none, [], [], []⟩

def fsRtlCompleteLockIrpReal (env : LockEnv) (s : FileLock) (irp : Irp) (status : LockStatus) :
    LockStatus × FileLock :=
  (env.CompleteLockIrpRoutine.elim status fun routine => routine irp status,
    { s with Completed := s.Completed ++ [(irp, status)] })

/-- The request is completed if there is a packet for it. -/
def completeIf (env : LockEnv) (s : FileLock) (irp : Option Irp) (status : LockStatus) : FileLock :=
  irp.elim s fun irp => (fsRtlCompleteLockIrpReal env s irp status).2

/-! ## Shared ranges -/

def fsRtlpExpandLockElement (toExpand conflict : LockElement) : LockElement :=
  let toExpand := if conflict.StartingByte.toInt < toExpand.StartingByte.toInt then
    { toExpand with StartingByte := conflict.StartingByte } else toExpand
  if toExpand.EndingByte.toInt < conflict.EndingByte.toInt then
    { toExpand with EndingByte := conflict.EndingByte } else toExpand

/-- The loop of `FsRtlpRebuildSharedLockRange`: the entries that overlap are taken out, and the
element grows by them. -/
def swallow : Nat → GenericTable LockElement → LockElement → Option (GenericTable LockElement × LockElement)
  | 0, _, _ => none
  | fuel + 1, t, new =>
    match rtlLookupElementGenericTable lockCompare t new with
    | (none, t) => some (t, new)
    | (some entry, t) =>
      match rtlDeleteElementGenericTable lockCompare t entry.UserData with
      | (true, t) => swallow fuel t (fsRtlpExpandLockElement new entry.UserData)
      | (false, _) => none

/-- `FsRtlpRebuildSharedLockRange`, which asserts that the new entry could be inserted. -/
def fsRtlpRebuildSharedLockRange (t : GenericTable LockElement) (conflict : LockElement) (pool : List Bool) :
    Option (GenericTable LockElement × List Bool) := do
  let (t, new) ← swallow (t.NumberGenericTableElements + 1) t conflict
  match ← rtlInsertElementGenericTable lockCompare t new pool with
  | (some (_, true), t, pool) => return (t, pool)
  | _ => none

/-! ## Locking -/

def LockRequest.element (r : LockRequest) : LockElement :=
  ⟨r.FileOffset, r.End, r.ExclusiveLock, r.Key, r.Process, r.FileObject⟩

def LockRequest.range (r : LockRequest) : LockSharedRange := ⟨r.FileOffset, r.End, r.Key, r.Process⟩

/-- The lock information, which is made for the first request. -/
def lockInformation (env : LockEnv) (s : FileLock) : Option LockInformation × FileLock :=
  match s.LockInformation with
  | some info => (some info, s)
  | none =>
    let (allocated, pool) := nextOutcome s.Pool
    let info : LockInformation := ⟨rtlInitializeGenericTable, [], [], env.Generation⟩
    if allocated then (some info, { s with LockInformation := some info, Pool := pool })
    else (none, { s with Pool := pool })

/-- A request that conflicts fails, or waits; `stamped` if its packet gets the number of the last release. -/
def failOrWait (env : LockEnv) (s : FileLock) (info : LockInformation) (r : LockRequest) (irp : Option Irp)
    (stamped : Bool) : Bool × LockStatus × FileLock :=
  if r.FailImmediately then (false, .fileLockConflict, completeIf env s irp .fileLockConflict)
  else
    let wait (irp : Irp) : Irp := if stamped then { irp with Information := info.Generation } else irp
    (false, .pending, { s with LockInformation := some { info with CsqList := info.CsqList ++ (irp.map wait).toList } })

/-- A shared lock is added to the list, if there is memory for it. -/
def addRange (s : FileLock) (info : LockInformation) (r : LockRequest) : Bool × FileLock :=
  let (allocated, pool) := nextOutcome s.Pool
  if allocated then
    (true, { s with
      LockInformation := some { info with SharedLocks := info.SharedLocks ++ [r.range] }
      Pool := pool
      Granted := s.Granted ++ [r.element.lock] })
  else (false, { s with Pool := pool })

/-- The conflict is with a shared entry, for a shared lock: it is granted if no entry in the range is exclusive. -/
def lockShared (env : LockEnv) (s : FileLock) (info : LockInformation) (r : LockRequest) (irp : Option Irp) :
    Option (Bool × LockStatus × FileLock) := do
  let exclusive (e : LockElement) : Bool := lockCompare e r.element == .eq && e.ExclusiveLock
  let (found, t) := rtlScan (env.Head info.RangeTable)
    exclusive info.RangeTable.NumberGenericTableElements 0 info.RangeTable
  let info := { info with RangeTable := t }
  let s := { s with LockInformation := some info }
  if found then return failOrWait env s info r irp false
  else
    let (t, pool) ← fsRtlpRebuildSharedLockRange info.RangeTable r.element s.Pool
    let info := { info with RangeTable := t }
    let (added, s) := addRange { s with LockInformation := some info, Pool := pool } info r
    let status := if added then .success else .noMemory
    return (added, status, completeIf env s irp status)

/-- A new entry was inserted for the request: a shared lock is also added to the list. -/
def lockNew (env : LockEnv) (s : FileLock) (info : LockInformation) (r : LockRequest) (irp : Option Irp) :
    Bool × LockStatus × FileLock :=
  let (added, s) := if r.ExclusiveLock then (true, { s with Granted := s.Granted ++ [r.element.lock] })
    else addRange s info r
  if !added then (false, .noMemory, completeIf env s irp .noMemory)
  else
    match irp with
    | none => (true, .success, s)
    | some irp =>
      let (status, s) := fsRtlCompleteLockIrpReal env s irp .success
      (true, status, s)

/-- `FsRtlPrivateLock`: whether the lock is granted, and `IoStatus`. -/
def fsRtlPrivateLock (env : LockEnv) (s : FileLock) (r : LockRequest) (irp : Option Irp) :
    Option (Bool × LockStatus × FileLock) :=
  if r.End.toNat < r.FileOffset.toNat then some (false, .invalidParameter, completeIf env s irp .invalidParameter)
  else
    match lockInformation env s with
    | (none, s) => some (false, .noMemory, s)
    | (some info, s) => do
      let (conflict, t, pool) ← rtlInsertElementGenericTable lockCompare info.RangeTable r.element s.Pool
      let info := { info with RangeTable := t }
      let s := { s with LockInformation := some info, Pool := pool }
      match conflict with
      | none => return (false, .noMemory, completeIf env s irp .noMemory)
      | some (_, true) => return lockNew env s info r irp
      | some (entry, false) =>
        if entry.UserData.ExclusiveLock || r.ExclusiveLock then return failOrWait env s info r irp true
        else lockShared env s info r irp

/-! ## Unlocking -/

/-- The arguments of `FsRtlFastUnlockSingle`. -/
structure UnlockRequest where
  FileOffset : BitVec 64
  Length : BitVec 64
  Process : Nat
  Key : Nat
  FileObject : Nat
  deriving DecidableEq, Repr

def UnlockRequest.End (u : UnlockRequest) : BitVec 64 := u.FileOffset + u.Length

/-- The range to look for; the rest of the element is not set, and not read. -/
def UnlockRequest.find (u : UnlockRequest) : LockElement := ⟨u.FileOffset, u.End, false, 0, 0, 0⟩

def UnlockRequest.range (u : UnlockRequest) : LockSharedRange := ⟨u.FileOffset, u.End, u.Key, u.Process⟩

def LockSharedRange.element (r : LockSharedRange) (fileObject : Nat) : LockElement :=
  ⟨r.Start, r.End, false, r.Key, r.ProcessId, fileObject⟩

/-- Puts the shared locks back that overlap the entry taken out. -/
def putBack (find : LockElement) (fileObject : Nat) :
    List LockSharedRange → GenericTable LockElement → List Bool → Option (GenericTable LockElement × List Bool)
  | [], t, pool => some (t, pool)
  | r :: rs, t, pool =>
    if lockCompare find (r.element fileObject) ≠ .eq then putBack find fileObject rs t pool
    else do
      let (t, pool) ← fsRtlpRebuildSharedLockRange t (r.element fileObject) pool
      putBack find fileObject rs t pool

/-- The part of `FsRtlFastUnlockSingle` that releases the lock: the entry that was taken out, and the lock
released, or `none` if there is no such lock. -/
def releaseLock (info : LockInformation) (u : UnlockRequest) (pool : List Bool) :
    Option (Option (LockElement × Lock) × LockInformation × List Bool) :=
  match rtlLookupElementGenericTable lockCompare info.RangeTable u.find with
  | (none, t) => some (none, { info with RangeTable := t }, pool)
  | (some entry, t) =>
    if entry.UserData.ExclusiveLock then
      if entry.UserData.Key ≠ u.Key ∨ entry.UserData.ProcessId ≠ u.Process ∨ entry.UserData.StartingByte ≠ u.FileOffset ∨
          entry.UserData.EndingByte ≠ u.End then some (none, { info with RangeTable := t }, pool)
      else
        let (_, t) := rtlDeleteElementGenericTable lockCompare t entry.UserData
        some (some (entry.UserData, entry.UserData.lock), { info with RangeTable := t }, pool)
    else if u.range ∈ info.SharedLocks then do
      let ranges := info.SharedLocks.erase u.range
      let (_, t) := rtlDeleteElementGenericTable lockCompare t entry.UserData
      let (t, pool) ← putBack entry.UserData u.FileObject ranges t pool
      return (some (entry.UserData, u.range.lock), { info with RangeTable := t, SharedLocks := ranges }, pool)
    else some (none, { info with RangeTable := t }, pool)

/-- The range that a waiting request asks for (`LockPeekNextIrp`). -/
def Irp.find (irp : Irp) : LockElement := ⟨irp.Request.FileOffset, irp.Request.End, false, 0, 0, 0⟩

/-- `IoCsqRemoveNextIrp`: the first request that overlaps the range, and the others. -/
def ioCsqRemoveNextIrp (find : LockElement) : List Irp → Option (Irp × List Irp)
  | [] => none
  | irp :: irps =>
    if lockCompare irp.find find = .eq then some (irp, irps)
    else (ioCsqRemoveNextIrp find irps).map fun (found, rest) => (found, irp :: rest)

/-- The loop of `FsRtlFastUnlockSingle` that tries the waiting requests again. -/
def retryLoop (env : LockEnv) (find : LockElement) : Nat → FileLock → Option FileLock
  | 0, _ => none
  | fuel + 1, s => do
    let info ← s.LockInformation
    match ioCsqRemoveNextIrp find info.CsqList with
    | none => return s
    | some (irp, rest) =>
      if irp.Information = info.Generation then
        return { s with LockInformation := some { info with CsqList := rest ++ [irp] } }
      else
        let (_, _, s) ← fsRtlPrivateLock env { s with LockInformation := some { info with CsqList := rest } }
          irp.Request (some irp)
        retryLoop env find fuel s

/-- `FsRtlFastUnlockSingle`, up to the loop: the range to try requests for, or `none` if no lock is released. -/
def startUnlock (s : FileLock) (u : UnlockRequest) : Option (Option (LockElement × Lock) × FileLock) :=
  match s.LockInformation with
  | none => some (none, s)
  | some info => do
    let (released, info, pool) ← releaseLock info u s.Pool
    match released with
    | none => return (none, { s with LockInformation := some info, Pool := pool })
    | some (find, lock) =>
      let info := { info with Generation := (info.Generation + 1) % 2 ^ 32 }
      return (some (find, lock), { s with
        LockInformation := some info
        Pool := pool
        Granted := s.Granted.erase lock })

/-- `FsRtlFastUnlockSingle`: the lock that was released, if any, with the status. -/
def fsRtlFastUnlockSingle (env : LockEnv) (fuel : Nat) (s : FileLock) (u : UnlockRequest) :
    Option (LockStatus × Option Lock × FileLock) := do
  match ← startUnlock s u with
  | (none, s) => return (.rangeNotLocked, none, s)
  | (some (find, lock), s) =>
    let s ← retryLoop env find fuel s
    return (.success, some lock, s)

/-- The first loop of `FsRtlFastUnlockAll`, at the `k`-th shared lock: the pointer to the next one is taken
before the call. A shared lock that the call releases stands at this place or before it. -/
def unlockShared (env : LockEnv) (fuel fileObject process : Nat) : Nat → Nat → FileLock → Option FileLock
  | 0, _, _ => none
  | turns + 1, k, s => do
    let info ← s.LockInformation
    match info.SharedLocks[k]? with
    | none => return s
    | some range =>
      let last := info.SharedLocks.length = k + 1
      if range.ProcessId ≠ process then
        if last then return s else unlockShared env fuel fileObject process turns (k + 1) s
      else
        let (_, released, s) ← fsRtlFastUnlockSingle env fuel s
          ⟨range.Start, range.End - range.Start, range.ProcessId, range.Key, fileObject⟩
        let next := if released.any (!·.ExclusiveLock) then k else k + 1
        if last then return s else unlockShared env fuel fileObject process turns next s

/-- The second loop of `FsRtlFastUnlockAll`, over the entries of the table. -/
def unlockEntries (env : LockEnv) (fuel : Nat) : Nat → Bool → FileLock → Option FileLock
  | 0, _, _ => none
  | turns + 1, restart, s => do
    let info ← s.LockInformation
    let (entry, t) := rtlEnumerateGenericTable info.RangeTable restart
    let s := { s with LockInformation := some { info with RangeTable := t } }
    match entry with
    | none => return s
    | some entry =>
      let e := entry.UserData
      let (_, _, s) ← fsRtlFastUnlockSingle env fuel s
        ⟨e.StartingByte, e.EndingByte - e.StartingByte, e.ProcessId, e.Key, e.FileObject⟩
      unlockEntries env fuel turns false s

def fsRtlFastUnlockAll (env : LockEnv) (fuel : Nat) (s : FileLock) (fileObject process : Nat) :
    Option (LockStatus × FileLock) :=
  if s.LockInformation.isNone then some (.rangeNotLocked, s)
  else do
    let s ← unlockShared env fuel fileObject process fuel 0 s
    let s ← unlockEntries env fuel fuel true s
    return (.success, s)

/-! ## Checking -/

/-- The range of a read or a write of `length` bytes; the rest of the element is not set, and not read. -/
def accessRange (offset : BitVec 64) (length : BitVec 32) : LockElement :=
  ⟨offset, offset + length.setWidth 64, false, 0, 0, 0⟩

/-- The entry that a check looks at, and the state after the lookup. -/
def lookupRange (s : FileLock) (range : LockElement) : Option LockElement × FileLock :=
  match s.LockInformation with
  | none => (none, s)
  | some info =>
    let (entry, t) := rtlLookupElementGenericTable lockCompare info.RangeTable range
    (entry.map (·.UserData), { s with LockInformation := some { info with RangeTable := t } })

def fsRtlCheckLockForReadAccess (s : FileLock) (offset : BitVec 64) (length : BitVec 32)
    (key : Nat) : Bool × FileLock :=
  match lookupRange s (accessRange offset length) with
  | (none, s) => (true, s)
  | (some e, s) => (!e.ExclusiveLock || key == e.Key, s)

/-- `FsRtlCheckLockForWriteAccess`, for a request of the process `process`. -/
def fsRtlCheckLockForWriteAccess (s : FileLock) (offset : BitVec 64) (length : BitVec 32) (process : Nat) :
    Bool × FileLock :=
  match lookupRange s (accessRange offset length) with
  | (none, s) => (true, s)
  | (some e, s) => (process == e.ProcessId, s)

/-- The range of a fast check, which has a length of 64 bits. -/
def fastRange (offset length : BitVec 64) : LockElement := ⟨offset, offset + length, false, 0, 0, 0⟩

def fsRtlFastCheckLockForRead (s : FileLock) (offset length : BitVec 64) (key process : Nat) : Bool × FileLock :=
  match lookupRange s (fastRange offset length) with
  | (none, s) => (true, s)
  | (some e, s) => if !e.ExclusiveLock then (true, s) else (e.Key == key && e.ProcessId == process, s)

def fsRtlFastCheckLockForWrite (s : FileLock) (offset length : BitVec 64) (key process : Nat) : Bool × FileLock :=
  match lookupRange s (fastRange offset length) with
  | (none, s) => (true, s)
  | (some e, s) => (e.Key == key && e.ProcessId == process, s)

end FreeNT.FsRtl
