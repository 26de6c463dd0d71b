import FreeNT.Lib.Sweep
import FreeNT.Lib.Run

/-!
# Opportunistic locks

`ntoskrnl/fsrtl/oplock.c`. IRPs and file objects are addresses, 0 is NULL. A call
is one step: it takes the mutex of the oplock, `IntLock`, runs the routine on what
the mutex protects (`Oplock`) and releases it. The count of the mutex is 1 if it is
free; a thread that finds another count sleeps, and since no thread is inside, it
sleeps for ever (`none`). A break that waits releases the mutex twice, in
`FsRtlWaitOnIrp` and behind it. If the break has no completion routine its thread
sleeps between the two, and `wake` is the second release.

A cancel routine is a call of its own, and the `Cancel` flags of the IRPs are read
from the environment of the call. The loops that complete IRPs go on from an IRP
they have completed or from a wait context they have freed: what they read there is
up to the environment (`waitLink`, `irpLink`), and a walk that leaves the list or an
access through NULL is `none`. The assertions are left out: what the routines do when
one fails is modelled too. `completed` lists the IRPs of the wait contexts whose
completion routine has been called.
-/

namespace FreeNT.FsRtl

abbrev OplockFlags := BitVec 32

namespace OplockFlags

def NO_OPLOCK : OplockFlags := 0x1
def LEVEL_1_OPLOCK : OplockFlags := 0x2
def BATCH_OPLOCK : OplockFlags := 0x4
def FILTER_OPLOCK : OplockFlags := 0x8
def LEVEL_2_OPLOCK : OplockFlags := 0x10
def EXCLUSIVE_LOCK : OplockFlags := 0x40
def PENDING_LOCK : OplockFlags := 0x80
def BROKEN_TO_LEVEL_2 : OplockFlags := 0x100
def BROKEN_TO_NONE : OplockFlags := 0x200
def BROKEN_TO_NONE_FROM_LEVEL_2 : OplockFlags := 0x400
def BROKEN_TO_CLOSE_PENDING : OplockFlags := 0x800
def BROKEN_ANY : OplockFlags := 0xF00

end OplockFlags

open OplockFlags

/-- `BooleanFlagOn`. -/
def flagOn (flags mask : OplockFlags) : Bool := flags &&& mask != 0

/-- A wait context, and whether its break came with a completion routine. -/
structure WaitCtx where
  Address : Nat
  Irp : Nat
  CompletionRoutine : Bool
  deriving DecidableEq, Repr

/-- The fields of `INTERNAL_OPLOCK` that the mutex protects. -/
structure Oplock where
  ExclusiveIrp : Nat
  FileObject : Nat
  SharedList : List Nat
  WaitList : List WaitCtx
  Flags : OplockFlags
  completed : List Nat

/-- `INTERNAL_OPLOCK`: also the count of the mutex, and the contexts of the
breaks whose threads sleep. -/
structure InternalOplock extends Oplock where
  IntLock : Nat
  asleep : List WaitCtx

structure OplockEnv where
  cancel : Nat → Bool
  waitLink : WaitCtx → Option WaitCtx → Option WaitCtx
  irpLink : Nat → Option Nat → Option Nat

inductive OplockStatus
  | success | invalidOplockProtocol | oplockNotGranted | cancelled | oplockBreakInProgress
  deriving DecidableEq, Repr

def fsRtlAllocateOplock : InternalOplock := ⟨⟨0, 0, [], [], NO_OPLOCK, []⟩, 1, []⟩

/-- `InterlockedDecrement` gives 0 only from 1. -/
def exAcquireFastMutex (o : InternalOplock) : Option InternalOplock :=
  if o.IntLock = 1 then some { o with IntLock := 0 } else none

def exReleaseFastMutex (o : InternalOplock) : InternalOplock := { o with IntLock := o.IntLock + 1 }

/-! ## The routines under the mutex -/

section Routines

variable (env : OplockEnv) (s : Oplock)

/-- `FsRtlRemoveAndCompleteWaitIrp` in a loop over the wait list. -/
def completeWaits (pick : WaitCtx → Bool) : Option Oplock :=
  (sweep pick env.waitLink s.WaitList).map fun (rest, done) =>
    { s with WaitList := rest, completed := s.completed ++ done.map (·.Irp) }

/-- The loop that completes every waiter. -/
def completeWaiters : Option Oplock := completeWaits env s fun _ => true

def cancelWaitIrp : Option Oplock := completeWaits env s fun c => env.cancel c.Irp

/-- `FsRtlWaitOnIrp` up to its release of the mutex: `InsertHeadList`, and the
cancel routine at once if the IRP is cancelled already. -/
def waitOnIrp (c : WaitCtx) : Option Oplock :=
  let s := { s with WaitList := c :: s.WaitList }
  if env.cancel c.Irp then cancelWaitIrp env s else some s

def cancelOplockIIIrp : Option Oplock :=
  (sweep env.cancel env.irpLink s.SharedList).map fun (rest, removed) =>
    { s with SharedList := rest, Flags := if removed ≠ [] ∧ rest = [] then NO_OPLOCK else s.Flags }

/-- Its completion routine is `FsRtlNotifyCompletion`; it releases the mutex once. -/
def oplockBreakNotify (c : WaitCtx) : Option (Oplock × OplockStatus) :=
  if !flagOn s.Flags BROKEN_TO_LEVEL_2 then some (s, .success)
  else if flagOn s.Flags PENDING_LOCK then
    some ({ s with FileObject := 0, Flags := NO_OPLOCK }, .success)
  else (waitOnIrp env s { c with CompletionRoutine := true }).map (·, .success)

/-- The first part of `FsRtlAcknowledgeOplockBreak`, up to the waiters. -/
def acknowledgeFlags (irp : Nat) (switchToLevel2 : Bool) : Option Oplock :=
  if switchToLevel2 && flagOn s.Flags BROKEN_TO_LEVEL_2 then
    let s := { s with SharedList := s.SharedList ++ [irp], Flags := LEVEL_2_OPLOCK }
    if env.cancel irp then cancelOplockIIIrp env s else some s
  else if flagOn s.Flags (BROKEN_TO_NONE ||| BROKEN_TO_LEVEL_2) then some { s with Flags := NO_OPLOCK }
  else if flagOn s.Flags BROKEN_TO_NONE_FROM_LEVEL_2 then some { s with Flags := NO_OPLOCK }
  else some s

def acknowledgeOplockBreak (fileObject irp : Nat) (switchToLevel2 : Bool) :
    Option (Oplock × OplockStatus) :=
  if s.FileObject ≠ fileObject then some (s, .invalidOplockProtocol)
  else do
    let s ← acknowledgeFlags env s irp switchToLevel2
    let s ← completeWaiters env s
    some ({ s with FileObject := 0 }, .success)

def opBatchBreakClosePending (fileObject : Nat) : Option (Oplock × OplockStatus) :=
  if s.FileObject = fileObject ∧
      flagOn s.Flags (BROKEN_TO_LEVEL_2 ||| BROKEN_TO_NONE ||| BROKEN_TO_NONE_FROM_LEVEL_2) = true then
    if flagOn s.Flags (PENDING_LOCK ||| LEVEL_1_OPLOCK) then
      (completeWaiters env { s with Flags := NO_OPLOCK, FileObject := 0 }).map (·, .success)
    else some ({ s with Flags := (s.Flags &&& ~~~BROKEN_ANY) ||| BROKEN_TO_CLOSE_PENDING }, .success)
  else some (s, .invalidOplockProtocol)

/-- `ObDereferenceObject` of a file object that is not there. -/
def dropExclusive : Option Oplock :=
  if s.FileObject = 0 then none
  else completeWaiters env { s with ExclusiveIrp := 0, FileObject := 0, Flags := NO_OPLOCK }

def cancelExclusiveIrp : Option Oplock :=
  if s.ExclusiveIrp ≠ 0 ∧ env.cancel s.ExclusiveIrp = true then dropExclusive env s else some s

/-- `FsRtlRequestExclusiveOplock` for a pending filter oplock, at a create. It
asserts that there is no oplock or a pending one. -/
def requestPendingOplock (fileObject : Nat) : Oplock × OplockStatus :=
  ({ s with
    ExclusiveIrp := 0, FileObject := fileObject, Flags := EXCLUSIVE_LOCK ||| PENDING_LOCK ||| FILTER_OPLOCK },
    .success)

/-- The shared IRP that an exclusive request completes. It asserts that there is
only one. -/
def removeSharedIrp : Option Oplock :=
  if s.Flags = LEVEL_2_OPLOCK then
    match s.SharedList with
    | [] => none
    | _ :: rest => some { s with SharedList := rest }
  else some s

def requestExclusiveOplock (fileObject irp : Nat) (flags : OplockFlags) : Option (Oplock × OplockStatus) :=
  if flagOn s.Flags (LEVEL_2_OPLOCK ||| PENDING_LOCK ||| NO_OPLOCK) then do
    let s ← removeSharedIrp s
    let s := { s with ExclusiveIrp := irp, FileObject := fileObject, Flags := flags }
    if env.cancel irp then (cancelExclusiveIrp env s).map (·, .cancelled) else some (s, .success)
  else some (s, .oplockNotGranted)

def requestOplockII (irp : Nat) : Option (Oplock × OplockStatus) :=
  if flagOn s.Flags (LEVEL_2_OPLOCK ||| NO_OPLOCK) then
    let s := { s with SharedList := s.SharedList ++ [irp], Flags := LEVEL_2_OPLOCK }
    if env.cancel irp then (cancelOplockIIIrp env s).map (·, .cancelled) else some (s, .success)
  else some (s, .oplockNotGranted)

/-- `fileOf` gives the file objects of the IRPs. -/
def oplockCleanup (fileOf : Nat → Nat) (fileObject : Nat) : Option Oplock :=
  if s.Flags = NO_OPLOCK then some s
  else if s.Flags = LEVEL_2_OPLOCK then
    (sweep (fun irp => fileOf irp == fileObject) env.irpLink s.SharedList).map fun (rest, _) =>
      { s with SharedList := rest, Flags := if rest = [] then NO_OPLOCK else s.Flags }
  else if s.FileObject = fileObject then
    if !flagOn s.Flags (BROKEN_ANY ||| PENDING_LOCK) then
      if s.ExclusiveIrp = 0 then none
      else completeWaiters env { s with ExclusiveIrp := 0, FileObject := 0, Flags := NO_OPLOCK }
    else completeWaiters env { s with FileObject := 0, Flags := NO_OPLOCK }
  else some s

/-- What a break gives: also the context with which it has called `FsRtlWaitOnIrp`. -/
abbrev BreakResult := Oplock × OplockStatus × Option WaitCtx

/-- The end of both breaks: wait, unless the create asked not to. -/
def waitIfRequired (c : WaitCtx) (completeIfOplocked : Bool) : Option BreakResult :=
  if !completeIfOplocked then (waitOnIrp env s c).map (·, .success, some c)
  else some (s, .oplockBreakInProgress, none)

def breakWaits (fileObject : Nat) (c : WaitCtx) (completeIfOplocked : Bool) : Option BreakResult :=
  if s.FileObject = fileObject then some (s, .success, none)
  else waitIfRequired env s c completeIfOplocked

def oplockBreakToNone (fileObject : Nat) (c : WaitCtx) (completeIfOplocked : Bool) :
    Option BreakResult :=
  if s.Flags = NO_OPLOCK then some (s, .success, none)
  else if !flagOn s.Flags (BROKEN_ANY ||| PENDING_LOCK ||| LEVEL_2_OPLOCK) then
    if s.ExclusiveIrp = 0 then none
    else if env.cancel s.ExclusiveIrp then (dropExclusive env s).map (·, .success, none)
    else breakWaits env { s with ExclusiveIrp := 0, Flags := s.Flags ||| BROKEN_TO_NONE } fileObject c
      completeIfOplocked
  else if s.Flags = LEVEL_2_OPLOCK then
    (sweep (fun _ => true) env.irpLink s.SharedList).map fun (rest, _) =>
      ({ s with SharedList := rest, Flags := NO_OPLOCK }, .success, none)
  else if flagOn s.Flags BROKEN_TO_LEVEL_2 then
    breakWaits env { s with Flags := (s.Flags &&& ~~~BROKEN_TO_LEVEL_2) ||| BROKEN_TO_NONE_FROM_LEVEL_2 }
      fileObject c completeIfOplocked
  else if flagOn s.Flags PENDING_LOCK then
    some ({ s with Flags := NO_OPLOCK, FileObject := 0 }, .success, none)
  else breakWaits env s fileObject c completeIfOplocked

def oplockBreakToII (fileObject : Nat) (c : WaitCtx) (completeIfOplocked : Bool) :
    Option BreakResult :=
  if !flagOn s.Flags EXCLUSIVE_LOCK || s.FileObject == fileObject then some (s, .success, none)
  else if flagOn s.Flags (BROKEN_ANY ||| PENDING_LOCK) then
    if flagOn s.Flags PENDING_LOCK then
      some ({ s with Flags := NO_OPLOCK, FileObject := 0 }, .success, none)
    else waitIfRequired env s c completeIfOplocked
  else if s.ExclusiveIrp = 0 then none
  else if env.cancel s.ExclusiveIrp then (dropExclusive env s).map (·, .success, none)
  else
    let broken := if flagOn s.Flags (BATCH_OPLOCK ||| LEVEL_1_OPLOCK) then BROKEN_TO_LEVEL_2 else BROKEN_TO_NONE
    waitIfRequired env { s with ExclusiveIrp := 0, Flags := s.Flags ||| broken } c completeIfOplocked

/-- `FsRtlUninitializeOplock`: the oplock as it is when it is freed. -/
def uninitializeOplock : Option Oplock := do
  let s ← completeWaiters env s
  let (rest, _) ← sweep (fun _ => true) env.irpLink s.SharedList
  some { s with SharedList := rest, ExclusiveIrp := 0 }

end Routines

/-! ## The calls -/

/-- A routine between the acquisition and the release of the mutex. -/
def underMutex (o : InternalOplock) (routine : Oplock → Option (Oplock × OplockStatus)) :
    Option (InternalOplock × OplockStatus) := do
  let o ← exAcquireFastMutex o
  let (s, status) ← routine o.toOplock
  some (exReleaseFastMutex { o with toOplock := s }, status)

/-- A break. If it waits, `FsRtlWaitOnIrp` has released the mutex when the break
releases it, unless its thread sleeps there. -/
def breakUnderMutex (o : InternalOplock) (routine : Oplock → Option BreakResult) :
    Option (InternalOplock × OplockStatus) := do
  let o ← exAcquireFastMutex o
  let (s, status, waits) ← routine o.toOplock
  let o := exReleaseFastMutex { o with toOplock := s }
  match waits with
  | none => some (o, status)
  | some c =>
    if c.CompletionRoutine then some (exReleaseFastMutex o, status)
    else some ({ o with asleep := c :: o.asleep }, status)

section Calls

variable (env : OplockEnv) (o : InternalOplock)

def fsRtlCancelWaitIrp : Option (InternalOplock × OplockStatus) :=
  underMutex o fun s => (cancelWaitIrp env s).map (·, .success)

def fsRtlOplockBreakNotify (c : WaitCtx) : Option (InternalOplock × OplockStatus) :=
  underMutex o fun s => oplockBreakNotify env s c

def fsRtlCancelOplockIIIrp : Option (InternalOplock × OplockStatus) :=
  underMutex o fun s => (cancelOplockIIIrp env s).map (·, .success)

def fsRtlAcknowledgeOplockBreak (fileObject irp : Nat) (switchToLevel2 : Bool) :
    Option (InternalOplock × OplockStatus) :=
  underMutex o fun s => acknowledgeOplockBreak env s fileObject irp switchToLevel2

def fsRtlOpBatchBreakClosePending (fileObject : Nat) : Option (InternalOplock × OplockStatus) :=
  underMutex o fun s => opBatchBreakClosePending env s fileObject

def fsRtlCancelExclusiveIrp : Option (InternalOplock × OplockStatus) :=
  underMutex o fun s => (cancelExclusiveIrp env s).map (·, .success)

def fsRtlRequestPendingOplock (fileObject : Nat) : Option (InternalOplock × OplockStatus) :=
  underMutex o fun s => some (requestPendingOplock s fileObject)

def fsRtlRequestExclusiveOplock (fileObject irp : Nat) (flags : OplockFlags) :
    Option (InternalOplock × OplockStatus) :=
  underMutex o fun s => requestExclusiveOplock env s fileObject irp flags

def fsRtlRequestOplockII (irp : Nat) : Option (InternalOplock × OplockStatus) :=
  underMutex o fun s => requestOplockII env s irp

def fsRtlOplockCleanup (fileOf : Nat → Nat) (fileObject : Nat) : Option (InternalOplock × OplockStatus) :=
  underMutex o fun s => (oplockCleanup env s fileOf fileObject).map (·, .success)

def fsRtlOplockBreakToNone (fileObject : Nat) (c : WaitCtx) (completeIfOplocked : Bool) :
    Option (InternalOplock × OplockStatus) :=
  breakUnderMutex o fun s => oplockBreakToNone env s fileObject c completeIfOplocked

def fsRtlOplockBreakToII (fileObject : Nat) (c : WaitCtx) (completeIfOplocked : Bool) :
    Option (InternalOplock × OplockStatus) :=
  breakUnderMutex o fun s => oplockBreakToII env s fileObject c completeIfOplocked

def fsRtlUninitializeOplock : Option (InternalOplock × OplockStatus) :=
  underMutex o fun s => (uninitializeOplock env s).map (·, .success)

/-- The thread of a break whose context is off the wait list goes on. -/
def wake (c : WaitCtx) : InternalOplock :=
  if c ∈ o.asleep ∧ c ∉ o.WaitList then exReleaseFastMutex { o with asleep := o.asleep.erase c } else o

end Calls

/-- The exclusive oplocks that can be asked for. -/
inductive ExclusiveKind
  | level1 | batch | filter
  deriving DecidableEq, Repr

def ExclusiveKind.flags : ExclusiveKind → OplockFlags
  | level1 => EXCLUSIVE_LOCK ||| LEVEL_1_OPLOCK
  | batch => EXCLUSIVE_LOCK ||| BATCH_OPLOCK
  | filter => EXCLUSIVE_LOCK ||| FILTER_OPLOCK

/-- A call on one oplock. -/
inductive OplockCall
  | breakNotify (c : WaitCtx)
  | acknowledge (fileObject irp : Nat) (switchToLevel2 : Bool)
  | closePending (fileObject : Nat)
  | requestExclusive (fileObject irp : Nat) (kind : ExclusiveKind)
  | requestPending (fileObject : Nat)
  | requestII (irp : Nat)
  | cleanup (fileObject : Nat)
  | breakToNone (fileObject : Nat) (c : WaitCtx) (completeIfOplocked : Bool)
  | breakToII (fileObject : Nat) (c : WaitCtx) (completeIfOplocked : Bool)
  | cancelExclusive
  | cancelII
  | cancelWait
  | uninitializeOplock
  | wake (c : WaitCtx)

/-- A call on an oplock that has been allocated. -/
def oplockCall (fileOf : Nat → Nat) (env : OplockEnv) (o : InternalOplock) :
    OplockCall → Option (InternalOplock × OplockStatus)
  | .breakNotify c => fsRtlOplockBreakNotify env o c
  | .acknowledge fileObject irp switchToLevel2 => fsRtlAcknowledgeOplockBreak env o fileObject irp switchToLevel2
  | .closePending fileObject => fsRtlOpBatchBreakClosePending env o fileObject
  | .requestExclusive fileObject irp kind => fsRtlRequestExclusiveOplock env o fileObject irp kind.flags
  | .requestPending fileObject => fsRtlRequestPendingOplock o fileObject
  | .requestII irp => fsRtlRequestOplockII env o irp
  | .cleanup fileObject => fsRtlOplockCleanup env o fileOf fileObject
  | .breakToNone fileObject c completeIfOplocked => fsRtlOplockBreakToNone env o fileObject c completeIfOplocked
  | .breakToII fileObject c completeIfOplocked => fsRtlOplockBreakToII env o fileObject c completeIfOplocked
  | .cancelExclusive => fsRtlCancelExclusiveIrp env o
  | .cancelII => fsRtlCancelOplockIIIrp env o
  | .cancelWait => fsRtlCancelWaitIrp env o
  | .uninitializeOplock => fsRtlUninitializeOplock env o
  | .wake c => some (wake o c, .success)

/-- The calls that allocate the oplock if there is none. -/
def OplockCall.allocates : OplockCall → Bool
  | .requestExclusive .. | .requestPending _ | .requestII _ => true
  | _ => false

/-- The oplock is freed. -/
def OplockCall.frees : OplockCall → Bool
  | .uninitializeOplock => true
  | _ => false

/-- One call in its environment, on an oplock or on NULL. -/
def oplockStep (fileOf : Nat → Nat) (o : Option InternalOplock) (call : OplockEnv × OplockCall) :
    Option (Option InternalOplock) :=
  match o with
  | none =>
    if call.2.allocates then (oplockCall fileOf call.1 fsRtlAllocateOplock call.2).map fun r => some r.1
    else some none
  | some o => (oplockCall fileOf call.1 o call.2).map fun r => if call.2.frees then none else some r.1

end FreeNT.FsRtl
