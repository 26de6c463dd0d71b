import Mathlib.Tactic.Common

/-!
# Kernel queues (`ntoskrnl/ke/queue.c`, `wait.c`)

One queue and the threads of the system, in steps that hold the dispatcher lock. Of a thread
the state holds whether its `Queue` is this queue, whether its `WaitReason` is `WrQueue`, its
calls of `KeRemoveQueue` for this queue that have not returned (a kernel APC that is delivered
within one may make another), and whether it is blocked in a wait for another object. A call
that releases the lock to deliver an APC, or that is woken up, goes on in a step of its own, so
that other steps, and those of its APC, can come in between.

`SignalState` and `CurrentCount` count entries and threads in memory, and do not wrap. The
state also keeps the entries inserted and those returned by `KeRemoveQueue`, and with an entry
in the queue whether it was inserted by a thread of the queue that is about to wait on it. An
entry that is inserted while it is in the queue would break the list: there is no such step.
Other queues appear only in that a thread moves to them, and `KeRundownQueue` is not part of
the model.
-/

namespace FreeNT.Ke

/-- What `KiSwapThread` returns. -/
inductive WaitStatus where
  | entry (e : Nat)
  | kernelApc
  | userApc
  | timeout
  deriving DecidableEq, Repr

def WaitStatus.isEntry : WaitStatus → Bool
  | .entry _ => true
  | _ => false

/-- A call of `KeRemoveQueue` that has not returned. -/
inductive RemoveCall where
  /-- It is about to start another wait; it does not hold the lock. -/
  | again
  | blocked
  /-- It has been woken up, and is in `KiSwapThread`. -/
  | swapped (status : WaitStatus)
  deriving DecidableEq, Repr

structure KThread where
  /-- `Queue` is the queue. -/
  Queue : Bool
  /-- `WaitReason` is `WrQueue`. -/
  WaitReason : Bool
  /-- The last call first. -/
  Calls : List RemoveCall
  /-- It is blocked in a wait for another object. -/
  Waiting : Bool
  deriving DecidableEq, Repr

namespace KThread

def running (th : KThread) : Bool := !th.Waiting && th.Calls.head? != some .blocked

/-- A thread of the queue that is not blocked. -/
def active (th : KThread) : Bool := th.Queue && th.running

/-- It is in `KeRemoveQueue`, and about to wait. -/
def aboutToWait (th : KThread) : Bool :=
  th.Calls.head? == some .again || th.Calls.head? == some (.swapped .kernelApc)

/-- The call that was made last goes on as `call`. -/
def withCall (th : KThread) (call : RemoveCall) : KThread := { th with Calls := call :: th.Calls.tail }

/-- The call that was made last returns. -/
def returned (th : KThread) : KThread := { th with Calls := th.Calls.tail }

end KThread

structure QueueEntry where
  Entry : Nat
  /-- It was inserted by a thread of the queue that was about to wait on it. -/
  ByApc : Bool
  deriving DecidableEq, Repr

structure KQueue where
  SignalState : Int
  /-- The threads of the wait blocks, from `Flink` on. -/
  WaitList : List Nat
  EntryList : List QueueEntry
  CurrentCount : Int
  MaximumCount : Nat
  Threads : List KThread
  Inserted : List Nat
  /-- The entries returned, with the thread. -/
  Delivered : List (Nat × Nat)
  deriving DecidableEq, Repr

def keInitializeQueue (count numberProcessors : Nat) (threads : List KThread) : KQueue :=
  { SignalState := 0, WaitList := [], EntryList := [], CurrentCount := 0
    MaximumCount := if count = 0 then numberProcessors else count, Threads := threads, Inserted := [], Delivered := [] }

def KQueue.setThread (s : KQueue) (t : Nat) (th : KThread) : KQueue := { s with Threads := s.Threads.set t th }

/-- `KiUnlinkThread`, for a thread that waits on the queue. -/
def kiUnlinkThread (s : KQueue) (t : Nat) (th : KThread) (status : WaitStatus) : KQueue :=
  { s.setThread t (th.withCall (.swapped status)) with
    WaitList := s.WaitList.erase t
    CurrentCount := if th.Queue then s.CurrentCount + 1 else s.CurrentCount }

def kiActivateWaiterQueue (s : KQueue) : Option KQueue :=
  if s.CurrentCount - 1 < s.MaximumCount then
    match s.WaitList.getLast?, s.EntryList with
    | some w, e :: es => do
      let th ← s.Threads[w]?
      return kiUnlinkThread { s with CurrentCount := s.CurrentCount - 1, EntryList := es, SignalState := s.SignalState - 1 }
        w th (.entry e.Entry)
    | _, _ => some { s with CurrentCount := s.CurrentCount - 1 }
  else some { s with CurrentCount := s.CurrentCount - 1 }

/-- The part of `KiInsertQueue` for a thread that waits. -/
def handOver (s : KQueue) (w : Nat) (th : KThread) (e : Nat) : KQueue :=
  { s.setThread w { th.withCall (.swapped (.entry e)) with WaitReason := false } with
    WaitList := s.WaitList.erase w
    CurrentCount := s.CurrentCount + 1
    Inserted := s.Inserted ++ [e] }

def enqueue (s : KQueue) (e : QueueEntry) (head : Bool) : KQueue :=
  { s with
    SignalState := s.SignalState + 1
    EntryList := if head then e :: s.EntryList else s.EntryList ++ [e]
    Inserted := s.Inserted ++ [e.Entry] }

/-- `KiInsertQueue`, in the thread `th`: the state before, and the queue. -/
def kiInsertQueue (s : KQueue) (th : KThread) (e : Nat) (head : Bool) : Option (Int × KQueue) :=
  if s.CurrentCount < s.MaximumCount ∧ (th.Queue = false ∨ th.WaitReason = false) then
    match s.WaitList.getLast? with
    | some w => do
      let thw ← s.Threads[w]?
      return (s.SignalState, handOver s w thw e)
    | none => some (s.SignalState, enqueue s ⟨e, th.Queue && th.aboutToWait⟩ head)
  else some (s.SignalState, enqueue s ⟨e, th.Queue && th.aboutToWait⟩ head)

/-- What `KeRemoveQueue` finds apart from the queue: a kernel APC that can be delivered, a pending
user APC in a user mode wait, and a timeout that has passed. -/
structure RemoveEnv where
  KernelApcPending : Bool
  UserApcPending : Bool
  Expired : Bool
  deriving DecidableEq, Repr

/-- One turn of the loop of `KeRemoveQueue`, in the thread `th` at `t`. -/
def removeTurn (s : KQueue) (t : Nat) (th : KThread) (env : RemoveEnv) : KQueue :=
  match if s.CurrentCount < s.MaximumCount then s.EntryList else [] with
  | e :: es =>
    { s.setThread t th.returned with
      SignalState := s.SignalState - 1
      CurrentCount := s.CurrentCount + 1
      EntryList := es
      Delivered := s.Delivered ++ [(e.Entry, t)] }
  | [] =>
    if env.KernelApcPending then { s.setThread t (th.withCall .again) with CurrentCount := s.CurrentCount + 1 }
    else if env.UserApcPending || env.Expired then { s.setThread t th.returned with CurrentCount := s.CurrentCount + 1 }
    else { s.setThread t (th.withCall .blocked) with WaitList := s.WaitList ++ [t] }

/-- `KeRemoveQueue`, up to the end of the first turn. That the thread leaves another queue is not seen here. -/
def keRemoveQueue (s : KQueue) (t : Nat) (th : KThread) (env : RemoveEnv) : KQueue :=
  let th' : KThread := { th with Queue := true, WaitReason := true, Calls := .again :: th.Calls }
  removeTurn { s.setThread t th' with CurrentCount := if th.Queue then s.CurrentCount - 1 else s.CurrentCount } t th' env

/-- Another wait in `KeRemoveQueue`. -/
def removeAgain (s : KQueue) (t : Nat) (th : KThread) (env : RemoveEnv) : KQueue :=
  let th' : KThread := { th with WaitReason := true }
  removeTurn { s.setThread t th' with CurrentCount := s.CurrentCount - 1 } t th' env

/-- `KeRemoveQueue` after `KiSwapThread`. -/
def afterSwap (s : KQueue) (t : Nat) (th : KThread) : WaitStatus → KQueue
  | .entry e => { s.setThread t { th.returned with WaitReason := false } with Delivered := s.Delivered ++ [(e, t)] }
  | .kernelApc => s.setThread t { th.withCall .again with WaitReason := false }
  | .userApc | .timeout => s.setThread t { th.returned with WaitReason := false }

/-! ## Steps -/

inductive QueueOp where
  /-- `KeInsertQueue` or `KeInsertHeadQueue`, in the thread `t`. -/
  | insert (t e : Nat) (head : Bool)
  /-- A call of `KeRemoveQueue`. -/
  | remove (t : Nat) (env : RemoveEnv)
  | again (t : Nat) (env : RemoveEnv)
  | resume (t : Nat)
  /-- A thread that waits on the queue is woken up by its timer, or for an APC. -/
  | wake (t : Nat) (status : WaitStatus)
  /-- A wait for another object, with a reason that may be `WrQueue`. -/
  | wait (t : Nat) (wrQueue : Bool)
  | unwait (t : Nat)
  /-- The thread is preempted, which sets its `WaitReason`. -/
  | preempt (t : Nat)
  /-- `KeRemoveQueue` for another queue, or the end of the thread. -/
  | leave (t : Nat)

def KQueue.runningThread (s : KQueue) (t : Nat) : Option KThread := s.Threads[t]?.filter KThread.running

def queueStep (s : KQueue) : QueueOp → Option KQueue
  | .insert t e head => do
    let th ← s.runningThread t
    if s.EntryList.any (·.Entry == e) then none
    else return (← kiInsertQueue s th e head).2
  | .remove t env => do
    let th ← s.runningThread t
    return keRemoveQueue s t th env
  | .again t env => do
    let th ← s.runningThread t
    if th.Calls.head? = some .again then return removeAgain s t th env else none
  | .resume t => do
    let th ← s.runningThread t
    match th.Calls.head? with
    | some (.swapped status) => return afterSwap s t th status
    | _ => none
  | .wake t status => do
    let th ← s.Threads[t]?
    if th.Calls.head? = some .blocked ∧ status.isEntry = false then return kiUnlinkThread s t th status else none
  | .wait t wrQueue => do
    let th ← s.runningThread t
    let s := s.setThread t { th with Waiting := true, WaitReason := wrQueue }
    if th.Queue then kiActivateWaiterQueue s else return s
  | .unwait t => do
    let th ← s.Threads[t]?
    if th.Waiting then
      return { s.setThread t { th with Waiting := false } with
        CurrentCount := if th.Queue then s.CurrentCount + 1 else s.CurrentCount }
    else none
  | .preempt t => do
    let th ← s.runningThread t
    return s.setThread t { th with WaitReason := false }
  | .leave t => do
    let th ← s.runningThread t
    let s := s.setThread t { th with Queue := false, WaitReason := true }
    if th.Queue then kiActivateWaiterQueue s else return s

end FreeNT.Ke
