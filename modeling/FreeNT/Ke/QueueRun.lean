import Mathlib.Data.List.Basic
import FreeNT.Lib.Run
import FreeNT.Ke.Queue

/-!
# Accounting of a kernel queue

A step changes one thread, and wakes up one other at most. The threads on the wait list are
those blocked in `KeRemoveQueue` (`ThreadsOk`), and the entries inserted are those in the
queue, in the hands of threads that have been woken up, and those returned (`QueueBase`). On
top of this every step keeps the counts, and leaves no entry in the queue while a thread waits
for it and one more may run (`QueueInv`), with two exceptions (`QueueOk`):

* `WaitReason` stays `WrQueue` when `KeRemoveQueue` returns without a wait. What the thread
  inserts afterwards stays in the queue, as if it were an APC within `KeRemoveQueue`.
* If an APC within `KeRemoveQueue` calls it for another queue, the count of the first queue is
  decremented twice.
-/

namespace FreeNT.Ke

open List KThread Option KQueue

/-- The entries that a thread has been handed, and will return. -/
def RemoveCall.inHand : RemoveCall → Option Nat
  | .swapped (.entry e) => some e
  | _ => none

def KThread.inHand (th : KThread) : List Nat := th.Calls.filterMap RemoveCall.inHand

structure ThreadOk (th : KThread) : Prop where
  awake : th.Calls.head? = some .blocked → th.Waiting = false
  inner : ∀ c ∈ th.Calls.tail, c ≠ .blocked
  queue : th.Calls ≠ [] → th.Queue = true

/-- The wait list holds the threads that are blocked in `KeRemoveQueue`. -/
structure ThreadsOk (threads : List KThread) (waitList : List Nat) : Prop where
  mem_iff : ∀ t, t ∈ waitList ↔ ∃ th, threads[t]? = some th ∧ th.Calls.head? = some .blocked
  nodup : waitList.Nodup
  thread : ∀ th ∈ threads, ThreadOk th

variable {threads : List KThread} {waitList waitList' : List Nat} {t : Nat} {th th' : KThread}

section

variable (h : ThreadsOk threads waitList) (ht : threads[t]? = some th) (hok : ThreadOk th')

include h ht hok

lemma ThreadsOk.set (hs : t ∈ waitList' ↔ th'.Calls.head? = some .blocked)
    (ho : ∀ u, u ≠ t → (u ∈ waitList' ↔ u ∈ waitList))
    (hnd : waitList'.Nodup) : ThreadsOk (threads.set t th') waitList' := by
  obtain ⟨hlt, -⟩ := List.getElem?_eq_some_iff.mp ht
  refine ⟨fun u => ?_, hnd, fun x hx => ?_⟩
  · by_cases hu : u = t
    · subst hu
      simp [hs, hlt]
    · rw [ho u hu, h.mem_iff, getElem?_set_ne (Ne.symm hu)]
  rcases mem_or_eq_of_mem_set hx with hx | rfl
  · exact h.thread x hx
  · exact hok

lemma ThreadsOk.change (hs : th.Calls.head? = some .blocked ↔ th'.Calls.head? = some .blocked) :
    ThreadsOk (threads.set t th') waitList := by
  refine h.set ht hok ?_ (fun _ _ => Iff.rfl) h.nodup
  rw [h.mem_iff, ← hs]
  constructor
  · rintro ⟨x, hx, hb⟩
    rwa [← some.inj (hx.symm.trans ht)]
  · exact fun hb => ⟨th, ht, hb⟩

end

lemma countP_set_thread (p : KThread → Bool) (ht : threads[t]? = some th) (th' : KThread) :
    (threads.set t th').countP p + (if p th then 1 else 0) = threads.countP p + if p th' then 1 else 0 := by
  induction threads generalizing t with
  | nil => simp at ht
  | cons x threads ih =>
    cases t with
    | zero =>
      obtain rfl : x = th := by simpa using ht
      simp only [set_cons_zero, countP_cons]
      omega
    | succ t =>
      have := ih (t := t) (by simpa using ht)
      simp only [set_cons_succ, countP_cons]
      omega

lemma inHand_set (ht : threads[t]? = some th) (th' : KThread) :
    (th.inHand ++ (threads.set t th').flatMap KThread.inHand).Perm
      (th'.inHand ++ threads.flatMap KThread.inHand) := by
  induction threads generalizing t with
  | nil => simp at ht
  | cons x threads ih =>
    cases t with
    | zero =>
      obtain rfl : x = th := by simpa using ht
      simp only [set_cons_zero, flatMap_cons, ← append_assoc]
      exact perm_append_comm.append_right _
    | succ t =>
      refine (perm_append_comm_assoc _ _ _).trans ?_
      refine ((ih (t := t) (by simpa using ht)).append_left x.inHand).trans ?_
      exact perm_append_comm_assoc _ _ _

/-! ## The lists -/

structure QueueBase (s : KQueue) : Prop where
  signal : s.SignalState = s.EntryList.length
  threads : ThreadsOk s.Threads s.WaitList
  delivered : s.Inserted.Perm
    (s.EntryList.map QueueEntry.Entry ++ (s.Threads.flatMap KThread.inHand ++ s.Delivered.map Prod.fst))

/-- If an entry is in the queue, a thread waits for it and one more may run, it was inserted by a
thread about to wait. -/
def WorkConserving (s : KQueue) (count : Int) : Prop :=
  count < s.MaximumCount → s.WaitList ≠ [] → ∀ e ∈ s.EntryList, e.ByApc = true

structure QueueInv (s : KQueue) : Prop extends QueueBase s where
  count : s.CurrentCount = s.Threads.countP KThread.active
  work : WorkConserving s s.CurrentCount

variable {s s' : KQueue} {status : WaitStatus}

/-- A change of a thread that keeps what it has in hand, and whether it is blocked here. -/
lemma QueueBase.setThread (h : QueueBase s) (ht : s.Threads[t]? = some th) (hok : ThreadOk th')
    (hb : th.Calls.head? = some .blocked ↔ th'.Calls.head? = some .blocked) (hh : th'.inHand = th.inHand)
    (count : Int) : QueueBase { s.setThread t th' with CurrentCount := count } := by
  refine ⟨h.signal, h.threads.change ht hok hb, h.delivered.trans (.append_left _ (.append_right _ ?_))⟩
  have hp := inHand_set ht th'
  rw [hh] at hp
  exact ((perm_append_left_iff _).mp hp).symm

lemma running_iff : th.running ↔ th.Waiting = false ∧ th.Calls.head? ≠ some .blocked := by simp [running]

lemma runningThread_some (h : s.runningThread t = some th) :
    s.Threads[t]? = some th ∧ th.Waiting = false ∧ th.Calls.head? ≠ some .blocked := by
  obtain ⟨h1, h2⟩ := filter_eq_some_iff.mp h
  exact ⟨h1, running_iff.mp h2⟩

lemma ThreadOk.not_blocked (h : ThreadOk th) (hb : th.Calls.head? ≠ some .blocked) :
    ∀ c ∈ th.Calls, c ≠ .blocked := by
  intro c hc
  cases hcl : th.Calls with
  | nil => simp [hcl] at hc
  | cons d ds =>
    rw [hcl] at hc
    rcases mem_cons.mp hc with rfl | hc
    · simpa [hcl] using hb
    · exact h.inner c (by simpa [hcl] using hc)

/-! ## Waking up -/

lemma ThreadsOk.wake (h : ThreadsOk threads waitList) (hw : t ∈ waitList) (ht : threads[t]? = some th)
    (hc : th'.Calls = .swapped status :: th.Calls.tail) (hqu : th'.Queue = th.Queue)
    (hwt : th'.Waiting = th.Waiting) :
    ThreadsOk (threads.set t th') (waitList.erase t) ∧ th.Queue = true ∧
      (threads.set t th').countP KThread.active = threads.countP KThread.active + 1 ∧
      ((threads.set t th').flatMap KThread.inHand).Perm
        ((RemoveCall.swapped status).inHand.toList ++ threads.flatMap KThread.inHand) := by
  obtain ⟨x, hx, hb⟩ := (h.mem_iff t).mp hw
  obtain rfl := some.inj (hx.symm.trans ht)
  have hok := h.thread x (mem_of_getElem? ht)
  have hq : x.Queue = true := hok.queue (by rintro hn; simp [hn] at hb)
  refine ⟨?_, hq, ?_, ?_⟩
  · refine h.set ht ⟨by simp [hc], ?_, fun _ => hqu ▸ hq⟩ ?_ (fun u hu => ?_) (h.nodup.erase t)
    · simpa [hc] using hok.inner
    · simp [hc, h.nodup.mem_erase_iff]
    · rw [h.nodup.mem_erase_iff]
      exact and_iff_right hu
  · have hcn := countP_set_thread active ht th'
    have hno : x.active = false := by simp [active, running, hb]
    have hy : th'.active = true := by simp [active, running, hc, hqu, hwt, hq, hok.awake hb]
    rw [hno, hy] at hcn
    simpa using hcn
  obtain ⟨ds, hds⟩ := head?_eq_some_iff.mp hb
  have hp := inHand_set ht th'
  have h1 : x.inHand = ds.filterMap RemoveCall.inHand := by rw [inHand, hds]; rfl
  have h2 : th'.inHand = (RemoveCall.swapped status).inHand.toList ++ ds.filterMap RemoveCall.inHand := by
    rw [inHand, hc, hds, tail_cons, filterMap_cons]
    cases (RemoveCall.swapped status).inHand <;> rfl
  rw [h1, h2, append_assoc] at hp
  exact (perm_append_left_iff _).mp (hp.trans (perm_append_comm_assoc _ _ _))

lemma ThreadsOk.exists_last (h : ThreadsOk threads waitList) {w : Nat} (hw : waitList.getLast? = some w) :
    w ∈ waitList ∧ ∃ th, threads[w]? = some th := by
  have hm := mem_of_getLast? hw
  obtain ⟨th, hth, -⟩ := (h.mem_iff w).mp hm
  exact ⟨hm, th, hth⟩

lemma kiActivateWaiterQueue_spec (h : QueueBase s) (hc : s.CurrentCount - 1 = s.Threads.countP KThread.active)
    (hw : WorkConserving s s.CurrentCount) : ∃ s', kiActivateWaiterQueue s = some s' ∧ QueueInv s' := by
  -- no thread is woken up
  have hid (heq : kiActivateWaiterQueue s = some { s with CurrentCount := s.CurrentCount - 1 })
      (hw' : WorkConserving s (s.CurrentCount - 1)) : ∃ s', kiActivateWaiterQueue s = some s' ∧ QueueInv s' :=
    ⟨_, heq, ⟨h.signal, h.threads, h.delivered⟩, hc, hw'⟩
  by_cases hlt : s.CurrentCount - 1 < s.MaximumCount
  swap
  · exact hid (by simp [kiActivateWaiterQueue, hlt]) fun h => absurd h hlt
  cases hl : s.WaitList.getLast? with
  | none => exact hid (by simp [kiActivateWaiterQueue, hl]) fun _ hne => absurd (getLast?_eq_none_iff.mp hl) hne
  | some w =>
    cases hen : s.EntryList with
    | nil => exact hid (by simp [kiActivateWaiterQueue, hl, hen]) fun _ _ e he => by simp [hen] at he
    | cons e es =>
      obtain ⟨hm, th, hth⟩ := h.threads.exists_last hl
      obtain ⟨hts, hq, ha, hh⟩ := h.threads.wake hm hth
        (show (th.withCall (.swapped (.entry e.Entry))).Calls = _ from rfl) rfl rfl
      refine ⟨_, by simp only [kiActivateWaiterQueue, hlt, if_true, hl, hen, hth]; rfl, ⟨?_, hts, ?_⟩, ?_, ?_⟩
      · have := h.signal
        rw [hen, length_cons] at this
        simp only [kiUnlinkThread, setThread]
        omega
      · -- the entry goes from the queue into the hand of the thread
        have hp := h.delivered
        rw [hen] at hp
        refine hp.trans ?_
        refine perm_middle.symm.trans (.append_left _ ?_)
        exact (hh.append_right _).symm
      · simp only [kiUnlinkThread, setThread, hq, if_true] at ha ⊢
        omega
      intro hlt hne x hx
      simp only [kiUnlinkThread, setThread, hq, if_true] at hlt hx
      refine hw (by omega) (ne_nil_of_mem hm) x ?_
      rw [hen]
      exact mem_cons_of_mem e hx

/-! ## Inserting -/

variable {e : Nat} {head : Bool}

lemma QueueInv.enqueue (h : QueueInv s) (entry : QueueEntry)
    (he : s.CurrentCount < s.MaximumCount → s.WaitList ≠ [] → entry.ByApc = true) :
      QueueInv (enqueue s entry head) := by
  have hp : (Ke.enqueue s entry head).EntryList.Perm (entry :: s.EntryList) := by
    cases head with
    | true => exact .refl _
    | false => exact perm_append_singleton entry s.EntryList
  refine ⟨⟨?_, h.threads, ?_⟩, h.count, fun hlt hne x hx => ?_⟩
  · rw [hp.length_eq, length_cons]
    have := h.signal
    simp only [Ke.enqueue]
    omega
  · calc s.Inserted ++ [entry.Entry] ~ entry.Entry :: s.Inserted := perm_append_singleton _ _
      _ ~ entry.Entry :: s.EntryList.map QueueEntry.Entry ++
          (s.Threads.flatMap inHand ++ s.Delivered.map Prod.fst) := h.delivered.cons _
      _ ~ _ := (hp.map QueueEntry.Entry).symm.append_right _
  rcases mem_cons.mp (hp.mem_iff.mp hx) with rfl | hx
  · exact he hlt hne
  · exact h.work hlt hne x hx

lemma kiInsertQueue_spec (h : QueueInv s) (hth : th.Queue = true → th.WaitReason = true → th.aboutToWait = true) :
    ∃ r, kiInsertQueue s th e head = some r ∧ QueueInv r.2 := by
  unfold kiInsertQueue
  split
  swap
  · rename_i hc
    refine ⟨_, rfl, h.enqueue _ fun hlt _ => ?_⟩
    -- the thread is of the queue, with the reason of a wait on it
    have hb : th.Queue = true ∧ th.WaitReason = true := by simpa [hlt] using hc
    simp [hb.1, hth hb.1 hb.2]
  cases hl : s.WaitList.getLast? with
  | none => exact ⟨_, rfl, h.enqueue _ fun _ hne => absurd (getLast?_eq_none_iff.mp hl) hne⟩
  | some w =>
    obtain ⟨hm, tw, htw⟩ := h.threads.exists_last hl
    obtain ⟨hts, -, ha, hh⟩ := h.threads.wake hm htw
      (show ({ tw.withCall (.swapped (.entry e)) with WaitReason := false } : KThread).Calls = _ from rfl) rfl rfl
    refine ⟨(s.SignalState, handOver s w tw e), by simp [htw], ⟨h.signal, hts, ?_⟩, ?_, fun hlt _ => ?_⟩
    · calc s.Inserted ++ [e] ~ e :: s.Inserted := perm_append_singleton _ _
        _ ~ e :: (s.EntryList.map QueueEntry.Entry ++
            (s.Threads.flatMap inHand ++ s.Delivered.map Prod.fst)) := h.delivered.cons _
        _ ~ s.EntryList.map QueueEntry.Entry ++
          (e :: s.Threads.flatMap inHand ++ s.Delivered.map Prod.fst) := perm_middle.symm
        _ ~ _ := .append_left _ (hh.symm.append_right _)
    · have := h.count
      simp only [handOver, setThread] at ha ⊢
      omega
    refine h.work ?_ (ne_nil_of_mem hm)
    omega

/-! ## Removing -/

lemma active_of (hq : th.Queue) (hw : th.Waiting = false) (hb : th.Calls.head? ≠ some .blocked) : th.active := by
  simp [active, running_iff.mpr ⟨hw, hb⟩, hq]

variable {env : RemoveEnv}

/-! One turn of the loop; the thread has been taken off the count. -/

section

variable (h : QueueBase s) (ht : s.Threads[t]? = some th) (hag : th.Calls.head? = some .again)
  (hw : th.Waiting = false)

include h ht hag hw

lemma again_ok : th.Queue = true ∧ th.active = true ∧ ∃ cs, th.Calls = .again :: cs ∧ ∀ c ∈ cs, c ≠ .blocked := by
  obtain ⟨cs, hcs⟩ := head?_eq_some_iff.mp hag
  have hok := h.threads.thread th (mem_of_getElem? ht)
  have hq : th.Queue = true := hok.queue (by simp [hcs])
  exact ⟨hq, active_of hq hw (by simp [hcs]), cs, hcs, by simpa [hcs] using hok.inner⟩

variable (hcn : s.CurrentCount + 1 = s.Threads.countP KThread.active)

include hcn

/-- The call returns. -/
lemma returned_base : QueueBase { s.setThread t th.returned with CurrentCount := s.CurrentCount + 1 } ∧
    s.CurrentCount + 1 = (s.Threads.set t th.returned).countP active := by
  obtain ⟨hq, hac, cs, hcs, hin⟩ := again_ok h ht hag hw
  have hcd : cs.head? ≠ some .blocked := fun hc => hin _ (mem_of_head? hc) rfl
  have hret : ThreadOk th.returned := by
    refine ⟨fun _ => hw, fun c hc => hin c ?_, fun _ => hq⟩
    simp only [returned, hcs, tail_cons] at hc
    exact mem_of_mem_tail hc
  have hrb : th.Calls.head? = some .blocked ↔ th.returned.Calls.head? = some .blocked := by
    simp [returned, hcs, hcd]
  have hrd : th.returned.inHand = th.inHand := by
    simp only [inHand, returned, hcs, tail_cons]
    rfl
  refine ⟨h.setThread ht hret hrb hrd (s.CurrentCount + 1), ?_⟩
  have hst := countP_set_thread active ht th.returned
  have hre : th.returned.active = true :=
    active_of (show th.returned.Queue = true from hq) hw (mt hrb.mpr (by simp [hcs]))
  rw [hac, hre] at hst
  omega

/-- The thread takes an entry. -/
lemma taken_inv {e : QueueEntry} {es : List QueueEntry} (he : s.EntryList = e :: es)
    (hwr : WorkConserving s (s.CurrentCount + 1)) :
    QueueInv { s.setThread t th.returned with
      SignalState := s.SignalState - 1
      CurrentCount := s.CurrentCount + 1
      EntryList := es
      Delivered := s.Delivered ++ [(e.Entry, t)] } := by
  obtain ⟨hr, hrt⟩ := returned_base h ht hag hw hcn
  refine ⟨⟨?_, hr.threads, ?_⟩, hrt, fun hlt hne x hx => hwr hlt hne x (he ▸ mem_cons_of_mem e hx)⟩
  · have := h.signal
    rw [he, length_cons] at this
    dsimp only
    omega
  · have hp := hr.delivered
    simp only [setThread, he, map_cons] at hp ⊢
    refine hp.trans ?_
    rw [map_append, ← append_assoc, ← append_assoc, ← append_assoc]
    exact (perm_append_singleton _ _).symm

/-- The thread blocks; there was no entry to take. -/
lemma blocked_inv (he : s.CurrentCount < s.MaximumCount → s.EntryList = []) :
    QueueInv { s.setThread t (th.withCall .blocked) with WaitList := s.WaitList ++ [t] } := by
  obtain ⟨hq, hac, cs, hcs, hin⟩ := again_ok h ht hag hw
  have hn : t ∉ s.WaitList := by
    rw [h.threads.mem_iff]
    rintro ⟨x, hx, hb⟩
    rw [some.inj (hx.symm.trans ht)] at hb
    simp [hcs] at hb
  have hbl : ThreadOk (th.withCall .blocked) := by
    refine ⟨fun _ => hw, fun c hc => hin c ?_, fun _ => hq⟩
    simpa [withCall, hcs] using hc
  refine ⟨⟨h.signal, ?_, ?_⟩, ?_, fun hlt _ x hx => ?_⟩
  · refine h.threads.set ht hbl (by simp [withCall]) (fun u hu => by simp [hu]) ?_
    refine nodup_append.mpr ⟨h.threads.nodup, by simp, fun a ha b hb => ?_⟩
    rw [mem_singleton.mp hb]
    exact ne_of_mem_of_not_mem ha hn
  · refine h.delivered.trans (.append_left _ (.append_right _ ?_))
    have hp := inHand_set ht (th.withCall .blocked)
    have hh : (th.withCall .blocked).inHand = th.inHand := by
      simp only [inHand, withCall, hcs, tail_cons]
      rfl
    rw [hh] at hp
    exact ((perm_append_left_iff _).mp hp).symm
  · have hst := countP_set_thread active ht (th.withCall .blocked)
    have hno : (th.withCall .blocked).active = false := by simp [active, running, withCall]
    rw [hac, hno] at hst
    simp only [setThread, if_true, Bool.false_eq_true, if_false] at hst ⊢
    omega
  · have hx : x ∈ s.EntryList := hx
    rw [he hlt] at hx
    cases hx

lemma removeTurn_inv (hwr : WorkConserving s (s.CurrentCount + 1)) : QueueInv (removeTurn s t th env) := by
  unfold removeTurn
  split
  · rename_i e es heq
    refine taken_inv h ht hag hw hcn ?_ hwr
    split at heq
    · exact heq
    · cases heq
  rename_i heq
  split
  · have hs : th.withCall .again = th := by
      obtain ⟨-, -, cs, hcs, -⟩ := again_ok h ht hag hw
      cases th
      simp_all [withCall]
    rw [hs]
    have hst : s.Threads.set t th = s.Threads := by
      obtain ⟨hlt, hg⟩ := List.getElem?_eq_some_iff.mp ht
      rw [← hg, set_getElem_self]
    simp only [setThread, hst]
    exact ⟨⟨h.signal, h.threads, h.delivered⟩, hcn, hwr⟩
  split
  · obtain ⟨hr, hrt⟩ := returned_base h ht hag hw hcn
    exact ⟨hr, hrt, hwr⟩
  · exact blocked_inv h ht hag hw hcn fun hlt => by rwa [if_pos hlt] at heq

end

/-! ## Steps -/

/-- A change of a thread that is not blocked here before or after, with the change of the count that
belongs to it. -/
lemma QueueInv.setThread {count : Int} (h : QueueInv s) (ht : s.Threads[t]? = some th) (hok : ThreadOk th')
    (hb : th.Calls.head? = some .blocked ↔ th'.Calls.head? = some .blocked) (hh : th'.inHand = th.inHand)
    (hc : count + (if th.active then 1 else 0) = s.CurrentCount + if th'.active then 1 else 0)
    (hle : s.CurrentCount ≤ count) : QueueInv { s.setThread t th' with CurrentCount := count } := by
  refine ⟨h.toQueueBase.setThread ht hok hb hh count, ?_, fun hlt => h.work (Int.lt_of_le_of_lt hle hlt)⟩
  have hs := countP_set_thread active ht th'
  have := h.count
  simp only [KQueue.setThread]
  split_ifs at hs hc <;> omega

lemma QueueInv.deactivate (h : QueueInv s) (ht : s.Threads[t]? = some th) (hok : ThreadOk th')
    (hb : th.Calls.head? = some .blocked ↔ th'.Calls.head? = some .blocked) (hh : th'.inHand = th.inHand)
    (ha : th.active = th.Queue) (hn : th'.active = false) :
    ∃ s', (if th.Queue then kiActivateWaiterQueue (s.setThread t th') else some (s.setThread t th')) = some s' ∧
      QueueInv s' := by
  have hbs := h.toQueueBase.setThread ht hok hb hh s.CurrentCount
  have hs := countP_set_thread active ht th'
  have hc := h.count
  rw [ha, hn] at hs
  cases hq : th.Queue with
  | true =>
    refine kiActivateWaiterQueue_spec hbs ?_ h.work
    simp only [hq, KQueue.setThread, if_true, Bool.false_eq_true, if_false] at hs ⊢
    omega
  | false =>
    refine ⟨_, rfl, hbs, ?_, h.work⟩
    simp only [hq, KQueue.setThread, Bool.false_eq_true, if_false] at hs ⊢
    omega

/-- A thread of the queue that inserts an entry with the reason of a wait on the queue is about to
wait on it; and an APC within `KeRemoveQueue` does not call it for another queue, or end the
thread. -/
def QueueOk (s : KQueue) : QueueOp → Prop
  | .insert t _ _ => ∀ th ∈ s.Threads[t]?, th.Queue = true → th.WaitReason = true → th.aboutToWait = true
  | .leave t => ∀ th ∈ s.Threads[t]?, th.Calls = []
  | _ => True

instance (s : KQueue) : DecidablePred (QueueOk s)
  | .insert t _ _ => inferInstanceAs (Decidable (∀ th ∈ s.Threads[t]?, _ → _ → _))
  | .leave t => inferInstanceAs (Decidable (∀ th ∈ s.Threads[t]?, _))
  | .remove .. | .again .. | .resume .. | .wake .. | .wait .. | .unwait .. | .preempt .. =>
      inferInstanceAs (Decidable True)

section

variable (h : QueueInv s) (ht : s.Threads[t]? = some th)

include h ht

lemma keRemoveQueue_inv (hw : th.Waiting = false)
    (hb : th.Calls.head? ≠ some .blocked) : QueueInv (keRemoveQueue s t th env) := by
  have hth := h.threads.thread th (mem_of_getElem? ht)
  obtain ⟨hlt, -⟩ := List.getElem?_eq_some_iff.mp ht
  have hok : ThreadOk { th with Queue := true, WaitReason := true, Calls := .again :: th.Calls } :=
    ⟨by simp, hth.not_blocked hb, fun _ => rfl⟩
  have hs := countP_set_thread active ht { th with Queue := true, WaitReason := true, Calls := .again :: th.Calls }
  have hn : active { th with Queue := true, WaitReason := true, Calls := .again :: th.Calls } = true :=
    active_of rfl hw (by simp)
  have ho : th.active = th.Queue := by simp [active, running_iff.mpr ⟨hw, hb⟩]
  have hc := h.count
  rw [hn, ho] at hs
  simp only [if_true] at hs
  refine removeTurn_inv (h.toQueueBase.setThread ht hok (by simp [hb]) rfl _) (by simp [setThread, hlt]) rfl hw ?_
    fun hlt => h.work ?_
  · simp only [setThread]
    split_ifs at hs ⊢ <;> omega
  · dsimp only [setThread] at hlt
    split at hlt <;> omega

lemma removeAgain_inv (hw : th.Waiting = false) (ha : th.Calls.head? = some .again) :
    QueueInv (removeAgain s t th env) := by
  have hth := h.threads.thread th (mem_of_getElem? ht)
  obtain ⟨hlt, -⟩ := List.getElem?_eq_some_iff.mp ht
  have hok : ThreadOk { th with WaitReason := true } := ⟨hth.awake, hth.inner, hth.queue⟩
  have hst := countP_set_thread active ht { th with WaitReason := true }
  have hs : active { th with WaitReason := true } = th.active := rfl
  have hc := h.count
  rw [hs] at hst
  refine removeTurn_inv (h.toQueueBase.setThread ht hok Iff.rfl rfl _) (by simp [setThread, hlt])
    ha hw ?_ fun hlt => h.work ?_
  · simp only [setThread]
    omega
  · dsimp only [setThread] at hlt
    omega

lemma kiUnlinkThread_inv (hb : th.Calls.head? = some .blocked)
    (hs : (RemoveCall.swapped status).inHand = none) : QueueInv (kiUnlinkThread s t th status) := by
  have hm : t ∈ s.WaitList := (h.threads.mem_iff t).mpr ⟨th, ht, hb⟩
  obtain ⟨hth, hq, ha, hh⟩ :=
    h.threads.wake hm ht (show (th.withCall (.swapped status)).Calls = _ from rfl) rfl rfl
  rw [hs] at hh
  have hc := h.count
  refine ⟨⟨h.signal, hth, h.delivered.trans (.append_left _ (.append_right _ hh.symm))⟩, ?_, fun hlt _ => ?_⟩
  · simp only [kiUnlinkThread, setThread, hq, if_true] at ha ⊢
    omega
  refine h.work ?_ (ne_nil_of_mem hm)
  simp only [kiUnlinkThread, setThread, hq, if_true] at hlt
  omega

lemma afterSwap_inv (hw : th.Waiting = false)
    (hcl : th.Calls.head? = some (.swapped status)) : QueueInv (afterSwap s t th status) := by
  obtain ⟨cs, hcs⟩ := head?_eq_some_iff.mp hcl
  have hth := h.threads.thread th (mem_of_getElem? ht)
  have hq : th.Queue = true := hth.queue (by simp [hcs])
  have hin : ∀ c ∈ cs, c ≠ .blocked := by simpa [hcs] using hth.inner
  have hcd : cs.head? ≠ some .blocked := fun hc => hin _ (mem_of_head? hc) rfl
  have ha : th.active = true := active_of hq hw (by simp [hcs])
  -- the call returns
  have hret : ThreadOk { th.returned with WaitReason := false } := by
    refine ⟨fun _ => hw, fun c hc => hin c ?_, fun _ => hq⟩
    simp only [returned, hcs, tail_cons] at hc
    exact mem_of_mem_tail hc
  have hr : active { th.returned with WaitReason := false } = true :=
    active_of hq hw (by simpa [returned, hcs] using hcd)
  have hre : th.Calls.head? = some .blocked ↔
      ({ th.returned with WaitReason := false } : KThread).Calls.head? = some .blocked := by
    simp [returned, hcs, hcd]
  have hrt (hn : (RemoveCall.swapped status).inHand = none) :
      QueueInv (s.setThread t { th.returned with WaitReason := false }) := by
    refine h.setThread ht hret hre ?_ (by rw [ha, hr]) (Int.le_refl _)
    simp [inHand, returned, hcs, tail_cons, hn]
  cases status with
  | kernelApc =>
    have hok : ThreadOk { th.withCall .again with WaitReason := false } := by
      refine ⟨fun _ => hw, fun c hc => hin c ?_, fun _ => hq⟩
      simpa [withCall, hcs] using hc
    refine h.setThread ht hok (by simp [withCall, hcs]) ?_ ?_ (Int.le_refl _)
    · simp only [inHand, withCall, hcs, tail_cons]
      rfl
    · rw [ha, show active { th.withCall .again with WaitReason := false } = true from active_of hq hw nofun]
  | userApc => exact hrt rfl
  | timeout => exact hrt rfl
  | entry e =>
    have hs := countP_set_thread active ht { th.returned with WaitReason := false }
    rw [ha, hr] at hs
    simp only [if_true] at hs
    refine ⟨⟨h.signal, h.threads.change ht hret hre, ?_⟩, ?_, h.work⟩
    swap
    · have hcn := h.count
      simp only [afterSwap, setThread]
      omega
    -- the entry goes from the hand of the thread to those returned
    have hp := inHand_set ht { th.returned with WaitReason := false }
    have h1 : th.inHand = e :: cs.filterMap RemoveCall.inHand := by rw [inHand, hcs]; rfl
    have h2 : inHand { th.returned with WaitReason := false } = cs.filterMap RemoveCall.inHand := by
      simp [inHand, returned, hcs, tail_cons]
    rw [h1, h2] at hp
    have hh := (perm_append_left_iff _).mp ((perm_middle (a := e)).trans hp)
    refine h.delivered.trans (.append_left _ ?_)
    simp only [afterSwap, setThread, map_append, map_cons, map_nil, ← append_assoc]
    refine (hh.symm.append_right _).trans ?_
    exact (perm_append_singleton _ _).symm

end

lemma queueStep_inv {op : QueueOp} (h : QueueInv s) (hok : QueueOk s op)
    (hst : queueStep s op = some s') : QueueInv s' := by
  cases op with
  | insert t e head =>
    obtain ⟨th, hth, hst⟩ := bind_eq_some_iff.mp hst
    obtain ⟨ht, -, -⟩ := runningThread_some hth
    split at hst
    · cases hst
    have hsp : ∃ r, kiInsertQueue s th e head = some r ∧ QueueInv r.2 := kiInsertQueue_spec h (hok th ht)
    obtain ⟨r, hr, h'⟩ := hsp
    rw [hr] at hst
    cases hst
    exact h'
  | remove t env =>
    obtain ⟨th, hth, hst⟩ := bind_eq_some_iff.mp hst
    obtain ⟨ht, hw, hb⟩ := runningThread_some hth
    cases hst
    exact keRemoveQueue_inv h ht hw hb
  | again t env =>
    obtain ⟨th, hth, hst⟩ := bind_eq_some_iff.mp hst
    obtain ⟨ht, hw, -⟩ := runningThread_some hth
    split at hst
    · rename_i ha
      cases hst
      exact removeAgain_inv h ht hw ha
    · cases hst
  | resume t =>
    obtain ⟨th, hth, hst⟩ := bind_eq_some_iff.mp hst
    obtain ⟨ht, hw, -⟩ := runningThread_some hth
    split at hst
    · rename_i status hca
      cases hst
      exact afterSwap_inv h ht hw hca
    · cases hst
  | wake t status =>
    obtain ⟨th, ht, hst⟩ := bind_eq_some_iff.mp hst
    split at hst
    · rename_i hcn
      cases hst
      refine kiUnlinkThread_inv h ht hcn.1 ?_
      cases status with
      | entry e => exact absurd hcn.2 (by simp [WaitStatus.isEntry])
      | kernelApc => rfl
      | userApc => rfl
      | timeout => rfl
    · cases hst
  | wait t wq =>
    obtain ⟨th, hth, hst⟩ := bind_eq_some_iff.mp hst
    obtain ⟨ht, hw, hb⟩ := runningThread_some hth
    have htk := h.threads.thread th (mem_of_getElem? ht)
    have hok' : ThreadOk { th with Waiting := true, WaitReason := wq } :=
      ⟨fun hc => absurd hc hb, htk.inner, htk.queue⟩
    obtain ⟨s1, hs1, h'⟩ := h.deactivate ht hok' Iff.rfl rfl (by simp [active, running_iff.mpr ⟨hw, hb⟩])
      (by simp [active, running])
    obtain rfl := some.inj (hs1.symm.trans hst)
    exact h'
  | unwait t =>
    obtain ⟨th, ht, hst⟩ := bind_eq_some_iff.mp hst
    split at hst
    swap
    · cases hst
    rename_i hw
    cases hst
    have htk := h.threads.thread th (mem_of_getElem? ht)
    have hb : th.Calls.head? ≠ some .blocked := fun hb => by simp [htk.awake hb] at hw
    have hok' : ThreadOk { th with Waiting := false } := ⟨fun _ => rfl, htk.inner, htk.queue⟩
    have hno : th.active = false := by simp [active, running, hw]
    have hy : active { th with Waiting := false } = th.Queue := by simp [active, running, hb]
    refine h.setThread ht hok' Iff.rfl rfl ?_ ?_
    · rw [hno, hy]
      cases th.Queue <;> simp
    · split <;> omega
  | preempt t =>
    obtain ⟨th, hth, hst⟩ := bind_eq_some_iff.mp hst
    obtain ⟨ht, hw, hb⟩ := runningThread_some hth
    cases hst
    have htk := h.threads.thread th (mem_of_getElem? ht)
    have hok' : ThreadOk { th with WaitReason := false } := ⟨htk.awake, htk.inner, htk.queue⟩
    exact h.setThread ht hok' Iff.rfl rfl rfl (Int.le_refl _)
  | leave t =>
    obtain ⟨th, hth, hst⟩ := bind_eq_some_iff.mp hst
    obtain ⟨ht, hw, hb⟩ := runningThread_some hth
    have hcl := hok th ht
    have hok' : ThreadOk { th with Queue := false, WaitReason := true } :=
      ⟨fun _ => hw, by simp [hcl], fun hne => absurd hcl hne⟩
    obtain ⟨s1, hs1, h'⟩ := h.deactivate ht hok' Iff.rfl rfl
      (by simp [active, running_iff.mpr ⟨hw, hb⟩]) (by simp [active])
    obtain rfl := some.inj (hs1.symm.trans hst)
    exact h'

lemma QueueInv.init (count np : Nat) (h : ∀ th ∈ threads, th.Queue = false ∧ th.Calls = []) :
    QueueInv (keInitializeQueue count np threads) := by
  have hok : ThreadsOk threads [] := by
    refine ⟨fun t => ⟨nofun, ?_⟩, nodup_nil, fun th hth => ?_⟩
    · rintro ⟨th, hth, hb⟩
      simp [(h th (mem_of_getElem? hth)).2] at hb
    · have hc := (h th hth).2
      exact ⟨by simp [hc], by simp [hc], fun hne => absurd hc hne⟩
  have hh : threads.flatMap inHand = [] := flatMap_eq_nil_iff.mpr fun th hth => by simp [inHand, (h th hth).2]
  have hcn : threads.countP active = 0 := countP_eq_zero.mpr fun th hth => by simp [active, (h th hth).1]
  exact ⟨⟨rfl, hok, by simp [keInitializeQueue, hh]⟩, by simp [keInitializeQueue, hcn], fun _ hne => absurd rfl hne⟩

/-- In every state that is reached the counts are right, an entry that was inserted is in the
queue, in the hand of a thread that has been woken up, or has been returned, and no entry waits
together with a thread for no reason. -/
theorem queue_accounting (count numberProcessors : Nat) (threads : List KThread)
    (hthreads : ∀ th ∈ threads, th.Queue = false ∧ th.Calls = []) (ops : List QueueOp) (s : KQueue)
    (hrun : Run queueStep QueueOk (keInitializeQueue count numberProcessors threads) ops s) :
    s.SignalState = s.EntryList.length ∧
    s.CurrentCount = s.Threads.countP KThread.active ∧
    (∀ t, t ∈ s.WaitList ↔ ∃ th, s.Threads[t]? = some th ∧ th.Calls.head? = some .blocked) ∧
    s.Inserted.Perm (s.EntryList.map QueueEntry.Entry ++
      (s.Threads.flatMap KThread.inHand ++ s.Delivered.map Prod.fst)) ∧
    ∀ e ∈ s.EntryList, s.WaitList ≠ [] → s.CurrentCount < s.MaximumCount → e.ByApc = true := by
  have h := hrun.invariant QueueInv queueStep_inv (.init count numberProcessors hthreads)
  exact ⟨h.signal, h.count, h.threads.mem_iff, h.delivered, fun e he hne hlt => h.work hlt hne e he⟩

/-- No APC is pending, and no timeout has passed. -/
def quietEnv : RemoveEnv := ⟨false, false, false⟩

def newThread : KThread := ⟨false, false, [], false⟩

/-- A thread waits for an entry and returns it, and one more entry is inserted while it is blocked elsewhere. -/
theorem queue_accounting_two : ∃ s, Run queueStep QueueOk (keInitializeQueue 1 1 [newThread, newThread])
    [.remove 1 quietEnv, .insert 0 7 false, .resume 1, .insert 1 8 true, .wait 1 false] s ∧
    s.Delivered = [(7, 1)] ∧ s.SignalState = s.EntryList.length ∧
      s.CurrentCount = s.Threads.countP KThread.active ∧
    s.Inserted.Perm
      (s.EntryList.map QueueEntry.Entry ++ (s.Threads.flatMap KThread.inHand ++ s.Delivered.map Prod.fst)) := by
  refine Run.exists_and_and ?_ fun s hr => ?_
  · exact ⟨_, .cons (by decide) rfl <| .cons (by decide) rfl <| .cons (by decide) rfl <| .cons (by decide) rfl <|
      .cons (by decide) rfl (.nil _), rfl⟩
  · obtain ⟨hs, hc, -, hp, -⟩ := queue_accounting 1 1 [newThread, newThread] (by decide) _ s hr
    exact ⟨hs, hc, hp⟩

/-- A thread that has taken an entry without a wait inserts one, which stays in the queue,
although another thread waits and two may run. And a thread that moves to another queue in an APC
is taken off the count twice. -/
theorem queue_accounting_fails :
    (∃ s, Run queueStep (fun _ _ => True) (keInitializeQueue 2 1 [newThread, newThread, newThread])
      [.insert 0 7 false, .remove 1 quietEnv, .remove 2 quietEnv, .insert 1 8 false] s ∧
      s.EntryList = [⟨8, false⟩] ∧ s.WaitList = [2] ∧ s.CurrentCount < s.MaximumCount ∧
      s.Threads[1]? = some ⟨true, true, [], false⟩) ∧
    ∃ s, Run queueStep (fun _ _ => True) (keInitializeQueue 2 1 [newThread, newThread])
      [.remove 0 ⟨true, false, false⟩, .remove 1 ⟨true, false, false⟩, .leave 0, .again 0 quietEnv] s ∧
      s.CurrentCount = 0 ∧ s.Threads.countP KThread.active = 1 :=
  ⟨⟨_, .cons trivial rfl <| .cons trivial rfl <| .cons trivial rfl <| .cons trivial rfl (.nil _),
    rfl, rfl, by decide, rfl⟩,
    ⟨_, .cons trivial rfl <| .cons trivial rfl <| .cons trivial rfl <| .cons trivial rfl (.nil _), rfl, rfl⟩⟩

end FreeNT.Ke
