import FreeNT.FsRtl.OplockState

/-!
# The waiters of an oplock

IRPs wait only while a break is in progress, and when the oplock leaves that state
every waiter is completed once exactly if the loop over the waiters can still read the
links of the wait contexts it has freed (`oplock_waiters`). The pool writes a link of
its own into a block that it puts on a lookaside or free list, and leaves the block as
it is only if it joins it to the free block before.
-/

namespace FreeNT.FsRtl

open OplockFlags List Option

variable {fileOf : Nat → Nat} {env : OplockEnv} {s s' : Oplock} {st : OplockStatus} {f : OplockFlags}

/-! ## The values of the flags, by evaluation -/

lemma free_not_broken : ∀ f ∈ shapes, flagOn f (LEVEL_2_OPLOCK ||| PENDING_LOCK ||| NO_OPLOCK) = true →
    isBroken f = false := forall_flags rfl

lemma level2_free : ∀ f ∈ shapes, flagOn f (LEVEL_2_OPLOCK ||| NO_OPLOCK) = true →
    isBroken f = false := forall_flags rfl

lemma noPending_free : ∀ f ∈ shapes, flagOn f (NO_OPLOCK ||| PENDING_LOCK) = true →
    isBroken f = false ∧ f ≠ LEVEL_2_OPLOCK := forall_flags rfl

/-- An oplock that is neither absent nor shared nor pending is exclusive, broken or not. -/
lemma exclusive_of_not : ∀ f ∈ shapes, f ≠ NO_OPLOCK →
    flagOn f (BROKEN_ANY ||| PENDING_LOCK ||| LEVEL_2_OPLOCK) = false →
    f ||| BROKEN_TO_NONE ∈ shapes ∧ isBroken (f ||| BROKEN_TO_NONE) = true := forall_flags rfl

lemma exclusive_break : ∀ f ∈ shapes, flagOn f EXCLUSIVE_LOCK → flagOn f (BROKEN_ANY ||| PENDING_LOCK) = false →
    (f ||| (if flagOn f (BATCH_OPLOCK ||| LEVEL_1_OPLOCK) then BROKEN_TO_LEVEL_2 else BROKEN_TO_NONE)) ∈ shapes ∧
      isBroken (f ||| (if flagOn f (BATCH_OPLOCK ||| LEVEL_1_OPLOCK) then BROKEN_TO_LEVEL_2 else BROKEN_TO_NONE)) =
        true := forall_flags rfl

lemma break_on : ∀ f ∈ shapes, flagOn f BROKEN_TO_LEVEL_2 →
    (f &&& ~~~BROKEN_TO_LEVEL_2) ||| BROKEN_TO_NONE_FROM_LEVEL_2 ∈ shapes ∧
      isBroken ((f &&& ~~~BROKEN_TO_LEVEL_2) ||| BROKEN_TO_NONE_FROM_LEVEL_2) = true := forall_flags rfl

lemma close_pending : ∀ f ∈ shapes,
    flagOn f (BROKEN_TO_LEVEL_2 ||| BROKEN_TO_NONE ||| BROKEN_TO_NONE_FROM_LEVEL_2) = true →
    (f &&& ~~~BROKEN_ANY) ||| BROKEN_TO_CLOSE_PENDING ∈ shapes ∧
      isBroken ((f &&& ~~~BROKEN_ANY) ||| BROKEN_TO_CLOSE_PENDING) = true := forall_flags rfl

lemma broken_to_level2 : ∀ f ∈ shapes, flagOn f BROKEN_TO_LEVEL_2 →
    isBroken f ∧ flagOn f PENDING_LOCK = false := forall_flags rfl

lemma no_mem_shapes : NO_OPLOCK ∈ shapes := by decide

lemma level2_mem_shapes : LEVEL_2_OPLOCK ∈ shapes := by decide

lemma unbroken_iff : ∀ f ∈ shapes, isUnbroken f →
    isBroken f = false ∧ f ≠ LEVEL_2_OPLOCK ∧ f ≠ NO_OPLOCK ∧
      flagOn f (BROKEN_ANY ||| PENDING_LOCK) = false := forall_flags rfl

lemma broken_facts : ∀ f ∈ shapes, isBroken f →
    f ≠ LEVEL_2_OPLOCK ∧ f ≠ NO_OPLOCK ∧ isUnbroken f = false ∧
      flagOn f (BROKEN_ANY ||| PENDING_LOCK) = true := forall_flags rfl

lemma pending_facts : ∀ f ∈ shapes, flagOn f PENDING_LOCK →
    f ≠ LEVEL_2_OPLOCK ∧ isUnbroken f = false ∧ isBroken f = false := forall_flags rfl

lemma broken_of_part : ∀ f ∈ shapes,
    flagOn f (BROKEN_TO_LEVEL_2 ||| BROKEN_TO_NONE ||| BROKEN_TO_NONE_FROM_LEVEL_2) = true →
      isBroken f = true := forall_flags rfl

lemma broken_of_none : ∀ f ∈ shapes,
    flagOn f (BROKEN_TO_NONE ||| BROKEN_TO_LEVEL_2) = true ∨ flagOn f BROKEN_TO_NONE_FROM_LEVEL_2 = true →
      isBroken f := forall_flags rfl

lemma unbroken_not_free :
    ∀ f ∈ shapes, isUnbroken f → flagOn f (LEVEL_2_OPLOCK ||| NO_OPLOCK) = false := forall_flags rfl

lemma unbroken_of_not : ∀ f ∈ shapes, f ≠ NO_OPLOCK → f ≠ LEVEL_2_OPLOCK →
    flagOn f (BROKEN_ANY ||| PENDING_LOCK) = true → isUnbroken f = false := forall_flags rfl

/-! ## The wait list -/

/-- What holds also between a change of the flags and the completion of the waiters. -/
structure PreInv (s : Oplock) : Prop where
  shape : s.Flags ∈ shapes
  shared : s.SharedList ≠ [] → s.Flags = LEVEL_2_OPLOCK
  nodup : s.SharedList.Nodup
  irps : (s.WaitList.map (·.Irp)).Nodup
  excl : s.ExclusiveIrp ≠ 0 → isUnbroken s.Flags = true

structure WaitInv (s : Oplock) : Prop extends PreInv s where
  waits : s.WaitList ≠ [] → isBroken s.Flags = true

/-- The link of a context can be read after the context has been freed. -/
def LinkKept (env : OplockEnv) (c : WaitCtx) : Prop := ∀ link, env.waitLink c link = link

/-- The links of these contexts can be read after they have been freed. -/
def WaitsKept (env : OplockEnv) (cs : List WaitCtx) : Prop := ∀ c ∈ cs, LinkKept env c

/-- What the pool does with a context that is freed: it leaves its link, or writes
another one, which is not to a context that waits. -/
def PoolLinks (env : OplockEnv) (cs : List WaitCtx) : Prop :=
  ∀ c ∈ cs, LinkKept env c ∨ ∀ link, ∃ c' ∉ cs, env.waitLink c link = some c'

/-- The waiters are completed once each, in the order of the list, and are gone. -/
structure AllCompleted (s s' : Oplock) : Prop where
  wait : s'.WaitList = []
  completed : s'.completed = s.completed ++ s.WaitList.map (·.Irp)

lemma WaitInv.no_waiters (h : WaitInv s) (hf : isBroken s.Flags = false) : s.WaitList = [] := by
  by_contra hne
  rw [h.waits hne] at hf
  cases hf

lemma WaitInv.of_empty (h : PreInv s) (hw : s.WaitList = []) : WaitInv s := ⟨h, fun hne => absurd hw hne⟩

lemma completeWaits_eq (h : PreInv s) {p : WaitCtx → Bool} (hk : ∀ c ∈ s.WaitList, p c → LinkKept env c) :
    completeWaits env s p = some { s with
      WaitList := s.WaitList.filter fun c => !p c, completed :=
        s.completed ++ (s.WaitList.filter p).map (·.Irp) } := by
  rw [completeWaits, sweep_of_kept h.irps.of_map hk]
  rfl

lemma PreInv.completeWaiters (h : PreInv s) (hk : WaitsKept env s.WaitList)
    (hc : completeWaiters env s = some s') : WaitInv s' ∧ AllCompleted s s' ∧ s'.Flags = s.Flags := by
  rw [FsRtl.completeWaiters, completeWaits_eq h fun c hc _ => hk c hc, some.injEq] at hc
  subst hc
  refine ⟨.of_empty ⟨h.shape, h.shared, h.nodup, ?_, h.excl⟩ ?_, ⟨?_, ?_⟩, rfl⟩ <;> simp

lemma WaitInv.cancelWait (h : WaitInv s) (hk : ∀ c ∈ s.WaitList, env.cancel c.Irp → LinkKept env c)
    (hc : cancelWaitIrp env s = some s') : WaitInv s' := by
  rw [cancelWaitIrp, completeWaits_eq h.toPreInv hk, some.injEq] at hc
  subst hc
  refine ⟨⟨h.shape, h.shared, h.nodup, (filter_sublist.map _).nodup h.irps, h.excl⟩, fun hne =>
    h.waits fun hn => hne ?_⟩
  show s.WaitList.filter _ = []
  rw [hn]; rfl

/-- The context is new, and its IRP does not wait yet. -/
def NewWaiter (s : Oplock) (c : WaitCtx) : Prop := c.Irp ∉ s.WaitList.map (·.Irp)

variable {c : WaitCtx}

lemma WaitInv.waitOnIrp (h : WaitInv s) (hb : isBroken s.Flags) (hn : NewWaiter s c)
    (hk : ∀ c' ∈ c :: s.WaitList, env.cancel c'.Irp → LinkKept env c') (hc : waitOnIrp env s c = some s') :
    WaitInv s' := by
  have hin : WaitInv { s with WaitList := c :: s.WaitList } :=
    ⟨⟨h.shape, h.shared, h.nodup, nodup_cons.mpr ⟨hn, h.irps⟩, h.excl⟩, fun _ => hb⟩
  unfold FsRtl.waitOnIrp at hc
  split at hc
  · exact hin.cancelWait hk hc
  · exact some.inj hc ▸ hin

variable {x : Bool}

lemma waitIfRequired_eq (hc : waitIfRequired env s c x = some (s', st, none)) : s' = s := by
  unfold waitIfRequired at hc
  split at hc
  · obtain ⟨_, -, heq⟩ := map_eq_some_iff.mp hc
    cases heq
  · cases hc
    rfl

variable {fo : Nat}

lemma breakWaits_eq (hc : breakWaits env s fo c x = some (s', st, none)) : s' = s := by
  unfold breakWaits at hc
  split at hc
  · cases hc
    rfl
  · exact waitIfRequired_eq hc

lemma PreInv.dropExclusive (h : PreInv s) (hs : s.SharedList = []) (hk : WaitsKept env s.WaitList)
    (hc : dropExclusive env s = some s') : WaitInv s' := by
  unfold FsRtl.dropExclusive at hc
  split at hc
  · cases hc
  have hn : PreInv { s with ExclusiveIrp := 0, FileObject := 0, Flags := NO_OPLOCK } :=
    ⟨no_mem_shapes, fun hne => absurd hs hne, h.nodup, h.irps, fun hne => absurd rfl hne⟩
  exact (hn.completeWaiters hk hc).1

/-- The cancel routine of the shared IRPs leaves the wait list alone. -/
lemma PreInv.cancelII (h : PreInv s) (hk : IrpsKept env env.cancel s.SharedList)
    (hc : cancelOplockIIIrp env s = some s') :
    PreInv s' ∧ s'.WaitList = s.WaitList ∧ s'.completed = s.completed ∧
      (s.SharedList = [] → s'.Flags = s.Flags) := by
  have hfl : s'.WaitList = s.WaitList ∧ s'.completed = s.completed := by
    obtain ⟨p, -, rfl⟩ := map_eq_some_iff.mp hc
    exact ⟨rfl, rfl⟩
  by_cases hs : s.SharedList = []
  · unfold cancelOplockIIIrp at hc
    rw [hs] at hc
    obtain rfl : { s with Flags := s.Flags, SharedList := [] } = s' := by simpa [sweep, sweepLoop] using hc
    exact ⟨⟨h.shape, fun hne => absurd rfl hne, nodup_nil, h.irps, h.excl⟩, rfl, rfl, fun _ => rfl⟩
  obtain ⟨hn, hf, hi, -⟩ := cancelII_fields (h.shared hs) hs h.nodup hk hc
  refine ⟨⟨?_, fun hne => hf.trans (if_neg hne), hn, by rw [hfl.1]; exact h.irps, fun hne => ?_⟩, hfl.1,
    hfl.2, fun hs' => absurd hs' hs⟩
  · rw [hf]
    split <;> decide
  · exact absurd (h.shared hs) (unbroken_iff _ h.shape (h.excl (hi ▸ hne))).2.1

section Calls

variable (h : WaitInv s)
include h

lemma WaitInv.cancelII (hk : IrpsKept env env.cancel s.SharedList)
    (hc : cancelOplockIIIrp env s = some s') : WaitInv s' := by
  obtain ⟨hp, hw, -, hf⟩ := h.toPreInv.cancelII hk hc
  by_cases hs : s.SharedList = []
  · exact ⟨hp, fun hne => by rw [hf hs]; exact h.waits (hw ▸ hne)⟩
  · refine .of_empty hp (hw.trans (h.no_waiters ?_))
    rw [h.shared hs]; decide

lemma WaitInv.cancelExclusive (hc : cancelExclusiveIrp env s = some s') : WaitInv s' := by
  unfold cancelExclusiveIrp at hc
  split at hc
  case isTrue hcn =>
    -- an oplock with its IRP is not broken, so nobody waits
    have hun := unbroken_iff _ h.shape (h.excl hcn.1)
    refine h.toPreInv.dropExclusive ?_ ?_ hc
    · by_contra hs
      exact hun.2.1 (h.shared hs)
    · rw [h.no_waiters hun.1]
      exact nofun
  case isFalse => exact some.inj hc ▸ h

lemma WaitInv.no_irp (hf : isUnbroken s.Flags = false) : s.ExclusiveIrp = 0 := by
  by_contra hne
  rw [h.excl hne] at hf
  cases hf

lemma WaitInv.no_shared (hf : s.Flags ≠ LEVEL_2_OPLOCK) : s.SharedList = [] := by
  by_contra hne
  exact hf (h.shared hne)

lemma WaitInv.setBroken {f : OplockFlags} (hs : s.Flags ≠ LEVEL_2_OPLOCK) (hf : f ∈ shapes)
    (hb : isBroken f) : WaitInv { s with ExclusiveIrp := 0, Flags := f } :=
  ⟨⟨hf, fun hne => absurd (h.no_shared hs) hne, h.nodup, h.irps, fun hne => absurd rfl hne⟩, fun _ => hb⟩

lemma WaitInv.drop (hs : s.Flags ≠ LEVEL_2_OPLOCK) (hi : s.ExclusiveIrp = 0) (fo : Nat) :
    PreInv { s with Flags := NO_OPLOCK, FileObject := fo } :=
  ⟨no_mem_shapes, fun hne => absurd (h.no_shared hs) hne, h.nodup, h.irps, fun hne => absurd hi hne⟩

lemma WaitInv.breakNotify (hn : NewWaiter s c)
    (hk : ∀ c' ∈ { c with CompletionRoutine := true } :: s.WaitList, env.cancel c'.Irp → LinkKept env c')
    (hc : oplockBreakNotify env s c = some (s', st)) : WaitInv s' := by
  unfold oplockBreakNotify at hc
  split at hc
  case isTrue =>
    cases hc
    exact h
  case isFalse hb2 =>
    obtain ⟨hbr, hp⟩ := broken_to_level2 _ h.shape (by simpa using hb2)
    rw [hp, if_neg Bool.false_ne_true] at hc
    obtain ⟨s1, hw, heq⟩ := map_eq_some_iff.mp hc
    cases heq
    exact WaitInv.waitOnIrp (c := { c with CompletionRoutine := true }) h hbr hn hk hw

variable {ir : Nat}

lemma WaitInv.acknowledgeFlags (hk : IrpsKept env env.cancel (s.SharedList ++ [ir]))
    (hc : acknowledgeFlags env s ir x = some s') :
      PreInv s' ∧ s'.WaitList = s.WaitList ∧ s'.completed = s.completed := by
  unfold FsRtl.acknowledgeFlags at hc
  split at hc
  case isTrue hsw =>
    obtain ⟨hb, -⟩ := broken_to_level2 _ h.shape (Bool.and_eq_true_iff.mp hsw).2
    obtain ⟨hne, -, hun, -⟩ := broken_facts _ h.shape hb
    have hs := h.no_shared hne
    have hp : PreInv { s with SharedList := s.SharedList ++ [ir], Flags := LEVEL_2_OPLOCK } :=
      ⟨level2_mem_shapes, fun _ =>
        rfl, by rw [hs]; exact nodup_singleton ir, h.irps, fun hi => absurd (h.no_irp hun) hi⟩
    dsimp only at hc
    split at hc
    · obtain ⟨hp', hw, hdn, -⟩ := hp.cancelII hk hc
      exact ⟨hp', hw, hdn⟩
    · cases hc
      exact ⟨hp, rfl, rfl⟩
  case isFalse =>
    have hd : isBroken s.Flags → PreInv { s with Flags := NO_OPLOCK } := by
      intro hb
      obtain ⟨hne, -, hun, -⟩ := broken_facts _ h.shape hb
      exact h.drop hne (h.no_irp hun) s.FileObject
    split at hc
    case isTrue hn =>
      cases hc
      exact ⟨hd (broken_of_none _ h.shape (.inl hn)), rfl, rfl⟩
    case isFalse =>
      split at hc
      case isTrue hn =>
        cases hc
        exact ⟨hd (broken_of_none _ h.shape (.inr hn)), rfl, rfl⟩
      case isFalse =>
        cases hc
        exact ⟨h.toPreInv, rfl, rfl⟩

lemma WaitInv.acknowledge (hir : IrpsKept env env.cancel (s.SharedList ++ [ir]))
    (hk : s.FileObject = fo →
      WaitsKept env s.WaitList) (hc : acknowledgeOplockBreak env s fo ir x = some (s', st)) :
    WaitInv s' ∧ (s' = s ∨ AllCompleted s s') := by
  unfold acknowledgeOplockBreak at hc
  split at hc
  · cases hc
    exact ⟨h, .inl rfl⟩
  rename_i hfo
  obtain ⟨s1, hf, hc⟩ := bind_eq_some_iff.mp hc
  obtain ⟨s2, hwt, hc⟩ := bind_eq_some_iff.mp hc
  obtain ⟨hp, hw, hd⟩ := h.acknowledgeFlags hir hf
  obtain ⟨hin, ha, -⟩ := hp.completeWaiters (hw ▸ hk (not_not.mp hfo)) hwt
  cases hc
  refine ⟨⟨⟨hin.shape, hin.shared, hin.nodup, hin.irps, hin.excl⟩, hin.waits⟩, .inr ⟨ha.wait, ?_⟩⟩
  show s2.completed = _
  rw [ha.completed, hw, hd]

lemma WaitInv.closePending (hk : s.FileObject = fo → WaitsKept env s.WaitList)
    (hc : opBatchBreakClosePending env s fo = some (s', st)) :
    WaitInv s' ∧ (isBroken s'.Flags = false → s' = s ∨ AllCompleted s s') := by
  unfold opBatchBreakClosePending at hc
  split at hc
  case isTrue hm =>
    obtain ⟨hne, -, hun, -⟩ := broken_facts _ h.shape (broken_of_part _ h.shape hm.2)
    split at hc
    · obtain ⟨s1, hw, heq⟩ := map_eq_some_iff.mp hc
      cases heq
      obtain ⟨hin, ha, -⟩ := (h.drop hne (h.no_irp hun) 0).completeWaiters (hk hm.1) hw
      exact ⟨hin, fun _ => .inr ⟨ha.wait, ha.completed⟩⟩
    obtain ⟨hsh, hb⟩ := close_pending _ h.shape hm.2
    cases hc
    refine ⟨⟨⟨hsh, fun hs => absurd (h.no_shared hne) hs, h.nodup, h.irps, fun hi => absurd (h.no_irp hun) hi⟩,
      fun _ => hb⟩, fun hf => ?_⟩
    rw [hb] at hf
    cases hf
  case isFalse =>
    cases hc
    exact ⟨h, fun _ => .inl rfl⟩

lemma WaitInv.requestPending {fo : Nat} (hf : flagOn s.Flags (NO_OPLOCK ||| PENDING_LOCK) = true) :
    WaitInv (requestPendingOplock s fo).1 := by
  obtain ⟨hb, hne⟩ := noPending_free _ h.shape hf
  refine .of_empty ⟨?_, fun hs => absurd (h.no_shared hne) hs, h.nodup, h.irps, fun hi =>
    absurd rfl hi⟩ (h.no_waiters hb)
  show pendingFlags ∈ shapes
  decide

lemma WaitInv.requestII (hip : ir ∉ s.SharedList) (hir : IrpsKept env env.cancel (s.SharedList ++ [ir]))
    (hc : requestOplockII env s ir = some (s', st)) : WaitInv s' := by
  unfold requestOplockII at hc
  split at hc
  case isTrue hf =>
    have hw := h.no_waiters (level2_free _ h.shape hf)
    have hun : isUnbroken s.Flags = false := by
      by_contra hu
      exact absurd hf (by rw [unbroken_not_free _ h.shape (by simpa using hu)]; decide)
    have hp : PreInv { s with SharedList := s.SharedList ++ [ir], Flags := LEVEL_2_OPLOCK } :=
      ⟨level2_mem_shapes, fun _ => rfl, nodup_append.mpr ⟨h.nodup, nodup_singleton _, fun a ha b hb => by
        rw [mem_singleton.mp hb]; exact ne_of_mem_of_not_mem ha hip⟩, h.irps,
        fun hi => absurd (h.no_irp hun) hi⟩
    split at hc
    · obtain ⟨s1, hcn, heq⟩ := map_eq_some_iff.mp hc
      cases heq
      obtain ⟨hp', hw', -, -⟩ := hp.cancelII hir hcn
      exact .of_empty hp' (hw'.trans hw)
    · cases hc
      exact .of_empty hp hw
  case isFalse =>
    cases hc
    exact h

lemma WaitInv.requestExclusive {k : ExclusiveKind} (ho : s.Flags = LEVEL_2_OPLOCK → s.SharedList.length = 1)
    (hc : requestExclusiveOplock env s fo ir k.flags = some (s', st)) : WaitInv s' := by
  unfold requestExclusiveOplock at hc
  split at hc
  case isTrue hfr =>
    have hw := h.no_waiters (free_not_broken _ h.shape hfr)
    obtain ⟨t, hr, hc⟩ := bind_eq_some_iff.mp hc
    have ht : t.SharedList = [] ∧ t.WaitList = [] := by
      unfold removeSharedIrp at hr
      split at hr
      case isTrue hf =>
        obtain ⟨i, hi⟩ := length_eq_one_iff.mp (ho hf)
        rw [hi] at hr
        cases hr
        exact ⟨rfl, hw⟩
      case isFalse hf =>
        cases hr
        exact ⟨h.no_shared hf, hw⟩
    have hn : WaitInv { t with ExclusiveIrp := ir, FileObject := fo, Flags := k.flags } := by
      refine .of_empty ⟨exclusive_mem_shapes k, fun hs => absurd ht.1 hs, ?_, ?_, fun _ => ?_⟩ ht.2
      · rw [ht.1]; exact nodup_nil
      · rw [ht.2]; exact nodup_nil
      · show isUnbroken k.flags
        cases k <;> decide
    split at hc
    · obtain ⟨s1, hcn, heq⟩ := map_eq_some_iff.mp hc
      cases heq
      exact hn.cancelExclusive hcn
    · cases hc
      exact hn
  case isFalse =>
    cases hc
    exact h

lemma WaitInv.cleanup (hir : IrpsKept env (fun irp => fileOf irp == fo) s.SharedList)
    (hk : s.FileObject = fo → WaitsKept env s.WaitList)
    (hc : oplockCleanup env s fileOf fo = some s') :
    WaitInv s' ∧ (isBroken s.Flags → s' = s ∨ AllCompleted s s') := by
  unfold oplockCleanup at hc
  split at hc
  · cases hc
    exact ⟨h, fun _ => .inl rfl⟩
  split at hc
  case isTrue hno hf =>
    have hbr : isBroken s.Flags = false := by rw [hf]; decide
    have hun : isUnbroken s.Flags = false := by rw [hf]; decide
    rw [sweep_of_kept h.nodup hir, map_some, some.injEq] at hc
    subst hc
    refine ⟨.of_empty ⟨?_, fun hs => (if_neg hs).trans hf, h.nodup.filter _, h.irps,
      fun hi => absurd (h.no_irp hun) hi⟩ (h.no_waiters hbr), fun hb => ?_⟩
    · show (if _ then _ else _) ∈ shapes
      split
      · exact no_mem_shapes
      · exact h.shape
    · rw [hbr] at hb
      cases hb
  case isFalse hno hf =>
    split at hc
    swap
    · cases hc
      exact ⟨h, fun _ => .inl rfl⟩
    rename_i hfo
    split at hc
    · split at hc
      · cases hc
      have hp : PreInv { s with ExclusiveIrp := 0, FileObject := 0, Flags := NO_OPLOCK } :=
        ⟨no_mem_shapes, fun hs => absurd (h.no_shared hf) hs, h.nodup, h.irps, fun hi => absurd rfl hi⟩
      obtain ⟨hin, ha, -⟩ := hp.completeWaiters (hk hfo) hc
      exact ⟨hin, fun _ => .inr ⟨ha.wait, ha.completed⟩⟩
    rename_i hbp
    have hun := unbroken_of_not _ h.shape hno hf (by simpa using hbp)
    obtain ⟨hin, ha, -⟩ := (h.drop hf (h.no_irp hun) 0).completeWaiters (hk hfo) hc
    exact ⟨hin, fun _ => .inr ⟨ha.wait, ha.completed⟩⟩

lemma WaitInv.breakToNone (hir : IrpsKept env (fun _ => true) s.SharedList)
    (hc : oplockBreakToNone env s fo c x = some (s', st, none)) : WaitInv s' := by
  unfold oplockBreakToNone at hc
  split at hc
  · cases hc
    exact h
  rename_i hno
  split at hc
  · rename_i hfr
    have hfr : flagOn s.Flags (BROKEN_ANY ||| PENDING_LOCK ||| LEVEL_2_OPLOCK) = false := by simpa using hfr
    obtain ⟨hsh, hbr⟩ := exclusive_of_not _ h.shape hno hfr
    have hne : s.Flags ≠ LEVEL_2_OPLOCK := by
      intro hf
      rw [hf] at hfr
      exact absurd hfr (by decide)
    split at hc
    · cases hc
    split at hc
    · obtain ⟨s1, hd, heq⟩ := map_eq_some_iff.mp hc
      cases heq
      refine h.toPreInv.dropExclusive (h.no_shared hne) ?_ hd
      rw [h.no_waiters (unbroken_iff _ h.shape (unbroken_of_exclusive _ h.shape hno hfr)).1]
      exact nofun
    · rw [breakWaits_eq hc]
      exact h.setBroken hne hsh hbr
  · rename_i hbs
    have hbs : flagOn s.Flags (BROKEN_ANY ||| PENDING_LOCK ||| LEVEL_2_OPLOCK) = true := by simpa using hbs
    split at hc
    · rename_i hf
      have hbr : isBroken s.Flags = false := by rw [hf]; decide
      have hun : isUnbroken s.Flags = false := by rw [hf]; decide
      rw [sweep_of_kept h.nodup hir] at hc
      simp only [Bool.not_true, filter_false, map_some, some.injEq, Prod.mk.injEq] at hc
      obtain ⟨rfl, -⟩ := hc
      exact .of_empty ⟨no_mem_shapes, fun hs => absurd rfl hs, nodup_nil, h.irps,
        fun hi => absurd (h.no_irp hun) hi⟩ (h.no_waiters hbr)
    rename_i hf
    split at hc
    · rename_i hb2
      obtain ⟨hsh, hbr⟩ := break_on _ h.shape hb2
      obtain ⟨-, -, hun, -⟩ := broken_facts _ h.shape (broken_to_level2 _ h.shape hb2).1
      have hst : WaitInv { s with Flags := (s.Flags &&& ~~~BROKEN_TO_LEVEL_2) ||| BROKEN_TO_NONE_FROM_LEVEL_2 } :=
        ⟨⟨hsh, fun hs => absurd (h.no_shared hf) hs, h.nodup, h.irps, fun hi =>
          absurd (h.no_irp hun) hi⟩, fun _ => hbr⟩
      rw [breakWaits_eq hc]
      exact hst
    split at hc
    · rename_i hp
      obtain ⟨-, hun, hbr⟩ := pending_facts _ h.shape hp
      cases hc
      exact .of_empty (h.drop hf (h.no_irp hun) 0) (h.no_waiters hbr)
    · rw [breakWaits_eq hc]
      exact h

lemma WaitInv.breakToII (hc : oplockBreakToII env s fo c x = some (s', st, none)) : WaitInv s' := by
  unfold oplockBreakToII at hc
  split at hc
  · cases hc
    exact h
  rename_i ho
  have he : flagOn s.Flags EXCLUSIVE_LOCK := by
    by_contra hne
    rw [Bool.not_eq_true] at hne
    rw [hne] at ho
    exact ho rfl
  split at hc
  · rename_i hb
    split at hc
    · rename_i hp
      obtain ⟨hne, hun, hbr⟩ := pending_facts _ h.shape hp
      cases hc
      exact .of_empty (h.drop hne (h.no_irp hun) 0) (h.no_waiters hbr)
    · rw [waitIfRequired_eq hc]
      exact h
  rename_i hfr
  obtain ⟨hs, hbr⟩ := exclusive_break _ h.shape he (by simpa using hfr)
  have hne : s.Flags ≠ LEVEL_2_OPLOCK := by
    intro hf
    rw [hf] at he
    exact absurd he (by decide)
  split at hc
  · cases hc
  split at hc
  · obtain ⟨s1, hd, heq⟩ := map_eq_some_iff.mp hc
    cases heq
    refine h.toPreInv.dropExclusive (h.no_shared hne) ?_ hd
    rw [h.no_waiters (unbroken_iff _ h.shape (unbroken_of_exclusive_lock _ h.shape he (by simpa using hfr))).1]
    exact nofun
  · rw [waitIfRequired_eq hc]
    exact h.setBroken hne hs hbr

lemma WaitInv.uninitializeOplock (hk : WaitsKept env s.WaitList) (hc : uninitializeOplock env s = some s') :
    AllCompleted s s' := by
  obtain ⟨s1, hw, hc⟩ := bind_eq_some_iff.mp hc
  obtain ⟨p, -, hc⟩ := bind_eq_some_iff.mp hc
  cases hc
  obtain ⟨-, ha, -⟩ := h.toPreInv.completeWaiters hk hw
  exact ⟨ha.wait, ha.completed⟩

end Calls

/-! ## Runs -/

/-- The condition on a call: a loop over the waiters or the shared IRPs can go on from
what it has given away, if anything. An IRP is given in once, the two requests find
what they assert, and no break has to wait. -/
def WaitFine (fileOf : Nat → Nat) (env : OplockEnv) (s : Oplock) : OplockCall → Prop
  | .breakNotify c => NewWaiter s c ∧
    ∀ c' ∈ { c with CompletionRoutine := true } :: s.WaitList, env.cancel c'.Irp → LinkKept env c'
  | .breakToII fileObject _ completeIfOplocked => mustWait env s fileObject completeIfOplocked = false
  | .breakToNone fileObject _ completeIfOplocked =>
    IrpsKept env (fun _ => true) s.SharedList ∧ mustWait env s fileObject completeIfOplocked = false
  | .acknowledge fileObject irp _ => IrpsKept env env.cancel (s.SharedList ++ [irp]) ∧
    (s.FileObject = fileObject → WaitsKept env s.WaitList)
  | .cleanup fileObject => IrpsKept env (fun irp => fileOf irp == fileObject) s.SharedList ∧
    (s.FileObject = fileObject → WaitsKept env s.WaitList)
  | .closePending fileObject => s.FileObject = fileObject → WaitsKept env s.WaitList
  | .cancelWait => ∀ c ∈ s.WaitList, env.cancel c.Irp → LinkKept env c
  | .requestExclusive _ _ _ => s.Flags = LEVEL_2_OPLOCK → s.SharedList.length = 1
  | .requestPending _ => flagOn s.Flags (NO_OPLOCK ||| PENDING_LOCK) = true
  | .requestII irp => irp ∉ s.SharedList ∧ IrpsKept env env.cancel (s.SharedList ++ [irp])
  | .cancelII => IrpsKept env env.cancel s.SharedList
  | .cancelExclusive | .uninitializeOplock | .wake _ => True

def WaitOk (fileOf : Nat → Nat) (o : Option InternalOplock) (call : OplockEnv × OplockCall) : Prop :=
  WaitFine fileOf call.1 (o.getD fsRtlAllocateOplock).toOplock call.2

lemma map_success {r : Option Oplock} (h : r.map (·, OplockStatus.success) = some (s', st)) : r = some s' := by
  obtain ⟨s1, hr, heq⟩ := map_eq_some_iff.mp h
  cases heq
  exact hr

variable {call : OplockCall}

lemma oplockRoutine_waits (h : WaitInv s) (hf : WaitFine fileOf env s call)
    (hcl : call.frees = false) (hc : oplockRoutine fileOf env s call = some (s', st)) : WaitInv s' := by
  cases call with
  | breakNotify c => exact h.breakNotify hf.1 hf.2 hc
  | acknowledge fo ir x => exact (h.acknowledge hf.1 hf.2 hc).1
  | closePending fo => exact (h.closePending hf hc).1
  | requestExclusive fo ir k => exact h.requestExclusive hf hc
  | requestPending fo =>
    have := @WaitInv.requestPending _ h fo hf
    rw [oplockRoutine, some.injEq] at hc
    rwa [hc] at this
  | requestII ir => exact h.requestII hf.1 hf.2 hc
  | cleanup fo => exact (h.cleanup hf.1 hf.2 (map_success hc)).1
  | breakToNone fo c x =>
    obtain ⟨⟨s1, st1, w⟩, hr, heq⟩ := map_eq_some_iff.mp hc
    cases heq
    obtain rfl := breakToNone_none h.shape hf.2 hr
    exact h.breakToNone hf.1 hr
  | breakToII fo c x =>
    obtain ⟨⟨s1, st1, w⟩, hr, heq⟩ := map_eq_some_iff.mp hc
    cases heq
    obtain rfl := breakToII_none h.shape hf hr
    exact h.breakToII hr
  | cancelExclusive => exact h.cancelExclusive (map_success hc)
  | cancelII => exact h.cancelII hf (map_success hc)
  | cancelWait => exact h.cancelWait hf (map_success hc)
  | uninitializeOplock => cases hcl
  | wake c =>
    cases hc
    exact h

/-! ## The end of a break -/

/-- The calls that end a break. -/
def OplockCall.endsBreak : OplockCall → Bool
  | .acknowledge .. | .closePending _ | .cleanup _ | .uninitializeOplock => true
  | _ => false

/-- A call that ends a break comes to its loop over the waiters. -/
def OplockCall.reachesWaiters (s : Oplock) : OplockCall → Prop
  | .acknowledge fileObject _ _ | .cleanup fileObject => s.FileObject = fileObject
  | .closePending fileObject => s.FileObject = fileObject ∧
    flagOn s.Flags (BROKEN_TO_LEVEL_2 ||| BROKEN_TO_NONE ||| BROKEN_TO_NONE_FROM_LEVEL_2) = true ∧
    flagOn s.Flags (PENDING_LOCK ||| LEVEL_1_OPLOCK) = true
  | .uninitializeOplock => True
  | _ => False

/-- An IRP that is to be shared from now on and is cancelled can be read. -/
def OplockCall.IrpKept (env : OplockEnv) : OplockCall → Prop
  | .acknowledge _ irp _ => IrpsKept env env.cancel [irp]
  | _ => True

lemma completeWaiters_isSome (h : PreInv s) (hk : WaitsKept env s.WaitList) : (completeWaiters env s).isSome := by
  rw [completeWaiters, completeWaits_eq h fun c hc _ => hk c hc]
  rfl

lemma sweep_waits_eq_none {cs : List WaitCtx} (hp : PoolLinks env cs) (hk : ¬ WaitsKept env cs) :
    sweep (fun _ => true) env.waitLink cs = none :=
  sweep_of_lost hp (by simpa [WaitsKept, LinkKept] using hk)

lemma acknowledgeFlags_isSome {ir : Nat} {x : Bool} (h : WaitInv s)
    (hir : IrpsKept env env.cancel (s.SharedList ++ [ir])) : (acknowledgeFlags env s ir x).isSome := by
  unfold acknowledgeFlags
  split
  case isTrue hsw =>
    have hb := (broken_to_level2 _ h.shape (Bool.and_eq_true_iff.mp hsw).2).1
    have hs := h.no_shared (broken_facts _ h.shape hb).1
    split
    · have hnd : (s.SharedList ++ [ir]).Nodup := by rw [hs]; exact nodup_singleton ir
      rw [cancelOplockIIIrp, sweep_of_kept hnd hir]
      rfl
    · rfl
  case isFalse =>
    split
    · rfl
    · split <;> rfl

section Ends

variable (h : WaitInv s) (hb : isBroken s.Flags = true) (hi : call.IrpKept env)
include h hb hi

/-- The routine of a call whose loop, if it comes to it, can read the links. -/
lemma ends_isSome (he : call.endsBreak = true) (hk : call.reachesWaiters s → WaitsKept env s.WaitList) :
    (oplockRoutine fileOf env s call).isSome := by
  obtain ⟨hne, hno, hun, hbp⟩ := broken_facts _ h.shape hb
  have hd := h.drop hne (h.no_irp hun) 0
  cases call with
  | acknowledge fo ir x =>
    have hi : IrpsKept env env.cancel (s.SharedList ++ [ir]) := by rw [h.no_shared hne]; exact hi
    rw [oplockRoutine, acknowledgeOplockBreak]
    split
    · rfl
    rename_i hfo
    obtain ⟨s1, hfl⟩ := isSome_iff_exists.mp (@acknowledgeFlags_isSome _ _ _ x h hi)
    obtain ⟨hp, hwt, -⟩ := h.acknowledgeFlags hi hfl
    obtain ⟨s2, hw⟩ := isSome_iff_exists.mp (completeWaiters_isSome hp (hwt ▸ hk (not_not.mp hfo)))
    simp [hfl, hw, do_some, isSome_some]
  | closePending fo =>
    rw [oplockRoutine, opBatchBreakClosePending]
    split
    · split
      · rw [isSome_map]
        rename_i hm hl
        exact completeWaiters_isSome hd (hk ⟨hm.1, hm.2, hl⟩)
      · rfl
    · rfl
  | cleanup fo =>
    rw [oplockRoutine, oplockCleanup, if_neg hno, if_neg hne, isSome_map]
    split
    · rw [hbp, if_neg (by decide)]
      rename_i hfo
      exact completeWaiters_isSome hd (hk hfo)
    · rfl
  | uninitializeOplock =>
    rw [oplockRoutine, uninitializeOplock, isSome_map, completeWaiters,
      completeWaits_eq h.toPreInv fun c hc _ => hk trivial c hc]
    simp [h.no_shared hne, sweep, sweepLoop]
  | _ => cases he

/-- If such a call leaves the broken state it has completed the waiters. -/
lemma ends_completes (he : call.endsBreak = true) (hk : call.reachesWaiters s → WaitsKept env s.WaitList)
    (hc : oplockRoutine fileOf env s call = some (s', st))
    (hl : isBroken s'.Flags = false ∨ call.frees = true) : AllCompleted s s' := by
  obtain ⟨hne, hno, hun, hbp⟩ := broken_facts _ h.shape hb
  have hns : call.frees = false → s' ≠ s := by
    rintro hfr rfl
    simp [hb, hfr] at hl
  cases call with
  | acknowledge fo ir x =>
    have hi : IrpsKept env env.cancel (s.SharedList ++ [ir]) := by rw [h.no_shared hne]; exact hi
    exact (h.acknowledge hi hk hc).2.resolve_left (hns rfl)
  | closePending fo =>
    -- a close-pending acknowledgement that keeps the oplock keeps the break
    by_cases hr : OplockCall.reachesWaiters s (.closePending fo)
    · exact ((h.closePending (fun _ => hk hr) hc).2 (hl.resolve_right Bool.false_ne_true)).resolve_left (hns rfl)
    · rw [oplockRoutine, opBatchBreakClosePending] at hc
      split at hc
      · rename_i hm
        rw [if_neg fun hfl => hr ⟨hm.1, hm.2, hfl⟩] at hc
        cases hc
        exact absurd (hl.resolve_right Bool.false_ne_true) (by simp [(close_pending _ h.shape hm.2).2])
      · cases hc
        exact absurd rfl (hns rfl)
  | cleanup fo =>
    have hsh : IrpsKept env (fun irp => fileOf irp == fo) s.SharedList := by
      simp [IrpsKept, h.no_shared hne]
    exact ((h.cleanup hsh hk (map_success hc)).2 hb).resolve_left (hns rfl)
  | uninitializeOplock => exact h.uninitializeOplock (hk trivial) (map_success hc)
  | _ => cases he

/-- If a link is lost, the loop does not come to its end. -/
lemma ends_eq_none (hp : PoolLinks env s.WaitList) (hr : call.reachesWaiters s) (hk : ¬ WaitsKept env s.WaitList) :
    oplockRoutine fileOf env s call = none := by
  obtain ⟨hne, hno, -, hbp⟩ := broken_facts _ h.shape hb
  have hw := sweep_waits_eq_none hp hk
  cases call with
  | acknowledge fo ir x =>
    have hfo : s.FileObject = fo := hr
    have hi : IrpsKept env env.cancel (s.SharedList ++ [ir]) := by rw [h.no_shared hne]; exact hi
    obtain ⟨s1, hfl⟩ := isSome_iff_exists.mp (@acknowledgeFlags_isSome _ _ _ x h hi)
    obtain ⟨-, hwt, -⟩ := h.acknowledgeFlags hi hfl
    rw [oplockRoutine, acknowledgeOplockBreak, if_neg (not_not.mpr hfo), hfl, do_some, completeWaiters,
      completeWaits, hwt, hw]
    rfl
  | closePending fo =>
    rw [oplockRoutine, opBatchBreakClosePending, if_pos ⟨hr.1, hr.2.1⟩, if_pos hr.2.2, completeWaiters,
      completeWaits, hw]
    rfl
  | cleanup fo =>
    have hfo : s.FileObject = fo := hr
    rw [oplockRoutine, oplockCleanup, if_neg hno, if_neg hne, if_pos hfo, hbp, if_neg (by decide), completeWaiters,
      completeWaits, hw]
    rfl
  | uninitializeOplock =>
    rw [oplockRoutine, uninitializeOplock, completeWaiters, completeWaits, hw]
    rfl
  | _ => cases hr

end Ends

lemma allocateOplock_waits : WaitInv fsRtlAllocateOplock.toOplock :=
  .of_empty ⟨no_mem_shapes, fun hs => absurd rfl hs, nodup_nil, nodup_nil, fun hi => absurd rfl hi⟩ rfl

variable {o : InternalOplock}

/-- The calls by which an IRP comes to wait until the owner of a batch oplock acknowledges. -/
def notifiedCalls : List (OplockEnv × OplockCall) :=
  [(freedEnv, .requestExclusive 1 7 .batch), (freedEnv, .breakToII 2 ⟨100, 9, true⟩ true),
    (freedEnv, .breakNotify ⟨100, 9, true⟩)]

lemma notified_run : ∃ o, Run (oplockStep id) (WaitOk id) none notifiedCalls (some o) ∧
    o.WaitList = [⟨100, 9, true⟩] ∧ isBroken o.Flags = true ∧ o.FileObject = 1 ∧ o.completed = [] :=
  ⟨_, .cons (fun h => absurd h (by decide)) rfl (.cons rfl rfl (.single ⟨not_mem_nil, fun _ _ => nofun⟩ rfl)),
    rfl, by decide, rfl, rfl⟩

end FreeNT.FsRtl
