import FreeNT.FsRtl.Oplock

/-!
# The states of an oplock

An oplock is absent, shared, pending, exclusive or broken (`OplockInv`). The calls
that meet `OplockOk` keep it in one of these states and its mutex free. An
acknowledgement by the owner of an exclusive oplock that is not broken is what leads
out of them, and after a break that waits the mutex cannot be taken again
(`hangs_of_unlocked`).
-/

namespace FreeNT.FsRtl

open Bool

open OplockFlags List Option

variable {fileOf : Nat → Nat} {env : OplockEnv} {s s' s1 : Oplock} {st : OplockStatus}

def pendingFlags : OplockFlags := EXCLUSIVE_LOCK ||| PENDING_LOCK ||| FILTER_OPLOCK

def brokenFlags : List OplockFlags :=
  [BROKEN_TO_LEVEL_2, BROKEN_TO_NONE, BROKEN_TO_NONE_FROM_LEVEL_2, BROKEN_TO_CLOSE_PENDING]

/-- The values that the flags take. -/
def shapes : List OplockFlags :=
  [NO_OPLOCK, LEVEL_2_OPLOCK, pendingFlags] ++ [ExclusiveKind.level1, .batch, .filter].map ExclusiveKind.flags ++
    [ExclusiveKind.level1, .batch, .filter].flatMap fun k => brokenFlags.map (k.flags ||| ·)

/-- A property of some values of the flags, by evaluation. -/
lemma forall_flags {l : List OplockFlags} {P : OplockFlags → Prop} [DecidablePred P]
    (h : (l.all fun f => decide (P f)) = true) : ∀ f ∈ l, P f :=
      fun f hf => of_decide_eq_true (all_eq_true.mp h f hf)

variable (k : ExclusiveKind)

lemma exclusive_mem_shapes : k.flags ∈ shapes := by cases k <;> decide

/-- A break is in progress. -/
def isBroken (f : OplockFlags) : Bool := flagOn f BROKEN_ANY

/-- The test of the source for an oplock that is "still exclusive". -/
def isUnbroken (f : OplockFlags) : Bool := flagOn f EXCLUSIVE_LOCK && !flagOn f (BROKEN_ANY ||| PENDING_LOCK)

/-- The links of those of the IRPs that a loop picks can be read after they have been completed. -/
def IrpsKept (env : OplockEnv) (pick : Nat → Bool) (irps : List Nat) : Prop :=
  ∀ irp ∈ irps, pick irp → ∀ link, env.irpLink irp link = link

/-- The five states of an oplock. -/
inductive OplockInv (s : Oplock) : Prop
  | none (hf : s.Flags = NO_OPLOCK) (hs : s.SharedList = []) (hi : s.ExclusiveIrp = 0) (hfo : s.FileObject = 0)
  | level2 (hf : s.Flags = LEVEL_2_OPLOCK) (hs : s.SharedList ≠ []) (hn : s.SharedList.Nodup)
    (hi : s.ExclusiveIrp = 0) (hfo : s.FileObject = 0)
  | pending (hf : s.Flags = pendingFlags) (hs : s.SharedList = []) (hi : s.ExclusiveIrp = 0)
    (hfo : s.FileObject ≠ 0)
  | exclusive (k : ExclusiveKind) (hf : s.Flags = k.flags) (hs : s.SharedList = []) (hi : s.ExclusiveIrp ≠ 0)
    (hfo : s.FileObject ≠ 0)
  | broken (k : ExclusiveKind) (b : OplockFlags) (hb : b ∈ brokenFlags) (hf : s.Flags = k.flags ||| b)
    (hs : s.SharedList = []) (hi : s.ExclusiveIrp = 0)

lemma OplockInv.congr (h : OplockInv s) (hf : s'.Flags = s.Flags) (hs : s'.SharedList = s.SharedList)
    (hi : s'.ExclusiveIrp = s.ExclusiveIrp) (hfo : s'.FileObject = s.FileObject) : OplockInv s' := by
  cases h with
  | none h1 h2 h3 h4 => exact .none (hf.trans h1) (hs.trans h2) (hi.trans h3) (hfo.trans h4)
  | level2 h1 h2 h3 h4 h5 => exact .level2 (hf.trans h1) (hs ▸ h2) (hs ▸ h3) (hi.trans h4) (hfo.trans h5)
  | pending h1 h2 h3 h4 => exact .pending (hf.trans h1) (hs.trans h2) (hi.trans h3) (hfo ▸ h4)
  | exclusive k h1 h2 h3 h4 => exact .exclusive k (hf.trans h1) (hs.trans h2) (hi ▸ h3) (hfo ▸ h4)
  | broken k b hb h1 h2 h3 => exact .broken k b hb (hf.trans h1) (hs.trans h2) (hi.trans h3)

lemma completeWaits_fields {pc : WaitCtx → Bool} (h : completeWaits env s pc = some s') :
    s'.Flags = s.Flags ∧ s'.SharedList = s.SharedList ∧ s'.ExclusiveIrp = s.ExclusiveIrp ∧
      s'.FileObject = s.FileObject := by
  obtain ⟨p, -, rfl⟩ := map_eq_some_iff.mp h
  exact ⟨rfl, rfl, rfl, rfl⟩

lemma OplockInv.completeWaits {p : WaitCtx → Bool} (h : OplockInv s)
    (hc : completeWaits env s p = some s') : OplockInv s' := by
  obtain ⟨h1, h2, h3, h4⟩ := completeWaits_fields hc
  exact h.congr h1 h2 h3 h4

variable {c : WaitCtx}

lemma OplockInv.waitOnIrp (h : OplockInv s) (hc : waitOnIrp env s c = some s') : OplockInv s' := by
  have hin : OplockInv { s with WaitList := c :: s.WaitList } := h.congr rfl rfl rfl rfl
  unfold FsRtl.waitOnIrp at hc
  split at hc
  · exact hin.completeWaits hc
  · exact some.inj hc ▸ hin

variable {x : Bool} {w : Option WaitCtx}

lemma OplockInv.waitIfRequired (h : OplockInv s)
    (hc : waitIfRequired env s c x = some (s', st, w)) : OplockInv s' := by
  unfold FsRtl.waitIfRequired at hc
  split at hc
  · obtain ⟨s1, hw, heq⟩ := map_eq_some_iff.mp hc
    cases heq
    exact h.waitOnIrp hw
  · cases hc
    exact h

variable {fo : Nat}

lemma OplockInv.breakWaits (h : OplockInv s) (hc : breakWaits env s fo c x = some (s', st, w)) : OplockInv s' := by
  unfold FsRtl.breakWaits at hc
  split at hc
  · cases hc
    exact h
  · exact h.waitIfRequired hc

/-! The tests of the routines in each state, by evaluation. -/

lemma flags_exclusive : (k.flags ≠ NO_OPLOCK ∧ k.flags ≠ LEVEL_2_OPLOCK ∧ flagOn k.flags EXCLUSIVE_LOCK ∧
      flagOn k.flags (BROKEN_ANY ||| PENDING_LOCK) = false ∧
      flagOn k.flags (BROKEN_ANY ||| PENDING_LOCK ||| LEVEL_2_OPLOCK) = false ∧
      flagOn k.flags (LEVEL_2_OPLOCK ||| PENDING_LOCK ||| NO_OPLOCK) = false ∧
      flagOn k.flags (LEVEL_2_OPLOCK ||| NO_OPLOCK) = false) ∧
    flagOn k.flags LEVEL_2_OPLOCK = false ∧ isBroken k.flags = false ∧ flagOn k.flags BROKEN_TO_LEVEL_2 = false ∧
    flagOn k.flags (BROKEN_TO_LEVEL_2 ||| BROKEN_TO_NONE ||| BROKEN_TO_NONE_FROM_LEVEL_2) = false := by
  cases k <;> decide

lemma flags_broken : ∀ b ∈ brokenFlags,
    (k.flags ||| b ≠ NO_OPLOCK ∧ k.flags ||| b ≠ LEVEL_2_OPLOCK ∧ flagOn (k.flags ||| b) EXCLUSIVE_LOCK = true ∧
      flagOn (k.flags ||| b) (BROKEN_ANY ||| PENDING_LOCK) = true ∧
      flagOn (k.flags ||| b) (BROKEN_ANY ||| PENDING_LOCK ||| LEVEL_2_OPLOCK) = true ∧
      flagOn (k.flags ||| b) (LEVEL_2_OPLOCK ||| PENDING_LOCK ||| NO_OPLOCK) = false ∧
      flagOn (k.flags ||| b) (LEVEL_2_OPLOCK ||| NO_OPLOCK) = false) ∧
    flagOn (k.flags ||| b) LEVEL_2_OPLOCK = false ∧ isBroken (k.flags ||| b) = true ∧
    flagOn (k.flags ||| b) PENDING_LOCK = false := by
  cases k <;> exact forall_flags rfl

/-- A break to level 2 that is broken on is a break to none from level 2. -/
lemma flags_broken_on : ∀ b ∈ brokenFlags, flagOn (k.flags ||| b) BROKEN_TO_LEVEL_2 = true →
    ((k.flags ||| b) &&& ~~~BROKEN_TO_LEVEL_2) ||| BROKEN_TO_NONE_FROM_LEVEL_2 =
      k.flags ||| BROKEN_TO_NONE_FROM_LEVEL_2 := by
  cases k <;> exact forall_flags rfl

lemma flags_close_pending : ∀ b ∈ brokenFlags,
    ((k.flags ||| b) &&& ~~~BROKEN_ANY) ||| BROKEN_TO_CLOSE_PENDING = k.flags ||| BROKEN_TO_CLOSE_PENDING := by
  cases k <;> exact forall_flags rfl

lemma inv_dropExclusive (hs : s.SharedList = []) (hc : dropExclusive env s = some s') : OplockInv s' := by
  unfold dropExclusive at hc
  split at hc
  · cases hc
  have hn : OplockInv { s with ExclusiveIrp := 0, FileObject := 0, Flags := NO_OPLOCK } := .none rfl hs rfl rfl
  exact hn.completeWaits hc

lemma inv_shared {t : Oplock} {i : List Nat} (hf : t.Flags = if i = [] then NO_OPLOCK else LEVEL_2_OPLOCK)
    (hs : t.SharedList = i) (hn : i.Nodup) (hi : t.ExclusiveIrp = 0) (hfo : t.FileObject = 0) : OplockInv t := by
  by_cases hnl : i = []
  · exact .none (hf.trans (if_pos hnl)) (hs.trans hnl) hi hfo
  · exact .level2 (hf.trans (if_neg hnl)) (hs ▸ hnl) (hs ▸ hn) hi hfo

lemma cancelII_fields (hf : s.Flags = LEVEL_2_OPLOCK) (hs : s.SharedList ≠ []) (hn : s.SharedList.Nodup)
    (hk : IrpsKept env env.cancel s.SharedList)
    (hc : cancelOplockIIIrp env s = some s') :
    s'.SharedList.Nodup ∧ (s'.Flags = if s'.SharedList = [] then NO_OPLOCK else LEVEL_2_OPLOCK) ∧
      s'.ExclusiveIrp = s.ExclusiveIrp ∧ s'.FileObject = s.FileObject := by
  unfold cancelOplockIIIrp at hc
  rw [sweep_of_kept hn hk, map_some, some.injEq] at hc
  subst hc
  refine ⟨hn.filter _, ?_, rfl, rfl⟩
  by_cases hr : s.SharedList.filter (fun irp => !env.cancel irp) = []
  · refine (if_pos ⟨fun hno => ?_, hr⟩).trans (if_pos hr).symm
    -- every IRP is taken or stays
    obtain ⟨irp, hir⟩ := exists_mem_of_ne_nil _ hs
    have h1 := filter_eq_nil_iff.mp hr irp hir
    have h2 := filter_eq_nil_iff.mp hno irp hir
    rw [not_eq_true'] at h1
    exact h1 (not_eq_true _ ▸ h2)
  · exact ((if_neg fun hand => hr hand.2).trans hf).trans (if_neg hr).symm

section Calls

variable (h : OplockInv s)
include h

lemma OplockInv.cancelExclusiveIrp (hc : cancelExclusiveIrp env s = some s') : OplockInv s' := by
  unfold FsRtl.cancelExclusiveIrp at hc
  split at hc
  case isTrue hcn =>
    cases h with
    | exclusive k hf hs => exact inv_dropExclusive hs hc
    | none _ _ hi => exact absurd hi hcn.1
    | level2 _ _ _ hi => exact absurd hi hcn.1
    | pending _ _ hi => exact absurd hi hcn.1
    | broken _ _ _ _ _ hi => exact absurd hi hcn.1
  case isFalse => exact some.inj hc ▸ h

lemma OplockInv.breakToNone (hk : IrpsKept env (fun _ => true) s.SharedList)
    (hc : oplockBreakToNone env s fo c x = some (s', st, w)) : OplockInv s' := by
  unfold oplockBreakToNone at hc
  cases h with
  | none hf hs hi hfo =>
    rw [if_pos hf] at hc
    cases hc
    exact .none hf hs hi hfo
  | level2 hf hs hn hi hfo =>
    rw [hf, if_neg (by decide), if_neg (by decide), if_pos rfl, sweep_of_kept hn hk] at hc
    simp only [Bool.not_true, filter_false, map_some, some.injEq, Prod.mk.injEq] at hc
    obtain ⟨rfl, -⟩ := hc
    exact .none rfl rfl hi hfo
  | pending hf hs hi hfo =>
    rw [hf, if_neg (by decide), if_neg (by decide), if_neg (by decide), if_neg (by decide),
      if_pos (by decide)] at hc
    cases hc
    exact .none rfl hs hi rfl
  | exclusive k hf hs hi hfo =>
    obtain ⟨⟨h1, -, -, -, h2, -⟩, -⟩ := flags_exclusive k
    rw [hf, if_neg h1, h2, Bool.not_false, if_pos rfl, if_neg hi] at hc
    split at hc
    · obtain ⟨s1, hd, heq⟩ := map_eq_some_iff.mp hc
      cases heq
      exact inv_dropExclusive hs hd
    · refine OplockInv.breakWaits ?_ hc
      exact .broken k BROKEN_TO_NONE (by decide) rfl hs rfl
  | broken k b hb hf hs hi =>
    obtain ⟨⟨h1, h2, -, -, h3, -⟩, -, -, h4⟩ := flags_broken k b hb
    rw [hf, if_neg h1, h3, Bool.not_true, if_neg Bool.false_ne_true, if_neg h2] at hc
    split at hc
    case isTrue hb2 =>
      rw [flags_broken_on k b hb hb2] at hc
      refine OplockInv.breakWaits ?_ hc
      exact .broken k BROKEN_TO_NONE_FROM_LEVEL_2 (by decide) rfl hs hi
    case isFalse =>
      rw [h4, if_neg Bool.false_ne_true] at hc
      exact OplockInv.breakWaits (.broken k b hb hf hs hi) hc

lemma OplockInv.breakToII (hc : oplockBreakToII env s fo c x = some (s', st, w)) : OplockInv s' := by
  unfold oplockBreakToII at hc
  split at hc
  case isTrue =>
    cases hc
    exact h
  case isFalse hne =>
    cases h with
    | none hf => rw [hf] at hne; exact absurd rfl hne
    | level2 hf => rw [hf] at hne; exact absurd rfl hne
    | pending hf hs hi hfo =>
      rw [hf, if_pos (by decide), if_pos (by decide)] at hc
      cases hc
      exact .none rfl hs hi rfl
    | exclusive k hf hs hi hfo =>
      obtain ⟨⟨-, -, -, h1, -⟩, -⟩ := flags_exclusive k
      rw [hf, h1, if_neg Bool.false_ne_true, if_neg hi] at hc
      split at hc
      · obtain ⟨s1, hd, heq⟩ := map_eq_some_iff.mp hc
        cases heq
        exact inv_dropExclusive hs hd
      refine OplockInv.waitIfRequired ?_ hc
      refine .broken k _ ?_ rfl hs rfl
      split <;> decide
    | broken k b hb hf hs hi =>
      obtain ⟨⟨-, -, -, h1, -⟩, -, -, h2⟩ := flags_broken k b hb
      rw [hf, h1, if_pos rfl, h2, if_neg Bool.false_ne_true] at hc
      exact OplockInv.waitIfRequired (.broken k b hb hf hs hi) hc

lemma OplockInv.breakNotify (hc : oplockBreakNotify env s c = some (s', st)) : OplockInv s' := by
  unfold oplockBreakNotify at hc
  split at hc
  case isTrue =>
    cases hc
    exact h
  case isFalse hbr =>
    cases h with
    | none hf => rw [hf] at hbr; exact absurd rfl hbr
    | level2 hf => rw [hf] at hbr; exact absurd rfl hbr
    | pending hf => rw [hf] at hbr; exact absurd rfl hbr
    | exclusive k hf =>
      obtain ⟨-, -, -, h1, -⟩ := flags_exclusive k
      rw [hf, h1] at hbr
      exact absurd rfl hbr
    | broken k b hb hf hs hi =>
      obtain ⟨-, -, -, h1⟩ := flags_broken k b hb
      rw [hf, h1, if_neg Bool.false_ne_true] at hc
      obtain ⟨s1, hw, heq⟩ := map_eq_some_iff.mp hc
      cases heq
      exact OplockInv.waitOnIrp (.broken k b hb hf hs hi) hw

lemma OplockInv.cancelII (hk : IrpsKept env env.cancel s.SharedList)
    (hc : cancelOplockIIIrp env s = some s') : OplockInv s' := by
  by_cases hs : s.SharedList = []
  · unfold cancelOplockIIIrp at hc
    rw [hs] at hc
    obtain rfl : { s with Flags := s.Flags, SharedList := [] } = s' := by simpa [sweep, sweepLoop] using hc
    exact h.congr rfl hs.symm rfl rfl
  cases h with
  | level2 hf _ hn hi hfo =>
    obtain ⟨hn', hf', hi', hfo'⟩ := cancelII_fields hf hs hn hk hc
    exact inv_shared hf' rfl hn' (hi'.trans hi) (hfo'.trans hfo)
  | none _ hs' => exact absurd hs' hs
  | pending _ hs' => exact absurd hs' hs
  | exclusive _ _ hs' => exact absurd hs' hs
  | broken _ _ _ _ hs' => exact absurd hs' hs

variable {irp : Nat}

lemma OplockInv.requestII (hir : irp ∉ s.SharedList) (hk : IrpsKept env env.cancel (s.SharedList ++ [irp]))
    (hc : requestOplockII env s irp = some (s', st)) : OplockInv s' := by
  have hn : ∀ hs : s.SharedList.Nodup, (s.SharedList ++ [irp]).Nodup := fun hs =>
    nodup_append.mpr ⟨hs, nodup_singleton _, fun a ha b hb => by
      rw [mem_singleton.mp hb]; exact ne_of_mem_of_not_mem ha hir⟩
  have hne : s.SharedList ++ [irp] ≠ [] := by simp
  have hg : s.SharedList.Nodup → s.ExclusiveIrp = 0 → s.FileObject = 0 →
      flagOn s.Flags (LEVEL_2_OPLOCK ||| NO_OPLOCK) = true → OplockInv s' := by
    intro hs hi hfo hfr
    unfold requestOplockII at hc
    rw [if_pos hfr] at hc
    split at hc
    · obtain ⟨s1, hcn, heq⟩ := map_eq_some_iff.mp hc
      cases heq
      obtain ⟨hn', hf', hi', hfo'⟩ := cancelII_fields rfl hne (hn hs) hk hcn
      exact inv_shared hf' rfl hn' (hi'.trans hi) (hfo'.trans hfo)
    · cases hc
      exact .level2 rfl hne (hn hs) hi hfo
  have hr : flagOn s.Flags (LEVEL_2_OPLOCK ||| NO_OPLOCK) = false → OplockInv s' := by
    intro hbs
    unfold requestOplockII at hc
    rw [hbs, if_neg Bool.false_ne_true] at hc
    cases hc
    exact h
  cases h with
  | none hf hs hi hfo => exact hg (hs ▸ nodup_nil) hi hfo (by rw [hf]; decide)
  | level2 hf _ hs hi hfo => exact hg hs hi hfo (by rw [hf]; decide)
  | pending hf => exact hr (by rw [hf]; decide)
  | exclusive k hf => exact hr (by rw [hf]; exact (flags_exclusive k).1.2.2.2.2.2.2)
  | broken k b hb hf => exact hr (by rw [hf]; exact (flags_broken k b hb).1.2.2.2.2.2.2)

lemma OplockInv.requestExclusive {k : ExclusiveKind} (hfo : fo ≠ 0) (hir : irp ≠ 0)
    (ho : s.Flags = LEVEL_2_OPLOCK → s.SharedList.length = 1)
    (hc : requestExclusiveOplock env s fo irp k.flags = some (s', st)) : OplockInv s' := by
  have hg : ∀ t : Oplock, t.SharedList = [] → (if env.cancel irp then
        (FsRtl.cancelExclusiveIrp env { t with ExclusiveIrp := irp, FileObject := fo, Flags := k.flags }).map
          (·, OplockStatus.cancelled)
      else some ({ t with ExclusiveIrp := irp, FileObject := fo, Flags := k.flags }, OplockStatus.success)) =
        some (s', st) → OplockInv s' := by
    intro t ht hc
    have hn : OplockInv { t with ExclusiveIrp := irp, FileObject := fo, Flags := k.flags } :=
      .exclusive k rfl ht hir hfo
    split at hc
    · obtain ⟨s1, hcn, heq⟩ := map_eq_some_iff.mp hc
      cases heq
      exact hn.cancelExclusiveIrp hcn
    · cases hc
      exact hn
  have hr : flagOn s.Flags (LEVEL_2_OPLOCK ||| PENDING_LOCK ||| NO_OPLOCK) = false → OplockInv s' := by
    intro hbs
    unfold requestExclusiveOplock at hc
    rw [hbs, if_neg Bool.false_ne_true] at hc
    cases hc
    exact h
  unfold requestExclusiveOplock removeSharedIrp at hc
  cases h with
  | none hf hs =>
    rw [hf, if_pos (by decide), if_neg (by decide)] at hc
    exact hg s hs hc
  | pending hf hs =>
    rw [hf, if_pos (by decide), if_neg (by decide)] at hc
    exact hg s hs hc
  | level2 hf =>
    obtain ⟨i, hi⟩ := length_eq_one_iff.mp (ho hf)
    rw [hf, if_pos (by decide), if_pos rfl, hi] at hc
    exact hg { s with SharedList := [] } rfl hc
  | exclusive k' hf => exact hr (by rw [hf]; exact (flags_exclusive k').1.2.2.2.2.2.1)
  | broken k' b hb hf => exact hr (by rw [hf]; exact (flags_broken k' b hb).1.2.2.2.2.2.1)

lemma OplockInv.requestPending {fo : Nat} (hfo : fo ≠ 0)
    (hfr : flagOn s.Flags (NO_OPLOCK ||| PENDING_LOCK) = true) : OplockInv (requestPendingOplock s fo).1 := by
  cases h with
  | none hf hs => exact .pending rfl hs rfl hfo
  | pending hf hs => exact .pending rfl hs rfl hfo
  | level2 hf => rw [hf] at hfr; exact absurd hfr (by decide)
  | exclusive k hf =>
    rw [hf] at hfr
    cases k <;> exact absurd hfr (by decide)
  | broken k b hb hf =>
    rw [hf] at hfr
    have hbs : ∀ b ∈ brokenFlags, flagOn (k.flags ||| b) (NO_OPLOCK ||| PENDING_LOCK) = false := by
      cases k <;> exact forall_flags rfl
    rw [hbs b hb] at hfr
    cases hfr

lemma OplockInv.cleanup (hk : IrpsKept env (fun irp => fileOf irp == fo) s.SharedList)
    (hc : oplockCleanup env s fileOf fo = some s') : OplockInv s' := by
  have hg : ∀ t : Oplock, completeWaiters env t = some s' → t.Flags = NO_OPLOCK → t.SharedList = [] →
      t.ExclusiveIrp = 0 → t.FileObject = 0 → OplockInv s' := by
    intro t hc hf hs hi hfo
    exact OplockInv.completeWaits (.none hf hs hi hfo) hc
  unfold oplockCleanup at hc
  cases h with
  | none hf hs hi hfo =>
    rw [if_pos hf] at hc
    exact some.inj hc ▸ .none hf hs hi hfo
  | level2 hf hs hn hi hfo =>
    rw [hf, if_neg (by decide), if_pos rfl, sweep_of_kept hn hk, map_some, some.injEq] at hc
    subst hc
    exact inv_shared rfl rfl (hn.filter _) hi hfo
  | pending hf hs hi hfo =>
    rw [hf, if_neg (by decide), if_neg (by decide)] at hc
    split at hc
    · rw [if_neg (by decide)] at hc
      exact hg _ hc rfl hs hi rfl
    · exact some.inj hc ▸ .pending hf hs hi hfo
  | exclusive k hf hs hi hfo =>
    obtain ⟨⟨h1, h2, -, h3, -⟩, -⟩ := flags_exclusive k
    rw [hf, if_neg h1, if_neg h2, h3, Bool.not_false, if_pos rfl, if_neg hi] at hc
    split at hc
    · exact hg _ hc rfl hs rfl rfl
    · exact some.inj hc ▸ .exclusive k hf hs hi hfo
  | broken k b hb hf hs hi =>
    obtain ⟨⟨h1, h2, -, h3, -⟩, -⟩ := flags_broken k b hb
    rw [hf, if_neg h1, if_neg h2, h3, Bool.not_true, if_neg Bool.false_ne_true] at hc
    split at hc
    · exact hg _ hc rfl hs hi rfl
    · exact some.inj hc ▸ .broken k b hb hf hs hi

lemma OplockInv.closePending (hc : opBatchBreakClosePending env s fo = some (s', st)) : OplockInv s' := by
  unfold opBatchBreakClosePending at hc
  split at hc
  case isTrue hm =>
    cases h with
    | none hf => rw [hf] at hm; exact absurd hm.2 (by decide)
    | level2 hf => rw [hf] at hm; exact absurd hm.2 (by decide)
    | pending hf => rw [hf] at hm; exact absurd hm.2 (by decide)
    | exclusive k hf =>
      obtain ⟨-, -, -, -, h1⟩ := flags_exclusive k
      rw [hf, h1] at hm
      exact absurd hm.2 false_ne_true
    | broken k b hb hf hs hi =>
      split at hc
      · obtain ⟨s1, hw, heq⟩ := map_eq_some_iff.mp hc
        cases heq
        have hn : OplockInv { s with Flags := NO_OPLOCK, FileObject := 0 } := .none rfl hs hi rfl
        exact hn.completeWaits hw
      cases hc
      refine .broken k BROKEN_TO_CLOSE_PENDING (by decide) ?_ hs hi
      rw [← flags_close_pending k b hb, ← hf]
  case isFalse =>
    cases hc
    exact h

lemma OplockInv.acknowledge (hbr : s.FileObject = fo → isBroken s.Flags)
    (hk : IrpsKept env env.cancel (s.SharedList ++ [irp]))
    (hc : acknowledgeOplockBreak env s fo irp x = some (s', st)) : OplockInv s' := by
  unfold acknowledgeOplockBreak at hc
  split at hc
  case isTrue =>
    cases hc
    exact h
  case isFalse hm =>
    have hbr := hbr (not_not.mp hm)
    obtain ⟨s1, hfl, hc⟩ := bind_eq_some_iff.mp hc
    obtain ⟨s2, hw, hc⟩ := bind_eq_some_iff.mp hc
    obtain ⟨h1, h2, h3, -⟩ := completeWaits_fields hw
    cases hc
    -- the waiters leave the state as it is, so the flags decide
    suffices hnw : OplockInv { s1 with FileObject := 0 } from hnw.congr h1 h2 h3 rfl
    cases h with
    | none hf => rw [hf] at hbr; exact absurd hbr (by decide)
    | level2 hf => rw [hf] at hbr; exact absurd hbr (by decide)
    | pending hf => rw [hf] at hbr; exact absurd hbr (by decide)
    | exclusive k hf =>
      rw [hf, (flags_exclusive k).2.2.1] at hbr
      exact absurd hbr false_ne_true
    | broken k b hb hf hs hi =>
      unfold acknowledgeFlags at hfl
      split at hfl
      · rw [hs, nil_append] at hk hfl
        split at hfl
        · obtain ⟨hn', hf', hi', -⟩ := cancelII_fields rfl (cons_ne_nil _ _) (nodup_singleton irp) hk hfl
          exact inv_shared hf' rfl hn' (hi'.trans hi) rfl
        · cases hfl
          exact .level2 rfl (cons_ne_nil _ _) (nodup_singleton irp) hi rfl
      split at hfl
      · cases hfl
        exact .none rfl hs hi rfl
      split at hfl
      · cases hfl
        exact .none rfl hs hi rfl
      · cases hfl
        exact .broken k b hb hf hs hi

end Calls

/-! ## Runs -/

/-- The state of the flags in which a break of another file object waits. -/
def blocks (env : OplockEnv) (s : Oplock) : Bool :=
  isBroken s.Flags || isUnbroken s.Flags && !env.cancel s.ExclusiveIrp

/-- A break finds an exclusive oplock of another file object, and neither is its IRP
cancelled nor did the create ask not to wait. -/
def mustWait (env : OplockEnv) (s : Oplock) (fileObject : Nat) (completeIfOplocked : Bool) : Bool :=
  !completeIfOplocked && s.FileObject != fileObject && blocks env s

/-- The condition on a call. File objects and IRPs are there, and an IRP is given
in once. The calls that complete shared IRPs can go on from them. An exclusive
request that finds shared IRPs finds one, a pending one finds no oplock or a pending
one, the owner acknowledges a break only while one is in progress, and no break has to
wait. -/
def CallFine (fileOf : Nat → Nat) (env : OplockEnv) (s : Oplock) : OplockCall → Prop
  | .acknowledge fileObject irp _ => fileObject ≠ 0 ∧ IrpsKept env env.cancel (s.SharedList ++ [irp]) ∧
    (s.FileObject = fileObject → isBroken s.Flags = true)
  | .requestExclusive fileObject irp _ => fileObject ≠ 0 ∧ irp ≠ 0 ∧
    (s.Flags = LEVEL_2_OPLOCK → s.SharedList.length = 1)
  | .requestPending fileObject => fileObject ≠ 0 ∧ flagOn s.Flags (NO_OPLOCK ||| PENDING_LOCK) = true
  | .requestII irp => irp ∉ s.SharedList ∧ IrpsKept env env.cancel (s.SharedList ++ [irp])
  | .cleanup fileObject => IrpsKept env (fun irp => fileOf irp == fileObject) s.SharedList
  | .cancelII => IrpsKept env env.cancel s.SharedList
  | .breakToNone fileObject _ completeIfOplocked =>
    IrpsKept env (fun _ => true) s.SharedList ∧ mustWait env s fileObject completeIfOplocked = false
  | .breakToII fileObject _ completeIfOplocked => mustWait env s fileObject completeIfOplocked = false
  | _ => True

def OplockOk (fileOf : Nat → Nat) (o : Option InternalOplock) (call : OplockEnv × OplockCall) : Prop :=
  CallFine fileOf call.1 (o.getD fsRtlAllocateOplock).toOplock call.2

/-! ### The mutex -/

lemma unbroken_of_exclusive : ∀ f ∈ shapes, f ≠ NO_OPLOCK →
    flagOn f (BROKEN_ANY ||| PENDING_LOCK ||| LEVEL_2_OPLOCK) = false → isUnbroken f = true := forall_flags rfl

lemma broken_of_level2 : ∀ f ∈ shapes, flagOn f BROKEN_TO_LEVEL_2 → isBroken f = true := forall_flags rfl

lemma broken_of_not : ∀ f ∈ shapes, flagOn f (BROKEN_ANY ||| PENDING_LOCK ||| LEVEL_2_OPLOCK) = true →
    f ≠ LEVEL_2_OPLOCK → flagOn f PENDING_LOCK = false → isBroken f := forall_flags rfl

lemma broken_of_not_pending : ∀ f ∈ shapes, flagOn f (BROKEN_ANY ||| PENDING_LOCK) = true →
    flagOn f PENDING_LOCK = false → isBroken f := forall_flags rfl

lemma unbroken_of_exclusive_lock : ∀ f ∈ shapes, flagOn f EXCLUSIVE_LOCK →
    flagOn f (BROKEN_ANY ||| PENDING_LOCK) = false → isUnbroken f = true := forall_flags rfl

lemma waitIfRequired_none {t : Oplock} (hm : mustWait env s fo x = false) (hb : blocks env s = true)
    (hne : s.FileObject ≠ fo) (hc : waitIfRequired env t c x = some (s', st, w)) : w = none := by
  unfold waitIfRequired at hc
  split at hc
  case isTrue hx =>
    rw [mustWait, hx, hb, Bool.and_true, Bool.true_and, bne_eq_false_iff_eq] at hm
    exact absurd hm hne
  case isFalse =>
    cases hc
    rfl

lemma breakWaits_none {t : Oplock} (hm : mustWait env s fo x = false) (hb : blocks env s = true)
    (hc : breakWaits env t fo c x = some (s', st, w)) (hfo : t.FileObject = s.FileObject) : w = none := by
  unfold breakWaits at hc
  split at hc
  · cases hc
    rfl
  case isFalse hne => exact waitIfRequired_none hm hb (hfo ▸ hne) hc

/-- A break that does not have to wait does not, and leaves the waiters alone. -/
lemma breakToNone_none (hs : s.Flags ∈ shapes) (hm : mustWait env s fo x = false)
    (hc : oplockBreakToNone env s fo c x = some (s', st, w)) : w = none := by
  unfold oplockBreakToNone at hc
  split at hc
  · cases hc; rfl
  rename_i hno
  split at hc
  case isTrue hun =>
    have hun := unbroken_of_exclusive _ hs hno (by simpa using hun)
    split at hc
    · cases hc
    split at hc
    · obtain ⟨_, -, heq⟩ := map_eq_some_iff.mp hc
      cases heq; rfl
    case isFalse hcn => exact breakWaits_none hm (by simp [blocks, hun, hcn]) hc rfl
  case isFalse hbr =>
    split at hc
    · obtain ⟨_, -, heq⟩ := map_eq_some_iff.mp hc
      cases heq; rfl
    rename_i h2
    split at hc
    case isTrue hb2 => exact breakWaits_none hm (by simp [blocks, broken_of_level2 _ hs hb2]) hc rfl
    split at hc
    · cases hc; rfl
    rename_i hp
    have hb := broken_of_not _ hs (by simpa using hbr) h2 (by simpa using hp)
    exact breakWaits_none hm (by simp [blocks, hb]) hc rfl

lemma breakToII_none (hs : s.Flags ∈ shapes) (hm : mustWait env s fo x = false)
    (hc : oplockBreakToII env s fo c x = some (s', st, w)) : w = none := by
  unfold oplockBreakToII at hc
  split at hc
  · cases hc; rfl
  rename_i ho
  have he : flagOn s.Flags EXCLUSIVE_LOCK := by
    by_contra hx
    exact ho (by simp [hx])
  have hne : s.FileObject ≠ fo := fun hx => ho (by simp [hx])
  split at hc
  case isTrue hb =>
    split at hc
    · cases hc; rfl
    rename_i hp
    have hbr := broken_of_not_pending _ hs hb (by simpa using hp)
    exact waitIfRequired_none hm (by simp [blocks, hbr]) hne hc
  case isFalse hb =>
    have hun := unbroken_of_exclusive_lock _ hs he (by simpa using hb)
    split at hc
    · cases hc
    split at hc
    · obtain ⟨_, -, heq⟩ := map_eq_some_iff.mp hc
      cases heq; rfl
    case isFalse hcn => exact waitIfRequired_none hm (by simp [blocks, hun, hcn]) hne hc

/-- The mutex is free, and no thread of a break sleeps. -/
structure Unlocked (o : InternalOplock) : Prop where
  free : o.IntLock = 1
  awake : o.asleep = []

variable {o o' : InternalOplock}

/-- A call that finds the mutex free is its routine. -/
lemma Unlocked.underMutex (h : Unlocked o) {routine : Oplock → Option (Oplock × OplockStatus)} :
    underMutex o routine = (routine o.toOplock).map fun r => (⟨r.1, o.IntLock, o.asleep⟩, r.2) := by
  rw [FsRtl.underMutex, exAcquireFastMutex, if_pos h.free, do_some]
  cases routine o.toOplock <;> simp [exReleaseFastMutex, h.free]

lemma Unlocked.breakUnderMutex (h : Unlocked o) {routine : Oplock → Option BreakResult}
    (hn : ∀ {s st w}, routine o.toOplock = some (s, st, w) → w = none) :
    breakUnderMutex o routine = (routine o.toOplock).map fun r => (⟨r.1, o.IntLock, o.asleep⟩, r.2.1) := by
  rw [FsRtl.breakUnderMutex, exAcquireFastMutex, if_pos h.free, do_some]
  cases hr : routine o.toOplock with
  | none => rfl
  | some r =>
    obtain ⟨s, st, w⟩ := r
    rw [do_some, hn hr]
    simp [exReleaseFastMutex, h.free]

/-- What a call does to the state that the mutex protects. -/
def oplockRoutine (fileOf : Nat → Nat) (env : OplockEnv) (s : Oplock) : OplockCall → Option (Oplock × OplockStatus)
  | .breakNotify c => oplockBreakNotify env s c
  | .acknowledge fileObject irp switchToLevel2 => acknowledgeOplockBreak env s fileObject irp switchToLevel2
  | .closePending fileObject => opBatchBreakClosePending env s fileObject
  | .requestExclusive fileObject irp kind => requestExclusiveOplock env s fileObject irp kind.flags
  | .requestPending fileObject => some (requestPendingOplock s fileObject)
  | .requestII irp => requestOplockII env s irp
  | .cleanup fileObject => (oplockCleanup env s fileOf fileObject).map (·, .success)
  | .breakToNone fileObject c completeIfOplocked =>
    (oplockBreakToNone env s fileObject c completeIfOplocked).map fun r => (r.1, r.2.1)
  | .breakToII fileObject c completeIfOplocked =>
    (oplockBreakToII env s fileObject c completeIfOplocked).map fun r => (r.1, r.2.1)
  | .cancelExclusive => (cancelExclusiveIrp env s).map (·, .success)
  | .cancelII => (cancelOplockIIIrp env s).map (·, .success)
  | .cancelWait => (cancelWaitIrp env s).map (·, .success)
  | .uninitializeOplock => (uninitializeOplock env s).map (·, .success)
  | .wake _ => some (s, .success)

/-- A break does not have to wait. -/
def NoWait (env : OplockEnv) (s : Oplock) : OplockCall → Prop
  | .breakToNone fileObject _ completeIfOplocked | .breakToII fileObject _ completeIfOplocked =>
    mustWait env s fileObject completeIfOplocked = false
  | _ => True

/-- Unless a break has to wait, a call on an oplock whose mutex is free is its routine. -/
lemma Unlocked.oplockCall (h : Unlocked o) {call : OplockCall} (hs : o.Flags ∈ shapes)
    (hn : NoWait env o.toOplock call) : oplockCall fileOf env o call =
      (oplockRoutine fileOf env o.toOplock call).map fun r => (⟨r.1, o.IntLock, o.asleep⟩, r.2) := by
  cases call with
  | breakToNone fo c x =>
    rw [oplockRoutine, Option.map_map, FsRtl.oplockCall, fsRtlOplockBreakToNone, h.breakUnderMutex]
    · rfl
    · exact fun hc => breakToNone_none hs hn hc
  | breakToII fo c x =>
    rw [oplockRoutine, Option.map_map, FsRtl.oplockCall, fsRtlOplockBreakToII, h.breakUnderMutex]
    · rfl
    · exact fun hc => breakToII_none hs hn hc
  | wake c =>
    have hw : FsRtl.wake o c = o := if_neg (by simp [h.awake])
    rw [FsRtl.oplockCall, hw]
    rfl
  | _ =>
    simp only [FsRtl.oplockCall, oplockRoutine, fsRtlCancelWaitIrp, fsRtlOplockBreakNotify, fsRtlCancelOplockIIIrp,
      fsRtlAcknowledgeOplockBreak, fsRtlOpBatchBreakClosePending, fsRtlCancelExclusiveIrp,
        fsRtlRequestPendingOplock,
      fsRtlRequestExclusiveOplock, fsRtlRequestOplockII, fsRtlOplockCleanup, fsRtlUninitializeOplock, h.underMutex]

lemma waitIfRequired_waits (hc : env.cancel c.Irp = false) :
    waitIfRequired env s c false = some ({ s with WaitList := c :: s.WaitList }, .success, some c) := by
  simp [waitIfRequired, waitOnIrp, hc]

/-- A break that has to wait does. -/
lemma break_waits_of_inv (h : OplockInv s) (hm : mustWait env s fo false = true) (hc : env.cancel c.Irp = false) :
    (∃ s', oplockBreakToNone env s fo c false = some (s', .success, some c)) ∧
      ∃ s', oplockBreakToII env s fo c false = some (s', .success, some c) := by
  simp only [mustWait, blocks, Bool.not_false, Bool.true_and, Bool.and_eq_true, bne_iff_ne] at hm
  obtain ⟨hfo, hm⟩ := hm
  have hb : ∀ t : Oplock, t.FileObject = s.FileObject →
      breakWaits env t fo c false = waitIfRequired env t c false := fun t ht => if_neg (ht ▸ hfo)
  unfold oplockBreakToNone oplockBreakToII
  cases h with
  | none hf => rw [hf] at hm; exact absurd hm (by simp +decide)
  | level2 hf => rw [hf] at hm; exact absurd hm (by simp +decide)
  | pending hf => rw [hf] at hm; exact absurd hm (by simp +decide)
  | exclusive k hf hs hi =>
    obtain ⟨⟨h1, -, h2, h3, h4, -⟩, -, h5, -⟩ := flags_exclusive k
    have hcn : isUnbroken k.flags = true ∧ env.cancel s.ExclusiveIrp = false := by simpa [hf, h5] using hm
    simp [hf, h1, h2, h3, h4, hi, hcn.2, hfo, hb, waitIfRequired_waits hc]
  | broken k b hbr hf hs hi =>
    obtain ⟨⟨h1, h2, h3, h4, h5, -⟩, -, -, h6⟩ := flags_broken k b hbr
    rw [hf, if_neg h1, h5, if_neg (by decide), if_neg h2, h3, h4, h6]
    simp only [Bool.not_true, Bool.false_or, beq_iff_eq, hfo, if_false, if_true, Bool.false_eq_true]
    constructor
    · split <;> exact ⟨_, (if_neg hfo).trans (waitIfRequired_waits hc)⟩
    · exact ⟨_, waitIfRequired_waits hc⟩

/-- After a break that waits, with a completion routine, no call takes the mutex. -/
lemma hangs_of_unlocked (h : Unlocked o) {routine : Oplock → Option BreakResult}
    (hr : routine o.toOplock = some (s', st, some c)) (hc : c.CompletionRoutine = true) :
    ∃ o', breakUnderMutex o routine = some (o', st) ∧
      ∀ env call, (∀ c, call ≠ .wake c) → FsRtl.oplockCall fileOf env o' call = none := by
  refine ⟨⟨s', 2, o.asleep⟩, ?_, fun env call hw => ?_⟩
  · rw [breakUnderMutex, exAcquireFastMutex, if_pos h.free, do_some]
    dsimp only
    rw [hr, do_some]
    simp [hc, exReleaseFastMutex]
  · cases call with
    | wake c => exact absurd rfl (hw c)
    | _ => rfl

/-! ### Runs -/

lemma oplockRoutine_inv {cl : OplockCall} (h : OplockInv s) (hf : CallFine fileOf env s cl)
    (hcl : cl.frees = false) (hc : oplockRoutine fileOf env s cl = some (s', st)) : OplockInv s' := by
  have hm : ∀ {r : Option Oplock}, r.map (·, OplockStatus.success) = some (s', st) → r = some s' := by
    intro r hr
    obtain ⟨s1, hr', heq⟩ := map_eq_some_iff.mp hr
    cases heq
    exact hr'
  cases cl with
  | breakNotify c => exact h.breakNotify hc
  | acknowledge fo irp x => exact h.acknowledge hf.2.2 hf.2.1 hc
  | closePending fo => exact h.closePending hc
  | requestExclusive fo irp k => exact h.requestExclusive hf.1 hf.2.1 hf.2.2 hc
  | requestPending fo =>
    have := h.requestPending hf.1 hf.2
    rw [oplockRoutine, some.injEq] at hc
    rwa [hc] at this
  | requestII irp => exact h.requestII hf.1 hf.2 hc
  | cleanup fo => exact h.cleanup hf (hm hc)
  | breakToNone fo c x =>
    obtain ⟨⟨s1, st1, w⟩, hr, heq⟩ := map_eq_some_iff.mp hc
    cases heq
    exact h.breakToNone hf.1 hr
  | breakToII fo c x =>
    obtain ⟨⟨s1, st1, w⟩, hr, heq⟩ := map_eq_some_iff.mp hc
    cases heq
    exact h.breakToII hr
  | cancelExclusive => exact h.cancelExclusiveIrp (hm hc)
  | cancelII => exact h.cancelII hf (hm hc)
  | cancelWait => exact h.completeWaits (hm hc)
  | uninitializeOplock => cases hcl
  | wake c =>
    cases hc
    exact h

lemma OplockInv.shape (h : OplockInv s) : s.Flags ∈ shapes := by
  cases h with
  | none hf => rw [hf]; decide
  | level2 hf => rw [hf]; decide
  | pending hf => rw [hf]; decide
  | exclusive k hf => rw [hf]; exact exclusive_mem_shapes k
  | broken k b hb hf =>
    rw [hf]
    have hbs : ∀ b ∈ brokenFlags, k.flags ||| b ∈ shapes := by cases k <;> exact forall_flags rfl
    exact hbs b hb

/-- A step is a call on the oplock, on a new one, or leaves none. -/
lemma oplockStep_cases {o : Option InternalOplock} {cl : OplockEnv × OplockCall}
    (hs : oplockStep fileOf o cl = some (some o')) : cl.2.frees = false ∧
      ∃ st, oplockCall fileOf cl.1 (o.getD fsRtlAllocateOplock) cl.2 = some (o', st) := by
  unfold oplockStep at hs
  cases o with
  | none =>
    dsimp only at hs
    split at hs
    case isTrue ha =>
      obtain ⟨⟨s1, st⟩, hcl, heq⟩ := map_eq_some_iff.mp hs
      cases heq
      refine ⟨?_, st, hcl⟩
      cases hc : cl.2 <;> first | rfl | (rw [hc] at ha; cases ha)
    case isFalse => cases hs
  | some s =>
    obtain ⟨⟨s1, st⟩, hcl, heq⟩ := map_eq_some_iff.mp hs
    split at heq
    case isTrue => cases heq
    case isFalse hf =>
      cases heq
      exact ⟨not_eq_true _ ▸ hf, st, hcl⟩

lemma fsRtlAllocateOplock_unlocked : Unlocked fsRtlAllocateOplock := ⟨rfl, rfl⟩

/-- An invariant of the routines that keeps the flags to their values holds in every
run in which no break has to wait, and the mutex is free between the calls. -/
lemma oplockRun_invariant {inv : Oplock → Prop} {ok : OplockEnv → Oplock → OplockCall → Prop}
    {calls : List (OplockEnv × OplockCall)} (hsh : ∀ {s}, inv s → s.Flags ∈ shapes)
    (hnw : ∀ {env s call}, ok env s call → NoWait env s call)
    (hst : ∀ {env s s' st call}, inv s → ok env s call → call.frees = false →
      oplockRoutine fileOf env s call = some (s', st) → inv s')
    (h0 : inv fsRtlAllocateOplock.toOplock)
    (hrun : Run (oplockStep fileOf)
      (fun o call => ok call.1 (o.getD fsRtlAllocateOplock).toOplock call.2) none calls (some o)) :
    Unlocked o ∧ inv o.toOplock := by
  have hin : ∀ t, some o = some t → Unlocked t ∧ inv t.toOplock := by
    refine hrun.invariant (fun o => ∀ t, o = some t → Unlocked t ∧ inv t.toOplock) ?_ nofun
    rintro o cl o' ho hok hs t rfl
    obtain ⟨hf, st, hc⟩ := oplockStep_cases hs
    have h : Unlocked (o.getD fsRtlAllocateOplock) ∧ inv (o.getD fsRtlAllocateOplock).toOplock := by
      cases o with
      | none => exact ⟨fsRtlAllocateOplock_unlocked, h0⟩
      | some o => exact ho o rfl
    rw [h.1.oplockCall (hsh h.2) (hnw hok)] at hc
    obtain ⟨⟨s1, st1⟩, hr, heq⟩ := map_eq_some_iff.mp hc
    cases heq
    exact ⟨⟨h.1.free, h.1.awake⟩, hst h.2 hok hf hr⟩
  exact hin o rfl

lemma allocateOplock_inv : OplockInv fsRtlAllocateOplock.toOplock := .none rfl rfl rfl rfl

/-- The flag of the shared oplock says whether there are shared IRPs; an exclusive
oplock that is not broken has its IRP and its file object; and no exclusive
oplock has shared IRPs. -/
structure OplockConsistent (s : Oplock) : Prop where
  level2 : flagOn s.Flags LEVEL_2_OPLOCK = true ↔ s.SharedList ≠ []
  exclusive : isUnbroken s.Flags = true → s.ExclusiveIrp ≠ 0 ∧ s.FileObject ≠ 0
  apart : flagOn s.Flags EXCLUSIVE_LOCK = true → s.SharedList = []

lemma OplockInv.consistent (h : OplockInv s) : OplockConsistent s := by
  cases h with
  | none hf hs =>
    refine ⟨?_, ?_, fun _ => hs⟩ <;> rw [hf]
    · exact ⟨fun hl => absurd hl (by decide), fun hne => absurd hs hne⟩
    · exact fun hu => absurd hu (by decide)
  | level2 hf hs =>
    refine ⟨?_, ?_, ?_⟩ <;> rw [hf]
    · exact ⟨fun _ => hs, fun _ => by decide⟩
    · exact fun hu => absurd hu (by decide)
    · exact fun he => absurd he (by decide)
  | pending hf hs =>
    refine ⟨?_, ?_, fun _ => hs⟩ <;> rw [hf]
    · exact ⟨fun hl => absurd hl (by decide), fun hne => absurd hs hne⟩
    · exact fun hu => absurd hu (by decide)
  | exclusive k hf hs hi hfo =>
    refine ⟨?_, fun _ => ⟨hi, hfo⟩, fun _ => hs⟩
    rw [hf, (flags_exclusive k).2.1]
    exact ⟨fun hl => absurd hl false_ne_true, fun hne => absurd hs hne⟩
  | broken k b hb hf hs =>
    obtain ⟨⟨-, -, -, h1, -⟩, h2, -⟩ := flags_broken k b hb
    refine ⟨?_, ?_, fun _ => hs⟩ <;> rw [hf]
    · rw [h2]
      exact ⟨fun hl => absurd hl false_ne_true, fun hne => absurd hs hne⟩
    · rw [isUnbroken, h1, Bool.not_true, Bool.and_false]
      exact fun hu => absurd hu false_ne_true

/-- While no break is in progress an acknowledgement is refused exactly if it does
not come from the owner, and a close-pending acknowledgement is always refused. -/
lemma acknowledge_refused (hb : isBroken s.Flags = false) (env : OplockEnv) (fo irp : Nat) (x : Bool) :
    (acknowledgeOplockBreak env s fo irp x = some (s, .invalidOplockProtocol) ↔ s.FileObject ≠ fo) ∧
      opBatchBreakClosePending env s fo = some (s, .invalidOplockProtocol) := by
  constructor
  · unfold acknowledgeOplockBreak
    by_cases hfo : s.FileObject = fo
    · rw [if_neg (not_not.mpr hfo)]
      refine ⟨fun hc => ?_, fun hne => absurd hfo hne⟩
      obtain ⟨s1, -, hc⟩ := bind_eq_some_iff.mp hc
      obtain ⟨s2, -, hc⟩ := bind_eq_some_iff.mp hc
      cases hc
    · exact ⟨fun _ => hfo, fun _ => if_pos hfo⟩
  refine if_neg fun hm => ?_
  -- the three flags that the routine tests are among those of a break
  have hs : (BROKEN_TO_LEVEL_2 ||| BROKEN_TO_NONE ||| BROKEN_TO_NONE_FROM_LEVEL_2) =
      BROKEN_ANY &&& (BROKEN_TO_LEVEL_2 ||| BROKEN_TO_NONE ||| BROKEN_TO_NONE_FROM_LEVEL_2) := by decide
  have hz : s.Flags &&& BROKEN_ANY = 0 := by simpa [isBroken, flagOn] using hb
  have ht := hm.2
  rw [flagOn, hs, ← BitVec.and_assoc, hz] at ht
  exact absurd ht (by decide)

/-- In every run whose calls meet `CallFine` the oplock is consistent; and while no
break is in progress, acknowledgements are refused and change nothing, but for
those of the owner, which `CallFine` leaves out. The breaks that it leaves out are
those after which no call returns. -/
theorem oplock_consistent {calls : List (OplockEnv × OplockCall)}
    (hrun : Run (oplockStep fileOf) (OplockOk fileOf) none calls (some o)) :
    OplockConsistent o.toOplock ∧ (isBroken o.Flags = false → ∀ env fo irp x,
      (fsRtlAcknowledgeOplockBreak env o fo irp x = some (o, .invalidOplockProtocol) ↔ o.FileObject ≠ fo) ∧
      fsRtlOpBatchBreakClosePending env o fo = some (o, .invalidOplockProtocol)) ∧
    ∀ env fo c, mustWait env o.toOplock fo false = true → env.cancel c.Irp = false → c.CompletionRoutine = true →
      (∃ o', fsRtlOplockBreakToNone env o fo c false = some (o', .success) ∧
        ∀ env call, (∀ c, call ≠ .wake c) → oplockCall fileOf env o' call = none) ∧
      ∃ o', fsRtlOplockBreakToII env o fo c false = some (o', .success) ∧
        ∀ env call, (∀ c, call ≠ .wake c) → oplockCall fileOf env o' call = none := by
  obtain ⟨hu, hin⟩ := oplockRun_invariant OplockInv.shape
    (fun {_ _ call} hok => by cases call <;> first | trivial | exact hok.2)
    (fun hin hok hf hc => oplockRoutine_inv hin hok hf hc) allocateOplock_inv hrun
  refine ⟨hin.consistent, fun hb env fo irp x => ?_, fun env fo c hm hc hr => ?_⟩
  · obtain ⟨ha, hcp⟩ := acknowledge_refused hb env fo irp x
    rw [fsRtlAcknowledgeOplockBreak, fsRtlOpBatchBreakClosePending, hu.underMutex, hu.underMutex, ← ha, hcp]
    refine ⟨⟨fun h => ?_, fun h => by rw [h]; rfl⟩, rfl⟩
    obtain ⟨⟨s1, st⟩, hr, heq⟩ := map_eq_some_iff.mp h
    simp only [Prod.mk.injEq] at heq
    rw [hr, ← heq.1, ← heq.2]
  · obtain ⟨⟨s1, h1⟩, s2, h2⟩ := break_waits_of_inv hin hm hc
    rw [fsRtlOplockBreakToNone, fsRtlOplockBreakToII]
    exact ⟨hangs_of_unlocked hu h1 hr, hangs_of_unlocked hu h2 hr⟩

/-- No IRP is cancelled. The pool puts a wait context that is freed on a list of its
own, and `IofCompleteRequest` puts an APC where the link of the IRP was. -/
def freedEnv : OplockEnv := ⟨fun _ => false, fun _ _ => some ⟨0, 0, false⟩, fun _ _ => some 0⟩

theorem oplock_consistent_batch : ∃ o, Run (oplockStep id) (OplockOk id) none
    [(freedEnv, .requestExclusive 1 7 .batch), (freedEnv, .breakToII 2 ⟨100, 9, true⟩ true),
      (freedEnv, .acknowledge 1 8 true)] (some o) ∧ o.SharedList = [8] ∧ OplockConsistent o.toOplock := by
  obtain ⟨o, hr, hs⟩ : ∃ o, Run (oplockStep id) (OplockOk id) none
      [(freedEnv, .requestExclusive 1 7 .batch), (freedEnv, .breakToII 2 ⟨100, 9, true⟩ true),
        (freedEnv, .acknowledge 1 8 true)] (some o) ∧ o.SharedList = [8] :=
    ⟨_, .cons ⟨by decide, by decide, fun h => absurd h (by decide)⟩ rfl
      (.cons rfl rfl (.single ⟨by decide, fun _ _ => nofun, fun _ => rfl⟩ rfl)), rfl⟩
  exact ⟨o, hr, hs, (oplock_consistent hr).1⟩

/-- The owner of a batch oplock acknowledges a break that nobody asked for: the call
succeeds, and the oplock is exclusive without a file object. And if a read of another
file has to wait for the oplock, the acknowledgement of the owner never returns. -/
theorem oplock_consistent_fails : ∃ o, Run (oplockStep id) (OplockOk id) none
    [(freedEnv, .requestExclusive 1 7 .batch)] (some o) ∧ isBroken o.Flags = false ∧
    (∃ o', fsRtlAcknowledgeOplockBreak freedEnv o 1 8 true = some (o', .success) ∧ isUnbroken o'.Flags = true ∧
      o'.FileObject = 0 ∧ ¬ OplockConsistent o'.toOplock) ∧
    ∃ o', fsRtlOplockBreakToII freedEnv o 2 ⟨100, 9, true⟩ false = some (o', .success) ∧
      ∀ env, fsRtlAcknowledgeOplockBreak env o' 1 8 true = none := by
  refine ⟨_, .single ⟨by decide, by decide, fun h => absurd h (by decide)⟩ rfl, by decide,
    ⟨_, rfl, by decide, rfl, fun h => ?_⟩, _, rfl, fun env => rfl⟩
  exact (h.exclusive (by decide)).2 rfl

end FreeNT.FsRtl
