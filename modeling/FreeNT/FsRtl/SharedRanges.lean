import FreeNT.FsRtl.LockRun

/-!
# Shared entries are hulls

Shared locks that overlap have one entry in the table, which is rebuilt when one of them is
granted or released. Each shared entry is joined from the ranges of shared locks
(`SharedInv`), and these are all covered, so it is the hull of the ranges that are linked by
overlaps (`SharedInv.isHull`).

A grant for which there is no memory for the list leaves an entry without a lock, and a
search that misses an exclusive entry merges it with shared ones; in a run without either
`sharedEntries_are_hulls` holds.
-/

namespace FreeNT.FsRtl

open FreeNT.Rtl FreeNT.Interval List Option

structure SharedInv (s : FileLock) : Prop where
  inv : LockInv s
  nonempty : ∀ info, s.LockInformation = some info → ∀ r ∈ info.SharedLocks, r.span.lo < r.span.hi
  joined : ∀ info, s.LockInformation = some info → SharedJoined info.IsRange info.RangeTable

variable {env : LockEnv} {s s' : FileLock} {info info' : LockInformation} {r : LockRequest} {i : Option Irp}

lemma sharedInv_init : SharedInv fsRtlInitializeFileLock := ⟨lockInv_init, nofun, nofun⟩

lemma SharedInv.of_info (hin : LockInv s) (heq : s.LockInformation = some info)
    (hne : ∀ r ∈ info.SharedLocks, r.span.lo < r.span.hi) (hj : SharedJoined info.IsRange info.RangeTable) :
    SharedInv s := by
  refine ⟨hin, fun info' h => ?_, fun info' h => ?_⟩ <;> cases heq.symm.trans h
  · exact hne
  · exact hj

lemma SharedInv.congr (h : SharedInv s) (hin : LockInv s') (heq : s.LockInformation = some info)
    (heq' : s'.LockInformation = some info') (he : info'.RangeTable.entries = info.RangeTable.entries)
    (hsh : info'.SharedLocks = info.SharedLocks) : SharedInv s' := by
  refine .of_info hin heq' (hsh ▸ h.nonempty info heq) fun z hz hs => ?_
  refine (h.joined info heq z (he ▸ hz) hs).imp fun a ha _ => ?_
  rw [LockInformation.IsRange, hsh]
  exact ha

/-! ## Steps -/

/-- The request may be tried, its range is not empty, and there is memory for a shared lock. -/
def GrantOk (s : FileLock) (r : LockRequest) : Prop :=
  AttemptOk s r ∧ (r.End.toNat < r.FileOffset.toNat ∨ r.FileOffset.toInt < r.End.toInt) ∧
    (r.ExclusiveLock = false → false ∉ s.Pool)

instance : Decidable (GrantOk s r) := inferInstanceAs (Decidable (_ ∧ _))

lemma Attempt.sharedInv (ha : Attempt s info r i s' info') (h : SharedInv s) (heq : s.LockInformation = some info)
    (hv : r.range.span.Valid) (hrn : r.range.span.lo < r.range.span.hi)
    (hp : r.ExclusiveLock = false → false ∉ s.Pool) : SharedInv s' := by
  have hin := ha.inv h.inv heq hv
  have hj := h.joined info heq
  cases ha.outcome with
  | refused hsm => exact h.congr hin heq ha.eq hsm.entries hsm.shared
  | waits st hsm => exact h.congr hin heq ha.eq hsm.entries hsm.shared
  | exclusive ls e rs hx he his hr hsh =>
    refine .of_info hin ha.eq (hsh ▸ h.nonempty info heq) fun z hz hs => ?_
    have hne : z ≠ e := fun hze => hs (by rw [hze, Exclusive, he]; exact hx)
    have ho : z ∈ info.RangeTable.entries := by
      rw [his.after] at hz
      rw [his.before]
      grind
    refine (hj z ho hs).imp fun a hrn _ => ?_
    rw [LockInformation.IsRange, hsh]
    exact hrn
  | shared e hs hm hsh =>
    have hmn : ∀ a, info.IsRange a → info'.IsRange a := by
      rintro a ⟨r', hr', hsp⟩
      exact ⟨r', hsh ▸ mem_append_left _ hr', hsp⟩
    have hn : info'.IsRange r.element.span := ⟨r.range, by simp [hsh], rfl⟩
    refine .of_info hin ha.eq (fun r' hr' => ?_) (hm.rebuilt.sharedJoined hm.joined hm.unmixed (.one hn) ?_)
    · rw [hsh, mem_append, mem_singleton] at hr'
      rcases hr' with hr' | rfl
      · exact h.nonempty info heq r' hr'
      · exact hrn
    · exact fun z hz hzs => (hj z hz hzs).imp fun a ha _ => hmn a ha
  | unlisted e hs hf => exact absurd hf (hp hs)

lemma Informed.sharedInv {s1 : FileLock} (hi : Informed env s s1 info) (h : SharedInv s) : SharedInv s1 := by
  rcases hi.old with ⟨-, rfl⟩ | ⟨-, rfl⟩
  · exact h
  · exact .of_info (hi.inv h.inv) hi.eq nofun nofun

lemma privateLock_sharedInv (h : SharedInv s) (hr : GrantOk s r) {rs : Bool × LockStatus × FileLock}
    (hrs : fsRtlPrivateLock env s r i = some rs) : SharedInv rs.2.2 := by
  obtain ⟨hok, hrn, hp⟩ := hr
  have hrg : ∀ info ∈ s.LockInformation, Ranges info.RangeTable := fun info heq => (h.inv.info info heq).ranges
  by_cases hrj : r.End.toNat < r.FileOffset.toNat
  · rw [fsRtlPrivateLock, if_pos hrj] at hrs
    cases hrs
    rw [completeIf_eq]
    exact ⟨⟨h.inv.info, h.inv.granted⟩, h.nonempty, h.joined⟩
  rcases privateLock_cases hrg hok hrs with heq | ⟨-, p, heq⟩ | ⟨s1, info, info', hi, hv, ha⟩
  · rw [heq, completeIf_eq]
    exact ⟨⟨h.inv.info, h.inv.granted⟩, h.nonempty, h.joined⟩
  · rw [heq]
    exact ⟨⟨h.inv.info, h.inv.granted⟩, h.nonempty, h.joined⟩
  · exact ha.sharedInv (hi.sharedInv h) hi.eq hv (hrn.resolve_left hrj) fun hs hm => hp hs (hi.pool hm)

lemma startUnlock_sharedInv (h : SharedInv s) {u : UnlockRequest} {rl : Option (LockElement × Lock)}
    (hrs : startUnlock s u = some (rl, s')) : SharedInv s' := by
  have hin := startUnlock_inv h.inv hrs
  rw [startUnlock] at hrs
  cases heq : s.LockInformation with
  | none =>
    simp only [heq] at hrs
    cases hrs
    exact h
  | some info =>
    simp only [heq] at hrs
    obtain ⟨⟨rl', info', p'⟩, hrl, hrs⟩ := bind_eq_some_iff.mp hrs
    have hr := releaseLock_released (h.inv.info info heq) hrl
    have hne : ∀ r ∈ info'.SharedLocks, r.span.lo < r.span.hi := fun r hm => h.nonempty info heq r (hr.shared hm)
    obtain _ | ⟨find, lock⟩ := rl' <;> cases hrs
    · exact .of_info hin rfl hne (hr.joined (h.joined info heq))
    · exact .of_info hin rfl hne (hr.joined (h.joined info heq))

/-! ## Runs -/

/-- A request, or a release with requests to try again, that may be carried out. -/
def BookOk (env : LockEnv) (s : FileLock) : LockOp → Prop
  | .lock r _ pool => GrantOk { s with Pool := pool } r
  | .unlock u pool _ => ∀ find lock s₁ s₂ r, startUnlock { s with Pool := pool } u = some (some (find, lock), s₁) →
    Tries env find s₁ s₂ r → GrantOk s₂ r
  | .unlockAll _ _ _ _ => False

lemma lockStep_sharedInv {op : LockOp} (h : SharedInv s) (hop : BookOk env s op)
    (hst : lockStep env s op = some s') :
    SharedInv s' := by
  have hp (p : List Bool) : SharedInv { s with Pool := p } := ⟨⟨h.inv.info, h.inv.granted⟩, h.nonempty, h.joined⟩
  cases op with
  | lock r i p =>
    obtain ⟨rs, hr, rfl⟩ := map_eq_some_iff.mp hst
    exact privateLock_sharedInv (hp p) hop hr
  | unlock u p k =>
    obtain ⟨rs, hr, rfl⟩ := map_eq_some_iff.mp hst
    obtain ⟨⟨_ | ⟨find, lock⟩, s1⟩, hs, hr⟩ := bind_eq_some_iff.mp hr
    · cases hr
      exact startUnlock_sharedInv (hp p) hs
    obtain ⟨s2, hl, hr⟩ := bind_eq_some_iff.mp hr
    cases hr
    exact retryLoop_invariant (fun q h heq => h.congr (h.inv.queue q heq) heq rfl rfl rfl)
      (fun h hok hr => privateLock_sharedInv h hok hr) (startUnlock_sharedInv (hp p) hs)
      (fun ht => hop find lock s1 _ _ hs ht) hl
  | unlockAll fo ps p k => exact hop.elim

/-- A shared entry is the hull of the ranges that are linked to any one it covers. -/
lemma SharedInv.isHull (h : SharedInv s) (heq : s.LockInformation = some info) {e : LockEntry}
    (he : e ∈ info.RangeTable.entries) (hs : ¬ Exclusive e) {r : LockSharedRange} (hr : r ∈ info.SharedLocks)
    (hc : Covers (entrySpan e) r.span) : IsHull (component info.IsRange r.span) (entrySpan e) := by
  have hok := h.inv.info info heq
  have hP : ∀ a, info.IsRange a → a.lo < a.hi := by
    rintro a ⟨r, hr, rfl⟩
    exact h.nonempty info heq r hr
  refine (h.joined info heq e he hs).isHull hP (fun b c hP' hb hm => ?_) ⟨r, hr, rfl⟩ hc
  obtain ⟨r', hr', rfl⟩ := hP'
  -- the entry that covers the second range touches this one
  obtain ⟨z, hz, -, hzc⟩ := hok.covered r' hr'
  have ht : Touches b r'.span := by
    obtain ⟨x, h1, h2, h3, h4⟩ := hm
    unfold Touches
    omega
  obtain rfl := hok.ranges.eq_of_touches hz he (hzc.touches_of (hb.touches_of ht).symm)
  exact hzc

/-- In every run of such steps the shared entries are the hulls of the ranges that are linked by
overlaps, the exclusive entries are the exclusive locks granted, and no two entries overlap. -/
theorem sharedEntries_are_hulls (env : LockEnv) (ops : List LockOp) (s : FileLock)
    (hrun : Run (lockStep env) (BookOk env) fsRtlInitializeFileLock ops s) (info : LockInformation)
    (heq : s.LockInformation = some info) :
    (∀ e ∈ info.RangeTable.entries, ¬ Exclusive e →
        ∃ r ∈ info.SharedLocks, IsHull (component info.IsRange r.span) (entrySpan e)) ∧
      (∀ r ∈ info.SharedLocks,
        ∃ e ∈ info.RangeTable.entries, ¬ Exclusive e ∧ IsHull (component info.IsRange r.span) (entrySpan e)) ∧
      ((info.RangeTable.entries.filter Exclusive).map (·.UserData.lock)).Perm
        (s.Granted.filter (·.ExclusiveLock)) ∧
      info.RangeTable.entries.Pairwise fun a b => ¬ Meets (entrySpan a) (entrySpan b) := by
  have h := hrun.invariant SharedInv lockStep_sharedInv sharedInv_init
  have hok := h.inv.info info heq
  refine ⟨fun e he hs => ?_, fun r hr => ?_, ?_, hok.ranges.sorted.imp fun hlt hm => ?_⟩
  · obtain ⟨_, ⟨r, hr, rfl⟩, hc, -⟩ := (h.joined info heq e he hs).exists_lo
    exact ⟨r, hr, h.isHull heq he hs hr hc⟩
  · obtain ⟨e, he, hs, hc⟩ := hok.covered r hr
    exact ⟨e, he, hs, h.isHull heq he hs hr hc⟩
  · have hex : ∀ l ∈ (info.RangeTable.entries.filter Exclusive).map (·.UserData.lock), l.ExclusiveLock := by
      intro l hl
      obtain ⟨e, he, rfl⟩ := mem_map.mp hl
      exact (mem_filter.mp he).2
    have hsh : ∀ l ∈ info.SharedLocks.map (·.lock), ¬ l.ExclusiveLock := by
      intro l hl
      obtain ⟨r, -, rfl⟩ := mem_map.mp hl
      simp [LockSharedRange.lock]
    have hp := ((h.inv.perm heq).filter (·.ExclusiveLock)).symm
    rwa [LockInformation.held, filter_append, filter_eq_self.mpr hex, filter_eq_nil_iff.mpr hsh, append_nil] at hp
  · obtain ⟨x, h₁, h₂, h₃, h₄⟩ := hm
    unfold Before at hlt
    omega

lemma Quiet.bookOk (h : Quiet s) (u : UnlockRequest) (p : List Bool) (k : Nat) :
    BookOk env s (.unlock u p k) := fun _ _ _ _ _ hs ht =>
  absurd ht (startUnlock_quiet (show Quiet { s with Pool := p } from h) hs).not_tries

/-- Two shared locks that overlap, and a third one that joins no other; then the first one is released. -/
theorem sharedEntries_are_hulls_release : ∃ s info, Run (lockStep plainEnv) (BookOk plainEnv)
    fsRtlInitializeFileLock
    [requestNow 0 10 false 1, requestNow 5 10 false 2, requestNow 20 5 true 3, .unlock ⟨0, 10, 1, 1, 0⟩ [] 1] s ∧
    s.LockInformation = some info ∧ info.SharedLocks = [⟨5, 15, 2, 2⟩] ∧
    (∀ e ∈ info.RangeTable.entries, ¬ Exclusive e →
        ∃ r ∈ info.SharedLocks, IsHull (component info.IsRange r.span) (entrySpan e)) ∧
      (∀ r ∈ info.SharedLocks,
        ∃ e ∈ info.RangeTable.entries, ¬ Exclusive e ∧ IsHull (component info.IsRange r.span) (entrySpan e)) ∧
      ((info.RangeTable.entries.filter Exclusive).map (·.UserData.lock)).Perm
        (s.Granted.filter (·.ExclusiveLock)) ∧
      info.RangeTable.entries.Pairwise fun a b => ¬ Meets (entrySpan a) (entrySpan b) := by
  have hr : ∃ s info, Run (lockStep plainEnv) (BookOk plainEnv) fsRtlInitializeFileLock
      [requestNow 0 10 false 1, requestNow 5 10 false 2, requestNow 20 5 true 3, .unlock ⟨0, 10, 1, 1, 0⟩ [] 1] s ∧
      s.LockInformation = some info ∧ info.SharedLocks = [⟨5, 15, 2, 2⟩] :=
    ⟨_, _, .cons (show GrantOk _ _ by decide +kernel) rfl <| .cons (show GrantOk _ _ by decide +kernel) rfl <|
      .cons (show GrantOk _ _ by decide +kernel) rfl <| .cons
        (Quiet.bookOk (by decide +kernel) _ _ _) rfl (.nil _), rfl, rfl⟩
  obtain ⟨s, info, hr, heq, hs⟩ := hr
  exact ⟨s, info, hr, heq, hs, sharedEntries_are_hulls plainEnv _ s hr info heq⟩

/-- Without memory for the list, the entry of a lock that is not granted stays. With memory, a
shared request that is made three times takes an exclusive entry for one it may be merged with,
and the exclusive lock has no entry any more. -/
theorem sharedEntries_are_hulls_fails :
    (∃ s info, Run (lockStep plainEnv) (fun _ _ => True) fsRtlInitializeFileLock
      [.lock ⟨0, 10, 1, 1, 0, true, false⟩ none [true, true, false]] s ∧ s.LockInformation = some info ∧
      info.SharedLocks = [] ∧ info.RangeTable.entries.map entrySpan = [⟨0, 10⟩]) ∧
    ∃ s info, Run (lockStep plainEnv) (fun _ _ => True) fsRtlInitializeFileLock
      [requestNow 0 10 true 1, requestNow 10 10 false 2, requestNow 20 10 true 3, requestNow 5 10 false 4,
        requestNow 5 10 false 4, requestNow 5 10 false 4] s ∧ s.LockInformation = some info ∧
      ⟨0, 10, true, 1, 1⟩ ∈ s.Granted ∧
      (info.RangeTable.entries.filter Exclusive).map (·.UserData.lock) = [⟨20, 30, true, 3, 3⟩] :=
  ⟨⟨_, _, .cons trivial rfl (.nil _), rfl, rfl, by decide +kernel⟩,
    ⟨_, _, .cons trivial rfl <| .cons trivial rfl <| .cons trivial rfl <| .cons trivial rfl <| .cons trivial rfl <|
      .cons trivial rfl (.nil _), rfl, by decide +kernel, by decide +kernel⟩⟩

end FreeNT.FsRtl
