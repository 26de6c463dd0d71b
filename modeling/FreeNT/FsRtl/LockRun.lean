import FreeNT.Lib.Run
import FreeNT.FsRtl.LockAttempt

/-!
# Granted locks over whole runs

The locks granted are the exclusive entries of the table and the ranges of the list of
shared locks (`LockInv`), and every such range is covered by a shared entry. A request
keeps that up (`privateLock_inv`) if its range does not cross the middle of the numbers,
where `LockCompare` sees its end before its start, and if a search for exclusive entries
that it has to make starts from a position from which the search is complete
(`AttemptOk`). A release keeps it up, and so does the loop that tries the waiting requests
again if its attempts are such (`unlock_inv`).

`lockRun_exclusion`: in every run of such steps no two granted locks conflict.
-/

namespace FreeNT.FsRtl

open FreeNT.Rtl FreeNT.Interval List Option LockInformation

/-! ## The invariant -/

/-- The locks that the table and the list stand for. -/
def LockInformation.held (info : LockInformation) : List Lock :=
  (info.RangeTable.entries.filter Exclusive).map (·.UserData.lock) ++ info.SharedLocks.map (·.lock)

structure InfoOk (info : LockInformation) : Prop where
  ranges : Ranges info.RangeTable
  valid : ∀ r ∈ info.SharedLocks, r.span.Valid
  covered : ∀ r ∈ info.SharedLocks, ∃ e ∈ info.RangeTable.entries, ¬ Exclusive e ∧ Covers (entrySpan e) r.span

structure LockInv (s : FileLock) : Prop where
  info : ∀ info, s.LockInformation = some info → InfoOk info
  granted : s.Granted.Perm (s.LockInformation.elim [] (·.held))

variable {env : LockEnv} {s s' : FileLock} {i i' : LockInformation} {r : LockRequest} {ir : Option Irp}

lemma lockInv_init : LockInv fsRtlInitializeFileLock := ⟨nofun, .nil⟩

lemma LockInv.of_info (heq : s.LockInformation = some i) (hok : InfoOk i)
    (hp : s.Granted.Perm i.held) : LockInv s := by
  refine ⟨fun i' h => ?_, ?_⟩
  · cases heq.symm.trans h
    exact hok
  · rw [heq]
    exact hp

section

variable (h : LockInv s)

include h

lemma LockInv.perm (heq : s.LockInformation = some i) : s.Granted.Perm i.held := by
  have hp := h.granted
  rwa [heq] at hp

/-- The queue, the number of the last release and the shape of the tree do not matter. -/
lemma LockInv.congr (heq : s.LockInformation = some i) (heq' : s'.LockInformation = some i')
    (hok : i'.RangeTable.Ok) (he : i'.RangeTable.entries = i.RangeTable.entries)
    (hs : i'.SharedLocks = i.SharedLocks) (hg : s'.Granted = s.Granted) : LockInv s' := by
  have hin := h.info i heq
  refine .of_info heq' ⟨hin.ranges.of_entries hok he, hs ▸ hin.valid, ?_⟩ ?_
  · rw [hs, he]
    exact hin.covered
  · rw [hg, held, he, hs]
    exact h.perm heq

lemma LockInv.completeIf (ss : LockStatus) : LockInv (completeIf env s ir ss) := by
  rw [completeIf_eq]
  exact ⟨h.info, h.granted⟩

lemma restored_inv (heq : s.LockInformation = some i) {t : GenericTable LockElement} {a : Interval}
    (ht : Restored a i.RangeTable t) : LockInv { s with LockInformation := some { i with RangeTable := t } } := by
  have hin := h.info i heq
  refine .of_info rfl ⟨ht.ranges, hin.valid, fun r hr => ?_⟩ ?_
  · obtain ⟨e, he, hs, hc⟩ := hin.covered r hr
    obtain ⟨e', he', hs', hc'⟩ := ht.covered e he hs
    exact ⟨e', he', hs', hc'.trans hc⟩
  · rw [held, ht.exclusive]
    exact h.perm heq

end

variable {t' : GenericTable LockElement}

lemma inserted_held {t : GenericTable LockElement} {ls rs : List LockEntry} {e : LockEntry}
    (h : t.Inserted t' ls e rs)
    (heq : i.RangeTable = t) {l : List Lock} (hp : l.Perm i.held) :
    (if Exclusive e then l ++ [e.UserData.lock] else l).Perm
      ({ i with RangeTable := t' } : LockInformation).held := by
  subst heq
  simp only [held, h.before, h.after, filter_append, filter_cons] at hp ⊢
  split
  · simp only [map_append, map_cons, append_assoc, cons_append] at hp ⊢
    exact ((hp.append_right _).trans (perm_append_singleton _ _)).trans perm_middle.symm
  · exact hp

/-! ## Requests -/

lemma Informed.inv {s1 : FileLock} (hi : Informed env s s1 i) (h : LockInv s) : LockInv s1 := by
  rcases hi.old with ⟨-, rfl⟩ | ⟨hn, rfl⟩
  · exact h
  have hg : s.Granted.Perm [] := by simpa [hn] using h.granted
  refine .of_info hi.eq ⟨⟨GenericTable.ok_init, .nil, nofun⟩, nofun, nofun⟩ ?_
  rw [hi.granted]
  exact hg

lemma listed_inv (h : LockInv s) (heq : s.LockInformation = some i) (heq' : s'.LockInformation = some i')
    (ht : i'.RangeTable = i.RangeTable) (hsh : i'.SharedLocks = i.SharedLocks ++ [r.range])
    (hg : s'.Granted = s.Granted ++ [r.element.lock]) (hs : r.ExclusiveLock = false) (hv : r.range.span.Valid)
    (hc : ∃ e ∈ i.RangeTable.entries, ¬ Exclusive e ∧ Covers (entrySpan e) r.range.span) : LockInv s' := by
  have hok := h.info i heq
  have hl : r.element.lock = r.range.lock := by
    simp [LockRequest.element, LockRequest.range, LockElement.lock, LockSharedRange.lock, hs]
  refine .of_info heq' ⟨ht ▸ hok.ranges, fun r' hr' => ?_, fun r' hr' => ?_⟩ ?_
  · rw [hsh] at hr'
    rcases mem_append.mp hr' with hr' | hr'
    · exact hok.valid r' hr'
    · rwa [mem_singleton.mp hr']
  · rw [hsh] at hr'
    rw [ht]
    rcases mem_append.mp hr' with hr' | hr'
    · exact hok.covered r' hr'
    · rwa [mem_singleton.mp hr']
  · rw [held, ht, hsh, hg, map_append, map_singleton, ← append_assoc, hl]
    exact (h.perm heq).append_right _

lemma Attempt.inv (ha : Attempt s i r ir s' i') (h : LockInv s) (heq : s.LockInformation = some i)
    (hv : r.range.span.Valid) : LockInv s' := by
  have hok := h.info i heq
  cases ha.outcome with
  | refused hsm hg => exact h.congr heq ha.eq hsm.ok hsm.entries hsm.shared hg
  | waits st hsm hg => exact h.congr heq ha.eq hsm.ok hsm.entries hsm.shared hg
  | exclusive ls e rs hx he hin hr hsh hg =>
    refine .of_info ha.eq ⟨hr, hsh ▸ hok.valid, fun z hz => ?_⟩ ?_
    · obtain ⟨z', hz', hc⟩ := hok.covered z (hsh ▸ hz)
      refine ⟨z', ?_, hc⟩
      rw [hin.before] at hz'
      rw [hin.after]
      grind
    have hp := inserted_held hin rfl (h.perm heq)
    rw [if_pos (show Exclusive e by rw [Exclusive, he]; exact hx), he] at hp
    rwa [hg, held, hsh]
  | shared e hs hm hsh hg =>
    obtain ⟨hrs, hme, hes⟩ := hm.rebuilt.restored hs hm.unmixed (.refl _)
    exact listed_inv (restored_inv h heq hrs) rfl ha.eq rfl hsh hg hs hv ⟨e, hme, hes, hm.rebuilt.grown.covers⟩
  | unlisted e hs hpl hm hsh hg =>
    obtain ⟨hrs, -, -⟩ := hm.rebuilt.restored hs hm.unmixed (.refl _)
    exact (restored_inv h heq hrs).congr rfl ha.eq hrs.ranges.table rfl hsh hg

lemma privateLock_inv (h : LockInv s) (hr : AttemptOk s r) {rs : Bool × LockStatus × FileLock}
    (hrs : fsRtlPrivateLock env s r ir = some rs) : LockInv rs.2.2 := by
  have hrn : ∀ i ∈ s.LockInformation, Ranges i.RangeTable := fun i heq => (h.info i heq).ranges
  rcases privateLock_cases hrn hr hrs with heq | ⟨-, p, heq⟩ | ⟨s1, i, i', hi, hv, ha⟩
  · rw [heq]
    exact h.completeIf _
  · rw [heq]
    exact ⟨h.info, h.granted⟩
  · exact ha.inv (hi.inv h) hi.eq hv

/-! ## Releases -/

lemma deleted_held {ls rs : List LockEntry} {e : LockEntry}
    (he : i.RangeTable.entries = ls ++ e :: rs) (he' : t'.entries = ls ++ rs) (hx : Exclusive e) :
    (i.held.erase e.UserData.lock).Perm ({ i with RangeTable := t' } : LockInformation).held := by
  simp only [held, he, he', filter_append, filter_cons, hx, if_true, map_append, map_cons,
    append_assoc, cons_append]
  refine (perm_middle.erase _).trans ?_
  rw [erase_cons_head]

lemma erased_held {r : LockSharedRange}
    (hx : t'.entries.filter Exclusive = i.RangeTable.entries.filter Exclusive) :
    i.held.erase r.lock =
      ({ i with RangeTable := t', SharedLocks := i.SharedLocks.erase r } : LockInformation).held := by
  have hin : Function.Injective LockSharedRange.lock := fun a b h => by
    cases a
    cases b
    simpa [LockSharedRange.lock] using h
  rw [held, held, hx, erase_append_right, map_erase hin]
  simp only [List.mem_map, List.mem_filter, not_exists, not_and]
  rintro e ⟨-, he⟩ heq
  have : e.UserData.ExclusiveLock = false := congrArg Lock.ExclusiveLock heq
  simp [Exclusive, this] at he

variable {u : UnlockRequest} {p p' : List Bool}

/-- The interval is the range of a shared lock. -/
def LockInformation.IsRange (info : LockInformation) (a : Interval) : Prop := ∃ r ∈ info.SharedLocks, r.span = a

/-- The lock is released, and no other one. -/
structure Released (info : LockInformation) (released : Option (LockElement × Lock))
    (info' : LockInformation) : Prop where
  ok : InfoOk info'
  held : (released.elim info.held fun res => info.held.erase res.2).Perm info'.held
  shared : info'.SharedLocks ⊆ info.SharedLocks
  joined : SharedJoined info.IsRange info.RangeTable → SharedJoined info'.IsRange info'.RangeTable
  start : released.isSome → AtStart info'.RangeTable

variable {rl : Option (LockElement × Lock)}

lemma releaseLock_released (h : InfoOk i) (hre : releaseLock i u p = some (rl, i', p')) : Released i rl i' := by
  rw [releaseLock] at hre
  rcases hl : rtlLookupElementGenericTable lockCompare i.RangeTable u.find with ⟨_ | e, t⟩
  · obtain ⟨rfl, -⟩ := lookup_none h.ranges hl
    simp only [hl] at hre
    cases hre
    exact ⟨h, .refl _, fun _ h => h, id, nofun⟩
  obtain ⟨l, r, hf⟩ := lookup_found h.ranges hl
  obtain ⟨t2, hd, -, hr2, he⟩ := hf.delete
  have hsm : Released i none { i with RangeTable := t } := by
    refine ⟨⟨hf.ranges, h.valid, ?_⟩, ?_, fun _ h => h, fun hj z hz => hj z (hf.entries_eq ▸ hz), nofun⟩
    · rw [hf.entries_eq]
      exact h.covered
    · rw [elim_none, held, held, hf.entries_eq]
  -- entries other than the one found do not touch it
  have ho : ∀ z ∈ i.RangeTable.entries, z ≠ e → ¬ Touches (entrySpan z) (entrySpan e) ∧ z ∈ t2.entries :=
    fun z hz hne => ⟨fun ht => hne (h.ranges.eq_of_touches hz hf.mem ht), by
      rw [he]
      exact (hf.mem_iff.mp hz).resolve_left hne⟩
  have hlf : ∀ z ∈ t2.entries, z ∈ i.RangeTable.entries ∧ z ≠ e := fun z hz => by
    rw [he] at hz
    exact ⟨hf.mem_iff.mpr (.inr hz), fun heq => hf.not_mem h.ranges (heq ▸ hz)⟩
  simp only [hl, hd] at hre
  split at hre
  · rename_i hx
    split at hre
    · cases hre
      exact hsm
    cases hre
    refine ⟨⟨hr2, h.valid, fun r' hr' => ?_⟩, deleted_held hf.entries he hx, fun _ h => h,
      fun hj z hz => hj z (hlf z hz).1, fun _ => atStart_deleted hd⟩
    obtain ⟨z, hz, hs, hc⟩ := h.covered r' hr'
    exact ⟨z, (ho z hz fun heq => hs (heq ▸ hx)).2, hs, hc⟩
  rename_i hx
  split at hre
  swap
  · cases hre
    exact hsm
  rename_i hm
  obtain ⟨⟨t3, p3⟩, hp, hre⟩ := bind_eq_some_iff.mp hre
  cases hre
  have hsb : ∀ r' ∈ i.SharedLocks.erase u.range, r' ∈ i.SharedLocks := fun r' => mem_of_mem_erase
  have hft : ∀ r' ∈ i.SharedLocks, Touches (entrySpan e) r'.span → Covers (entrySpan e) r'.span :=
    fun r' hr' ht => by
      obtain ⟨z, hz, -, hc⟩ := h.covered r' hr'
      obtain rfl : z = e := h.ranges.eq_of_touches hz hf.mem (hc.touches_of ht.symm)
      exact hc
  have hn : ∀ z ∈ t2.entries, Touches (entrySpan e) (entrySpan z) → ¬ Exclusive z := fun z hz ht => by
    obtain ⟨hz, hne⟩ := hlf z hz
    exact absurd ht.symm (ho z hz hne).1
  obtain ⟨hrs, hbc, hjn, hst⟩ := putBack_spec hr2 (fun r' hr' => h.valid r' (hsb r' hr'))
    (fun r' hr' => hft r' (hsb r' hr')) hn hp
  refine ⟨⟨hrs.ranges, fun r' hr' => h.valid r' (hsb r' hr'), fun r' hr' => ?_⟩, .of_eq (erased_held ?_), hsb,
    fun hj => ?_, fun _ => hst (atStart_deleted hd)⟩
  · by_cases ht : Touches (entrySpan e) r'.span
    · exact hbc r' hr' ht
    obtain ⟨z, hz, hs, hc⟩ := h.covered r' (hsb r' hr')
    have hne : z ≠ e := fun heq => ht (heq ▸ hc.touches)
    obtain ⟨z', hz', hs', hc'⟩ := hrs.covered z (ho z hz hne).2 hs
    exact ⟨z', hz', hs', hc'.trans hc⟩
  · rw [hrs.exclusive, he, hf.entries, filter_append, filter_append, filter_cons,
      if_neg (show ¬ Exclusive e from hx)]
  refine hjn _ (fun r' hr' => ⟨r', hr', rfl⟩) fun z hz hzs => ?_
  obtain ⟨hz, hne⟩ := hlf z hz
  refine (hj z hz hzs).imp fun b hb hc => ?_
  obtain ⟨r', hr', rfl⟩ := hb
  refine ⟨r', (mem_erase_of_ne fun heq => ?_).mpr hr', rfl⟩
  -- the lock released is covered by the entry found, and by no other one
  have hcv := hft u.range hm hf.touches.symm
  exact (ho z hz hne).1 (hc.touches_of (heq ▸ hcv.touches.symm))

lemma startUnlock_inv (h : LockInv s) (hrs : startUnlock s u = some (rl, s')) : LockInv s' := by
  rw [startUnlock] at hrs
  cases heq : s.LockInformation with
  | none =>
    simp only [heq] at hrs
    cases hrs
    exact h
  | some i =>
    simp only [heq] at hrs
    obtain ⟨⟨rl', i', p'⟩, hrl, hrs⟩ := bind_eq_some_iff.mp hrs
    have hr := releaseLock_released (h.info i heq) hrl
    obtain _ | ⟨f, lock⟩ := rl'
    · cases hrs
      exact .of_info rfl hr.ok ((h.perm heq).trans hr.held)
    · cases hrs
      exact .of_info rfl ⟨hr.ok.ranges, hr.ok.valid, hr.ok.covered⟩ (((h.perm heq).erase lock).trans hr.held)

/-- In the loop from `s` on, the request `r` is tried in the state `s₁`. -/
inductive Tries (env : LockEnv) (find : LockElement) : FileLock → FileLock → LockRequest → Prop
  | next {s : FileLock} {info : LockInformation} {irp : Irp} {rest : List Irp} : s.LockInformation = some info →
    ioCsqRemoveNextIrp find info.CsqList = some (irp, rest) → irp.Information ≠ info.Generation →
    Tries env find s { s with LockInformation := some { info with CsqList := rest } } irp.Request
  | later {s s₁ s₂ : FileLock} {info : LockInformation} {irp : Irp} {rest : List Irp}
      {r : LockRequest} {granted : Bool}
    {status : LockStatus} : s.LockInformation = some info →
    ioCsqRemoveNextIrp find info.CsqList = some (irp, rest) → irp.Information ≠ info.Generation →
    fsRtlPrivateLock env { s with LockInformation := some { info with CsqList := rest } } irp.Request (some irp) =
      some (granted, status, s₁) →
    Tries env find s₁ s₂ r → Tries env find s s₂ r

variable {f : LockElement} {n : Nat}

/-- What an attempt keeps, if it may be made, and does not depend on the queue, the loop keeps. -/
lemma retryLoop_invariant {inv : FileLock → Prop} {ok : FileLock → LockRequest → Prop}
    (hq : ∀ {s i} (q : List Irp), inv s → s.LockInformation = some i →
      inv { s with LockInformation := some { i with CsqList := q } })
    (hs : ∀ {s r ir res}, inv s → ok s r → fsRtlPrivateLock env s r ir = some res →
      inv res.2.2) (h : inv s) (htr : ∀ {s1 r}, Tries env f s s1 r → ok s1 r)
    (hr : retryLoop env f n s = some s') : inv s' := by
  induction n generalizing s with
  | zero => cases hr
  | succ n ih =>
    obtain ⟨i, heq, hr⟩ := bind_eq_some_iff.mp hr
    rcases hn : ioCsqRemoveNextIrp f i.CsqList with _ | ⟨ir, rs⟩
    · simp only [hn] at hr
      cases hr
      exact h
    simp only [hn] at hr
    split at hr
    · cases hr
      exact hq _ h heq
    rename_i hg
    obtain ⟨⟨g, ss, s1⟩, hl, hr⟩ := bind_eq_some_iff.mp hr
    exact ih (hs (hq rs h heq) (htr (.next heq hn hg)) hl) (fun ht => htr (.later heq hn hg hl ht)) hr

lemma LockInv.queue (q : List Irp) (h : LockInv s) (heq : s.LockInformation = some i) :
    LockInv { s with LockInformation := some { i with CsqList := q } } :=
  h.congr heq rfl (h.info i heq).ranges.table rfl rfl rfl

lemma retryLoop_inv (h : LockInv s)
    (ht : ∀ {s1 r}, Tries env f s s1 r → AttemptOk s1 r) (hr : retryLoop env f n s = some s') : LockInv s' :=
  retryLoop_invariant (fun q h heq => h.queue q heq) (fun h hok hr => privateLock_inv h hok hr) h ht hr

/-- The call tries requests again that may be tried. -/
def UnlockOk (env : LockEnv) (s : FileLock) (u : UnlockRequest) : Prop :=
  ∀ find lock s₁ s₂ r, startUnlock s u = some (some (find, lock), s₁) → Tries env find s₁ s₂ r → AttemptOk s₂ r

lemma unlock_inv (h : LockInv s) (hu : UnlockOk env s u) {rs : LockStatus × Option Lock × FileLock}
    (hr : fsRtlFastUnlockSingle env n s u = some rs) : LockInv rs.2.2 := by
  obtain ⟨⟨_ | ⟨f, lock⟩, s1⟩, hs, hr⟩ := bind_eq_some_iff.mp hr
  · cases hr
    exact startUnlock_inv h hs
  obtain ⟨s2, hl, hr⟩ := bind_eq_some_iff.mp hr
  cases hr
  exact retryLoop_inv (startUnlock_inv h hs) (fun ht => hu f lock s1 _ _ hs ht) hl

/-! ## Releases with no request waiting -/

def Quiet (s : FileLock) : Prop := ∀ info ∈ s.LockInformation, info.CsqList = []

instance : Decidable (Quiet s) := inferInstanceAs (Decidable (∀ info ∈ s.LockInformation, info.CsqList = []))

lemma releaseLock_csqList (hr : releaseLock i u p = some (rl, i', p')) : i'.CsqList = i.CsqList := by
  rw [releaseLock] at hr
  split at hr
  · cases hr
    rfl
  split at hr
  · split at hr <;> cases hr <;> rfl
  split at hr
  · obtain ⟨⟨t, p''⟩, -, hr⟩ := bind_eq_some_iff.mp hr
    cases hr
    rfl
  · cases hr
    rfl

lemma startUnlock_quiet (h : Quiet s) (hr : startUnlock s u = some (rl, s')) : Quiet s' := by
  rw [startUnlock] at hr
  cases heq : s.LockInformation with
  | none =>
    simp only [heq] at hr
    cases hr
    exact h
  | some i =>
    simp only [heq] at hr
    obtain ⟨⟨rl', i', p'⟩, hrl, hr⟩ := bind_eq_some_iff.mp hr
    have hc := (releaseLock_csqList hrl).trans (h i heq)
    obtain _ | ⟨f, lock⟩ := rl' <;> cases hr <;> rintro _ ⟨⟩ <;> exact hc

lemma retryLoop_quiet (h : Quiet s) (hr : retryLoop env f n s = some s') : s' = s := by
  cases n with
  | zero => cases hr
  | succ n =>
    obtain ⟨i, heq, hr⟩ := bind_eq_some_iff.mp hr
    rw [h i heq] at hr
    cases hr
    rfl

lemma unlock_quiet (h : Quiet s) {ss : LockStatus} {lock : Option Lock}
    (hr : fsRtlFastUnlockSingle env n s u = some (ss, lock, s')) :
    ∃ rl, startUnlock s u = some (rl, s') ∧ rl.map (·.2) = lock := by
  obtain ⟨⟨_ | ⟨f, lock⟩, s1⟩, hs, hr⟩ := bind_eq_some_iff.mp hr
  · cases hr
    exact ⟨none, hs, rfl⟩
  obtain ⟨s2, hl, hr⟩ := bind_eq_some_iff.mp hr
  cases hr
  obtain rfl := retryLoop_quiet (startUnlock_quiet h hs) hl
  exact ⟨some (f, lock), hs, rfl⟩

lemma unlockShared_inv {fo ps ts k : Nat} (h : LockInv s ∧ Quiet s)
    (hr : unlockShared env n fo ps ts k s = some s') : LockInv s' ∧ Quiet s' := by
  induction ts generalizing k s with
  | zero => cases hr
  | succ ts ih =>
    obtain ⟨i, -, hr⟩ := bind_eq_some_iff.mp hr
    dsimp only at hr
    split at hr
    · cases hr
      exact h
    split at hr
    · split at hr
      · cases hr
        exact h
      · exact ih h hr
    obtain ⟨⟨ss, lock, s1⟩, hu, hr⟩ := bind_eq_some_iff.mp hr
    obtain ⟨rl, hs, -⟩ := unlock_quiet h.2 hu
    have h1 := And.intro (startUnlock_inv h.1 hs) (startUnlock_quiet h.2 hs)
    split at hr
    · cases hr
      exact h1
    · exact ih h1 hr

lemma unlockEntries_inv {ts : Nat} {rs : Bool} (h : LockInv s ∧ Quiet s)
    (hrs : unlockEntries env n ts rs s = some s') : LockInv s' ∧ Quiet s' := by
  induction ts generalizing rs s with
  | zero => cases hrs
  | succ ts ih =>
    obtain ⟨i, heq, hrs⟩ := bind_eq_some_iff.mp hrs
    obtain ⟨root, ht, hr⟩ := rtlEnumerate_entries i.RangeTable rs
    generalize rtlEnumerateGenericTable i.RangeTable rs = found at hrs ht
    obtain ⟨entry, t⟩ := found
    cases ht
    have h1 : LockInv { s with LockInformation := some { i with RangeTable := { i.RangeTable with TableRoot := root } } } :=
      h.1.congr heq rfl ((h.1.info i heq).ranges.table.withRoot hr) hr rfl rfl
    have hq : Quiet { s with LockInformation := some { i with RangeTable := { i.RangeTable with TableRoot := root } } } := by
      rintro _ ⟨⟩
      exact h.2 i heq
    dsimp only at hrs
    split at hrs
    · cases hrs
      exact ⟨h1, hq⟩
    obtain ⟨⟨ss, lock, s1⟩, hu, hrs⟩ := bind_eq_some_iff.mp hrs
    obtain ⟨rl, hs, -⟩ := unlock_quiet hq hu
    exact ih ⟨startUnlock_inv h1 hs, startUnlock_quiet hq hs⟩ hrs

lemma unlockAll_inv {fo ps : Nat} (h : LockInv s) (hq : Quiet s) {ss : LockStatus}
    (hr : fsRtlFastUnlockAll env n s fo ps = some (ss, s')) : LockInv s' := by
  rw [fsRtlFastUnlockAll] at hr
  split at hr
  · cases hr
    exact h
  obtain ⟨s1, hs, hr⟩ := bind_eq_some_iff.mp hr
  obtain ⟨s2, he, hr⟩ := bind_eq_some_iff.mp hr
  cases hr
  exact (unlockEntries_inv (unlockShared_inv ⟨h, hq⟩ hs) he).1

/-! ## Runs -/

/-- A call, with the outcomes of the allocations it makes, and with what a loop may take. -/
inductive LockOp where
  | lock (r : LockRequest) (irp : Option Irp) (pool : List Bool)
  | unlock (u : UnlockRequest) (pool : List Bool) (fuel : Nat)
  | unlockAll (fileObject process : Nat) (pool : List Bool) (fuel : Nat)
  deriving DecidableEq, Repr

def lockStep (env : LockEnv) (s : FileLock) : LockOp → Option FileLock
  | .lock r irp pool => (fsRtlPrivateLock env { s with Pool := pool } r irp).map (·.2.2)
  | .unlock u pool fuel => (fsRtlFastUnlockSingle env fuel { s with Pool := pool } u).map (·.2.2)
  | .unlockAll fileObject process pool fuel =>
    (fsRtlFastUnlockAll env fuel { s with Pool := pool } fileObject process).map (·.2)

/-- The requests that the call tries may be tried; for all locks of a process, there are none to try again. -/
def LockOk (env : LockEnv) (s : FileLock) : LockOp → Prop
  | .lock r _ pool => AttemptOk { s with Pool := pool } r
  | .unlock u pool _ => UnlockOk env { s with Pool := pool } u
  | .unlockAll _ _ _ _ => Quiet s

lemma lockStep_inv {op : LockOp} (h : LockInv s) (hop : LockOk env s op)
    (hs : lockStep env s op = some s') : LockInv s' := by
  have hp (p : List Bool) : LockInv { s with Pool := p } := ⟨h.info, h.granted⟩
  cases op with
  | lock r ir p =>
    obtain ⟨rs, hr, rfl⟩ := map_eq_some_iff.mp hs
    exact privateLock_inv (hp p) hop hr
  | unlock u p n =>
    obtain ⟨rs, hr, rfl⟩ := map_eq_some_iff.mp hs
    exact unlock_inv (hp p) hop hr
  | unlockAll fo ps p n =>
    obtain ⟨rs, hr, rfl⟩ := map_eq_some_iff.mp hs
    exact unlockAll_inv (hp p) hop hr

lemma lockRun_inv {o : List LockOp}
    (hr : Run (lockStep env) (LockOk env) fsRtlInitializeFileLock o s) : LockInv s :=
  hr.invariant LockInv lockStep_inv lockInv_init

/-! ## Exclusion -/

/-- The byte at `x` is in the range of the lock. -/
def Lock.Has (l : Lock) (x : Nat) : Prop := l.StartingByte.toNat ≤ x ∧ x < l.EndingByte.toNat

instance {l : Lock} {x : Nat} : Decidable (l.Has x) := inferInstanceAs (Decidable (_ ∧ _))

def Lock.Conflicts (a b : Lock) : Prop := (∃ x, a.Has x ∧ b.Has x) ∧ (a.ExclusiveLock ∨ b.ExclusiveLock)

def Lock.span (l : Lock) : Interval := ⟨l.StartingByte.toInt, l.EndingByte.toInt⟩

lemma Lock.Conflicts.symm {a b : Lock} (h : a.Conflicts b) : b.Conflicts a :=
    ⟨h.1.imp fun _ hx => hx.symm, h.2.symm⟩

/-- Ranges with a byte in common touch, as signed numbers, if neither crosses the middle. -/
lemma Lock.Has.touches {a b : Lock} (ha : a.span.Valid) (hb : b.span.Valid) {x : Nat}
    (hax : a.Has x) (hbx : b.Has x) :
    Touches a.span b.span := by
  unfold Lock.Has at hax hbx
  unfold Valid at ha hb
  simp only [Lock.span, Touches, BitVec.toInt_eq_toNat_cond] at ha hb ⊢
  split_ifs at ha hb ⊢ <;> omega

lemma InfoOk.exclusion (h : InfoOk i) : i.held.Pairwise fun a b => ¬ a.Conflicts b := by
  have hvalid : ∀ e ∈ i.RangeTable.entries, e.UserData.lock.span.Valid := h.ranges.valid
  rw [held, pairwise_append, pairwise_map, pairwise_map]
  refine ⟨?_, ?_, ?_⟩
  · -- two entries
    refine (h.ranges.sorted.sublist filter_sublist).imp_of_mem fun ha hb hlt ⟨⟨x, hxa, hxb⟩, _⟩ => ?_
    exact hlt.not_touches (hxa.touches (hvalid _ (mem_of_mem_filter ha)) (hvalid _ (mem_of_mem_filter hb)) hxb)
  · -- two shared locks
    exact pairwise_of_forall fun a b hab => by simp [Lock.Conflicts, LockSharedRange.lock] at hab
  -- an entry, and a shared lock: the entry that covers the lock touches the other one
  simp only [List.mem_map]
  rintro _ ⟨e, he, rfl⟩ _ ⟨r, hr, rfl⟩ ⟨⟨x, hxa, hxb⟩, _⟩
  obtain ⟨he, hx⟩ := mem_filter.mp he
  obtain ⟨z, hz, hs, hc⟩ := h.covered r hr
  have ht : Touches r.span (entrySpan e) :=
    Lock.Has.touches (show r.lock.span.Valid from h.valid r hr) (hvalid e he) hxb hxa
  exact hs (h.ranges.eq_of_touches hz he (hc.touches_of ht) ▸ hx)

lemma LockInv.exclusion (h : LockInv s) : s.Granted.Pairwise fun a b => ¬ a.Conflicts b := by
  rw [h.granted.pairwise_iff fun hab hba => hab (Lock.Conflicts.symm hba)]
  cases heq : s.LockInformation with
  | none => exact .nil
  | some i => exact (h.info i heq).exclusion

/-- No two locks that are granted at one time conflict. -/
theorem lockRun_exclusion (env : LockEnv) (ops : List LockOp) (s : FileLock)
    (hrun : Run (lockStep env) (LockOk env) fsRtlInitializeFileLock ops s) :
    s.Granted.Pairwise fun a b => ¬ a.Conflicts b :=
  (lockRun_inv hrun).exclusion

lemma Quiet.not_tries (h : Quiet s) : ¬ Tries env f s s' r := fun ht => by
  cases ht with
  | next heq hn hg => simp [h _ heq, ioCsqRemoveNextIrp] at hn
  | later heq hn hg hl ht => simp [h _ heq, ioCsqRemoveNextIrp] at hn

lemma Quiet.unlockOk (h : Quiet s) : UnlockOk env s u := fun _ _ _ _ _ hs ht =>
  absurd ht (startUnlock_quiet h hs).not_tries

/-- A file system without a completion routine. -/
def plainEnv : LockEnv := ⟨0, fun _ => ⟨0, 0, false, 0, 0, 0⟩, none⟩

/-- A request that does not wait. -/
def requestNow (offset length : BitVec 64) (exclusive : Bool) (process : Nat) : LockOp :=
  .lock ⟨offset, length, process, process, 0, true, exclusive⟩ none []

/-- A shared lock next to an exclusive one is granted; one over both is not, until the exclusive one
is released. -/
theorem lockRun_exclusion_next : ∃ s, Run (lockStep plainEnv) (LockOk plainEnv) fsRtlInitializeFileLock
    [requestNow 0 10 true 1, requestNow 10 10 false 2, requestNow 5 10 false 3, .unlock ⟨0, 10, 1, 1, 0⟩ [] 1,
      requestNow 5 10 false 3] s ∧
    s.Granted = [⟨10, 20, false, 2, 2⟩, ⟨5, 15, false, 3, 3⟩] ∧ s.Granted.Pairwise fun a b => ¬ a.Conflicts b := by
  refine Run.exists_and_and ?_ fun s hr => lockRun_exclusion plainEnv _ s hr
  exact ⟨_, .cons (show AttemptOk _ _ by decide +kernel) rfl <| .cons (show AttemptOk _ _ by decide +kernel) rfl <|
    .cons (show AttemptOk _ _ by decide +kernel) rfl <| .cons (Quiet.unlockOk (by decide +kernel)) rfl <|
      .cons (show AttemptOk _ _ by decide +kernel) rfl (.nil _), by decide +kernel⟩

/-- `LockCompare` takes the end of the first range for a negative number. With small numbers, a
search for exclusive entries that is cut short leaves a position from which the third request for
one range does not see the first entry. -/
theorem lockRun_exclusion_fails : (∃ s, Run (lockStep plainEnv) (fun _ _ => True) fsRtlInitializeFileLock
      [requestNow 0x7FFFFFFFFFFFFFFE 4 true 1, requestNow 0x7FFFFFFFFFFFFFFF 1 true 2] s ∧
      ¬ s.Granted.Pairwise fun a b => ¬ a.Conflicts b) ∧
    ∃ s, Run (lockStep plainEnv) (fun _ _ => True) fsRtlInitializeFileLock
      [requestNow 0 10 true 1, requestNow 10 10 false 2, requestNow 20 10 true 3, requestNow 5 10 false 4,
        requestNow 5 10 false 4, requestNow 5 10 false 4] s ∧
      ¬ s.Granted.Pairwise fun a b => ¬ a.Conflicts b := by
  refine ⟨⟨_, .cons trivial rfl (.cons trivial rfl (.nil _)), fun h => ?_⟩,
    ⟨_, .cons trivial rfl <| .cons trivial rfl <| .cons trivial rfl <| .cons trivial rfl <| .cons trivial rfl <|
      .cons trivial rfl (.nil _), fun h => ?_⟩⟩
  · have hab := (pairwise_cons.mp h).1 ⟨0x7FFFFFFFFFFFFFFF, 0x8000000000000000, true, 2, 2⟩ (by decide +kernel)
    exact hab ⟨⟨0x7FFFFFFFFFFFFFFF, by decide, by decide⟩, .inl rfl⟩
  · have hab := (pairwise_cons.mp h).1 ⟨5, 15, false, 4, 4⟩ (by decide +kernel)
    exact hab ⟨⟨5, by decide, by decide⟩, .inl rfl⟩

end FreeNT.FsRtl
