import FreeNT.FsRtl.LockTable

/-!
# What becomes of a request

A request for a lock is rejected, refused, made to wait, or granted. `privateLock_cases` says
once what the table, the list of shared locks, the queue and the packets are afterwards, for a
request that is `AttemptOk`; the invariants of later modules use that, and do not look at
`fsRtlPrivateLock` again. A shared lock is granted by one entry that takes the place of those
the request touches, of which there may be none (`SharedGrant`).
-/

namespace FreeNT.FsRtl

open FreeNT.Rtl FreeNT.Interval Option

variable {en : LockEnv} {s s' : FileLock} {i i' : LockInformation} {r : LockRequest} {ir : Option Irp}
  {t t' : GenericTable LockElement}

/-- The request is rejected, or its end is not before its start; and if it is for a shared lock,
and touches exclusive entries and shared ones, the search for the exclusive ones is complete. -/
def AttemptOk (s : FileLock) (r : LockRequest) : Prop :=
  r.End.toNat < r.FileOffset.toNat ∨ r.FileOffset.toInt ≤ r.End.toInt ∧ ∀ info ∈ s.LockInformation,
    r.ExclusiveLock = false →
      (∃ e ∈ info.RangeTable.entries, Exclusive e ∧ Touches r.element.span (entrySpan e)) →
      (∃ e ∈ info.RangeTable.entries, ¬ Exclusive e ∧ Touches r.element.span (entrySpan e)) →
        GoodCursor info.RangeTable

instance : Decidable (AttemptOk s r) := inferInstanceAs (Decidable (_ ∨ _ ∧ _))

/-- The request touches exclusive entries and shared ones. -/
def Mixed (t : GenericTable LockElement) (r : LockRequest) : Prop :=
  (∃ e ∈ t.entries, Exclusive e ∧ Touches r.element.span (entrySpan e)) ∧
    ∃ e ∈ t.entries, ¬ Exclusive e ∧ Touches r.element.span (entrySpan e)

/-- The packet of a request that waits. -/
def Irp.stamp (info : LockInformation) (stamped : Bool) (irp : Irp) : Irp :=
  if stamped then { irp with Information := info.Generation } else irp

/-- The locks are the same, perhaps with another tree. -/
structure SameLocks (info info' : LockInformation) : Prop where
  ok : info'.RangeTable.Ok
  entries : info'.RangeTable.entries = info.RangeTable.entries
  shared : info'.SharedLocks = info.SharedLocks

/-- The packet, if there is one, has been completed. -/
def Completes (irp : Option Irp) (s s' : FileLock) : Prop :=
  ∃ status, s'.Completed = s.Completed ++ (irp.map fun irp => (irp, status)).toList

/-- The entry `e` for a shared lock takes the place of those that the request touches, none of which
is exclusive. -/
structure SharedGrant (t t' : GenericTable LockElement) (r : LockRequest) (e : LockEntry) : Prop where
  rebuilt : Rebuilt t t' r.element e
  joined : JoinedFrom t r.element e.UserData
  unmixed : ∀ z ∈ t.entries, Touches r.element.span (entrySpan z) → ¬ Exclusive z

inductive Outcome (s : FileLock) (info : LockInformation) (r : LockRequest) (irp : Option Irp) (s' : FileLock)
    (info' : LockInformation) : Prop
  | refused : SameLocks info info' → s'.Granted = s.Granted → info'.CsqList = info.CsqList → Completes irp s s' →
    Outcome s info r irp s' info'
  | waits (stamped : Bool) : SameLocks info info' → s'.Granted = s.Granted →
    info'.CsqList = info.CsqList ++ (irp.map (Irp.stamp info stamped)).toList → s'.Completed = s.Completed →
    (stamped = false → r.ExclusiveLock = false ∧ (AtStart info.RangeTable → Mixed info.RangeTable r)) →
    Outcome s info r irp s' info'
  | exclusive (ls : List LockEntry) (e : LockEntry) (rs : List LockEntry) :
      r.ExclusiveLock = true → e.UserData = r.element →
    info.RangeTable.Inserted info'.RangeTable ls e rs → Ranges info'.RangeTable →
      info'.SharedLocks = info.SharedLocks →
    s'.Granted = s.Granted ++ [r.element.lock] → info'.CsqList = info.CsqList → Completes irp s s' →
    Outcome s info r irp s' info'
  | shared (e : LockEntry) : r.ExclusiveLock = false → SharedGrant info.RangeTable info'.RangeTable r e →
    info'.SharedLocks = info.SharedLocks ++ [r.range] → s'.Granted = s.Granted ++ [r.element.lock] →
    info'.CsqList = info.CsqList → Completes irp s s' → Outcome s info r irp s' info'
  /-- There was no memory for the list. -/
  | unlisted (e : LockEntry) :
      r.ExclusiveLock = false → false ∈ s.Pool → SharedGrant info.RangeTable info'.RangeTable r e →
    info'.SharedLocks = info.SharedLocks → s'.Granted = s.Granted → info'.CsqList = info.CsqList →
      Completes irp s s' →
    Outcome s info r irp s' info'

/-- A request that was tried with `info`. -/
structure Attempt (s : FileLock) (info : LockInformation) (r : LockRequest) (irp : Option Irp) (s' : FileLock)
    (info' : LockInformation) : Prop where
  eq : s'.LockInformation = some info'
  generation : info'.Generation = info.Generation
  pool : s'.Pool ⊆ s.Pool
  start : AtStart info.RangeTable → (r.ExclusiveLock = false → ¬ Mixed info.RangeTable r) →
    AtStart info'.RangeTable
  outcome : Outcome s info r irp s' info'

/-! ## Memory -/

lemma nextOutcome_subset (pool : List Bool) : (nextOutcome pool).2 ⊆ pool := by
  cases pool with
  | nil => exact fun _ h => h
  | cons b pool => exact List.subset_cons_self b pool

variable {pool : List Bool}

lemma nextOutcome_false (h : (nextOutcome pool).1 = false) : false ∈ pool := by
  cases pool with
  | nil => cases h
  | cons b pool => exact List.mem_cons.mpr (.inl h.symm)

variable {x : LockElement}

lemma rtlInsert_pool {pool' : List Bool} {rs : Option (LockEntry × Bool)}
    (h : rtlInsertElementGenericTable lockCompare t x pool = some (rs, t', pool')) : pool' ⊆ pool := by
  rw [rtlInsertElementGenericTable] at h
  split at h
  · cases h
    exact fun _ h => h
  split at h
  · cases h
  · dsimp only at h
    split at h <;> cases h <;> exact nextOutcome_subset pool

lemma rebuild_pool {pool' : List Bool}
    (h : fsRtlpRebuildSharedLockRange t x pool = some (t', pool')) : pool' ⊆ pool := by
  obtain ⟨⟨t1, y⟩, -, h⟩ := bind_eq_some_iff.mp h
  obtain ⟨⟨_ | ⟨e, _ | _⟩, t2, pool2⟩, hin, h⟩ := bind_eq_some_iff.mp h <;> cases h
  exact rtlInsert_pool hin

/-! ## The parts of the routine -/

lemma completeIf_eq (en : LockEnv) (s : FileLock) (ir : Option Irp) (ss : LockStatus) : completeIf en s ir ss =
      { s with Completed := s.Completed ++ (ir.map fun ir => (ir, ss)).toList } := by
  cases ir with
  | none => simp [completeIf]
  | some ir => rfl

/-- A request that conflicts, after `i` has become `info'` by searches of the table. -/
lemma failOrWait_attempt {st : Bool} (hs : SameLocks i i') (hgn : i'.Generation = i.Generation)
    (hc : i'.CsqList = i.CsqList) (heq : s'.LockInformation = some i') (hp : s'.Pool ⊆ s.Pool)
    (hg : s'.Granted = s.Granted) (hd : s'.Completed = s.Completed)
    (hst : AtStart i.RangeTable → (r.ExclusiveLock = false → ¬ Mixed i.RangeTable r) → AtStart i'.RangeTable)
    (hm : st = false → r.ExclusiveLock = false ∧ (AtStart i.RangeTable → Mixed i.RangeTable r)) :
    ∃ i'', Attempt s i r ir (failOrWait en s' i' r ir st).2.2 i'' := by
  rw [failOrWait]
  split
  · rw [completeIf_eq]
    exact ⟨i', heq, hgn, hp, hst, .refused hs hg hc ⟨_, congrArg (· ++ _) hd⟩⟩
  refine ⟨_, rfl, hgn, hp, hst, .waits st ⟨hs.ok, hs.entries, hs.shared⟩ hg ?_ hd hm⟩
  dsimp only
  rw [hc]
  congr 3
  funext ir
  simp [Irp.stamp, hgn]

lemma addRange_attempt {e : LockEntry} {c : List (Irp × LockStatus)} {ss : LockStatus}
    (hs : r.ExclusiveLock = false) (hm : SharedGrant i.RangeTable t r e) (hg : s'.Granted = s.Granted)
    (hp : pool ⊆ s.Pool) (hst : AtStart i.RangeTable → AtStart t)
    (hd : c = s.Completed ++ (ir.map fun ir => (ir, ss)).toList) : ∃ i', Attempt s i r ir
      { (addRange { s' with LockInformation := some { i with RangeTable := t }, Pool := pool }
        { i with RangeTable := t } r).2 with Completed := c } i' := by
  rw [addRange]
  dsimp only
  split
  · exact ⟨_, rfl, rfl, List.Subset.trans (nextOutcome_subset pool) hp, fun h _ => hst h,
      .shared e hs hm rfl (congrArg (· ++ _) hg) rfl ⟨ss, hd⟩⟩
  rename_i ha
  exact ⟨_, rfl, rfl, List.Subset.trans (nextOutcome_subset pool) hp, fun h _ => hst h,
    .unlisted e hs (hp (nextOutcome_false (Bool.eq_false_iff.mpr ha))) hm rfl hg rfl ⟨ss, hd⟩⟩

lemma addRange_completed (s : FileLock) (i : LockInformation) (r : LockRequest) :
    (addRange s i r).2.Completed = s.Completed := by
  rw [addRange]
  dsimp only
  split <;> rfl

lemma sameLocks_searched (hok : i.RangeTable.Ok) {root : SplayTree LockEntry}
    (hr : root.toList = i.RangeTable.entries) (q w : Nat) : SameLocks i { i with RangeTable :=
      { i.RangeTable with TableRoot := root, OrderedPointer := q, WhichOrderedElement := w } } :=
  ⟨⟨hok.order.trans (.of_eq hr.symm), hok.count.trans (congrArg List.length hr.symm), hok.bound⟩, hr, rfl⟩

/-- The request conflicts with a shared entry, and the search for exclusive ones is complete if there are any. -/
lemma lockShared_attempt {root : SplayTree LockEntry} {i0 : LockInformation} {rs : Bool × LockStatus × FileLock}
    (hrs : lockShared en s' i0 r ir = some rs) (hr : Ranges i.RangeTable)
      (hrt : root.toList = i.RangeTable.entries)
    (hin0 : i0 = { i with RangeTable := { i.RangeTable with TableRoot := root } })
    (heq : s'.LockInformation = some i0) (hp : s'.Pool ⊆ s.Pool) (hg : s'.Granted = s.Granted)
    (hd : s'.Completed = s.Completed) (hs : r.ExclusiveLock = false) (hv : r.range.span.Valid)
    (hsh : ∃ e ∈ i.RangeTable.entries, ¬ Exclusive e ∧ Touches r.element.span (entrySpan e))
    (hgd : (∃ e ∈ i.RangeTable.entries, Exclusive e ∧ Touches r.element.span (entrySpan e)) →
      GoodCursor i.RangeTable) : ∃ i', Attempt s i r ir rs.2.2 i' := by
  have hok0 : i0.RangeTable.Ok := hin0 ▸ hr.table.withRoot hrt
  have hen0 : i0.RangeTable.entries = i.RangeTable.entries := by
    rw [hin0]
    exact hrt
  let ex : LockElement → Bool := fun e => lockCompare e r.element == .eq && e.ExclusiveLock
  obtain ⟨q, w, ht⟩ := rtlScan_table (en.Head i0.RangeTable)
    ex i0.RangeTable.NumberGenericTableElements 0 i0.RangeTable
  have ha := @rtlScan_all _ i0.RangeTable (en.Head i0.RangeTable) ex hok0
  rw [lockShared] at hrs
  generalize rtlScan (en.Head i0.RangeTable) ex i0.RangeTable.NumberGenericTableElements 0 i0.RangeTable = scanned
    at hrs ht ha
  obtain ⟨found, t⟩ := scanned
  cases ht
  have hfn (h : GoodCursor i.RangeTable) :
      found ↔ ∃ e ∈ i.RangeTable.entries, Exclusive e ∧ Touches r.element.span (entrySpan e) := by
    rw [ha (hin0 ▸ h), hen0]
    refine exists_congr fun e => and_congr_right fun _ => ?_
    simp only [ex, Bool.and_eq_true, beq_iff_eq, lockCompare_eq]
    exact ⟨fun h => ⟨h.2, h.1.symm⟩, fun h => ⟨h.2.symm, h.1⟩⟩
  subst hin0
  have hsm := sameLocks_searched hr.table hrt q w
  dsimp only at hrs
  split at hrs
  · rename_i hf
    rw [← some.inj hrs]
    have hmx (h : AtStart i.RangeTable) : Mixed i.RangeTable r := ⟨(hfn h.good).mp hf, hsh⟩
    exact failOrWait_attempt hsm rfl rfl rfl hp hg hd (fun h hnt => absurd (hmx h) (hnt hs)) fun _ => ⟨hs, hmx⟩
  rename_i hf
  -- no entry that the request touches is exclusive
  have hn : ∀ e ∈ i.RangeTable.entries, Touches r.element.span (entrySpan e) → ¬ Exclusive e := fun e he ht hx =>
    hf ((hfn (hgd ⟨e, he, hx, ht⟩)).mpr ⟨e, he, hx, ht⟩)
  obtain ⟨⟨t, pool⟩, hre, hrs⟩ := bind_eq_some_iff.mp hrs
  obtain ⟨e, hrb, hj, hst⟩ :=
    rebuild_spec (hr.of_entries hsm.ok hsm.entries) (show r.element.span.Valid from hv) hre
  have hm : SharedGrant i.RangeTable t r e := by
    refine ⟨⟨hrb.ranges, ?_, ?_⟩, ?_, hn⟩
    · exact hrt ▸ hrb.entries
    · exact hrt ▸ hrb.grown
    · exact fun P hx hP => hj P hx fun z hz => hP z (hsm.entries ▸ hz)
  rw [← some.inj hrs]
  rw [completeIf_eq, addRange_completed]
  obtain ⟨z, hz, -, hzt⟩ := hsh
  have htc : ∃ e ∈ root.toList, Touches r.element.span (entrySpan e) := ⟨z, hrt ▸ hz, hzt⟩
  exact addRange_attempt hs hm hg (List.Subset.trans (rebuild_pool hre) hp) (fun _ =>
    hst (.inl htc)) (congrArg (· ++ _) hd)

lemma Rebuilt.of_inserted {ls rs : List LockEntry} {e : LockEntry} (hr : Ranges t')
    (hin : t.Inserted t' ls e rs) (hx : e.UserData = x) (hv : x.span.Valid)
    (hn : ∀ z ∈ t.entries, ¬ Touches x.span (entrySpan z)) : Rebuilt t t' x e ∧ JoinedFrom t x e.UserData := by
  subst hx
  refine ⟨⟨hr, ⟨ls, rs, ?_, hin.after⟩, (Grown.refl hv).congr fun z => ?_⟩, fun P hP _ => hP⟩
  · rw [List.filter_eq_self.mpr fun z hz => decide_eq_true (hn z hz), hin.before]
  · exact ⟨False.elim, fun h => hn z h.1 h.2⟩

lemma lockNew_eq (i : LockInformation) : ∃ ss, (lockNew en s i r ir).2.2 =
    { (if r.ExclusiveLock then (true, { s with Granted := s.Granted ++ [r.element.lock] }) else addRange s i r).2 with
      Completed := s.Completed ++ (ir.map fun ir => (ir, ss)).toList } := by
  rw [lockNew]
  dsimp only
  split
  · cases ir with
    | none => exact ⟨.success, by simp⟩
    | some ir => exact ⟨.success, rfl⟩
  have hd := addRange_completed s i r
  generalize addRange s i r = res at hd ⊢
  obtain ⟨a, s1⟩ := res
  replace hd : s1.Completed = s.Completed := hd
  cases a with
  | false => exact ⟨.noMemory, by simp [completeIf_eq, hd]⟩
  | true =>
    cases ir with
    | none => exact ⟨.success, by simp [← hd]⟩
    | some ir => exact ⟨.success, by simp [fsRtlCompleteLockIrpReal, hd]⟩

lemma lockNew_attempt {ls rs : List LockEntry} {e : LockEntry} {pool : List Bool} (hr : Ranges t)
    (hin : i.RangeTable.Inserted t ls e rs) (he : e.UserData = r.element) (hv : r.range.span.Valid)
    (hn : ∀ z ∈ i.RangeTable.entries, ¬ Touches r.element.span (entrySpan z)) (hp : pool ⊆ s.Pool)
    (hst : AtStart i.RangeTable → AtStart t) : ∃ i', Attempt s i r ir
      (lockNew en { s with LockInformation := some { i with RangeTable := t }, Pool := pool }
        { i with RangeTable := t } r ir).2.2 i' := by
  obtain ⟨ss, hs⟩ := lockNew_eq { i with RangeTable := t }
  rw [hs]
  split
  · rename_i hx
    exact ⟨_, rfl, rfl, hp, fun h _ => hst h, .exclusive ls e rs hx he hin hr rfl rfl rfl ⟨ss, rfl⟩⟩
  rename_i hx
  obtain ⟨hrb, hj⟩ := Rebuilt.of_inserted hr hin he hv hn
  exact addRange_attempt (Bool.eq_false_iff.mpr hx) ⟨hrb, hj, fun z hz ht => absurd ht (hn z hz)⟩ rfl hp hst rfl

/-! ## The routine -/

/-- The lock information that a request is tried with: the first request makes it. -/
structure Informed (env : LockEnv) (s s₁ : FileLock) (info : LockInformation) : Prop where
  eq : s₁.LockInformation = some info
  pool : s₁.Pool ⊆ s.Pool
  granted : s₁.Granted = s.Granted
  completed : s₁.Completed = s.Completed
  old : s.LockInformation = some info ∧ s₁ = s ∨
    s.LockInformation = none ∧ info = ⟨rtlInitializeGenericTable, [], [], env.Generation⟩

lemma lockInformation_cases {found : Option LockInformation} (h : lockInformation en s = (found, s')) :
    found = none ∧ s.LockInformation = none ∧ (∃ pool, s' = { s with Pool := pool }) ∨
      ∃ i, found = some i ∧ Informed en s s' i := by
  rw [lockInformation] at h
  cases heq : s.LockInformation with
  | some i =>
    simp only [heq, Prod.mk.injEq] at h
    obtain ⟨rfl, rfl⟩ := h
    exact .inr ⟨i, rfl, heq, fun _ h => h, rfl, rfl, .inl ⟨heq, rfl⟩⟩
  | none =>
    simp only [heq] at h
    split at h <;> cases h
    · exact .inr ⟨_, rfl, rfl, nextOutcome_subset _, rfl, rfl, .inr ⟨heq, rfl⟩⟩
    · exact .inl ⟨rfl, rfl, _, rfl⟩

lemma Informed.ranges {s1 : FileLock} (h : Informed en s s1 i)
    (hr : ∀ i ∈ s.LockInformation, Ranges i.RangeTable) : Ranges i.RangeTable := by
  rcases h.old with ⟨heq, -⟩ | ⟨-, rfl⟩
  · exact hr i heq
  · exact ⟨GenericTable.ok_init, .nil, nofun⟩

lemma privateLock_cases (hr : ∀ i ∈ s.LockInformation, Ranges i.RangeTable) (hok : AttemptOk s r)
    {re : Bool × LockStatus × FileLock} (hre : fsRtlPrivateLock en s r ir = some re) :
    re.2.2 = completeIf en s ir .invalidParameter ∨ s.LockInformation = none ∧
      (∃ pool, re.2.2 = { s with Pool := pool }) ∨
      ∃ s1 i i', Informed en s s1 i ∧ r.range.span.Valid ∧ Attempt s1 i r ir re.2.2 i' := by
  rw [fsRtlPrivateLock] at hre
  split at hre
  · cases hre
    exact .inl rfl
  rename_i hrn
  obtain ⟨hv, hg⟩ := hok.resolve_left hrn
  rcases hif : lockInformation en s with ⟨found, s1⟩
  obtain ⟨rfl, hn, pool, rfl⟩ | ⟨i, rfl, hinf⟩ := lockInformation_cases hif
  · simp only [hif, some.injEq] at hre
    rw [← hre]
    exact .inr (.inl ⟨hn, pool, rfl⟩)
  refine .inr (.inr ?_)
  have hrg := hinf.ranges hr
  have heq := hinf.eq
  simp only [hif] at hre
  obtain ⟨⟨c, t, pool⟩, hin, hre⟩ := bind_eq_some_iff.mp hre
  have hp := rtlInsert_pool hin
  rcases rtlInsert_cases (hrg.cut r.element) hin with ⟨l, e, r', rfl, rfl, hen, hc⟩ |
    ⟨hn, ⟨rfl, rfl⟩ | ⟨ls, rs, rfl, his, hls, hrs⟩⟩
  · -- the table has an entry that the request touches
    have hrt : (SplayTree.node l e r').toList = i.RangeTable.entries := by simp [hen]
    have he : e ∈ i.RangeTable.entries := by simp [hen]
    have hsm : SameLocks i { i with RangeTable := { i.RangeTable with TableRoot := .node l e r' } } :=
      ⟨hrg.table.withRoot hrt, hrt, rfl⟩
    dsimp only at hre
    split at hre
    · rw [← some.inj hre]
      have htr : ∃ i', Attempt s1 i r ir (failOrWait en { s1 with
          LockInformation := some { i with RangeTable := { i.RangeTable with TableRoot := .node l e r' } }
          Pool := pool } { i with RangeTable := { i.RangeTable with TableRoot := .node l e r' } } r
            ir true).2.2 i' :=
        failOrWait_attempt hsm rfl rfl rfl hp rfl rfl (fun h _ => h) nofun
      obtain ⟨i', htr⟩ := htr
      exact ⟨s1, i, i', hinf, hv, htr⟩
    rename_i hs
    simp only [Bool.or_eq_true, not_or, Bool.not_eq_true] at hs
    have hsh : ∃ e ∈ i.RangeTable.entries, ¬ Exclusive e ∧ Touches r.element.span (entrySpan e) :=
      ⟨e, he, by simp [Exclusive, hs.1], lockCompare_eq.mp hc⟩
    have hcr : s.LockInformation = some i := by
      rcases hinf.old with ⟨heq, -⟩ | ⟨-, rfl⟩
      · exact heq
      · cases he
    have htr : ∃ i', Attempt s1 i r ir re.2.2 i' := lockShared_attempt hre hrg hrt rfl rfl hp rfl rfl hs.2 hv hsh
        fun h => hg i hcr hs.2 h hsh
    obtain ⟨i', htr⟩ := htr
    exact ⟨s1, i, i', hinf, hv, htr⟩
  · cases hre
    rw [completeIf_eq]
    exact ⟨s1, i, i, hinf, hv, rfl, rfl, hp, fun h _ => h, .refused ⟨hrg.table, rfl, rfl⟩ rfl rfl ⟨_, rfl⟩⟩
  rw [← some.inj hre]
  obtain ⟨i', htr⟩ := @lockNew_attempt en s1 i r ir t ls rs _ pool (hrg.inserted his hls hrs hv) his rfl
    hv (fun z hz ht => hn z hz (lockCompare_eq.mpr ht)) hp (fun h => h.inserted hin)
  exact ⟨s1, i, i', hinf, hv, htr⟩

end FreeNT.FsRtl
