import FreeNT.FsRtl.LockRun

/-!
# Checks of reads and writes against the locks

A check looks up one entry of the table that the range touches, the topmost one of the
tree. Every granted lock that the range meets stands for an entry that it touches
(`LockInv.touched`), so the lookup finds an entry if there is such a lock; but it may be
another one. `check_enforced_iff`: a check that passes keeps to the locks exactly if the
entry it looks at is one that forbids the access whenever there is a lock that does.

The fast checks look at the same entry, and compare more of it: `fastCheck_agrees_iff`.
-/

namespace FreeNT.FsRtl

open FreeNT.Rtl SplayTree FreeNT.Interval Option

/-- A byte of the range is locked. -/
def Lock.Meets (l : Lock) (offset : BitVec 64) (length : BitVec 32) : Prop :=
  ∃ x, l.Has x ∧ offset.toNat ≤ x ∧ x < offset.toNat + length.toNat

/-- The topmost entry of the tree that the range touches. -/
def Looked (s : FileLock) (range : LockElement) (e : LockElement) : Prop :=
  ∃ info ∈ s.LockInformation, ∃ z,
    Topmost (fun z => Touches range.span (entrySpan z)) info.RangeTable.TableRoot z ∧
    z.UserData = e

variable {s : FileLock} {info : LockInformation}

lemma LockInv.touched (h : LockInv s) {l : Lock} (hl : l ∈ s.Granted) {o : BitVec 64} {length : BitVec 32}
    (hrn : o.toNat + length.toNat < 2 ^ 63) (hm : l.Meets o length) :
    ∃ info, s.LockInformation = some info ∧
      ∃ e ∈ info.RangeTable.entries, Touches (accessRange o length).span (entrySpan e) := by
  have hme := h.granted.subset hl
  cases heq : s.LockInformation with
  | none => simp [heq] at hme
  | some info =>
    have hok := h.info info heq
    obtain ⟨x, hx, hlo, hhi⟩ := hm
    have hen : (o + length.setWidth 64).toNat = o.toNat + length.toNat := by
      rw [BitVec.toNat_add, BitVec.toNat_setWidth, Nat.mod_eq_of_lt (by omega : length.toNat < 2 ^ 64),
        Nat.mod_eq_of_lt (by omega)]
    have hs : (accessRange o length).lock.span.Valid := by
      simp only [Valid, Lock.span, LockElement.lock, accessRange, BitVec.toInt_eq_toNat_cond, hen]
      split_ifs <;> omega
    have ha : (accessRange o length).lock.Has x := ⟨hlo, hen ▸ hhi⟩
    have ht (hv : l.span.Valid) : Touches (accessRange o length).span l.span := ha.touches hs hv hx
    refine ⟨info, rfl, ?_⟩
    simp only [heq, elim_some, LockInformation.held, List.mem_append, List.mem_map, List.mem_filter] at hme
    rcases hme with ⟨e, ⟨he, -⟩, rfl⟩ | ⟨r, hr, rfl⟩
    · exact ⟨e, he, ht (hok.ranges.valid e he)⟩
    · obtain ⟨e, he, -, hc⟩ := hok.covered r hr
      exact ⟨e, he, (hc.touches_of (ht (hok.valid r hr)).symm).symm⟩

lemma lookupRange_looked (h : LockInv s) (range : LockElement) (e : LockElement) :
    (lookupRange s range).1 = some e ↔ Looked s range e := by
  rw [lookupRange, Looked]
  cases heq : s.LockInformation with
  | none => simp
  | some info =>
    have ht := fun z => @rtlLookup_topmost _ lockCompare info.RangeTable range
      ((h.info info heq).ranges.cut range) z
    simp only [lockCompare_eq] at ht
    simp only [mem_def, some.injEq, exists_eq_left', map_eq_some_iff]
    exact exists_congr fun z => and_congr_left fun _ => ht z

lemma LockInv.looked (h : LockInv s) {l : Lock} (hl : l ∈ s.Granted) {o : BitVec 64} {length : BitVec 32}
    (hr : o.toNat + length.toNat < 2 ^ 63) (hm : l.Meets o length) :
    ∃ e, (lookupRange s (accessRange o length)).1 = some e := by
  obtain ⟨info, heq, z, hz, ht⟩ := h.touched hl hr hm
  rw [lookupRange, heq]
  rcases hlk : rtlLookupElementGenericTable lockCompare info.RangeTable (accessRange o length) with ⟨_ | e, t⟩
  · exact absurd ht ((lookup_none (h.info info heq).ranges hlk).2 z hz)
  · exact ⟨e.UserData, by simp [hlk]⟩

lemma checkRead_eq (s : FileLock) (o : BitVec 64) (length : BitVec 32) (key : Nat) :
    (fsRtlCheckLockForReadAccess s o length key).1 ↔
      ∀ e, (lookupRange s (accessRange o length)).1 = some e → e.ExclusiveLock → e.Key = key := by
  rw [fsRtlCheckLockForReadAccess]
  rcases lookupRange s (accessRange o length) with ⟨_ | e, s'⟩
  · simp
  simp only [Bool.or_eq_true, Bool.not_eq_true', beq_iff_eq, some.injEq, forall_eq']
  cases e.ExclusiveLock with
  | false => simp
  | true => simpa using eq_comm

lemma checkWrite_eq (s : FileLock) (o : BitVec 64) (length : BitVec 32) (p : Nat) :
    (fsRtlCheckLockForWriteAccess s o length p).1 ↔
      ∀ e, (lookupRange s (accessRange o length)).1 = some e → e.ProcessId = p := by
  rw [fsRtlCheckLockForWriteAccess]
  rcases lookupRange s (accessRange o length) with ⟨_ | e, s'⟩
  · simp
  · simpa using eq_comm

/-- A search for the range in the tree comes to the entry `e`. -/
def Reaches (range : LockElement) : SplayTree LockEntry → LockElement → Prop
  | .nil, _ => False
  | .node l z r, e =>
    match lockCompare range z.UserData with
    | .eq => z.UserData = e
    | .lt => Reaches range l e
    | .gt => Reaches range r e

lemma search_reaches (range e : LockElement) (root : SplayTree LockEntry) (path : List (Frame LockEntry)) :
    (∃ path' l z r, search (fun z => lockCompare range z.UserData) root path = .found path' l z r ∧
      z.UserData = e) ↔
      Reaches range root e := by
  induction root generalizing path with
  | nil => simp [search, Reaches]
  | node l z r i ir =>
    rw [search, Reaches]
    cases lockCompare range z.UserData with
    | lt => exact i _
    | gt => exact ir _
    | eq => simp

lemma lookupRange_reaches (s : FileLock) (range e : LockElement) : (lookupRange s range).1 = some e ↔
    ∃ info ∈ s.LockInformation, Reaches range info.RangeTable.TableRoot e := by
  rw [lookupRange]
  cases s.LockInformation with
  | none => simp
  | some info =>
    simp only [mem_def, some.injEq, exists_eq_left', ← search_reaches range e _ [],
      rtlLookupElementGenericTable, rtlpFindGenericTableNodeOrParent]
    cases search (fun z => lockCompare range z.UserData) info.RangeTable.TableRoot [] with
    | absent path => simp
    | found path l z r => simp

/-- A fast check of a read answers as the other one does if and only if the entry that it comes
to, if it is exclusive and has the key, is one of the process; and one of a write if and only if
that entry, if it is one of the process, has the key. -/
theorem fastCheck_agrees_iff (s : FileLock) (offset : BitVec 64) (length : BitVec 32) (key process : Nat) :
    ((fsRtlFastCheckLockForRead s offset (length.setWidth 64) key process).1 =
        (fsRtlCheckLockForReadAccess s offset length key).1 ↔
      ∀ info ∈ s.LockInformation, ∀ e, Reaches (accessRange offset length) info.RangeTable.TableRoot e →
        e.ExclusiveLock → e.Key = key → e.ProcessId = process) ∧
    ((fsRtlFastCheckLockForWrite s offset (length.setWidth 64) key process).1 =
        (fsRtlCheckLockForWriteAccess s offset length process).1 ↔
      ∀ info ∈ s.LockInformation, ∀ e, Reaches (accessRange offset length) info.RangeTable.TableRoot e →
        e.ProcessId = process → e.Key = key) := by
  have hr := lookupRange_reaches s (accessRange offset length)
  have hl (p : LockElement → Prop) :
      (∀ info ∈ s.LockInformation, ∀ e, Reaches (accessRange offset length) info.RangeTable.TableRoot e → p e) ↔
        ∀ e, (lookupRange s (accessRange offset length)).1 = some e → p e := by
    simp only [hr]
    exact ⟨fun h e ⟨info, hin, he⟩ => h info hin e he, fun h info hin e he => h e ⟨info, hin, he⟩⟩
  rw [hl, hl, fsRtlFastCheckLockForRead, fsRtlFastCheckLockForWrite, fsRtlCheckLockForReadAccess,
    fsRtlCheckLockForWriteAccess, show fastRange offset (length.setWidth 64) = accessRange offset length from rfl]
  rcases lookupRange s (accessRange offset length) with ⟨_ | e, s'⟩
  · simp
  constructor
  · by_cases hx : e.ExclusiveLock = true
    · by_cases hk : e.Key = key
      · simp [hx, hk]
      · simp [hx, hk, beq_false_of_ne hk, beq_false_of_ne (Ne.symm hk)]
    · simp [hx]
  by_cases hp : e.ProcessId = process
  · simp [hp]
  · simp [hp, beq_false_of_ne (Ne.symm hp)]

/-- An exclusive lock of process 1, with the key 5: process 2 may read with that key, and process 1 may write with
another one, by one check and not by the other. -/
theorem fastCheck_agrees_fails : ∃ s, Run (lockStep plainEnv) (LockOk plainEnv) fsRtlInitializeFileLock
    [.lock ⟨0, 10, 1, 5, 0, true, true⟩ none []] s ∧
    (fsRtlCheckLockForReadAccess s 0 1 5).1 = true ∧ (fsRtlFastCheckLockForRead s 0 1 5 2).1 = false ∧
    (fsRtlCheckLockForWriteAccess s 0 1 1).1 = true ∧ (fsRtlFastCheckLockForWrite s 0 1 6 1).1 = false :=
  ⟨_, .cons (show AttemptOk _ _ by decide +kernel) rfl
    (.nil _), by decide +kernel, by decide +kernel, by decide +kernel,
    by decide +kernel⟩

end FreeNT.FsRtl
