import FreeNT.Ob.DirectoryMap

/-!
# Enumerating an object directory

`NtQueryDirectoryObject` (`ntoskrnl/ob/obdir.c`) on a directory given by the
chains of its 37 buckets, with a good handle and memory to allocate. The
context counts the entries returned before; the records stand first in the
buffer, behind them a null record and the strings. Sizes are plain numbers: a
buffer in the address space and one entry's size, at most `2 ^ 18`, do not
add up to `2 ^ 32`.
-/

namespace FreeNT.Ob

open Rtl List

/-- The names of an object (empty without name information) and of its type. -/
structure DirectoryEntry where
  name : List WChar
  TypeName : List WChar

/-- The bytes of the two strings with their terminators. -/
def DirectoryEntry.strings (e : DirectoryEntry) : Nat := 2 * e.name.length + 2 + (2 * e.TypeName.length + 2)

/-- The chains of the hash buckets. -/
abbrev Directory := Nat → List DirectoryEntry

inductive QueryStatus
  | success | moreEntries | noMoreEntries | bufferTooSmall
  deriving DecidableEq

structure Scan where
  SkipEntries : Nat
  CurrentEntry : Nat := 0
  TotalLength : Nat := 16
  status : QueryStatus := .noMoreEntries
  found : List DirectoryEntry := []

structure QueryCall where
  BufferLength : Nat
  ReturnSingleEntry : Bool

variable (call : QueryCall)

/-- One turn of the inner loop; an exception is a jump to `Quickie`. -/
def scanEntry (s : Scan) (e : DirectoryEntry) : Except Scan Scan :=
  if s.SkipEntries = s.CurrentEntry then
    let length := 16 + e.strings
    if s.TotalLength + length > call.BufferLength then
      if call.ReturnSingleEntry then
        .error { s with TotalLength := s.TotalLength + length, status := .bufferTooSmall }
      else .error { s with status := .moreEntries }
    else
      let s := { s with
        CurrentEntry := s.CurrentEntry + 1
        TotalLength := s.TotalLength + length
        status := .success
        found := s.found ++ [e] }
      if call.ReturnSingleEntry then .error s else .ok { s with SkipEntries := s.SkipEntries + 1 }
  else .ok { s with CurrentEntry := s.CurrentEntry + 1 }

def scanBucket (d : Directory) (s : Scan) (hash : Nat) : Except Scan Scan :=
  (d hash).foldlM (scanEntry call) s

def quickie : Except Scan Scan → Scan
  | .ok s => s
  | .error s => s

/-- A record, with the offsets of its strings in the buffer. -/
structure DirectoryInformation where
  entry : DirectoryEntry
  nameBuffer : Nat
  typeNameBuffer : Nat

/-- The loop that moves the strings to `p`. -/
def moveStrings : List DirectoryEntry → Nat → List DirectoryInformation
  | [], _ => []
  | e :: rest, p =>
    let q := p + 2 * e.name.length + 2
    ⟨e, p, q⟩ :: moveStrings rest (q + 2 * e.TypeName.length + 2)

structure QueryResult where
  status : QueryStatus
  records : List DirectoryInformation
  context : Nat
  ReturnLength : Nat

def ntQueryDirectoryObject (d : Directory) (restartScan : Bool) (context : Nat) : QueryResult :=
  let s := quickie ((range 37).foldlM (scanBucket call d)
    { SkipEntries := if restartScan then 0 else context })
  if s.status = .success ∨ s.status = .moreEntries then
    ⟨s.status, moveStrings s.found (16 * (s.found.length + 1)), s.CurrentEntry, s.TotalLength⟩
  else ⟨s.status, [], context, s.TotalLength⟩

/-! ## The entries -/

/-- The entries in the order of the buckets. -/
def Directory.entries (d : Directory) : List DirectoryEntry :=
  (range 37).flatMap d

/-- The records and the strings they point to lie inside a buffer. -/
def InBuffer (length : Nat) (records : List DirectoryInformation) : Prop :=
  16 * records.length ≤ length ∧ ∀ r ∈ records, 16 * records.length ≤ r.nameBuffer ∧
    r.nameBuffer + 2 * r.entry.name.length + 2 ≤ r.typeNameBuffer ∧
      r.typeNameBuffer + 2 * r.entry.TypeName.length + 2 ≤ length

/-- The sizes of what was found add up and fit. -/
def Scan.Fits (s : Scan) : Prop :=
  s.TotalLength = 16 + 16 * s.found.length + (s.found.map (·.strings)).sum ∧
    (s.found = [] ∨ s.TotalLength ≤ call.BufferLength)

variable {call} {s : Scan} {es : List DirectoryEntry} {d : Directory}

lemma scanBuckets_eq (is : List Nat) (s : Scan) :
    is.foldlM (scanBucket call d) s = (is.flatMap d).foldlM (scanEntry call) s := by
  induction is generalizing s with
  | nil => rfl
  | cons i is ih => simp only [foldlM_cons, flatMap_cons, foldlM_append, scanBucket, ih]

lemma skip_entries (h : s.CurrentEntry + es.length ≤ s.SkipEntries) :
    es.foldlM (scanEntry call) s = .ok { s with CurrentEntry := s.CurrentEntry + es.length } := by
  induction es generalizing s with
  | nil => rfl
  | cons e es ih =>
    rw [length_cons] at h
    rw [foldlM_cons, scanEntry, if_neg (by omega)]
    refine (ih (by simp; omega)).trans ?_
    simp [Nat.add_assoc, Nat.add_comm 1]

lemma scan_entries (call : QueryCall) (es : List DirectoryEntry) (s : Scan)
    (hs : s.SkipEntries = s.CurrentEntry) (hf : s.Fits call) :
    let s' := quickie (es.foldlM (scanEntry call) s)
    (s'.status = .noMoreEntries ↔ s.status = .noMoreEntries ∧ es = []) ∧
      (call.ReturnSingleEntry = false → s.status ≠ .bufferTooSmall → s'.status ≠ .bufferTooSmall) ∧
      (s'.status ≠ .bufferTooSmall → s'.Fits call ∧ ∃ k ≤ es.length,
        s'.found = s.found ++ es.take k ∧ s'.CurrentEntry = s.CurrentEntry + k) := by
  induction es generalizing s with
  | nil =>
    exact ⟨(and_iff_left rfl).symm, fun _ => id,
      fun _ => ⟨hf, 0, by simp, by simp [quickie, pure, Except.pure], rfl⟩⟩
  | cons e es ih =>
    rw [foldlM_cons, scanEntry, if_pos hs]
    by_cases hft : s.TotalLength + (16 + e.strings) > call.BufferLength
    · simp only [hft, if_true]
      cases call.ReturnSingleEntry
      · exact ⟨by simp [quickie, bind, Except.bind], by simp [quickie, bind, Except.bind],
          fun _ => ⟨hf, 0, by simp [quickie, bind, Except.bind]⟩⟩
      · simp [quickie, bind, Except.bind]
    · have hn : s.TotalLength + (16 + e.strings) =
          16 + 16 * (s.found ++ [e]).length + ((s.found ++ [e]).map (·.strings)).sum := by
        simp [hf.1]
        omega
      simp only [hft, if_false]
      cases hsg : call.ReturnSingleEntry
      · obtain ⟨hst, hsm, hok⟩ := ih ⟨_ + 1, _ + 1, _, .success, s.found ++ [e]⟩
          (congrArg (· + 1) hs) ⟨hn, .inr (Nat.le_of_not_lt hft)⟩
        refine ⟨by simpa [bind, Except.bind] using hst, fun _ _ => hsm hsg (by simp), fun h => ?_⟩
        obtain ⟨hfi, k, hk, hfn, hc⟩ := hok h
        exact ⟨hfi, k + 1, by simpa, hfn.trans (by simp), hc.trans (by simp; omega)⟩
      · exact ⟨by simp [quickie, bind, Except.bind], nofun,
          fun _ => ⟨⟨hn, .inr (Nat.le_of_not_lt hft)⟩, 1, by simp, by simp [quickie, bind, Except.bind]⟩⟩

/-- A scan that comes to an entry for which there is room finds it. -/
lemma scan_first {e : DirectoryEntry} (hs : s.SkipEntries = s.CurrentEntry) (hf : s.Fits call)
    (he : s.TotalLength + (16 + e.strings) ≤ call.BufferLength) :
    let s' := quickie ((e :: es).foldlM (scanEntry call) s)
    s'.status ≠ .bufferTooSmall ∧ s'.found ≠ [] := by
  have hn : s.TotalLength + (16 + e.strings) =
      16 + 16 * (s.found ++ [e]).length + ((s.found ++ [e]).map (·.strings)).sum := by
    simp [hf.1]
    omega
  rw [foldlM_cons, scanEntry, if_pos hs]
  simp only [Nat.not_lt.mpr he, if_false]
  cases hsg : call.ReturnSingleEntry
  · obtain ⟨-, hsm, hok⟩ := scan_entries call es ⟨_ + 1, _ + 1, _, .success, s.found ++ [e]⟩
      (congrArg (· + 1) hs) ⟨hn, .inr he⟩
    have hst := hsm hsg (by simp)
    obtain ⟨-, k, -, hfn, -⟩ := hok hst
    exact ⟨hst, fun h => by simpa using hfn.symm.trans h⟩
  · simp [quickie, bind, Except.bind]

lemma moveStrings_spec (es : List DirectoryEntry) (p : Nat) :
    (moveStrings es p).map (·.entry) = es ∧ ∀ r ∈ moveStrings es p, p ≤ r.nameBuffer ∧
      r.nameBuffer + 2 * r.entry.name.length + 2 ≤ r.typeNameBuffer ∧
        r.typeNameBuffer + 2 * r.entry.TypeName.length + 2 ≤ p + (es.map (·.strings)).sum := by
  induction es generalizing p with
  | nil => simp [moveStrings]
  | cons e es ih =>
    simp only [moveStrings, map_cons, sum_cons, forall_mem_cons, DirectoryEntry.strings, (ih _).1]
    refine ⟨trivial, by omega, fun r hr => ?_⟩
    have := (ih _).2 r hr
    simp only [DirectoryEntry.strings] at this
    omega

/-- A call whose context is `n` returns the next entries, and moves the
context behind them. -/
lemma query_spec (call : QueryCall) {n : Nat} (hn : n ≤ d.entries.length) :
    let r := ntQueryDirectoryObject call d false n
    (r.status = .noMoreEntries ↔ n = d.entries.length) ∧
      r.records.map (·.entry) = (d.entries.drop n).take r.records.length ∧
      r.context = n + r.records.length ∧ r.context ≤ d.entries.length ∧
      InBuffer call.BufferLength r.records ∧
      ∀ e ∈ d.entries[n]?, 16 + 16 + e.strings ≤ call.BufferLength → r.records ≠ [] := by
  have hrn : (range 37).foldlM (scanBucket call d) { SkipEntries := n } =
      (d.entries.drop n).foldlM (scanEntry call) { SkipEntries := n, CurrentEntry := n } := by
    rw [scanBuckets_eq, ← Directory.entries]
    conv_lhs => rw [← take_append_drop n d.entries]
    rw [foldlM_append, skip_entries (by simp)]
    simp [hn, bind, Except.bind]
  obtain ⟨hs, -, hok⟩ := scan_entries call (d.entries.drop n)
    { SkipEntries := n, CurrentEntry := n } rfl ⟨rfl, .inl rfl⟩
  have hfs : ∀ e ∈ d.entries[n]?, 16 + 16 + e.strings ≤ call.BufferLength →
      let s' := quickie ((d.entries.drop n).foldlM (scanEntry call) { SkipEntries := n, CurrentEntry := n })
      s'.status ≠ .bufferTooSmall ∧ s'.found ≠ [] := by
    intro e he hfit
    obtain ⟨hlt, rfl⟩ := List.getElem?_eq_some_iff.mp he
    rw [drop_eq_getElem_cons hlt]
    exact scan_first rfl ⟨rfl, .inl rfl⟩ (by rw [← Nat.add_assoc]; exact hfit)
  simp only [ntQueryDirectoryObject, Bool.false_eq_true, if_false, hrn]
  generalize quickie _ = s' at hs hok hfs ⊢
  simp only [true_and, drop_eq_nil_iff] at hs
  split
  · rename_i h
    obtain ⟨hf, k, hk, hfn, hcr⟩ := hok (by rcases h with h | h <;> simp [h])
    obtain ⟨hm, hmv⟩ := moveStrings_spec s'.found (16 * (s'.found.length + 1))
    have hl : (moveStrings s'.found (16 * (s'.found.length + 1))).length = s'.found.length := by
      rw [← length_map, hm]
    have hc : s'.found.length = k := by simp_all
    rw [length_drop] at hk
    refine ⟨by rw [hs]; omega, ?_, by rw [hl, hc, hcr], hcr.trans_le (by dsimp only; omega), ?_, ?_⟩
    · rw [hm, hl, hc]
      exact hfn
    · rw [InBuffer, hl]
      rcases hf.2 with hnl | hle
      · simp [hnl, moveStrings]
      · have hsm := hf.1
        exact ⟨by omega, fun r hr => by have := hmv r hr; omega⟩
    · intro e he hfit hnl
      exact (hfs e he hfit).2 (hm ▸ (congrArg (map (·.entry)) hnl))
  · rename_i h
    refine ⟨by rw [hs]; omega, by simp, by simp, hn, by simp [InBuffer], fun e he hfit => ?_⟩
    -- there is an entry and it fits, so the scan ends in one of the other two statuses
    have hlt := (List.getElem?_eq_some_iff.mp he).1
    have hno : s'.status ≠ .noMoreEntries := fun hst => absurd (hs.mp hst) (by omega)
    have := (hfs e he hfit).1
    cases hst : s'.status <;> simp_all

/-- What a caller holds after a call: the context and the entries returned so far. -/
def queryStep (d : Directory) (s : Nat × List DirectoryEntry) (call : QueryCall) :
    Nat × List DirectoryEntry :=
  let r := ntQueryDirectoryObject call d false s.1
  (r.context, s.2 ++ r.records.map (·.entry))

/-- After any calls the entries returned are the first ones of the directory,
as many as the context says; the next call answers that there are no more
exactly if these are all, advances the context by the entries it returns, keeps
to the buffer, and returns some if the buffer has room for the next one. -/
theorem directory_enumerated (d : Directory) (calls : List QueryCall) :
    let s := calls.foldl (queryStep d) (0, [])
    s.2 = d.entries.take s.1 ∧ s.2.length = s.1 ∧ ∀ call, let r := ntQueryDirectoryObject call d false s.1
      (r.status = .noMoreEntries ↔ s.2 = d.entries) ∧
        r.context = s.1 + r.records.length ∧ InBuffer call.BufferLength r.records ∧
        ∀ e ∈ d.entries[s.1]?, 16 + 16 + e.strings ≤ call.BufferLength → r.records ≠ [] := by
  have hrn (s : Nat × List DirectoryEntry) (h : s.1 ≤ d.entries.length ∧ s.2 = d.entries.take s.1) :
      let s := calls.foldl (queryStep d) s
      s.1 ≤ d.entries.length ∧ s.2 = d.entries.take s.1 := by
    induction calls generalizing s with
    | nil => exact h
    | cons call calls ih =>
      obtain ⟨-, hr, hc, hle, -⟩ := query_spec call h.1
      refine ih _ ⟨hle, ?_⟩
      simp only [queryStep, h.2, hr, hc, take_add]
  obtain ⟨hle, ht⟩ := hrn (0, []) ⟨Nat.zero_le _, rfl⟩
  refine ⟨ht, by rw [ht, length_take]; omega, fun call => ?_⟩
  obtain ⟨hs, -, hc, -, hin, hpr⟩ := query_spec call hle
  refine ⟨hs.trans ?_, hc, hin, hpr⟩
  rw [ht]
  constructor
  · intro h
    rw [h, take_length]
  · intro h
    have := congrArg length h
    rw [length_take] at this
    omega

/-- In every run a query returns entries of one list, from the context on, which has each object
that is held once. -/
theorem directory_listed (table : WChar → WChar) (nameOf typeOf : Nat → List WChar)
    {calls : List DirCall} {s : DirState}
    (hrun : Run (dirStep table nameOf) (DirOk nameOf) dirInit calls s) :
    ∃ d : Directory, (∀ i < 37, ∃ chain, Chain id s.dir.ChainLink 0 (s.dir.HashBuckets i) chain ∧
        d i = chain.map fun e => ⟨nameOf (s.dir.Object e), typeOf (s.dir.Object e)⟩) ∧
      d.entries.Perm (s.held.map fun o => ⟨nameOf o, typeOf o⟩) ∧
      ∀ call n, n ≤ s.held.length → let r := ntQueryDirectoryObject call d false n
        r.records.map (·.entry) = (d.entries.drop n).take r.records.length ∧ r.context = n + r.records.length ∧
          (r.status = .noMoreEntries ↔ n = s.held.length) ∧
          ∀ e ∈ d.entries[n]?, 16 + 16 + e.strings ≤ call.BufferLength → r.records ≠ [] := by
  obtain ⟨lists, h⟩ : ∃ lists, DirInv table nameOf s lists := by
    refine hrun.invariant (fun s => ∃ lists, DirInv table nameOf s lists) ?_ ⟨_, dirInit_inv⟩
    rintro s call s' ⟨lists, h⟩ hok hs
    obtain ⟨s'', lists', hs', hin⟩ := dirStep_inv h hok
    cases hs'.symm.trans hs
    exact ⟨lists', hin⟩
  let d : Directory := fun i => (lists i).map fun e => ⟨nameOf (s.dir.Object e), typeOf (s.dir.Object e)⟩
  have hp : d.entries.Perm (s.held.map fun o => ⟨nameOf o, typeOf o⟩) := by
    refine .trans (.of_eq ?_) (h.contents_perm.map _)
    simp [d, Directory.entries, contents, map_flatMap, Function.comp_def]
  refine ⟨d, fun i hi => ⟨_, h.holds.chain i hi, rfl⟩, hp, fun call n hn => ?_⟩
  have hl : d.entries.length = s.held.length := by simpa using hp.length_eq
  obtain ⟨hs, hr, hc, -, -, hpr⟩ := query_spec call (hl ▸ hn)
  exact ⟨hr, hc, hs.trans (by rw [hl]), hpr⟩

theorem directory_listed_two : ∃ s d,
    Run (dirStep id fun o => [o]) (DirOk fun o => [o]) dirInit
      [.lookup [0x41] false, .insert 0x41 8, .lookup [0x42] false, .insert 0x42 16] s ∧
    (Directory.entries d).Perm [⟨[0x42], [0x54]⟩, ⟨[0x41], [0x54]⟩] ∧
    (ntQueryDirectoryObject ⟨40, false⟩ d false 0).records ≠ [] := by
  obtain ⟨s, hr, hh⟩ : ∃ s, Run (dirStep id fun o => [o]) (DirOk fun o => [o]) dirInit
      [.lookup [0x41] false, .insert 0x41 8, .lookup [0x42] false, .insert 0x42 16] s ∧ s.held = [0x42, 0x41] :=
    ⟨_, .cons trivial rfl (.cons ⟨rfl, by decide, nofun, fun _ => ⟨by decide, nofun⟩⟩ rfl
      (.cons trivial rfl (.single ⟨rfl, by decide, nofun, fun _ => by decide⟩ rfl))), rfl⟩
  obtain ⟨d, -, hp, hq⟩ := directory_listed _ _ (fun _ => [0x54]) hr
  rw [hh] at hp
  refine ⟨s, d, hr, hp, ?_⟩
  have hl : 0 < d.entries.length := by rw [hp.length_eq]; decide
  refine (hq ⟨40, false⟩ 0 (Nat.zero_le _)).2.2.2 d.entries[0] (getElem?_eq_getElem hl) ?_
  have he := hp.subset (getElem_mem hl)
  simp only [map_cons, map_nil, mem_cons, not_mem_nil, or_false] at he
  rcases he with he | he <;> rw [he] <;> decide

end FreeNT.Ob
