import Mathlib.Data.List.Chain
import FreeNT.FsRtl.McbRun

/-!
# The runs and holes of an MCB

An MCB stores its runs only. `FsRtlGetNextBaseMcbEntry` puts the holes between them, and so do, each for itself,
`FsRtlLookupLastBaseMcbEntryAndIndex` and, through the enumeration, `FsRtlNumberOfRunsInBaseMcb` and
`FsRtlLookupBaseMcbEntry`. What is enumerated is a partition of the blocks up to the end of the last run
(`withHoles_partition`), and the four routines agree on it (`mcbEnumeration`), after any queries before.
-/

namespace FreeNT.FsRtl

open SplayTree FreeNT.Rtl FreeNT.Rtl.SplayTable List Option

variable {mcb mcb' : BaseMcb} {xs ys zs : List LargeMcbMappingEntry} {e : LargeMcbMappingEntry}
  {runs : List McbRun}
  {last v : Int64}

/-! ## The partition -/

/-- The block after the run, or hole. -/
def McbRun.endVbn (run : McbRun) : Int64 := run.Vbn + run.SectorCount

/-- The run is one of those that are stored. -/
def IsStored (xs : List LargeMcbMappingEntry) (run : McbRun) : Prop := ∃ e ∈ xs, e.run = run

/-- The hole is apart from the run. -/
def Apart (hole : McbRun) (e : LargeMcbMappingEntry) : Prop := e.RunEndVbn ≤ hole.Vbn ∨ hole.endVbn ≤ e.RunStartVbn

/-- The runs `xs` with the holes between them, from the block `last` on. -/
structure Partition (last : Int64) (xs : List LargeMcbMappingEntry) (runs : List McbRun) : Prop where
  first : ∀ run ∈ runs.head?, run.Vbn = last
  next : runs.IsChain fun a b => b.Vbn = a.endVbn
  nonempty : ∀ run ∈ runs, last ≤ run.Vbn ∧ run.Vbn < run.endVbn
  sorted : runs.Pairwise fun a b => a.endVbn ≤ b.Vbn
  holes : runs.IsChain fun a b => IsStored xs a ∨ IsStored xs b
  kind : ∀ run ∈ runs, IsStored xs run ∨ run.Lbn = -1 ∧ ∀ e ∈ xs, Apart run e
  stored : ∀ e ∈ xs, e.run ∈ runs
  last : runs.getLast? = xs.getLast?.map (·.run)

lemma endVbn_run : e.run.endVbn = e.RunEndVbn := add_sub_vbn e.RunStartVbn e.RunEndVbn

lemma IsStored.cons {run : McbRun} (h : IsStored xs run) : IsStored (e :: xs) run := by
  obtain ⟨f, hf, rfl⟩ := h
  exact ⟨f, mem_cons_of_mem e hf, rfl⟩

namespace Partition

lemma nil : Partition last [] [] := by refine ⟨nofun, .nil, nofun, .nil, .nil, nofun, nofun, rfl⟩

lemma cons (h : Partition e.RunEndVbn xs runs) (hlt : e.RunStartVbn < e.RunEndVbn) :
    Partition e.RunStartVbn (e :: xs) (e.run :: runs) where
  first run hrn := by
    cases hrn
    rfl
  next := isChain_cons.mpr ⟨fun run hrn => by rw [endVbn_run]; exact h.first run hrn, h.next⟩
  nonempty run hrn := by
    rcases mem_cons.mp hrn with rfl | hrn
    · exact ⟨Int64.le_refl _, by rw [endVbn_run]; exact hlt⟩
    · obtain ⟨hle, hr⟩ := h.nonempty run hrn
      exact ⟨Int64.le_trans (Int64.le_of_lt hlt) hle, hr⟩
  sorted := pairwise_cons.mpr ⟨fun run hrn => by rw [endVbn_run]; exact (h.nonempty run hrn).1, h.sorted⟩
  holes := isChain_cons.mpr ⟨fun _ _ => .inl ⟨e, mem_cons_self, rfl⟩, h.holes.imp fun _ _ =>
    Or.imp IsStored.cons IsStored.cons⟩
  kind run hrn := by
    rcases mem_cons.mp hrn with rfl | hrn
    · exact .inl ⟨e, mem_cons_self, rfl⟩
    have ha := (h.nonempty run hrn).1
    refine (h.kind run hrn).imp IsStored.cons fun hh => ⟨hh.1, fun f hf => ?_⟩
    rcases mem_cons.mp hf with rfl | hf
    · exact .inl ha
    · exact hh.2 f hf
  stored f hf := by
    rcases mem_cons.mp hf with rfl | hf
    · exact mem_cons_self
    · exact mem_cons_of_mem _ (h.stored f hf)
  last := by
    have hl := h.last
    cases xs with
    | nil =>
      rw [getLast?_nil, map_none, getLast?_eq_none_iff] at hl
      rw [hl]
      rfl
    | cons f xs =>
      cases runs with
      | nil => exact absurd hl (by simp)
      | cons run runs =>
        exact hl

lemma hole (h : Partition e.RunStartVbn (e :: xs) (e.run :: runs)) (hok : RunsOk (e :: xs))
    (hlt : last < e.RunStartVbn) :
    Partition last (e :: xs) (⟨last, -1, e.RunStartVbn - last⟩ :: e.run :: runs) := by
  obtain ⟨hole, hh⟩ : ∃ hole : McbRun, hole = ⟨last, -1, e.RunStartVbn - last⟩ := ⟨_, rfl⟩
  have he : hole.endVbn = e.RunStartVbn := by
    rw [hh]
    exact add_sub_vbn last e.RunStartVbn
  have hvbn : hole.Vbn = last := by rw [hh]
  have hl : hole.Lbn = -1 := by rw [hh]
  rw [← hh]
  refine ⟨fun run hrn => ?_, ?_, fun run hrn => ?_, ?_, ?_, fun run hrn => ?_, fun f hf => ?_, ?_⟩
  · cases hrn
    exact hvbn
  · exact isChain_cons_cons.mpr ⟨he.symm, h.next⟩
  · rcases mem_cons.mp hrn with rfl | hrn
    · rw [hvbn, he]
      exact ⟨Int64.le_refl _, hlt⟩
    · obtain ⟨hle, hr⟩ := h.nonempty run hrn
      exact ⟨Int64.le_trans (Int64.le_of_lt hlt) hle, hr⟩
  · exact pairwise_cons.mpr ⟨fun run hrn => by rw [he]; exact (h.nonempty run hrn).1, h.sorted⟩
  · exact isChain_cons_cons.mpr ⟨.inr ⟨e, mem_cons_self, rfl⟩, h.holes⟩
  · rcases mem_cons.mp hrn with rfl | hrn
    · refine .inr ⟨hl, fun f hf => .inr ?_⟩
      rw [he]
      rcases mem_cons.mp hf with rfl | hf
      · exact Int64.le_refl _
      · have ha := (pairwise_cons.mp hok.sorted).1 f hf
        exact Int64.le_trans (Int64.le_of_lt (hok.bounds e mem_cons_self).2) ha
    · exact h.kind run hrn
  · exact mem_cons_of_mem _ (h.stored f hf)
  · rw [getLast?_cons_cons]
    exact h.last

end Partition

lemma withHoles_partition (h : RunsOk xs) (hl : ∀ e ∈ xs, last ≤ e.RunStartVbn) :
    Partition last xs (withHoles last xs) := by
  induction xs generalizing last with
  | nil => exact .nil
  | cons e xs ih =>
    obtain ⟨ha, -⟩ := pairwise_cons.mp h.sorted
    have hr := (ih (h.sublist (sublist_cons_self e xs)) ha).cons (h.bounds e mem_cons_self).2
    rw [withHoles, holeBefore]
    by_cases hlt : last < e.RunStartVbn
    · rw [if_pos hlt]
      exact hr.hole h hlt
    have heq : last = e.RunStartVbn := by
      grind
    rw [if_neg hlt, heq]
    exact hr

/-! ## Lookups -/

lemma Partition.end_le_last (h : Partition last xs runs) {run : McbRun} (hr : run ∈ runs) :
    ∃ f ∈ runs.getLast?, run.endVbn ≤ f.endVbn := by
  obtain ⟨f, hf⟩ : ∃ f, runs.getLast? = some f := by
    cases hl : runs.getLast? with
    | none => simp [getLast?_eq_none_iff.mp hl] at hr
    | some f => exact ⟨f, rfl⟩
  refine ⟨f, hf, ?_⟩
  obtain ⟨init, rfl⟩ := getLast?_eq_some_iff.mp hf
  rcases mem_append.mp hr with hin | hin
  · have hs := (pairwise_append.mp h.sorted).2.2 run hin f mem_cons_self
    exact Int64.le_trans hs (Int64.le_of_lt (h.nonempty f (by simp)).2)
  · rw [mem_singleton.mp hin]
    exact Int64.le_refl _

lemma lookupIn_result_iff {i : Nat} : (lookupIn v runs i).Result ↔ ∃ run ∈ runs, v < run.endVbn := by
  induction runs generalizing i with
  | nil => simp [lookupIn]
  | cons run runs ih =>
    rw [lookupIn]
    by_cases hv : v < run.Vbn + run.SectorCount
    · rw [if_pos hv]
      exact iff_of_true rfl ⟨run, mem_cons_self, hv⟩
    rw [if_neg hv, ih]
    constructor
    · rintro ⟨r, hr, hlt⟩
      exact ⟨r, mem_cons_of_mem run hr, hlt⟩
    rintro ⟨r, hr, hlt⟩
    rcases mem_cons.mp hr with rfl | hr
    · exact absurd hlt hv
    · exact ⟨r, hr, hlt⟩

lemma lookupIn_of_mem {i j : Nat} {run : McbRun} (hs : runs.Pairwise fun a b => a.endVbn ≤ b.Vbn)
    (hr : runs[j]? = some run) (hle : run.Vbn ≤ v) (hlt : v < run.endVbn) :
      lookupIn v runs i = run.lookup v (i + j) := by
  induction runs generalizing i j with
  | nil => cases hr
  | cons a runs ih =>
    obtain ⟨ha, hs⟩ := pairwise_cons.mp hs
    rw [lookupIn]
    cases j with
    | zero =>
      cases hr
      exact if_pos hlt
    | succ j =>
      have hb : ¬ v < a.Vbn + a.SectorCount := Int64.not_lt.mpr (Int64.le_trans (ha run (mem_of_getElem? hr)) hle)
      rw [if_neg hb, ih hs hr, Nat.add_right_comm, Nat.add_assoc]

/-! ## Counting -/

lemma numberOfRunsLoop_spec {k i : Nat} (h : McbStored mcb xs) (hi : i ≤ (withHoles 0 xs).length)
    (hf : (withHoles 0 xs).length - i < k) :
    ∃ mcb', numberOfRunsLoop k mcb i i = some (mcb', (withHoles 0 xs).length) ∧ McbStored mcb' xs := by
  have hl := h.length_le
  have hh := length_withHoles 0 xs
  induction k generalizing mcb i with
  | zero => omega
  | succ k ih =>
    obtain ⟨mcb', hg, hok, -⟩ := @getNext_spec _ _ i h (by omega)
    rw [numberOfRunsLoop, hg, do_some]
    by_cases hlt : i < (withHoles 0 xs).length
    · rw [getElem?_eq_getElem hlt, answer_some]
      rw [Nat.mod_eq_of_lt (show i + 1 < 2 ^ 32 by omega)]
      exact ih hok hlt (by omega)
    rw [getElem?_eq_none (Nat.not_lt.mp hlt)]
    have heq : i = (withHoles 0 xs).length := by omega
    exact ⟨mcb', by rw [← heq]; rfl, hok⟩

lemma lookupLastLoop_spec {t : LargeMcbMapping} {n i j found : Nat} (h : At t n ys e zs)
    (hid : i + 2 * (zs.length + 1) < 2 ^ 32) (hf : zs.length + 1 < j) :
    ∃ t' n' ws z, lookupLastLoop j t n i last found = some (t', n', i + (withHoles last (e :: zs)).length) ∧
      At t' n' ws z [] ∧ ws ++ [z] = ys ++ e :: zs := by
  induction j generalizing t n ys e zs i last found with
  | zero => omega
  | succ j ih =>
    have hh : (if e.RunStartVbn > last then (i + 1) % 2 ^ 32 else i) = i + (holeBefore last e).length := by
      rw [holeBefore]
      split
      · rw [Nat.mod_eq_of_lt (by omega)]
        rfl
      · rfl
    have hb : (holeBefore last e).length ≤ 1 := by
      rw [holeBefore]
      split
      · exact Nat.le_refl 1
      · exact Nat.zero_le 1
    rw [lookupLastLoop, if_neg h.ne_zero, h.userData, do_some]
    dsimp only
    rw [hh, Nat.mod_eq_of_lt (show i + (holeBefore last e).length + 1 < 2 ^ 32 by omega), withHoles,
      length_append, length_cons]
    cases zs with
    | nil =>
      obtain _ | j := j
      · simp at hf
      rw [h.enumerate_last, do_some]
      exact ⟨t, n, ys, e, rfl, h, rfl⟩
    | cons z zs =>
      obtain ⟨t1, n1, he, hat⟩ := h.enumerate_next
      simp only [length_cons] at hid hf
      obtain ⟨t', n', ws, w, hlp, hat', hl⟩ := @ih _ _ _ e.RunEndVbn _ _
        (i + (holeBefore last e).length + 1) n hat (by omega) (by omega)
      refine ⟨t', n', ws, w, ?_, hat', ?_⟩
      · rw [he, do_some, hlp, Nat.add_assoc, Nat.add_assoc, Nat.add_comm 1]
      · rw [hl, append_assoc, singleton_append]

/-- `FsRtlLookupLastBaseMcbEntryAndIndex` gives the last block and the number of the last run. -/
lemma lookupLast_spec (h : McbStored mcb xs) : ∃ mcb', fsRtlLookupLastBaseMcbEntryAndIndex mcb =
        some (mcb', xs.getLast?.map fun e => ⟨e.RunEndVbn - 1, e.StartingLbn + (e.RunEndVbn - e.RunStartVbn) - 1,
          (withHoles 0 xs).length - 1⟩) ∧ McbStored mcb' xs := by
  obtain ⟨ns, hl⟩ := h.linked
  have hln := h.length_le
  have hh := length_withHoles 0 xs
  cases xs with
  | nil =>
    refine ⟨{ mcb with Mapping := mcb.Mapping }, ?_, h⟩
    rw [fsRtlLookupLastBaseMcbEntryAndIndex, hl.enumerate_empty]
    rfl
  | cons e xs =>
    obtain ⟨t, n, he, hat⟩ := hl.enumerate_first
    simp only [length_cons] at hln
    obtain ⟨t', n', ws, z, hlp, hat', hls⟩ := @lookupLastLoop_spec [] xs e 0 t n 0 loopBound 0 hat (by omega)
      (by rw [loopBound]; omega)
    have hp : 0 < (withHoles 0 (e :: xs)).length := by
      rw [withHoles, length_append, length_cons]
      omega
    have hid : (0 + (withHoles 0 (e :: xs)).length + 2 ^ 32 - 1) % 2 ^ 32 =
      (withHoles 0 (e :: xs)).length - 1 := by
      simp only [length_cons] at hh
      omega
    rw [nil_append] at hls
    refine ⟨{ mcb with Mapping := t' }, ?_, ?_⟩
    · rw [fsRtlLookupLastBaseMcbEntryAndIndex, he, do_some]
      dsimp only
      rw [hlp, do_some]
      rw [if_neg hat'.ne_zero, hat'.userData, do_some, hid, ← hls, getLast?_concat]
      rfl
    obtain ⟨l, r, hl', -⟩ := hat'
    rw [hls] at hl'
    exact ⟨⟨_, hl'⟩, h.nonneg⟩

/-! ## Queries -/

/-- The queries; they change the shape of the table only. -/
inductive McbQuery where
  | getNext (runIndex : Nat)
  | lookup (vbn : Int64)
  | lookupLast
  | numberOfRuns

def mcbQuery (mcb : BaseMcb) : McbQuery → Option BaseMcb
  | .getNext runIndex => (fsRtlGetNextBaseMcbEntry mcb runIndex).map (·.1)
  | .lookup vbn => (fsRtlLookupBaseMcbEntry mcb vbn).map (·.1)
  | .lookupLast => (fsRtlLookupLastBaseMcbEntryAndIndex mcb).map (·.1)
  | .numberOfRuns => (fsRtlNumberOfRunsInBaseMcb mcb).map (·.1)

/-- `RunIndex` is a `ULONG`. -/
def McbQueryValid (_ : BaseMcb) : McbQuery → Prop
  | .getNext runIndex => runIndex < 2 ^ 32
  | _ => True

lemma numberOfRuns_spec (h : McbStored mcb xs) :
    ∃ mcb', fsRtlNumberOfRunsInBaseMcb mcb = some (mcb', (withHoles 0 xs).length) ∧ McbStored mcb' xs := by
  have hl := h.length_le
  have hh := length_withHoles 0 xs
  exact numberOfRunsLoop_spec h (Nat.zero_le _) (by rw [loopBound]; omega)

lemma mcbQuery_stored {q : McbQuery} (h : McbStored mcb xs) (hv : McbQueryValid mcb q)
    (hs : mcbQuery mcb q = some mcb') : McbStored mcb' xs := by
  cases q with
  | getNext i =>
    obtain ⟨mcb1, heq, hok, -⟩ := getNext_spec h hv
    rw [mcbQuery, heq] at hs
    cases hs
    exact hok
  | lookup vb =>
    obtain ⟨mcb1, heq, hok, -⟩ := lookupStored_spec h vb
    rw [mcbQuery, heq] at hs
    cases hs
    exact hok
  | lookupLast =>
    obtain ⟨mcb1, heq, hok⟩ := lookupLast_spec h
    rw [mcbQuery, heq] at hs
    cases hs
    exact hok
  | numberOfRuns =>
    obtain ⟨mcb1, heq, hok⟩ := numberOfRuns_spec h
    rw [mcbQuery, heq] at hs
    cases hs
    exact hok

/-- The last block of the last run, and its number. -/
def lastEntry (runs : List McbRun) : Option McbLast :=
  runs.getLast?.map fun run => ⟨run.Vbn + run.SectorCount - 1, run.Lbn + run.SectorCount - 1, runs.length - 1⟩

/-- An MCB of runs that are not empty, in order and without overlap, is enumerated as a partition:
its runs and the holes between them. After any queries, the number of runs, the last run and the
lookup of a block agree with it. -/
theorem mcbEnumeration (hlinked : ∃ nodes, Linked mcb.Mapping nodes xs) (hruns : RunsOk xs) :
    ∃ runs : List McbRun, Partition 0 xs runs ∧ ∀ queries mcb', Run mcbQuery McbQueryValid mcb queries mcb' →
        (∀ i < 2 ^ 32, ∃ mcb'', fsRtlGetNextBaseMcbEntry mcb' i = some (mcb'', answer runs[i]?)) ∧
        (∃ mcb'', fsRtlNumberOfRunsInBaseMcb mcb' = some (mcb'', runs.length)) ∧
        (∃ mcb'', fsRtlLookupLastBaseMcbEntryAndIndex mcb' = some (mcb'', lastEntry runs)) ∧
        ∀ v, ∃ mcb'' found, fsRtlLookupBaseMcbEntry mcb' v = some (mcb'', found) ∧
          (found.Result = true ↔ ∃ run ∈ runs.getLast?, v < run.endVbn) ∧
          ∀ (i : Nat) (run : McbRun), runs[i]? = some run → run.Vbn ≤ v → v < run.endVbn →
            found = run.lookup v i := by
  have hp : Partition 0 xs (withHoles 0 xs) := withHoles_partition hruns fun e he => (hruns.bounds e he).1
  refine ⟨_, hp, fun queries mcb' hr => ?_⟩
  have h : McbStored mcb' xs := hr.invariant (McbStored · xs) (fun h hvalid hs => mcbQuery_stored h hvalid hs)
    ⟨hlinked, hruns.nonneg⟩
  refine ⟨fun i hi => ?_, ?_, ?_, fun v => ?_⟩
  · obtain ⟨mcb'', hg, -⟩ := getNext_spec h hi
    exact ⟨mcb'', hg⟩
  · obtain ⟨mcb'', hn, -⟩ := numberOfRuns_spec h
    exact ⟨mcb'', hn⟩
  · obtain ⟨mcb'', hl, -⟩ := lookupLast_spec h
    refine ⟨mcb'', ?_⟩
    rw [hl, lastEntry, hp.last, Option.map_map]
    congr 3
    funext e
    exact congrArg (McbLast.mk · _ _) (congrArg (· - 1) endVbn_run.symm)
  obtain ⟨mcb'', hl, -⟩ := lookupStored_spec h v
  refine ⟨mcb'', _, hl, ?_, fun i run hg hle hlt => ?_⟩
  · rw [lookupIn_result_iff]
    constructor
    · rintro ⟨run, hm, hlt⟩
      obtain ⟨f, hf, hle⟩ := hp.end_le_last hm
      exact ⟨f, hf, Int64.lt_of_lt_of_le hlt hle⟩
    · rintro ⟨run, hm, hlt⟩
      exact ⟨run, mem_of_getLast? hm, hlt⟩
  · rw [lookupIn_of_mem hp.sorted hg hle hlt, Nat.zero_add]

/-- One run that does not start at block 0. -/
theorem mcbEnumeration_hole : ∃ mcb runs mcb',
    Run mcbStep McbValid fsRtlInitializeBaseMcb [.add 5 100 10 4096] mcb ∧ Partition 0 [⟨5, 15, 100⟩] runs ∧
      fsRtlNumberOfRunsInBaseMcb mcb = some (mcb', runs.length) := by
  obtain ⟨mcb, hr, hrn, hc⟩ : ∃ mcb, Run mcbStep McbValid fsRtlInitializeBaseMcb [.add 5 100 10 4096] mcb ∧
      mcb.runs = [⟨5, 15, 100⟩] ∧ mcb.PairCount = 1 := by
    refine ⟨_, .single ⟨fun _ _ => by decide, ?_⟩ rfl, rfl, rfl⟩
    intro mcb₁ i mcb₂ nr hl hm
    cases hl
    cases hm
    decide
  obtain ⟨xs, h⟩ := mcbRun_ok hr
  obtain ⟨e, rfl⟩ := length_eq_one_iff.mp (h.count.symm.trans hc)
  have he := (runs_mem h e).mpr mem_cons_self
  rw [hrn, mem_singleton] at he
  subst he
  obtain ⟨runs, hp, hq⟩ := mcbEnumeration h.linked h.runs
  obtain ⟨-, ⟨mcb', hn⟩, -⟩ := hq [] mcb (.nil mcb)
  exact ⟨mcb, runs, mcb', hr, hp, hn⟩

end FreeNT.FsRtl
