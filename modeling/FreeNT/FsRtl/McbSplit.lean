import FreeNT.FsRtl.McbRun

/-!
# Splitting an MCB

`FsRtlSplitBaseMcb` gives every run that ends after the split point the same start. The blocks of a
crossing run before the point are lost, and all later runs are stretched down to the point
without regard to their logical blocks. `splitMcb_iff` says when nothing of this shows.
-/

namespace FreeNT.FsRtl

open SplayTree FreeNT.Rtl FreeNT.Rtl.SplayTable List Option Int64 LargeMcbMappingEntry

/-- A run as the loop leaves it. -/
def splitRun (vbn amount : Int64) (e : LargeMcbMappingEntry) : LargeMcbMappingEntry :=
  if vbn ≥ e.RunEndVbn then e else ⟨vbn + amount, e.RunEndVbn + amount, e.StartingLbn⟩

variable {mcb : BaseMcb} {xs ys zs : List LargeMcbMappingEntry} {e : LargeMcbMappingEntry}
  {vbn amount l v a b : Int64}

lemma splitLoop_spec {t : LargeMcbMapping} {n j : Nat} (h : At t n ys e zs)
    (hno : ∀ f ∈ e :: zs, ¬ vbn ≥ f.RunEndVbn → f.RunEndVbn < f.RunEndVbn + amount)
    (hfl : zs.length + 1 < j) :
    ∃ t' ns, splitLoop vbn amount j t n = some t' ∧
      Linked t' ns (ys ++ splitRun vbn amount e :: zs.map (splitRun vbn amount)) := by
  induction j generalizing t n ys e zs with
  | zero => omega
  | succ j ih =>
    -- the run is written, or left as it is, and the next one follows
    have hn {t : LargeMcbMapping} {f : LargeMcbMappingEntry} (h : At t n ys f zs) :
        ∃ t' ns, (rtlEnumerateGenericTable t false).bind (fun x => splitLoop vbn amount j x.1 x.2) = some t' ∧
          Linked t' ns (ys ++ f :: zs.map (splitRun vbn amount)) := by
      cases zs with
      | nil =>
        obtain ⟨l, r, hl, -⟩ := id h
        obtain _ | j := j
        · simp at hfl
        exact ⟨t, _, by rw [h.enumerate_last]; rfl, hl⟩
      | cons z zs =>
        obtain ⟨t1, n1, he, hat⟩ := h.enumerate_next
        obtain ⟨t', ns, hlp, hl⟩ := ih hat (fun f hf =>
          hno f (mem_cons_of_mem _ hf)) (by simp only [length_cons] at hfl; omega)
        refine ⟨t', ns, by rw [he, bind_some, hlp], ?_⟩
        rwa [append_assoc, singleton_append] at hl
    rw [splitLoop, if_neg h.ne_zero, h.userData, do_some, splitRun]
    by_cases hs : vbn ≥ e.RunEndVbn
    · rw [if_pos hs, if_pos hs]
      exact hn h
    · rw [if_neg hs, if_neg hs, if_neg (not_not.mpr (hno e mem_cons_self hs))]
      exact hn h.write

/-! ## What is found after the split -/

/-- The logical block that the first run, or hole, that does not end before the block gives for it. -/
def lbnIn (v : Int64) (runs : List McbRun) : Int64 := (lookupIn v runs 0).Lbn

lemma lookupIn_index (v : Int64) (runs : List McbRun) (i : Nat) : (lookupIn v runs i).Lbn = lbnIn v runs := by
  rw [lbnIn]
  generalize 0 = j
  induction runs generalizing i j with
  | nil => rfl
  | cons run runs ih =>
    rw [lookupIn, lookupIn]
    by_cases hv : v < run.Vbn + run.SectorCount
    · rw [if_pos hv, if_pos hv]
      rfl
    · rw [if_neg hv, if_neg hv, ih]

lemma lbnIn_cons (v : Int64) (run : McbRun) (runs : List McbRun) :
    lbnIn v (run :: runs) = if v < run.Vbn + run.SectorCount then (run.lookup v 0).Lbn else lbnIn v runs := by
  rw [lbnIn, lookupIn]
  by_cases hv : v < run.Vbn + run.SectorCount
  · rw [if_pos hv, if_pos hv]
  · rw [if_neg hv, if_neg hv, lookupIn_index]

lemma lbnIn_withHoles_cons (v l : Int64) (e : LargeMcbMappingEntry) (xs : List LargeMcbMappingEntry) :
    lbnIn v (withHoles l (e :: xs)) =
      if l < e.RunStartVbn ∧ v < e.RunStartVbn then -1
      else if v < e.RunEndVbn then e.lbn v else lbnIn v (withHoles e.RunEndVbn xs) := by
  have hr : lbnIn v (e.run :: withHoles e.RunEndVbn xs) =
      if v < e.RunEndVbn then e.lbn v else lbnIn v (withHoles e.RunEndVbn xs) := by
    rw [lbnIn_cons, run]
    rw [add_sub_vbn]
    rfl
  rw [withHoles, holeBefore]
  by_cases hh : l < e.RunStartVbn
  swap
  · have hn : ¬(l < e.RunStartVbn ∧ v < e.RunStartVbn) := fun h => hh h.1
    rw [if_neg hh, nil_append, hr, if_neg hn]
  rw [if_pos hh, singleton_append, lbnIn_cons]
  rw [add_sub_vbn, hr]
  by_cases hv : v < e.RunStartVbn
  · rw [if_pos hv, if_pos ⟨hh, hv⟩]
    rfl
  · have hn : ¬(l < e.RunStartVbn ∧ v < e.RunStartVbn) := fun h => hv h.2
    rw [if_neg hv, if_neg hn]

/-- The runs that end at the split point or before. -/
def lowerRuns (vbn : Int64) (xs : List LargeMcbMappingEntry) : List LargeMcbMappingEntry :=
  xs.filter fun e => e.RunEndVbn ≤ vbn

lemma mem_lowerRuns : e ∈ lowerRuns vbn xs ↔ e ∈ xs ∧ e.RunEndVbn ≤ vbn := by
  rw [lowerRuns, mem_filter, decide_eq_true_iff]

lemma lbnIn_split_lower (h : RunsOk xs) (hls : l ≤ v) (hv : v < vbn + amount) :
    lbnIn v (withHoles l (xs.map (splitRun vbn amount))) = lbnOf (lowerRuns vbn xs) v := by
  induction xs generalizing l with
  | nil => rfl
  | cons e xs ih =>
    have hok : RunsOk xs := h.sublist (sublist_cons_self e xs)
    obtain ⟨ha, -⟩ := pairwise_cons.mp h.sorted
    have hb := h.bounds e mem_cons_self
    rw [map_cons, lbnIn_withHoles_cons, splitRun]
    by_cases hl : vbn ≥ e.RunEndVbn
    · rw [if_pos hl, lowerRuns, filter_cons_of_pos (by simpa using hl), ← lowerRuns]
      by_cases hs : v < e.RunStartVbn
      · rw [if_pos ⟨Int64.lt_of_le_of_lt hls hs, hs⟩, RunsOk.lbnOf_none]
        intro f hf hh
        rcases mem_cons.mp hf with rfl | hf
        · exact absurd hh.1 (Int64.not_le.mpr hs)
        have := ha f (mem_lowerRuns.mp hf).1
        simp only [LargeMcbMappingEntry.Has] at hh
        grind
      rw [if_neg fun hc => hs hc.2]
      by_cases he : v < e.RunEndVbn
      · rw [if_pos he, lbnOf, find?_cons_of_pos (by simpa using ⟨Int64.not_lt.mp hs, he⟩)]
      · rw [if_neg he, ih hok (Int64.not_lt.mp he), lbnOf_cons_of_not fun hh => he hh.2]
    · -- this run and all that follow it now start after the block
      rw [if_neg hl, if_pos ⟨Int64.lt_of_le_of_lt hls hv, hv⟩, RunsOk.lbnOf_none]
      intro f hf
      obtain ⟨hf, hle⟩ := mem_lowerRuns.mp hf
      rcases mem_cons.mp hf with rfl | hf
      · exact absurd hle hl
      have h2 := hok.bounds f hf
      grind

/-- From there on, the first run that does not end before the block is found, as if it started at
the split point. -/
lemma lbnIn_split_upper (h : RunsOk xs) (hp : vbn < vbn + amount) (hv : vbn + amount ≤ v) :
    lbnIn v (withHoles l (xs.map (splitRun vbn amount))) =
      match xs.find? fun e => vbn < e.RunEndVbn ∧ v < e.RunEndVbn + amount with
      | some e => LargeMcbMappingEntry.lbn { e with RunStartVbn := vbn + amount } v
      | none => -1 := by
  induction xs generalizing l with
  | nil => rfl
  | cons e xs ih =>
    have hok : RunsOk xs := h.sublist (sublist_cons_self e xs)
    have hb := h.bounds e mem_cons_self
    rw [map_cons, lbnIn_withHoles_cons, splitRun, ih hok]
    by_cases hl : vbn ≥ e.RunEndVbn
    · have hn : ¬(vbn < e.RunEndVbn ∧ v < e.RunEndVbn + amount) := fun hc => Int64.not_lt.mpr hl hc.1
      have hs : ¬(l < e.RunStartVbn ∧ v < e.RunStartVbn) := by grind
      have he : ¬ v < e.RunEndVbn := by grind
      rw [if_pos hl, if_neg hs, if_neg he, find?_cons_of_neg (by simpa using hn)]
    have hs : ¬(l < vbn + amount ∧ v < vbn + amount) := fun hc => Int64.not_lt.mpr hv hc.2
    rw [if_neg hl]
    rw [if_neg hs]
    by_cases he : v < e.RunEndVbn + amount
    · rw [if_pos he, find?_cons_of_pos (by simpa using ⟨Int64.not_le.mp hl, he⟩)]
      rfl
    · have hn : ¬(vbn < e.RunEndVbn ∧ v < e.RunEndVbn + amount) := fun hc => he hc.2
      rw [if_neg he, find?_cons_of_neg (by simpa using hn)]

/-! ## Block numbers that do not overflow -/

lemma toInt_add_of (ha : 0 ≤ a) (hamount : 0 < amount) (hno : NoOverflow a amount) :
    (a + amount).toInt = a.toInt + amount.toInt := by
  rw [NoOverflow] at hno
  rw [le_iff_toInt_le] at ha
  rw [lt_iff_toInt_lt] at hamount
  simp only [toInt_zero] at ha hamount
  rw [toInt_add, Int.bmod_eq_of_le (by omega) (by omega)]

lemma add_lt_add_iff (ha : 0 ≤ a) (hb : 0 ≤ b) (hamount : 0 < amount) (hna : NoOverflow a amount)
    (hnb : NoOverflow b amount) : a + amount < b + amount ↔ a < b := by
  rw [lt_iff_toInt_lt, lt_iff_toInt_lt, toInt_add_of ha hamount hna, toInt_add_of hb hamount hnb]
  omega

lemma NoOverflow.mono (hab : a ≤ b) (hb : NoOverflow b amount) : NoOverflow a amount := by
  rw [le_iff_toInt_le] at hab
  rw [NoOverflow] at *
  omega

/-! ## When the split is right -/

/-- The runs that end after the split point start at it, or count as holes. -/
def Splittable (vbn : Int64) (e : LargeMcbMappingEntry) : Prop :=
  vbn < e.RunEndVbn → e.RunStartVbn = vbn ∨ e.StartingLbn = -1

section Split

variable (h : RunsOk xs) (hvbn : 0 ≤ vbn) (hamount : 0 < amount) (hruns : ∀ e ∈ xs, NoOverflow e.RunEndVbn amount)

include h hvbn hamount hruns

lemma find_split (he : e ∈ xs) (hh : e.Has v) (hv : vbn ≤ v) :
    (xs.find? fun f => vbn < f.RunEndVbn ∧ v + amount < f.RunEndVbn + amount) = some e := by
  have hv0 := Int64.le_trans hvbn hv
  have hen (f : LargeMcbMappingEntry) (hf : f ∈ xs) : v + amount < f.RunEndVbn + amount ↔ v < f.RunEndVbn :=
    add_lt_add_iff hv0 (h.end_nonneg hf) hamount ((hruns e he).mono (Int64.le_of_lt hh.2)) (hruns f hf)
  have hp : ∀ f ∈ xs, (vbn < f.RunEndVbn ∧ v + amount < f.RunEndVbn + amount) ↔ v < f.RunEndVbn := by
    intro f hf
    rw [hen f hf, and_iff_right_iff_imp]
    exact Int64.lt_of_le_of_lt hv
  obtain ⟨ys, zs, rfl⟩ := append_of_mem he
  refine find?_eq_some_iff_append.mpr ⟨by simpa using (hp e he).mpr hh.2, ys, zs, rfl, fun f hf => ?_⟩
  -- the runs before it end before it starts
  have hb := (pairwise_append.mp h.sorted).2.2 f hf e mem_cons_self
  have hn := mt (hp f (mem_append_left _ hf)).mp (Int64.not_lt.mpr (Int64.le_trans hb hh.1))
  rw [Bool.not_eq_true', decide_eq_false_iff_not]
  exact hn

lemma split_lbn (hv : vbn ≤ v) (hno : NoOverflow v amount) (hsp : ∀ e ∈ xs, Splittable vbn e) :
    lbnIn (v + amount) (withHoles 0 (xs.map (splitRun vbn amount))) = lbnOf xs v := by
  have hv0 := Int64.le_trans hvbn hv
  have hn : NoOverflow vbn amount := hno.mono hv
  have hpn := (lt_add_iff hvbn hamount).mpr hn
  have hle : vbn + amount ≤ v + amount := by
    rw [← Int64.not_lt, add_lt_add_iff hv0 hvbn hamount hno hn]
    exact Int64.not_lt.mpr hv
  rw [lbnIn_split_upper h hpn hle]
  by_cases hf : ∃ e ∈ xs, e.Has v
  · obtain ⟨e, he, hh⟩ := hf
    rw [find_split h hvbn hamount hruns he hh hv, h.lbnOf_mem he hh]
    dsimp only [lbn]
    rcases hsp e he (Int64.lt_of_le_of_lt hv hh.2) with hs | hl
    · rw [hs]
      grind
    · rw [if_pos hl, if_pos hl]
  rw [RunsOk.lbnOf_none fun e he hh => hf ⟨e, he, hh⟩]
  cases hfn : xs.find? fun e => vbn < e.RunEndVbn ∧ v + amount < e.RunEndVbn + amount with
  | none => rfl
  | some e =>
    -- the run ends after the block but does not have it, so it does not start at the split point
    have he := mem_of_find?_eq_some hfn
    have hp := find?_some hfn
    simp only [decide_eq_true_eq] at hp
    rw [add_lt_add_iff hv0 (h.end_nonneg he) hamount hno (hruns e he)] at hp
    have hl : e.StartingLbn = -1 := by
      refine (hsp e he hp.1).resolve_left fun hs => hf ⟨e, he, ?_, hp.2⟩
      rw [hs]
      exact hv
    exact if_pos hl

lemma splittable_of_lbn (hv : ∀ v, vbn ≤ v → NoOverflow v amount →
    lbnIn (v + amount) (withHoles 0 (xs.map (splitRun vbn amount))) = lbnOf xs v) :
    ∀ e ∈ xs, Splittable vbn e := by
  intro e he hen
  have hb := h.bounds e he
  by_cases hl : e.StartingLbn = -1
  · exact Or.inr hl
  left
  -- the first block of the run after the split point
  let v := if vbn ≤ e.RunStartVbn then e.RunStartVbn else vbn
  have hle : vbn ≤ v := by grind
  have hh : e.Has v := by
    simp only [LargeMcbMappingEntry.Has]
    grind
  have hno : NoOverflow v amount := (hruns e he).mono (Int64.le_of_lt hh.2)
  have hn : NoOverflow vbn amount := hno.mono hle
  have hle' : vbn + amount ≤ v + amount := by
    rw [← Int64.not_lt, add_lt_add_iff (Int64.le_trans hvbn hle) hvbn hamount hno hn]
    exact Int64.not_lt.mpr hle
  have heq := hv v hle hno
  rw [lbnIn_split_upper h ((lt_add_iff hvbn hamount).mpr hn) hle', find_split h hvbn hamount hruns he hh hle,
    h.lbnOf_mem he hh] at heq
  dsimp only [lbn] at heq
  grind

lemma splitRuns_nonneg : RunsNonneg (xs.map (splitRun vbn amount)) := by
  intro f hf
  obtain ⟨e, he, rfl⟩ := mem_map.mp hf
  have hen := (lt_add_iff (h.end_nonneg he) hamount).mpr (hruns e he)
  rw [splitRun]
  split
  · exact h.nonneg e he
  · constructor <;> dsimp only <;> grind

lemma splitRuns_ok (hno : NoOverflow vbn amount) (hs : ∀ e ∈ xs, vbn < e.RunEndVbn → e.RunStartVbn = vbn) :
    RunsOk (xs.map (splitRun vbn amount)) := by
  have hnn := splitRuns_nonneg h hvbn hamount hruns
  have hp := (lt_add_iff hvbn hamount).mpr hno
  refine ⟨fun f hf => ⟨(hnn f hf).1, ?_⟩, pairwise_map.mpr (h.sorted.imp_of_mem ?_)⟩
  · obtain ⟨e, he, rfl⟩ := mem_map.mp hf
    rw [splitRun]
    split
    case isTrue => exact (h.bounds e he).2
    case isFalse hlt =>
      exact (add_lt_add_iff hvbn (h.end_nonneg he) hamount hno (hruns e he)).mpr (Int64.not_le.mp hlt)
  intro e f he hf hef
  -- only the later one of two runs can start at the split point
  have hl : vbn ≥ e.RunEndVbn := by
    by_contra hlt
    have hb' := h.bounds f hf
    grind
  rw [splitRun, if_pos hl, splitRun]
  split
  · exact hef
  · exact Int64.le_trans hl (Int64.le_of_lt hp)

end Split

lemma splitMcb_spec (h : McbOk mcb xs) (hvbn : 0 ≤ vbn) (hamount : 0 < amount)
    (hruns : ∀ e ∈ xs, NoOverflow e.RunEndVbn amount) :
    ∃ mcb', fsRtlSplitBaseMcb mcb vbn amount = some (mcb', true) ∧
      McbStored mcb' (xs.map (splitRun vbn amount)) ∧ mcb'.PairCount = mcb.PairCount := by
  obtain ⟨ns, hl⟩ := h.linked
  have hln := h.length_le
  have hnn := splitRuns_nonneg h.runs hvbn hamount hruns
  cases xs with
  | nil =>
    refine ⟨{ mcb with Mapping := mcb.Mapping }, ?_, ⟨⟨ns, hl⟩, hnn⟩, rfl⟩
    rw [fsRtlSplitBaseMcb, hl.enumerate_empty]
    rfl
  | cons e xs =>
    obtain ⟨t, n, he, hat⟩ := hl.enumerate_first
    have hfl : xs.length + 1 < loopBound := by
      simp only [length_cons] at hln
      simp only [loopBound]
      omega
    obtain ⟨t', ns', hlp, hl'⟩ := @splitLoop_spec _ _ _ vbn amount _ _ loopBound hat
      (fun f hf _ => (lt_add_iff (h.runs.end_nonneg hf) hamount).mpr (hruns f hf)) hfl
    refine ⟨{ mcb with Mapping := t' }, ?_, ⟨⟨ns', hl'⟩, hnn⟩, rfl⟩
    rw [fsRtlSplitBaseMcb, he, do_some]
    dsimp only
    rw [hlp]
    rfl

/-! ## Runs with splits -/

inductive McbSplitCall where
  | call (c : McbCall)
  | split (vbn amount : Int64)

def mcbSplitStep (mcb : BaseMcb) : McbSplitCall → Option BaseMcb
  | .call c => mcbStep mcb c
  | .split vbn amount => (fsRtlSplitBaseMcb mcb vbn amount).map (·.1)

/-- A split that overflows nothing. -/
structure SplitArgs (mcb : BaseMcb) (vbn amount : Int64) : Prop where
  vbn_nonneg : 0 ≤ vbn
  amount_pos : 0 < amount
  point : NoOverflow vbn amount
  runs : ∀ e ∈ mcb.runs, NoOverflow e.RunEndVbn amount

/-- The splits of a run are at the start of the last run that is stored, or behind it. -/
def McbSplitValid (mcb : BaseMcb) : McbSplitCall → Prop
  | .call c => McbValid mcb c
  | .split vbn amount => SplitArgs mcb vbn amount ∧ ∀ e ∈ mcb.runs, vbn < e.RunEndVbn → e.RunStartVbn = vbn

lemma mcbSplitRun_ok {calls : List McbSplitCall}
    (hr : Run mcbSplitStep McbSplitValid fsRtlInitializeBaseMcb calls mcb) : ∃ xs, McbOk mcb xs := by
  refine hr.invariant (fun mcb => ∃ xs, McbOk mcb xs) ?_ ⟨[], mcbOk_init⟩
  rintro mcb call mcb' ⟨xs, h⟩ hvalid hs
  cases call with
  | call c =>
    obtain ⟨mcb1, xs', heq, hok⟩ := mcbStep_ok h hvalid
    cases heq.symm.trans hs
    exact ⟨xs', hok⟩
  | split vbn amount =>
    obtain ⟨⟨hvbn, hamount, hno, he⟩, hsp⟩ := hvalid
    simp only [runs_mem h] at he hsp
    obtain ⟨mcb1, heq, hst, hp⟩ := splitMcb_spec h hvbn hamount he
    rw [mcbSplitStep, heq] at hs
    cases hs
    refine ⟨_, hst.linked, splitRuns_ok h.runs hvbn hamount he hno hsp, ?_⟩
    rw [hp, h.count, length_map]

/-- A split moves the blocks from the split point on and leaves a hole, exactly if every run that
ends after the split point starts at it, or counts as a hole. -/
theorem splitMcb_iff {calls : List McbSplitCall}
    (hrun : Run mcbSplitStep McbSplitValid fsRtlInitializeBaseMcb calls mcb) (hargs : SplitArgs mcb vbn amount) :
    ∃ mcb', fsRtlSplitBaseMcb mcb vbn amount = some (mcb', true) ∧
      (((∀ v, 0 ≤ v → v < vbn → ∃ l, lbnFound mcb v = some l ∧ lbnFound mcb' v = some l) ∧
        (∀ v, InRange vbn amount v → lbnFound mcb' v = some (-1)) ∧
        ∀ v, vbn ≤ v → NoOverflow v amount → ∃ l, lbnFound mcb v = some l ∧ lbnFound mcb' (v + amount) = some l) ↔
      ∀ e ∈ mcb.runs, Splittable vbn e) := by
  obtain ⟨xs, h⟩ := mcbSplitRun_ok hrun
  obtain ⟨hvbn, hamount, hno, hruns⟩ := hargs
  simp only [runs_mem h] at hruns ⊢
  obtain ⟨mcb', heq, hst, -⟩ := splitMcb_spec h hvbn hamount hruns
  have hp := (lt_add_iff hvbn hamount).mpr hno
  have hfn' (v : Int64) : lbnFound mcb' v = some (lbnIn v (withHoles 0 (xs.map (splitRun vbn amount)))) := by
    obtain ⟨mcb₁, hl, -⟩ := lookupStored_spec hst v
    rw [lbnFound, hl]
    rfl
  refine ⟨mcb', heq, ?_, fun hs => ⟨fun v hv hlt => ⟨_, lbnFound_eq h hv, ?_⟩, fun v hin => ?_,
    fun v hv hn => ⟨_, lbnFound_eq h (Int64.le_trans hvbn hv), ?_⟩⟩⟩
  · rintro ⟨-, -, hm⟩
    refine splittable_of_lbn h.runs hvbn hamount hruns fun v hv hn => ?_
    obtain ⟨l, hb, ha⟩ := hm v hv hn
    rw [lbnFound_eq h (Int64.le_trans hvbn hv)] at hb
    rw [hfn', ← hb] at ha
    exact some.inj ha
  · rw [hfn', lbnIn_split_lower h.runs hv (by grind)]
    by_cases hh : ∃ e ∈ xs, e.Has v
    swap
    · rw [RunsOk.lbnOf_none fun e he hc => hh ⟨e, he, hc⟩, RunsOk.lbnOf_none fun e he hc =>
        hh ⟨e, (mem_lowerRuns.mp he).1, hc⟩]
    obtain ⟨e, he, hh⟩ := hh
    rw [h.runs.lbnOf_mem he hh]
    have hlw : RunsOk (lowerRuns vbn xs) := h.runs.sublist filter_sublist
    by_cases hen : e.RunEndVbn ≤ vbn
    · rw [hlw.lbnOf_mem (mem_lowerRuns.mpr ⟨he, hen⟩) hh]
    -- a run across the split point counts as a hole
    have hlb : e.StartingLbn = -1 := by
      refine (hs e he (Int64.not_le.mp hen)).resolve_left fun hstr => ?_
      exact absurd (hstr ▸ hh.1) (Int64.not_le.mpr hlt)
    rw [RunsOk.lbnOf_none, lbn, if_pos hlb]
    intro f hf hh'
    obtain ⟨hf, hle⟩ := mem_lowerRuns.mp hf
    exact hen (h.runs.unique hf he hh' hh ▸ hle)
  · obtain ⟨hle, hlt⟩ := (@inRange_iff vbn (-1) amount v hno hvbn hamount).mp hin
    rw [hfn', lbnIn_split_lower h.runs (Int64.le_trans hvbn hle) hlt, RunsOk.lbnOf_none]
    intro f hf hh
    exact absurd (Int64.lt_of_lt_of_le hh.2 (mem_lowerRuns.mp hf).2) (Int64.not_lt.mpr hle)
  · rw [hfn', split_lbn h.runs hvbn hamount hruns hv hn hs]

theorem splitMcb_iff_start : ∃ mcb mcb',
    Run mcbSplitStep McbSplitValid fsRtlInitializeBaseMcb [.call (.add 0 100 10 4096)] mcb ∧
    fsRtlSplitBaseMcb mcb 0 5 = some (mcb', true) ∧ lbnFound mcb' 3 = some (-1) ∧ lbnFound mcb' 8 = some 103 := by
  obtain ⟨mcb, hr, hruns, hf⟩ :
    ∃ mcb, Run mcbSplitStep McbSplitValid fsRtlInitializeBaseMcb [.call (.add 0 100 10 4096)] mcb ∧
      mcb.runs = [⟨0, 10, 100⟩] ∧ lbnFound mcb 3 = some 103 :=
    ⟨_, .single ⟨fun _ _ => by decide, addAllocates_first⟩ rfl, rfl, rfl⟩
  have har : SplitArgs mcb 0 5 := by
    refine ⟨by decide, by decide, by decide, fun e he => ?_⟩
    rw [hruns, mem_singleton] at he
    subst he
    decide
  obtain ⟨mcb', hs, hif⟩ := splitMcb_iff hr har
  obtain ⟨-, hh, hm⟩ := hif.mpr fun e he _ => by
    rw [hruns, mem_singleton] at he
    exact Or.inl (he ▸ rfl)
  obtain ⟨l, hb, ha⟩ := hm 3 (by decide) (by decide)
  cases hb.symm.trans hf
  exact ⟨mcb, mcb', hr, hs, hh 3 (by rw [InRange]; decide), ha⟩

/-- A split inside a run loses the blocks before it and gives the others wrong numbers. -/
theorem splitMcb_iff_fails : ∃ mcb mcb',
    Run mcbSplitStep McbSplitValid fsRtlInitializeBaseMcb [.call (.add 0 100 10 4096)] mcb ∧
    fsRtlSplitBaseMcb mcb 5 5 = some (mcb', true) ∧
    lbnFound mcb 2 = some 102 ∧ lbnFound mcb' 2 = some (-1) ∧
    lbnFound mcb 7 = some 107 ∧ lbnFound mcb' 12 = some 102 :=
  ⟨_, _, .single ⟨fun _ _ => by decide, addAllocates_first⟩ rfl, rfl, rfl, rfl, rfl, rfl⟩

end FreeNT.FsRtl
