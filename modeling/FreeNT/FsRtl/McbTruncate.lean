import FreeNT.FsRtl.McbSplit

/-!
# Truncating an MCB

`FsRtlTruncateBaseMcb` removes the blocks from `Vbn` up to `MAXLONG`, and none if `Vbn` is
greater. A run that starts before `Vbn` is cut there, wherever it ends; of the other runs, what is
after `MAXLONG` stays. `truncateMcb_iff`: the truncation does what it is to do just if no such run
is stored.
-/

namespace FreeNT.FsRtl

open SplayTree FreeNT.Rtl FreeNT.Rtl.SplayTable Int64

variable {mcb : BaseMcb} {xs : List LargeMcbMappingEntry} {vbn v : Int64}

/-- A run of which a truncation leaves nothing that is mapped: one that it removes, or that counts as a hole. -/
def Truncatable (vbn : Int64) (e : LargeMcbMappingEntry) : Prop :=
  if vbn ≤ MAXLONG then vbn ≤ e.RunStartVbn → MAXLONG + 1 < e.RunEndVbn → e.StartingLbn = -1
  else ∀ v, vbn ≤ v → e.Has v → e.lbn v = -1

/-- The blocks that a truncation removes. -/
def truncated (vbn : Int64) : LargeMcbMappingEntry := ⟨vbn, MAXLONG + 1, -1⟩

lemma truncated_lt (hle : vbn ≤ MAXLONG) : (truncated vbn).RunStartVbn < (truncated vbn).RunEndVbn := by
  have hm : MAXLONG < MAXLONG + 1 := by decide
  exact Int64.lt_of_le_of_lt hle hm

/-- Of a run that starts at `vbn` or after it, the blocks after `MAXLONG` are left, with its first
logical block. -/
lemma cutRun_truncated {e : LargeMcbMappingEntry} (hle : vbn ≤ MAXLONG) (hs : vbn ≤ e.RunStartVbn)
    (hlt : e.RunStartVbn < e.RunEndVbn) (he : MAXLONG + 1 < e.RunEndVbn) :
    cutRun (truncated vbn) e =
      some { e with RunStartVbn := if e.RunStartVbn < MAXLONG + 1 then MAXLONG + 1 else e.RunStartVbn } := by
  have hn := truncated_lt hle
  by_cases hin : e.RunStartVbn < MAXLONG + 1
  · rw [if_pos hin]
    exact cutRun_front hn ⟨Int64.le_of_lt hin, he⟩ hin (Int64.le_refl _) (Int64.not_lt.mpr hs)
  have hinter : mcbMappingIntersectCompare (truncated vbn) e ≠ .eq := by
    rw [Ne, intersects_iff hn hlt]
    exact fun h => hin h.1
  rw [if_neg hin, cutRun, if_neg hinter]

lemma cutRuns_truncated_iff (h : RunsOk xs) (hle : vbn ≤ MAXLONG) :
    (∀ v, vbn ≤ v → lbnOf (cutRuns (truncated vbn) xs) v = -1) ↔
      ∀ e ∈ xs, vbn ≤ e.RunStartVbn → MAXLONG + 1 < e.RunEndVbn → e.StartingLbn = -1 := by
  have hn := truncated_lt hle
  constructor
  · intro ha e he hs hen
    have hbn := h.bounds e he
    have hc := cutRun_truncated hle hs hbn.2 hen
    -- the first block that is left of the run
    obtain ⟨v, hv⟩ : ∃ v, v = if e.RunStartVbn < MAXLONG + 1 then MAXLONG + 1 else e.RunStartVbn := ⟨_, rfl⟩
    rw [← hv] at hc
    have hhs : e.Has v ∧ vbn ≤ v := by
      rw [LargeMcbMappingEntry.Has]
      grind
    have hf := ha v hhs.2
    rw [lbnOf_cutRuns h hn he hhs.1, hc, Option.toList_some, lbnOf_single, if_pos ⟨Int64.le_refl _, hhs.1.2⟩,
      LargeMcbMappingEntry.lbn] at hf
    grind
  · intro ha v hv
    by_cases hin : v < MAXLONG + 1
    · exact lbnOf_cutRuns_inside h hn ⟨hv, hin⟩
    have ho := Int64.not_lt.mp hin
    by_cases hex : ∃ e ∈ xs, e.Has v
    swap
    · exact lbnOf_cutRuns_none h hn fun e he hhs => hex ⟨e, he, hhs⟩
    obtain ⟨e, he, hhs⟩ := hex
    rw [lbnOf_cutRuns h hn he hhs]
    by_cases hs : vbn ≤ e.RunStartVbn
    · have hen := Int64.lt_of_le_of_lt ho hhs.2
      have hh := ha e he hs hen
      rw [cutRun_truncated hle hs (h.bounds e he).2 hen, Option.toList_some, lbnOf_single,
        LargeMcbMappingEntry.lbn, if_pos hh, ite_self]
    · have hb := Int64.not_le.mp hs
      exact cutRun_middle hn hhs (Int64.lt_trans hb hn) ho hb

/-- Nothing is mapped from `vbn` on. -/
lemma lbnOf_hole_iff (h : RunsOk xs) :
    (∀ v, vbn ≤ v → lbnOf xs v = -1) ↔ ∀ e ∈ xs, ∀ v, vbn ≤ v → e.Has v → e.lbn v = -1 := by
  constructor
  · intro ha e he v hv hh
    rw [← h.lbnOf_mem he hh]
    exact ha v hv
  intro ha v hv
  by_cases hex : ∃ e ∈ xs, e.Has v
  · obtain ⟨e, he, hh⟩ := hex
    rw [h.lbnOf_mem he hh]
    exact ha e he v hv hh
  · exact RunsOk.lbnOf_none fun e he hh => hex ⟨e, he, hh⟩

lemma toInt_truncateCount (hvbn : 0 ≤ vbn) : (MAXLONG - vbn + 1).toInt = 2 ^ 31 - vbn.toInt := by
  rw [le_iff_toInt_le, toInt_zero] at hvbn
  have hlt := vbn.toInt_lt
  have hm : MAXLONG.toInt = 2 ^ 31 - 1 := by decide
  rw [toInt_add, toInt_sub, hm, toInt_one, Int.bmod_add_bmod, Int.bmod_eq_of_le (by omega) (by omega)]
  omega

lemma le_MAXLONG_iff : vbn ≤ MAXLONG ↔ vbn.toInt < 2 ^ 31 := by
  rw [le_iff_toInt_le, show MAXLONG.toInt = 2 ^ 31 - 1 by decide]
  omega

lemma truncateMcb_spec (h : McbOk mcb xs) (hvbn : 0 ≤ vbn) : ∃ mcb', fsRtlTruncateBaseMcb mcb vbn = some mcb' ∧
      McbOk mcb' (if vbn ≤ MAXLONG then cutRuns (truncated vbn) xs else xs) := by
  have he : vbn + (MAXLONG - vbn + 1) = MAXLONG + 1 := by grind
  by_cases hle : vbn ≤ MAXLONG
  · have hc : 0 < MAXLONG - vbn + 1 := by
      rw [lt_iff_toInt_lt, toInt_zero, toInt_truncateCount hvbn]
      rw [le_MAXLONG_iff] at hle
      omega
    obtain ⟨mcb', hr, hok⟩ := removeMcb_spec h hvbn hc (by rw [he]; exact truncated_lt hle)
    rw [he] at hok
    refine ⟨mcb', by rw [fsRtlTruncateBaseMcb, hr]; rfl, ?_⟩
    rw [if_pos hle]
    exact hok
  have hc : MAXLONG - vbn + 1 ≤ 0 := by
    rw [le_iff_toInt_le, toInt_zero, toInt_truncateCount hvbn]
    rw [le_MAXLONG_iff] at hle
    omega
  refine ⟨mcb, ?_, ?_⟩
  · rw [fsRtlTruncateBaseMcb, fsRtlRemoveBaseMcbEntry, if_pos (.inr hc)]
    rfl
  · rw [if_neg hle]
    exact h

/-- A truncation leaves no block from `vbn` on, and the blocks before it as they were, exactly if
every run is truncatable. -/
theorem truncateMcb_iff {calls : List McbSplitCall}
    (hrun : Run mcbSplitStep McbSplitValid fsRtlInitializeBaseMcb calls mcb)
    (hvbn : 0 ≤ vbn) :
    ∃ mcb', fsRtlTruncateBaseMcb mcb vbn = some mcb' ∧ (((∀ v, vbn ≤ v → lbnFound mcb' v = some (-1)) ∧
        ∀ v, 0 ≤ v → v < vbn → ∃ l, lbnFound mcb v = some l ∧ lbnFound mcb' v = some l) ↔
      ∀ e ∈ mcb.runs, Truncatable vbn e) := by
  obtain ⟨xs, h⟩ := mcbSplitRun_ok hrun
  obtain ⟨mcb', ht, hok⟩ := truncateMcb_spec h hvbn
  refine ⟨mcb', ht, ?_⟩
  have hb : ∀ v, 0 ≤ v → v < vbn → ∃ l, lbnFound mcb v = some l ∧ lbnFound mcb' v = some l := by
    intro v hv hlt
    refine ⟨_, lbnFound_eq h hv, ?_⟩
    rw [lbnFound_eq hok hv]
    split
    · rename_i hle
      rw [@lbnOf_cutRuns_before _ (truncated vbn) _ h.runs (truncated_lt hle) hlt]
    · rfl
  have hm : (∀ v, vbn ≤ v → lbnFound mcb' v = some (-1)) ↔ ∀ e ∈ xs, Truncatable vbn e := by
    have hf : (∀ v, vbn ≤ v → lbnFound mcb' v = some (-1)) ↔
        ∀ v, vbn ≤ v → lbnOf (if vbn ≤ MAXLONG then cutRuns (truncated vbn) xs else xs) v = -1 := by
      refine forall₂_congr fun v hv => ?_
      rw [lbnFound_eq hok (Int64.le_trans hvbn hv), Option.some_inj]
    rw [hf]
    unfold Truncatable
    by_cases hle : vbn ≤ MAXLONG
    · simp only [if_pos hle]
      exact cutRuns_truncated_iff h.runs hle
    · simp only [if_neg hle]
      exact lbnOf_hole_iff h.runs
  simp only [runs_mem h]
  rw [hm]
  exact ⟨fun ha => ha.1, fun ha => ⟨ha, hb⟩⟩

/-- The run that has the truncation point is cut there. -/
theorem truncateMcb_iff_cut : ∃ mcb mcb',
    Run mcbSplitStep McbSplitValid fsRtlInitializeBaseMcb [.call (.add 0 100 10 4096)] mcb ∧
    fsRtlTruncateBaseMcb mcb 5 = some mcb' ∧ lbnFound mcb' 4 = some 104 ∧ lbnFound mcb' 7 = some (-1) := by
  obtain ⟨mcb, hr, hrn, hf⟩ :
    ∃ mcb, Run mcbSplitStep McbSplitValid fsRtlInitializeBaseMcb [.call (.add 0 100 10 4096)] mcb ∧
      mcb.runs = [⟨0, 10, 100⟩] ∧ lbnFound mcb 4 = some 104 :=
    ⟨_, .single ⟨fun _ _ => by decide, addAllocates_first⟩ rfl, rfl, rfl⟩
  obtain ⟨mcb', ht, hif⟩ := @truncateMcb_iff _ 5 _ hr (by decide)
  obtain ⟨hn, hsm⟩ := hif.mpr fun e he => by
    rw [hrn, List.mem_singleton] at he
    subst he
    rw [Truncatable, if_pos (by decide)]
    exact fun hs => absurd hs (by decide)
  obtain ⟨l, hb, ha⟩ := hsm 4 (by decide) (by decide)
  cases hb.symm.trans hf
  exact ⟨mcb, mcb', hr, ht, ha, hn 7 (by decide)⟩

/-- A run after `MAXLONG` stays. -/
theorem truncateMcb_iff_fails : ∃ mcb mcb',
    Run mcbSplitStep McbSplitValid fsRtlInitializeBaseMcb [.call (.add 0x80000000 100 10 4096)] mcb ∧
    fsRtlTruncateBaseMcb mcb 0 = some mcb' ∧ lbnFound mcb' 0x80000003 = some 103 := by
  refine ⟨_, _, .single ⟨fun _ _ => by decide, ?_⟩ rfl, rfl, rfl⟩
  intro mcb₁ i mcb₂ nr hl hm
  cases hl
  cases hm
  decide

end FreeNT.FsRtl
