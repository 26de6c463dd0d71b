import FreeNT.FsRtl.McbRuns

/-!
# Removing blocks from an MCB

`FsRtlRemoveBaseMcbEntry` cuts every run that intersects the range (`cutRun`), one after the
other (`removeLoop_spec`). A run that starts before the range and ends after it loses its end,
and one that only ends after it keeps its `StartingLbn`. `cutRuns_iff`: just the runs that go
on after the range can be wrong afterwards.
-/

namespace FreeNT.FsRtl

open SplayTree FreeNT.Rtl FreeNT.Rtl.SplayTable List Option

variable {m : BaseMcb} {xs ys zs : List LargeMcbMappingEntry} {nd e f : LargeMcbMappingEntry} {v : Int64}

/-- What is left of a run, or nothing. -/
def cutRun (needle e : LargeMcbMappingEntry) : Option LargeMcbMappingEntry :=
  if mcbMappingIntersectCompare needle e = .eq then
    if e.RunStartVbn < needle.RunStartVbn then some { e with RunEndVbn := needle.RunStartVbn }
    else if e.RunEndVbn > needle.RunEndVbn then some { e with RunStartVbn := needle.RunEndVbn }
    else none
  else some e

def cutRuns (needle : LargeMcbMappingEntry) (xs : List LargeMcbMappingEntry) :
    List LargeMcbMappingEntry := xs.filterMap (cutRun needle)

section

variable (hnd : nd.RunStartVbn < nd.RunEndVbn) (he : e.RunStartVbn < e.RunEndVbn)

include hnd he

lemma intersects_iff :
    mcbMappingIntersectCompare nd e = .eq ↔ e.RunStartVbn < nd.RunEndVbn ∧ nd.RunStartVbn < e.RunEndVbn := by
  simp only [mcbMappingIntersectCompare]
  grind

lemma cutRun_some (h : cutRun nd e = some f) :
    e.RunStartVbn ≤ f.RunStartVbn ∧ f.RunStartVbn < f.RunEndVbn ∧ f.RunEndVbn ≤ e.RunEndVbn ∧
      cutRun nd f = some f ∧
      mcbMappingIntersectCompare nd f ≠ .eq := by
  have hs : e.RunStartVbn ≤ f.RunStartVbn ∧ f.RunStartVbn < f.RunEndVbn ∧ f.RunEndVbn ≤ e.RunEndVbn ∧
      mcbMappingIntersectCompare nd f ≠ .eq := by
    have hinter := intersects_iff hnd he
    rw [cutRun] at h
    split at h
    swap
    · cases h
      exact ⟨Int64.le_refl _, he, Int64.le_refl _, ‹_›⟩
    split at h
    · cases h
      simp only [mcbMappingIntersectCompare]
      grind
    split at h
    · cases h
      simp only [mcbMappingIntersectCompare]
      grind
    · cases h
  exact ⟨hs.1, hs.2.1, hs.2.2.1, by rw [cutRun, if_neg hs.2.2.2], hs.2.2.2⟩

end

namespace RunsOk

lemma shrink (h : RunsOk (ys ++ e :: zs)) (hs : e.RunStartVbn ≤ f.RunStartVbn) (hlt : f.RunStartVbn < f.RunEndVbn)
    (hen : f.RunEndVbn ≤ e.RunEndVbn) : RunsOk (ys ++ f :: zs) := by
  obtain ⟨hys, hzs, hyz⟩ := pairwise_append.mp h.sorted
  obtain ⟨hez, hzs⟩ := pairwise_cons.mp hzs
  have he := h.bounds e (by simp)
  refine ⟨fun g hg => ?_, pairwise_append.mpr ⟨hys, pairwise_cons.mpr ⟨fun z hz => ?_, hzs⟩, fun y hy z hz => ?_⟩⟩
  · rcases mem_append.mp hg with hg | hg
    · exact h.bounds g (mem_append_left _ hg)
    rcases mem_cons.mp hg with rfl | hg
    · exact ⟨Int64.le_trans he.1 hs, hlt⟩
    · exact h.bounds g (by simp [hg])
  · exact Int64.le_trans hen (hez z hz)
  rcases mem_cons.mp hz with rfl | hz
  · exact Int64.le_trans (hyz y hy e mem_cons_self) hs
  · exact hyz y hy z (mem_cons_of_mem e hz)

lemma erase (h : RunsOk (ys ++ e :: zs)) : RunsOk (ys ++ zs) := h.sublist ((sublist_cons_self e zs).append_left ys)

end RunsOk

section

variable {t : LargeMcbMapping} {n : Nat} (h : McbOk m (ys ++ e :: zs)) (hat : At t n ys e zs)

include h hat

lemma McbOk.at : McbOk { m with Mapping := t } (ys ++ e :: zs) := by
  obtain ⟨l, r, hl, -⟩ := hat
  exact ⟨⟨_, hl⟩, h.runs, h.count⟩

lemma McbOk.write (hok : RunsOk (ys ++ f :: zs)) : McbOk { m with Mapping := t.write n f } (ys ++ f :: zs) := by
  obtain ⟨l, r, hl, -⟩ := @At.write _ _ _ _ _ _ f hat
  exact ⟨⟨_, hl⟩, hok, by simpa using h.count⟩

lemma McbOk.delete : ∃ t', rtlDeleteElementGenericTable mcbMappingCompare t e = some (t', true) ∧
      McbOk { m with Mapping := t', PairCount := (m.PairCount + 2 ^ 32 - 1) % 2 ^ 32 } (ys ++ zs) := by
  obtain ⟨t', ns', hd, hl⟩ := hat.delete (show mcbMappingCompare e e = .eq from if_pos ⟨rfl, rfl⟩)
  refine ⟨t', hd, ⟨ns', hl⟩, h.runs.erase, ?_⟩
  have hln := h.length_le
  have hc := h.count
  simp only [length_append, length_cons] at hln hc ⊢
  omega

end

lemma cutRuns_append : cutRuns nd (ys ++ e :: zs) = cutRuns nd ys ++ ((cutRun nd e).toList ++ cutRuns nd zs) := by
  simp only [cutRuns, filterMap_append, filterMap_cons]
  cases cutRun nd e <;> rfl

lemma removeLoop_spec {k : Nat} (h : McbOk m xs) (hnd : nd.RunStartVbn < nd.RunEndVbn)
    (hf : xs.countP (fun e => mcbMappingIntersectCompare nd e = .eq) < k) :
    ∃ m', removeLoop nd k m = some m' ∧ McbOk m' (cutRuns nd xs) := by
  induction k generalizing m xs with
  | zero => omega
  | succ k ih =>
    obtain ⟨ns, hln⟩ := h.linked
    rw [removeLoop]
    rcases hln.lookup (h.runs.cut_intersect nd) with ⟨hl, hne⟩ | ⟨t, n, ys, e, zs, hl, rfl, heq, hat⟩
    · have hc : cutRuns nd xs = xs := by
        have hsm : ∀ e ∈ xs, cutRun nd e = some e := fun e he => if_neg (hne e he)
        rw [cutRuns, filterMap_congr hsm, filterMap_some]
      rw [hl, hc]
      exact ⟨m, rfl, h⟩
    have hbn := h.runs.bounds e (by simp)
    have hinter := (intersects_iff hnd hbn.2).mp heq
    -- the run is replaced by `f`, and the loop goes on
    have hw (f : LargeMcbMappingEntry) (hc : cutRun nd e = some f) :
        ∃ m', removeLoop nd k { m with Mapping := t.write n f } = some m' ∧
          McbOk m' (cutRuns nd (ys ++ e :: zs)) := by
      obtain ⟨hs, hlt, hen, hc', hne⟩ := cutRun_some hnd hbn.2 hc
      have hr : cutRuns nd (ys ++ e :: zs) = cutRuns nd (ys ++ f :: zs) := by
        rw [cutRuns_append, cutRuns_append, hc, hc']
      rw [hr]
      refine ih (h.write hat (h.runs.shrink hs hlt hen)) ?_
      simp only [countP_append, countP_cons, heq, hne, decide_true, decide_false, if_true,
        Bool.false_eq_true, if_false] at hf ⊢
      omega
    rw [hl, do_some]
    dsimp only
    rw [if_neg hat.ne_zero, hat.userData, do_some]
    by_cases hb : e.RunStartVbn < nd.RunStartVbn
    · rw [if_pos hb, if_neg (not_not.mpr hinter.2)]
      exact hw _ (by rw [cutRun, if_pos heq, if_pos hb])
    rw [if_neg hb]
    by_cases ha : e.RunEndVbn > nd.RunEndVbn
    · rw [if_pos ha, if_neg (not_not.mpr hinter.1)]
      exact hw _ (by rw [cutRun, if_pos heq, if_neg hb, if_pos ha])
    obtain ⟨t', hd, hok⟩ := h.delete hat
    have hr : cutRuns nd (ys ++ e :: zs) = cutRuns nd (ys ++ zs) := by
      rw [cutRuns_append, cutRun, if_pos heq, if_neg hb, if_neg ha, cutRuns, cutRuns, cutRuns, filterMap_append]
      rfl
    rw [if_neg ha, hd, do_some, hr]
    refine ih hok ?_
    simp only [countP_append, countP_cons, heq, decide_true, if_true] at hf ⊢
    omega

/-! ## What is left of the runs -/

section

variable (h : RunsOk xs) (hnd : nd.RunStartVbn < nd.RunEndVbn)

include h hnd

lemma cutRuns_ok : RunsOk (cutRuns nd xs) := by
  refine ⟨fun f hf => ?_, pairwise_filterMap.mpr (h.sorted.imp_of_mem fun {a b} ha hb hab f hf g hg => ?_)⟩
  · obtain ⟨e, he, hc⟩ := mem_filterMap.mp hf
    have hbn := h.bounds e he
    have hs := cutRun_some hnd hbn.2 hc
    exact ⟨Int64.le_trans hbn.1 hs.1, hs.2.1⟩
  have hf := cutRun_some hnd (h.bounds a ha).2 hf
  have hg := cutRun_some hnd (h.bounds b hb).2 hg
  exact Int64.le_trans hf.2.2.1 (Int64.le_trans hab hg.1)

/-- What is left in `[0, ∞)` of the run that has a block decides what is said of the block. -/
lemma lbnOf_cutRuns (he : e ∈ xs) (hv : e.Has v) : lbnOf (cutRuns nd xs) v = lbnOf (cutRun nd e).toList v := by
  by_cases hex : ∃ f, cutRun nd e = some f ∧ f.Has v
  · obtain ⟨f, hf, hfv⟩ := hex
    rw [(cutRuns_ok h hnd).lbnOf_mem (mem_filterMap.mpr ⟨e, he, hf⟩) hfv, hf, toList_some, lbnOf,
      find?_cons_of_pos (by simpa using hfv)]
  rw [RunsOk.lbnOf_none, RunsOk.lbnOf_none]
  · intro f hf hfv
    exact hex ⟨f, mem_toList.mp hf, hfv⟩
  intro f hf hfv
  obtain ⟨e', he', hc⟩ := mem_filterMap.mp hf
  have hs := cutRun_some hnd (h.bounds e' he').2 hc
  have hv' : e'.Has v := ⟨Int64.le_trans hs.1 hfv.1, Int64.lt_of_lt_of_le hfv.2 hs.2.2.1⟩
  exact hex ⟨f, h.unique he he' hv hv' ▸ hc, hfv⟩

lemma lbnOf_cutRuns_none (hv : ∀ e ∈ xs, ¬ e.Has v) : lbnOf (cutRuns nd xs) v = -1 := by
  refine RunsOk.lbnOf_none fun f hf hfv => ?_
  obtain ⟨e, he, hc⟩ := mem_filterMap.mp hf
  have hs := cutRun_some hnd (h.bounds e he).2 hc
  exact hv e he ⟨Int64.le_trans hs.1 hfv.1, Int64.lt_of_lt_of_le hfv.2 hs.2.2.1⟩

end

lemma lbnOf_single : lbnOf [e] v = if e.Has v then e.lbn v else -1 := by
  rw [lbnOf, find?_cons]
  by_cases hv : e.Has v
  · simp [hv]
  · simp [hv]

section

variable (hnd : nd.RunStartVbn < nd.RunEndVbn) (hv : e.Has v)

include hnd hv

lemma cutRun_inside (hin : nd.Has v) : lbnOf (cutRun nd e).toList v = -1 := by
  have hlt : e.RunStartVbn < e.RunEndVbn := Int64.lt_of_le_of_lt hv.1 hv.2
  cases hc : cutRun nd e with
  | none => rfl
  | some f =>
    have hs := cutRun_some hnd hlt hc
    have hinter := intersects_iff hnd hs.2.1
    rw [toList_some, lbnOf_single, if_neg]
    simp only [LargeMcbMappingEntry.Has] at hin ⊢
    grind

omit hnd in
lemma cutRun_before (hb : v < nd.RunStartVbn) : lbnOf (cutRun nd e).toList v = e.lbn v := by
  have hlt : e.RunStartVbn < nd.RunStartVbn := Int64.lt_of_le_of_lt hv.1 hb
  by_cases heq : mcbMappingIntersectCompare nd e = .eq
  · rw [cutRun, if_pos heq, if_pos hlt, toList_some, lbnOf_single, if_pos ⟨hv.1, hb⟩]
    rfl
  · rw [cutRun, if_neg heq, toList_some, lbnOf_single, if_pos hv]

lemma cutRun_after (ha : nd.RunEndVbn ≤ e.RunStartVbn) : lbnOf (cutRun nd e).toList v = e.lbn v := by
  have hlt : e.RunStartVbn < e.RunEndVbn := Int64.lt_of_le_of_lt hv.1 hv.2
  have hinter : mcbMappingIntersectCompare nd e ≠ .eq := by
    rw [Ne, intersects_iff hnd hlt]
    exact fun h => Int64.not_le.mpr h.1 ha
  rw [cutRun, if_neg hinter, toList_some, lbnOf_single, if_pos hv]

variable (hen : e.RunStartVbn < nd.RunEndVbn) (hle : nd.RunEndVbn ≤ v)

include hen hle

lemma cutRun_of_straddle : mcbMappingIntersectCompare nd e = .eq ∧ nd.RunEndVbn < e.RunEndVbn := by
  have hlt : e.RunStartVbn < e.RunEndVbn := Int64.lt_of_le_of_lt hv.1 hv.2
  have hinter := intersects_iff hnd hlt
  simp only [LargeMcbMappingEntry.Has] at hv
  grind

/-- The end of a run around the range is lost. -/
lemma cutRun_middle (hs : e.RunStartVbn < nd.RunStartVbn) : lbnOf (cutRun nd e).toList v = -1 := by
  obtain ⟨heq, -⟩ := cutRun_of_straddle hnd hv hen hle
  rw [cutRun, if_pos heq, if_pos hs, toList_some, lbnOf_single, if_neg]
  simp only [LargeMcbMappingEntry.Has]
  grind

lemma cutRun_front (hs : ¬ e.RunStartVbn < nd.RunStartVbn) :
    cutRun nd e = some { e with RunStartVbn := nd.RunEndVbn } := by
  obtain ⟨heq, ha⟩ := cutRun_of_straddle hnd hv hen hle
  rw [cutRun, if_pos heq, if_neg hs, if_pos ha]

end

section

variable (h : RunsOk xs) (hnd : nd.RunStartVbn < nd.RunEndVbn)

include h hnd

lemma lbnOf_cutRuns_inside (hin : nd.Has v) :
    lbnOf (cutRuns nd xs) v = -1 := by
  by_cases hex : ∃ e ∈ xs, e.Has v
  · obtain ⟨e, he, hv⟩ := hex
    rw [lbnOf_cutRuns h hnd he hv, cutRun_inside hnd hv hin]
  · exact lbnOf_cutRuns_none h hnd fun e he hv => hex ⟨e, he, hv⟩

lemma lbnOf_cutRuns_before (hb : v < nd.RunStartVbn) :
    lbnOf (cutRuns nd xs) v = lbnOf xs v := by
  by_cases hex : ∃ e ∈ xs, e.Has v
  · obtain ⟨e, he, hv⟩ := hex
    rw [lbnOf_cutRuns h hnd he hv, cutRun_before hv hb, h.lbnOf_mem he hv]
  · have hno : ∀ e ∈ xs, ¬ e.Has v := fun e he hv => hex ⟨e, he, hv⟩
    rw [lbnOf_cutRuns_none h hnd hno, RunsOk.lbnOf_none hno]

end

/-- The runs that go on after the range are holes after it, or before it already. -/
def Removable (needle : LargeMcbMappingEntry) (e : LargeMcbMappingEntry) : Prop :=
  e.RunStartVbn < needle.RunEndVbn → needle.RunEndVbn < e.RunEndVbn → e.StartingLbn = -1 ∨
    e.RunStartVbn < needle.RunStartVbn ∧ ∀ v, needle.RunEndVbn ≤ v → v < e.RunEndVbn → e.lbn v = -1

/-- Removing a range from the runs changes nothing else, exactly if all runs are so. -/
lemma cutRuns_iff (h : RunsOk xs) (hnd : nd.RunStartVbn < nd.RunEndVbn) (hp : 0 ≤ nd.RunStartVbn) :
    (∀ v, 0 ≤ v → ¬ nd.Has v → lbnOf (cutRuns nd xs) v = lbnOf xs v) ↔ ∀ e ∈ xs, Removable nd e := by
  have hen : 0 ≤ nd.RunEndVbn := by grind
  have ho {v : Int64} (hle : nd.RunEndVbn ≤ v) : ¬ nd.Has v := fun hin => Int64.not_le.mpr hin.2 hle
  constructor
  · intro hsm e he hs ha
    by_cases hb : e.RunStartVbn < nd.RunStartVbn
    · refine .inr ⟨hb, fun v hle hlt => ?_⟩
      have hv : e.Has v := ⟨Int64.le_trans (Int64.le_of_lt hs) hle, hlt⟩
      rw [← h.lbnOf_mem he hv, ← hsm v (Int64.le_trans hen hle) (ho hle), lbnOf_cutRuns h hnd he hv,
        cutRun_middle hnd hv hs hle hb]
    -- the first block after the range
    have hv : e.Has nd.RunEndVbn := ⟨Int64.le_of_lt hs, ha⟩
    have hf := hsm nd.RunEndVbn hen (ho (Int64.le_refl _))
    rw [h.lbnOf_mem he hv, lbnOf_cutRuns h hnd he hv, cutRun_front hnd hv hs (Int64.le_refl _) hb, toList_some,
      lbnOf_single, if_pos ⟨Int64.le_refl _, ha⟩] at hf
    simp only [LargeMcbMappingEntry.lbn] at hf
    grind
  · intro hal v hnn hn
    by_cases hex : ∃ e ∈ xs, e.Has v
    swap
    · have hno : ∀ e ∈ xs, ¬ e.Has v := fun e he hv => hex ⟨e, he, hv⟩
      rw [lbnOf_cutRuns_none h hnd hno, RunsOk.lbnOf_none hno]
    obtain ⟨e, he, hv⟩ := hex
    by_cases hb : v < nd.RunStartVbn
    · exact lbnOf_cutRuns_before h hnd hb
    have hle : nd.RunEndVbn ≤ v := Int64.not_lt.mp fun hlt => hn ⟨Int64.not_lt.mp hb, hlt⟩
    rw [lbnOf_cutRuns h hnd he hv, h.lbnOf_mem he hv]
    by_cases hs : e.RunStartVbn < nd.RunEndVbn
    swap
    · exact cutRun_after hnd hv (Int64.not_lt.mp hs)
    have ha : nd.RunEndVbn < e.RunEndVbn := Int64.lt_of_le_of_lt hle hv.2
    by_cases hm : e.RunStartVbn < nd.RunStartVbn
    · rw [cutRun_middle hnd hv hs hle hm]
      rcases hal e he hs ha with hh | ⟨-, hl⟩
      · rw [LargeMcbMappingEntry.lbn, if_pos hh]
      · exact (hl v hle hv.2).symm
    rcases hal e he hs ha with hh | ⟨hm', -⟩
    · rw [cutRun_front hnd hv hs hle hm, toList_some, lbnOf_single, LargeMcbMappingEntry.lbn, if_pos hh, ite_self,
        LargeMcbMappingEntry.lbn, if_pos hh]
    · exact absurd hm' hm

lemma removeMcb_spec {vb k : Int64} (h : McbOk m xs) (hvbn : 0 ≤ vb) (hc : 0 < k) (hlt : vb < vb + k) :
    ∃ m', fsRtlRemoveBaseMcbEntry m vb k = some (m', true) ∧ McbOk m' (cutRuns ⟨vb, vb + k, -1⟩ xs) := by
  have hf : xs.countP (fun e => mcbMappingIntersectCompare ⟨vb, vb + k, -1⟩ e = .eq) < loopBound := by
    have hln := h.length_le
    refine Nat.lt_of_le_of_lt countP_le_length ?_
    rw [loopBound]
    omega
  obtain ⟨m', hl, hok⟩ := @removeLoop_spec _ _ ⟨vb, vb + k, -1⟩ _ h hlt hf
  refine ⟨m', ?_, hok⟩
  rw [fsRtlRemoveBaseMcbEntry, if_neg (not_or.mpr ⟨Int64.not_lt.mpr hvbn, Int64.not_le.mpr hc⟩),
    if_neg (Int64.not_le.mpr hlt), hl]
  rfl

end FreeNT.FsRtl
