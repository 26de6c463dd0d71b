import FreeNT.Lib.Run
import FreeNT.FsRtl.McbAdd

/-!
# Runs of calls on an MCB

From an empty MCB on, every call keeps `McbOk` (`mcbStep_ok`), as long as no addition goes past the
greatest block number. `removeMcb_iff` and `addMcb_iff`: in every state that is reached, the
runs that are stored tell whether a removal, or an addition, does what it is to do.
-/

namespace FreeNT.FsRtl

open SplayTree FreeNT.Rtl FreeNT.Rtl.SplayTable List Option Int64

inductive McbCall where
  | add (vbn lbn sectorCount : Int64) (allocated : Nat)
  | remove (vbn sectorCount : Int64)

def mcbStep (mcb : BaseMcb) : McbCall → Option BaseMcb
  | .add vbn lbn sectorCount allocated => (fsRtlAddBaseMcbEntry mcb vbn lbn sectorCount allocated).map (·.1)
  | .remove vbn sectorCount => (fsRtlRemoveBaseMcbEntry mcb vbn sectorCount).map (·.1)

/-- The end of the range is a block number. -/
def NoOverflow (vbn sectorCount : Int64) : Prop := vbn.toInt + sectorCount.toInt < 2 ^ 63

instance (vbn sectorCount : Int64) : Decidable (NoOverflow vbn sectorCount) := inferInstanceAs (Decidable (_ < _))

/-- The range of an addition ends at a block number, and its allocation succeeds. -/
def McbValid (mcb : BaseMcb) : McbCall → Prop
  | .add vbn lbn sectorCount allocated =>
    (0 ≤ vbn → 0 < sectorCount → NoOverflow vbn sectorCount) ∧ AddAllocates mcb vbn lbn sectorCount allocated
  | .remove _ _ => True

/-- The runs that are stored, as they were inserted. -/
def BaseMcb.runs (mcb : BaseMcb) : List LargeMcbMappingEntry :=
    mcb.Mapping.InsertOrderList.filterMap mcb.Mapping.UserData

/-- The logical block that a lookup finds; it is -1 if there is none. -/
def lbnFound (mcb : BaseMcb) (v : Int64) : Option Int64 := (fsRtlLookupBaseMcbEntry mcb v).map (·.2.Lbn)

/-- A block of `[vbn, vbn + sectorCount)`. -/
def InRange (vbn sectorCount v : Int64) : Prop := vbn.toInt ≤ v.toInt ∧ v.toInt < vbn.toInt + sectorCount.toInt

variable {mcb mcb' : BaseMcb} {xs ys : List LargeMcbMappingEntry} {vbn lbn sectorCount v : Int64} {a : Nat}

lemma lt_add_iff (hvbn : 0 ≤ vbn) (hc : 0 < sectorCount) :
    vbn < vbn + sectorCount ↔ NoOverflow vbn sectorCount := by
  rw [le_iff_toInt_le] at hvbn
  rw [lt_iff_toInt_lt] at hc
  have h1 := vbn.toInt_lt
  have h2 := sectorCount.toInt_lt
  rw [NoOverflow, lt_iff_toInt_lt, toInt_add]
  simp only [toInt_zero] at hvbn hc
  by_cases hlt : vbn.toInt + sectorCount.toInt < 2 ^ 63
  · rw [Int.bmod_eq_of_le (by omega) (by omega)]
    omega
  have hw : (vbn.toInt + sectorCount.toInt).bmod (2 ^ 64) = vbn.toInt + sectorCount.toInt - 2 ^ 64 := by
    rw [Int.bmod_def, Int.emod_eq_of_lt (by omega) (by omega), if_neg (by omega)]
    rfl
  omega

lemma inRange_iff (hlt : NoOverflow vbn sectorCount) (hvbn : 0 ≤ vbn) (hc : 0 < sectorCount) :
    InRange vbn sectorCount v ↔ LargeMcbMappingEntry.Has ⟨vbn, vbn + sectorCount, lbn⟩ v := by
  rw [NoOverflow] at hlt
  rw [le_iff_toInt_le] at hvbn
  rw [lt_iff_toInt_lt] at hc
  simp only [toInt_zero] at hvbn hc
  rw [InRange, LargeMcbMappingEntry.Has, le_iff_toInt_le, lt_iff_toInt_lt, toInt_add,
    Int.bmod_eq_of_le (by omega) (by omega)]

/-! ## The runs in any order -/

lemma runs_mem (h : McbOk mcb xs) (e : LargeMcbMappingEntry) : e ∈ mcb.runs ↔ e ∈ xs := by
  obtain ⟨n, hl⟩ := h.linked
  have hd : some e ∈ n.toList.map mcb.Mapping.UserData ↔ some e ∈ xs.map some := by rw [hl.data]
  rw [BaseMcb.runs, mem_filterMap]
  simp only [hl.order.mem_iff]
  simpa using hd

lemma lbnOf_congr (h : RunsOk xs) (hm : ∀ e, e ∈ ys ↔ e ∈ xs) (v : Int64) : lbnOf ys v = lbnOf xs v := by
  rw [lbnOf]
  cases hf : ys.find? fun e => e.Has v with
  | none =>
    refine (RunsOk.lbnOf_none fun e he hv => ?_).symm
    simpa [hv] using find?_eq_none.mp hf e ((hm e).mpr he)
  | some e =>
    have he := (hm e).mp (mem_of_find?_eq_some hf)
    exact (h.lbnOf_mem he (by simpa using find?_some hf)).symm

lemma firstLbn_congr {nr : LargeMcbMappingEntry} (h : RunsOk xs) (hm : ∀ e, e ∈ ys ↔ e ∈ xs) :
    firstLbn nr ys = firstLbn nr xs := by
  -- there is one run that reaches to the new one
  have hu : ∀ e ∈ xs, ∀ f ∈ xs, e.RunStartVbn < nr.RunStartVbn → nr.RunStartVbn ≤ e.RunEndVbn →
      f.RunStartVbn < nr.RunStartVbn → nr.RunStartVbn ≤ f.RunEndVbn → e = f := by
    intro e he f hf h1 h2 h3 h4
    by_contra hne
    have := h.pair he hf hne
    grind
  rw [firstLbn, firstLbn]
  cases hys : ys.find? fun e => e.RunStartVbn < nr.RunStartVbn ∧ nr.RunStartVbn ≤ e.RunEndVbn ∧
      e.StartingLbn + (nr.RunStartVbn - e.RunStartVbn) = nr.StartingLbn with
  | none =>
    have hxs : (xs.find? fun e => e.RunStartVbn < nr.RunStartVbn ∧ nr.RunStartVbn ≤ e.RunEndVbn ∧
        e.StartingLbn + (nr.RunStartVbn - e.RunStartVbn) = nr.StartingLbn) = none :=
      find?_eq_none.mpr fun e he => find?_eq_none.mp hys e ((hm e).mpr he)
    rw [hxs]
  | some e =>
    have he := (hm e).mp (mem_of_find?_eq_some hys)
    have hp := find?_some hys
    cases hxs : xs.find? fun e => e.RunStartVbn < nr.RunStartVbn ∧ nr.RunStartVbn ≤ e.RunEndVbn ∧
        e.StartingLbn + (nr.RunStartVbn - e.RunStartVbn) = nr.StartingLbn with
    | none => exact absurd hp (find?_eq_none.mp hxs e he)
    | some f =>
      have hf := mem_of_find?_eq_some hxs
      have hp' := find?_some hxs
      simp only [decide_eq_true_eq] at hp hp'
      rw [hu e he f hf hp.1 hp.2.1 hp'.1 hp'.2.1]

lemma addable_congr {nr : LargeMcbMappingEntry} (h : RunsOk xs) (hm : ∀ e, e ∈ ys ↔ e ∈ xs) :
    Addable nr ys ↔ Addable nr xs := by
  have hf := @firstLbn_congr xs ys nr h hm
  constructor
  · rintro ⟨h1, h2, h3, h4⟩
    rw [hf] at h1 h3 h4
    exact ⟨h1, fun e he => h2 e ((hm e).mpr he), fun e he => h3 e ((hm e).mpr he), fun e he =>
      h4 e ((hm e).mpr he)⟩
  rintro ⟨h1, h2, h3, h4⟩
  rw [← hf] at h1 h3 h4
  exact ⟨h1, fun e he => h2 e ((hm e).mp he), fun e he => h3 e ((hm e).mp he), fun e he => h4 e ((hm e).mp he)⟩

/-! ## Steps -/

lemma lbnFound_eq (h : McbOk mcb xs) (hv : 0 ≤ v) : lbnFound mcb v = some (lbnOf xs v) := by
  obtain ⟨mcb', found, hl, -, hlb, -⟩ := lookupMcb_spec h hv
  rw [lbnFound, hl, map_some, hlb]

lemma lookup_max {k i : Nat} {found : McbLookup}
    (h : lookupLoop Int64.maxValue k mcb i = some (mcb', found)) : found.Lbn = -1 := by
  induction k generalizing mcb i with
  | zero => cases h
  | succ k ih =>
    rw [lookupLoop] at h
    cases hg : fsRtlGetNextBaseMcbEntry mcb i with
    | none =>
      rw [hg] at h
      cases h
    | some next =>
      obtain ⟨mcb1, r, run⟩ := next
      rw [hg, do_some] at h
      dsimp only at h
      have hm : ¬ Int64.maxValue < run.Vbn + run.SectorCount := Int64.not_lt.mpr (Int64.le_maxValue _)
      rw [if_neg hm] at h
      cases r with
      | false =>
        cases h
        rfl
      | true => exact ih h

lemma mcbStep_ok {c : McbCall} (h : McbOk mcb xs) (hv : McbValid mcb c) :
    ∃ mcb' xs', mcbStep mcb c = some mcb' ∧ McbOk mcb' xs' := by
  cases c with
  | remove vbn sectorCount =>
    rw [mcbStep]
    by_cases ha : vbn < 0 ∨ sectorCount ≤ 0
    · exact ⟨mcb, xs, by rw [fsRtlRemoveBaseMcbEntry, if_pos ha]; rfl, h⟩
    by_cases hlt : vbn + sectorCount ≤ vbn
    · exact ⟨mcb, xs, by rw [fsRtlRemoveBaseMcbEntry, if_neg ha, if_pos hlt]; rfl, h⟩
    rw [not_or, Int64.not_lt, Int64.not_le] at ha
    obtain ⟨mcb', hr, hok⟩ := removeMcb_spec h ha.1 ha.2 (Int64.not_le.mp hlt)
    exact ⟨mcb', _, by rw [hr]; rfl, hok⟩
  | add vbn lbn sectorCount a =>
    rw [mcbStep]
    by_cases hn : vbn < 0
    · exact ⟨mcb, xs, by rw [fsRtlAddBaseMcbEntry, if_pos hn]; rfl, h⟩
    by_cases he : sectorCount ≤ 0
    · exact ⟨mcb, xs, by rw [fsRtlAddBaseMcbEntry, if_neg hn, if_pos he]; rfl, h⟩
    rw [Int64.not_lt] at hn
    rw [Int64.not_le] at he
    by_cases hc : Conflict xs vbn lbn
    · obtain ⟨mcb', had, hok⟩ := @addMcb_conflict _ _ _ _ _ a h hn he hc
      exact ⟨mcb', xs, by rw [had]; rfl, hok⟩
    have hlt := (lt_add_iff hn he).mpr (hv.1 hn he)
    obtain ⟨mcb', run, ys, zs, had, hok, -⟩ := addMcb_spec h hn he hlt hc hv.2
    exact ⟨mcb', _, by rw [had]; rfl, hok⟩

lemma mcbRun_ok {c : List McbCall} (hr : Run mcbStep McbValid fsRtlInitializeBaseMcb c mcb) :
    ∃ xs, McbOk mcb xs := by
  refine hr.invariant (fun mcb => ∃ xs, McbOk mcb xs) ?_ ⟨[], mcbOk_init⟩
  rintro mcb cl mcb' ⟨xs, h⟩ hvalid hs
  obtain ⟨mcb1, xs', heq, hok⟩ := mcbStep_ok h hvalid
  cases heq.symm.trans hs
  exact ⟨xs', hok⟩

/-- A removal takes the range out of the MCB and leaves everything else, exactly if every run that
goes on after the range is a hole after it, or before it already. -/
theorem removeMcb_iff {calls : List McbCall}
    (hrun : Run mcbStep McbValid fsRtlInitializeBaseMcb calls mcb) (hvbn : 0 ≤ vbn)
    (hcount : 0 < sectorCount) (hno : NoOverflow vbn sectorCount) :
    ∃ mcb', fsRtlRemoveBaseMcbEntry mcb vbn sectorCount = some (mcb', true) ∧
      (((∀ v, InRange vbn sectorCount v → lbnFound mcb' v = some (-1)) ∧
        ∀ v, 0 ≤ v → ¬ InRange vbn sectorCount v → ∃ l, lbnFound mcb v = some l ∧ lbnFound mcb' v = some l) ↔
      ∀ e ∈ mcb.runs, Removable ⟨vbn, vbn + sectorCount, -1⟩ e) := by
  obtain ⟨xs, h⟩ := mcbRun_ok hrun
  have hlt := (lt_add_iff hvbn hcount).mpr hno
  have hr (v : Int64) := @inRange_iff vbn (-1) sectorCount v hno hvbn hcount
  obtain ⟨mcb', hrm, hok⟩ := removeMcb_spec h hvbn hcount hlt
  refine ⟨mcb', hrm, ?_⟩
  have hif := @cutRuns_iff xs ⟨vbn, vbn + sectorCount, -1⟩ h.runs hlt hvbn
  simp only [runs_mem h, ← hif]
  constructor
  · rintro ⟨-, hs⟩ v hv hn
    obtain ⟨l, hb, ha⟩ := hs v hv fun hin => hn ((hr v).mp hin)
    rw [lbnFound_eq h hv] at hb
    rw [lbnFound_eq hok hv, ← hb] at ha
    exact some.inj ha
  intro hs
  refine ⟨fun v hin => ?_, fun v hv hn => ⟨_, lbnFound_eq h hv, ?_⟩⟩
  · have hh := (hr v).mp hin
    rw [lbnFound_eq hok (Int64.le_trans hvbn hh.1),
      @lbnOf_cutRuns_inside _ ⟨vbn, vbn + sectorCount, -1⟩ _ h.runs hlt hh]
  · rw [lbnFound_eq hok hv, hs v hv fun hh => hn ((hr v).mpr hh)]

lemma addAllocates_first : AddAllocates fsRtlInitializeBaseMcb 0 100 10 4096 := by
  intro mcb1 i mcb2 nr hl hm
  cases hl
  cases hm
  decide

theorem removeMcb_iff_last : ∃ mcb mcb', Run mcbStep McbValid fsRtlInitializeBaseMcb [.add 0 100 10 4096] mcb ∧
    fsRtlRemoveBaseMcbEntry mcb 5 5 = some (mcb', true) ∧ lbnFound mcb' 4 = some 104 ∧
      lbnFound mcb' 7 = some (-1) := by
  obtain ⟨mcb, hrn, hru, hf⟩ : ∃ mcb, Run mcbStep McbValid fsRtlInitializeBaseMcb [.add 0 100 10 4096] mcb ∧
      mcb.runs = [⟨0, 10, 100⟩] ∧ lbnFound mcb 4 = some 104 :=
    ⟨_, .single ⟨fun _ _ => by decide, addAllocates_first⟩ rfl, rfl, rfl⟩
  obtain ⟨mcb', hr, hif⟩ := @removeMcb_iff _ 5 5 _ hrn (by decide) (by decide) (by decide)
  obtain ⟨hin, hs⟩ := hif.mpr fun e he _ ha => by
    rw [hru, mem_singleton] at he
    subst he
    exact absurd ha (by decide)
  obtain ⟨l, hb, ha⟩ := hs 4 (by decide) (by rw [InRange]; decide)
  cases hb.symm.trans hf
  exact ⟨mcb, mcb', hrn, hr, ha, hin 7 (by rw [InRange]; decide)⟩

/-- A removal at the start of a run leaves the numbers of the other blocks wrong. -/
theorem removeMcb_iff_fails : ∃ mcb mcb', Run mcbStep McbValid fsRtlInitializeBaseMcb [.add 0 100 10 4096] mcb ∧
    fsRtlRemoveBaseMcbEntry mcb 0 5 = some (mcb', true) ∧ lbnFound mcb 7 = some 107 ∧ lbnFound mcb' 7 = some 102 :=
  ⟨_, _, .single ⟨fun _ _ => by decide, addAllocates_first⟩ rfl, rfl, rfl, rfl⟩

/-- What makes an addition right: it is refused, or it ends at a block number and the runs that are
stored agree with it. -/
def AddOk (mcb : BaseMcb) (vbn lbn sectorCount : Int64) : Prop :=
  vbn < 0 ∨ sectorCount ≤ 0 ∨ Conflict mcb.runs vbn lbn ∨
    NoOverflow vbn sectorCount ∧ Addable ⟨vbn, vbn + sectorCount, lbn⟩ mcb.runs

lemma same_found (h : McbOk mcb xs) (h' : McbOk mcb' xs) :
    ∀ v, 0 ≤ v → ∃ l, lbnFound mcb v = some l ∧ lbnFound mcb' v = some l :=
  fun _ hv => ⟨_, lbnFound_eq h hv, lbnFound_eq h' hv⟩

/-- Past the greatest block number an addition cannot do what it is to do: that block is never found. -/
lemma addMcb_overflow (h : McbOk mcb xs) (hvbn : 0 ≤ vbn) (hcn : 0 < sectorCount) (hlb : 0 ≤ lbn)
    (hc : ¬ Conflict xs vbn lbn)
    (hno : ¬ NoOverflow vbn sectorCount) {r : Bool}
      (ha : fsRtlAddBaseMcbEntry mcb vbn lbn sectorCount a = some (mcb', r)) :
    r ∧ ¬ ∀ v, InRange vbn sectorCount v → lbnFound mcb' v = some (lbn + (v - vbn)) := by
  obtain ⟨mcb1, found, hlk, -, hf, -⟩ := lookupMcb_spec h hvbn
  have hr : r := by
    rw [fsRtlAddBaseMcbEntry, if_neg (Int64.not_lt.mpr hvbn), if_neg (Int64.not_le.mpr hcn), hlk, do_some] at ha
    dsimp only at ha
    rw [Conflict, ← hf] at hc
    rw [if_neg fun h => hc h.2] at ha
    cases hm : makeRoom mcb1 vbn lbn sectorCount with
    | none => simp [hm] at ha
    | some m =>
      rw [hm, do_some] at ha
      cases his : rtlInsertElementGenericTable mcbMappingCompare m.1.Mapping m.2 a with
      | none => simp [his] at ha
      | some inserted =>
        rw [his, do_some] at ha
        split at ha
        · cases ha
        · cases ha
          rfl
  refine ⟨hr, fun hin => ?_⟩
  have hmx := hin maxValue ⟨?_, ?_⟩
  · rw [lbnFound, fsRtlLookupBaseMcbEntry] at hmx
    cases hl : lookupLoop maxValue loopBound mcb' 0 with
    | none => simp [hl] at hmx
    | some l =>
      rw [hl, map_some, lookup_max hl] at hmx
      grind
  · exact le_iff_toInt_le.mp (le_maxValue vbn)
  rw [NoOverflow] at hno
  rw [toInt_maxValue]
  omega

/-- An addition maps its range as it says and leaves everything else, or is refused and leaves
everything, exactly if `AddOk`. -/
theorem addMcb_iff {calls : List McbCall}
    (hrun : Run mcbStep McbValid fsRtlInitializeBaseMcb calls mcb) (hlbn : 0 ≤ lbn)
    (halloc : AddAllocates mcb vbn lbn sectorCount a) :
    (∃ mcb' result, fsRtlAddBaseMcbEntry mcb vbn lbn sectorCount a = some (mcb', result) ∧
      (result = true → (∀ v, InRange vbn sectorCount v → lbnFound mcb' v = some (lbn + (v - vbn))) ∧
        ∀ v, 0 ≤ v → ¬ InRange vbn sectorCount v → ∃ l, lbnFound mcb v = some l ∧ lbnFound mcb' v = some l) ∧
      (result = false → ∀ v, 0 ≤ v → ∃ l, lbnFound mcb v = some l ∧ lbnFound mcb' v = some l)) ↔
    AddOk mcb vbn lbn sectorCount := by
  obtain ⟨xs, h⟩ := mcbRun_ok hrun
  by_cases hn : vbn < 0
  · refine ⟨fun _ => .inl hn, fun _ => ⟨mcb, false, by rw [fsRtlAddBaseMcbEntry, if_pos hn], fun h => absurd h Bool.false_ne_true, fun _ => same_found h h⟩⟩
  by_cases he : sectorCount ≤ 0
  · refine ⟨fun _ => .inr (.inl he), fun _ =>
      ⟨mcb, false, ?_, fun h => absurd h Bool.false_ne_true, fun _ => same_found h h⟩⟩
    rw [fsRtlAddBaseMcbEntry, if_neg hn, if_pos he]
  have hvbn := Int64.not_lt.mp hn
  have hco := Int64.not_le.mp he
  have hcn : Conflict mcb.runs vbn lbn ↔ Conflict xs vbn lbn := by
    rw [Conflict, Conflict, lbnOf_congr h.runs (runs_mem h)]
  by_cases hc : Conflict xs vbn lbn
  · obtain ⟨mcb', ha, hok⟩ := @addMcb_conflict _ _ _ _ _ a h hvbn hco hc
    exact ⟨fun _ => .inr (.inr (.inl (hcn.mpr hc))), fun _ =>
      ⟨mcb', false, ha, fun h => absurd h Bool.false_ne_true,
      fun _ => same_found h hok⟩⟩
  by_cases hno : NoOverflow vbn sectorCount
  · have hlt := (lt_add_iff hvbn hco).mpr hno
    have hr (v : Int64) := @inRange_iff vbn lbn sectorCount v hno hvbn hco
    obtain ⟨mcb', run, ys, zs, ha, hok, hrm⟩ := addMcb_spec h hvbn hco hlt hc halloc
    have hct := @cutRuns_ok xs ⟨vbn, vbn + sectorCount, lbn⟩ h.runs hlt
    have hf (v : Int64) (hv : 0 ≤ v) := (lbnFound_eq hok hv).trans (congrArg some (lbnOf_added hok.runs hct hrm v))
    have hif := @added_iff xs ⟨vbn, vbn + sectorCount, lbn⟩ run h.runs hlt hrm.merged hvbn hlbn hrm.bounds.2
    have hok_iff : AddOk mcb vbn lbn sectorCount ↔ Addable ⟨vbn, vbn + sectorCount, lbn⟩ xs := by
      rw [AddOk, hcn, addable_congr h.runs (runs_mem h)]
      simp [hn, he, hc, hno]
    rw [hok_iff, ← hif]
    constructor
    swap
    · rintro ⟨hin, hs⟩
      refine ⟨mcb', true, ha, fun _ => ⟨fun v hv => ?_, fun v hv hnt => ⟨_, lbnFound_eq h hv, ?_⟩⟩,
        fun h => absurd h.symm Bool.false_ne_true⟩
      · have hh := (hr v).mp hv
        rw [hf v (Int64.le_trans hvbn hh.1), hin v hh]
      · rw [hf v hv, hs v hv fun hh => hnt ((hr v).mpr hh)]
    rintro ⟨mcb₁, result, ha', ht, -⟩
    cases ha.symm.trans ha'
    obtain ⟨hin, hs⟩ := ht rfl
    refine ⟨fun v hv => ?_, fun v hv hnt => ?_⟩
    · have := hin v ((hr v).mpr hv)
      rw [hf v (Int64.le_trans hvbn hv.1)] at this
      exact some.inj this
    obtain ⟨l, hb, haf⟩ := hs v hv fun hin => hnt ((hr v).mp hin)
    rw [lbnFound_eq h hv] at hb
    rw [hf v hv, ← hb] at haf
    exact some.inj haf
  · constructor
    · rintro ⟨mcb', result, ha, ht, -⟩
      obtain ⟨hrs, hnt⟩ := addMcb_overflow h hvbn hco hlbn hc hno ha
      exact absurd (ht hrs).1 hnt
    rintro (hn' | he' | hc' | ⟨hno', -⟩)
    · exact absurd hn' hn
    · exact absurd he' he
    · exact absurd (hcn.mp hc') hc
    · exact absurd hno' hno

/-- A second run, apart from the first. -/
theorem addMcb_iff_second : ∃ mcb mcb', Run mcbStep McbValid fsRtlInitializeBaseMcb [.add 0 100 10 4096] mcb ∧
    fsRtlAddBaseMcbEntry mcb 20 300 5 8192 = some (mcb', true) ∧ lbnFound mcb' 22 = some 302 ∧
      lbnFound mcb' 7 = some 107 := by
  obtain ⟨mcb, mcb₁, hr, hrn, ha', hal, hf⟩ :
    ∃ mcb mcb₁, Run mcbStep McbValid fsRtlInitializeBaseMcb [.add 0 100 10 4096] mcb ∧
      mcb.runs = [⟨0, 10, 100⟩] ∧ fsRtlAddBaseMcbEntry mcb 20 300 5 8192 = some (mcb₁, true) ∧
      AddAllocates mcb 20 300 5 8192 ∧ lbnFound mcb 7 = some 107 := by
    refine ⟨_, _, .single ⟨fun _ _ => by decide, addAllocates_first⟩ rfl, rfl, rfl, ?_, rfl⟩
    intro mcb₁ i mcb₂ nr hl hm
    cases hl
    cases hm
    decide
  have hok : AddOk mcb 20 300 5 := by
    refine .inr (.inr (.inr ⟨by decide, ?_⟩))
    rw [hrn]
    refine ⟨by decide, fun e he _ hlt => ?_, by decide, by decide⟩
    rw [List.mem_singleton] at he
    subst he
    exact absurd hlt (by decide)
  obtain ⟨mcb', r, ha, ht, -⟩ := (addMcb_iff hr (by decide) hal).mpr hok
  cases ha.symm.trans ha'
  obtain ⟨hin, hout⟩ := ht rfl
  obtain ⟨l, hb, hl⟩ := hout 7 (by decide) (by rw [InRange]; decide)
  cases hb.symm.trans hf
  refine ⟨mcb, mcb₁, hr, ha, ?_, hl⟩
  rw [hin 22 (by rw [InRange]; decide)]
  rfl

/-- The new run is merged with the one after it, whose logical blocks are elsewhere. -/
theorem addMcb_iff_fails : ∃ mcb mcb', Run mcbStep McbValid fsRtlInitializeBaseMcb [.add 10 300 5 4096] mcb ∧
    fsRtlAddBaseMcbEntry mcb 0 100 10 8192 = some (mcb', true) ∧ AddAllocates mcb 0 100 10 8192 ∧
      lbnFound mcb 12 = some 302 ∧
    lbnFound mcb' 12 = some 112 := by
  refine ⟨_, _, .single ⟨fun _ _ => by decide, ?_⟩ rfl, rfl, ?_, rfl, rfl⟩
  · intro mcb₁ i mcb₂ nr hl hm
    cases hl
    cases hm
    decide
  intro mcb₁ i mcb₂ nr hl hm
  cases hl
  cases hm
  decide

end FreeNT.FsRtl
