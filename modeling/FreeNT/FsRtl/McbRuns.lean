import Mathlib.Data.List.Pairwise
import FreeNT.FsRtl.LargeMcb

/-!
# The runs of an MCB

`McbOk`: the table of an MCB holds runs that are not empty, in order and without overlap.
What an MCB says of a block is then given by the run that has it (`lbnOf`), and enumerating
the runs (`getNext_spec`) and looking up a block (`lookupMcb_spec`) say just that.
-/

namespace FreeNT.FsRtl

open SplayTree FreeNT.Rtl FreeNT.Rtl.SplayTable List Option

namespace LargeMcbMappingEntry

/-- The run has the block. -/
def Has (e : LargeMcbMappingEntry) (v : Int64) : Prop := e.RunStartVbn ≤ v ∧ v < e.RunEndVbn

instance (e : LargeMcbMappingEntry) (v : Int64) : Decidable (e.Has v) := inferInstanceAs (Decidable (_ ∧ _))

/-- The logical block of a block of the run. A run that starts at -1 counts as a hole. -/
def lbn (e : LargeMcbMappingEntry) (v : Int64) : Int64 :=
    if e.StartingLbn = -1 then -1 else e.StartingLbn + (v - e.RunStartVbn)

end LargeMcbMappingEntry

/-- What the runs say of a block. -/
def lbnOf (xs : List LargeMcbMappingEntry) (v : Int64) : Int64 :=
  match xs.find? fun e => e.Has v with
  | some e => e.lbn v
  | none => -1

/-- Runs that are not empty, in order and without overlap. -/
structure RunsOk (xs : List LargeMcbMappingEntry) : Prop where
  bounds : ∀ e ∈ xs, 0 ≤ e.RunStartVbn ∧ e.RunStartVbn < e.RunEndVbn
  sorted : xs.Pairwise fun a b => a.RunEndVbn ≤ b.RunStartVbn

namespace RunsOk

variable {xs ys zs : List LargeMcbMappingEntry} {e f : LargeMcbMappingEntry} {v : Int64}

lemma nil : RunsOk [] := ⟨nofun, .nil⟩

section

variable (h : RunsOk xs)

include h

lemma sublist (hs : ys.Sublist xs) : RunsOk ys := ⟨fun e he => h.bounds e (hs.subset he), h.sorted.sublist hs⟩

lemma end_nonneg (he : e ∈ xs) : 0 ≤ e.RunEndVbn := by
  have := h.bounds e he
  grind

lemma pair (he : e ∈ xs) (hf : f ∈ xs) (hne : e ≠ f) :
    e.RunEndVbn ≤ f.RunStartVbn ∨ f.RunEndVbn ≤ e.RunStartVbn := by
  have ha : xs.Pairwise fun a b => a.RunEndVbn ≤ b.RunStartVbn ∨ b.RunEndVbn ≤ a.RunStartVbn := h.sorted.imp .inl
  have : Std.Symm fun a b : LargeMcbMappingEntry => a.RunEndVbn ≤ b.RunStartVbn ∨
    b.RunEndVbn ≤ a.RunStartVbn := ⟨fun _ _ => Or.symm⟩
  exact ha.forall he hf hne

lemma unique (he : e ∈ xs) (hf : f ∈ xs) (hv : e.Has v) (hv' : f.Has v) : e = f := by
  by_contra hne
  have hp := h.pair he hf hne
  simp only [LargeMcbMappingEntry.Has] at hv hv'
  grind

lemma lbnOf_mem (he : e ∈ xs) (hv : e.Has v) : lbnOf xs v = e.lbn v := by
  rw [lbnOf]
  cases hfn : xs.find? fun e => e.Has v with
  | none =>
    have := find?_eq_none.mp hfn e he
    simp [hv] at this
  | some f =>
    have hf := mem_of_find?_eq_some hfn
    have hh := find?_some hfn
    rw [h.unique hf he (by simpa using hh) hv]

end

lemma lbnOf_none (hv : ∀ e ∈ xs, ¬ e.Has v) : lbnOf xs v = -1 := by
  have hf : (xs.find? fun e => e.Has v) = none := find?_eq_none.mpr fun e he => by simp [hv e he]
  rw [lbnOf, hf]

lemma cut_intersect (h : RunsOk xs) (n : LargeMcbMappingEntry) : Cut (mcbMappingIntersectCompare n) xs := by
  refine h.sorted.imp_of_mem fun {a b} ha hb hab => ?_
  have ha := h.bounds a ha
  simp only [mcbMappingIntersectCompare]
  grind

lemma cut_compare (h : RunsOk xs) (n : LargeMcbMappingEntry) (hn : n.RunStartVbn < n.RunEndVbn) :
    Cut (mcbMappingCompare n) xs := by
  refine h.sorted.imp_of_mem fun {a b} ha hb hab => ?_
  have ha := h.bounds a ha
  simp only [mcbMappingCompare]
  grind

end RunsOk

/-! ## Enumeration -/

def LargeMcbMappingEntry.run (e : LargeMcbMappingEntry) : McbRun :=
    ⟨e.RunStartVbn, e.StartingLbn, e.RunEndVbn - e.RunStartVbn⟩

/-- The hole before a run that follows the block `last`, if there is one. -/
def holeBefore (last : Int64) (e : LargeMcbMappingEntry) : List McbRun :=
  if last < e.RunStartVbn then [⟨last, -1, e.RunStartVbn - last⟩] else []

/-- The runs with the holes between them, from the block `last` on. -/
def withHoles : Int64 → List LargeMcbMappingEntry → List McbRun
  | _, [] => []
  | last, e :: xs => holeBefore last e ++ e.run :: withHoles e.RunEndVbn xs

lemma length_withHoles (l : Int64) (xs : List LargeMcbMappingEntry) : (withHoles l xs).length ≤ 2 * xs.length := by
  induction xs generalizing l with
  | nil => simp [withHoles]
  | cons e xs ih =>
    have hr := ih e.RunEndVbn
    simp only [withHoles, holeBefore, length_append, length_cons]
    split
    · simp only [length_cons, length_nil]
      omega
    · simp only [length_nil]
      omega

lemma add_sub_vbn (a b : Int64) : a + (b - a) = b := by grind

/-- Comparing as `ULONGLONG` makes no difference for block numbers. -/
lemma toUInt64_lt {a b : Int64} (ha : 0 ≤ a) (hb : 0 ≤ b) : a.toUInt64 < b.toUInt64 ↔ a < b := by
  have hnn {a : Int64} (ha : 0 ≤ a) : a.toInt = a.toUInt64.toNat := by
    have hm : a.toBitVec.msb = false := by
      rw [BitVec.msb_eq_toInt, decide_eq_false_iff_not, Int.not_lt]
      exact Int64.le_iff_toInt_le.mp ha
    exact BitVec.toInt_eq_toNat_of_msb hm
  rw [UInt64.lt_iff_toNat_lt, Int64.lt_iff_toInt_lt, hnn ha, hnn hb]
  omega

/-- The answer of an enumeration that is past its last run. -/
def noRun : McbRun := ⟨0xdeadbeef, 0xdeadbeef, 0xdeadbeef⟩

/-- The answer for a run, if there is one. -/
def answer (run : Option McbRun) : Bool × McbRun := (run.isSome, run.getD noRun)

lemma answer_some (run : McbRun) : answer (some run) = (true, run) := rfl

/-- Runs of blocks whose numbers are not negative, perhaps overlapping. -/
def RunsNonneg (xs : List LargeMcbMappingEntry) : Prop := ∀ e ∈ xs, 0 ≤ e.RunStartVbn ∧ 0 ≤ e.RunEndVbn

lemma RunsOk.nonneg {xs : List LargeMcbMappingEntry} (h : RunsOk xs) : RunsNonneg xs :=
  fun e he => ⟨(h.bounds e he).1, h.end_nonneg he⟩

lemma getNextLoop_spec {t : LargeMcbMapping} {n ri i j : Nat} {ys zs : List LargeMcbMappingEntry}
    {e : LargeMcbMappingEntry} {lv lc : UInt64} {ls : Int64} (h : At t n ys e zs) (hok : RunsNonneg (e :: zs))
    (hls : lv + lc = ls.toUInt64) (hp : 0 ≤ ls)
    (hid : i ≤ ri) (hr : ri < 2 ^ 32) (hfl : zs.length + 1 < j) :
    ∃ t' ns', getNextLoop ri j t n i lv lc =
        some (t', answer (withHoles ls (e :: zs))[ri - i]?) ∧ Linked t' ns' (ys ++ e :: zs) := by
  induction j generalizing t n ys e zs i lv lc ls with
  | zero => omega
  | succ j ih =>
    obtain ⟨l, r, hln, hl⟩ := id h
    have hs := hok e mem_cons_self
    have hh : decide (lv + lc < e.RunStartVbn.toUInt64) = decide (ls < e.RunStartVbn) := by
      rw [hls, decide_eq_decide]
      exact toUInt64_lt hp hs.1
    rw [getNextLoop, if_neg h.ne_zero, h.userData, do_some]
    dsimp only
    rw [hh, hls, Int64.toInt64_toUInt64]
    -- what follows the run, with the number of the next one
    have hn (ix : Nat) (hi : ix ≤ ri) (hne : ri ≠ ix) :
        ∃ t' ns', (rtlEnumerateGenericTable t false).bind (fun x => getNextLoop ri j x.1 x.2 ((ix + 1) % 2 ^ 32)
            e.RunStartVbn.toUInt64 (e.RunEndVbn - e.RunStartVbn).toUInt64) =
          some (t', answer (withHoles e.RunEndVbn zs)[ri - (ix + 1)]?) ∧ Linked t' ns' (ys ++ e :: zs) := by
      rw [Nat.mod_eq_of_lt (show ix + 1 < 2 ^ 32 by omega)]
      cases zs with
      | nil =>
        obtain _ | j := j
        · simp at hfl
        exact ⟨t, _, by rw [h.enumerate_last]; rfl, hln⟩
      | cons z zs =>
        obtain ⟨t1, n1, he, hat⟩ := h.enumerate_next
        have hok' : RunsNonneg (z :: zs) := fun f hf => hok f (mem_cons_of_mem _ hf)
        have hsm : e.RunStartVbn.toUInt64 + (e.RunEndVbn - e.RunStartVbn).toUInt64 = e.RunEndVbn.toUInt64 := by
          rw [← Int64.toUInt64_add, add_sub_vbn]
        obtain ⟨t', ns', hlp, hln'⟩ := ih hat hok' hsm hs.2 (show ix + 1 ≤ ri by omega)
          (by simp only [length_cons] at hfl; omega)
        refine ⟨t', ns', by rw [he, bind_some, hlp], ?_⟩
        rwa [append_assoc, singleton_append] at hln'
    rw [withHoles, holeBefore]
    by_cases hlt : ls < e.RunStartVbn
    swap
    · rw [if_neg hlt, decide_eq_false hlt, if_neg fun h => Bool.false_ne_true h.1, if_neg Bool.false_ne_true]
      by_cases hc : ri = i
      · subst hc
        exact ⟨t, _, by simp [answer, LargeMcbMappingEntry.run], hln⟩
      obtain ⟨t', ns', hlp, hln'⟩ := hn i hid hc
      refine ⟨t', ns', ?_, hln'⟩
      rw [if_neg hc, show ri - i = ri - (i + 1) + 1 by omega]
      exact hlp
    rw [if_pos hlt, decide_eq_true hlt, if_pos rfl]
    by_cases hc : ri = i
    · subst hc
      exact ⟨t, _, by simp [answer], hln⟩
    rw [if_neg fun h => hc h.2, Nat.mod_eq_of_lt (show i + 1 < 2 ^ 32 by omega)]
    by_cases hc' : ri = i + 1
    · subst hc'
      exact ⟨t, _, by simp [answer, LargeMcbMappingEntry.run], hln⟩
    obtain ⟨t', ns', hlp, hln'⟩ := hn (i + 1) (by omega) hc'
    refine ⟨t', ns', ?_, hln'⟩
    rw [if_neg hc', show ri - i = ri - (i + 1 + 1) + 1 + 1 by omega]
    exact hlp

/-- The table of the MCB holds the runs. -/
structure McbOk (mcb : BaseMcb) (xs : List LargeMcbMappingEntry) : Prop where
  linked : ∃ nodes, Linked mcb.Mapping nodes xs
  runs : RunsOk xs
  count : mcb.PairCount = xs.length

/-- The table of the MCB holds the runs, which need not be in order. -/
structure McbStored (mcb : BaseMcb) (xs : List LargeMcbMappingEntry) : Prop where
  linked : ∃ nodes, Linked mcb.Mapping nodes xs
  nonneg : RunsNonneg xs

variable {m : BaseMcb} {xs : List LargeMcbMappingEntry}

lemma mcbOk_init : McbOk fsRtlInitializeBaseMcb [] := ⟨⟨nil, linked_init⟩, .nil, rfl⟩

lemma McbOk.stored (h : McbOk m xs) : McbStored m xs := ⟨h.linked, h.runs.nonneg⟩

lemma McbStored.length_le (h : McbStored m xs) : xs.length ≤ 2 ^ 32 / 24 := by
  obtain ⟨n, hl⟩ := h.linked
  exact hl.length ▸ hl.length_le

lemma McbOk.length_le (h : McbOk m xs) : xs.length ≤ 2 ^ 32 / 24 := h.stored.length_le

/-- The runs with the holes between them, in order. -/
lemma getNext_spec {i : Nat} (h : McbStored m xs) (hi : i < 2 ^ 32) :
    ∃ m', fsRtlGetNextBaseMcbEntry m i = some (m', answer (withHoles 0 xs)[i]?) ∧ McbStored m' xs ∧
      m'.PairCount = m.PairCount := by
  obtain ⟨ns, hl⟩ := h.linked
  have hln := h.length_le
  cases xs with
  | nil =>
    refine ⟨{ m with Mapping := m.Mapping }, ?_, h, rfl⟩
    rw [fsRtlGetNextBaseMcbEntry, hl.enumerate_empty]
    rfl
  | cons e xs =>
    obtain ⟨t, n, he, hat⟩ := hl.enumerate_first
    have hf : xs.length + 1 < loopBound := by
      simp only [length_cons] at hln
      simp only [loopBound]
      omega
    obtain ⟨t', ns', hlp, hl'⟩ := @getNextLoop_spec _ _ i 0 loopBound _ _ _ 0 0 0 hat h.nonneg rfl (by decide)
      (Nat.zero_le _) hi hf
    refine ⟨{ m with Mapping := t' }, ?_, ⟨⟨ns', hl'⟩, h.nonneg⟩, rfl⟩
    rw [fsRtlGetNextBaseMcbEntry, he, do_some]
    dsimp only
    rw [hlp]
    rfl

/-! ## Lookup -/

/-- The answer for a block: the first run, or hole, that does not end before it. -/
def lookupIn (v : Int64) : List McbRun → Nat → McbLookup
  | [], _ => ⟨false, -1, none, -1, none, none⟩
  | run :: runs, i => if v < run.Vbn + run.SectorCount then run.lookup v i else lookupIn v runs (i + 1)

lemma lookupLoop_spec {v : Int64} {k i : Nat} {runs : List McbRun} (h : McbStored m xs)
    (hr : (withHoles 0 xs).drop i = runs)
    (hi : i ≤ (withHoles 0 xs).length) (hf : runs.length < k) :
    ∃ m', lookupLoop v k m i = some (m', lookupIn v runs i) ∧ McbStored m' xs ∧ m'.PairCount = m.PairCount := by
  have hl := h.length_le
  have hhl := length_withHoles 0 xs
  induction k generalizing m i runs with
  | zero => omega
  | succ k ih =>
    obtain ⟨m', hg, hok, hp⟩ := @getNext_spec _ _ i h (by omega)
    rw [lookupLoop, hg, do_some]
    have hh : (withHoles 0 xs)[i]? = runs.head? := by rw [← hr, head?_drop]
    cases runs with
    | nil =>
      rw [hh]
      exact ⟨m', rfl, hok, hp⟩
    | cons run runs =>
      rw [hh, head?_cons, answer_some]
      simp only [Bool.not_true, Bool.false_eq_true, if_false, lookupIn]
      by_cases hv : v < run.Vbn + run.SectorCount
      · simp only [if_pos hv]
        exact ⟨m', rfl, hok, hp⟩
      have hlt : i < (withHoles 0 xs).length := by
        by_contra hge
        rw [drop_eq_nil_of_le (Nat.not_lt.mp hge)] at hr
        cases hr
      simp only [if_neg hv]
      rw [Nat.mod_eq_of_lt (show i + 1 < 2 ^ 32 by omega)]
      have hd : (withHoles 0 xs).drop (i + 1) = runs := by rw [← tail_drop, hr, tail_cons]
      rw [← hp]
      exact ih hok hd hlt (by simp only [length_cons] at hf; omega)

lemma lookupStored_spec (h : McbStored m xs) (v : Int64) :
    ∃ m', fsRtlLookupBaseMcbEntry m v = some (m', lookupIn v (withHoles 0 xs) 0) ∧ McbStored m' xs ∧
      m'.PairCount = m.PairCount := by
  have hl := h.length_le
  have hh := length_withHoles 0 xs
  exact @lookupLoop_spec _ _ v loopBound 0 _ h rfl (Nat.zero_le _) (by rw [loopBound]; omega)

variable {v : Int64}

lemma lbnOf_cons_of_not {e : LargeMcbMappingEntry} (hv : ¬ e.Has v) : lbnOf (e :: xs) v = lbnOf xs v := by
  rw [lbnOf, lbnOf, find?_cons_of_neg (by simpa using hv)]

lemma lookupIn_lbn {l : Int64} {i : Nat} (h : RunsOk xs) (hl : ∀ e ∈ xs, l ≤ e.RunStartVbn)
    (hp : 0 ≤ l) (hv : l ≤ v) :
    (lookupIn v (withHoles l xs) i).Lbn = lbnOf xs v := by
  induction xs generalizing l i with
  | nil => rfl
  | cons e xs ih =>
    obtain ⟨hst, hlt⟩ := h.bounds e mem_cons_self
    obtain ⟨ha, -⟩ := pairwise_cons.mp h.sorted
    have hr (i : Nat) : e.RunStartVbn ≤ v →
      (lookupIn v (e.run :: withHoles e.RunEndVbn xs) i).Lbn = lbnOf (e :: xs) v := by
      intro hle
      rw [lookupIn, LargeMcbMappingEntry.run]
      rw [add_sub_vbn]
      by_cases he : v < e.RunEndVbn
      · rw [if_pos he, h.lbnOf_mem mem_cons_self ⟨hle, he⟩]
        rfl
      · rw [if_neg he, lbnOf_cons_of_not fun hhs => he hhs.2]
        exact ih (h.sublist (sublist_cons_self e xs)) ha (h.end_nonneg mem_cons_self) (Int64.not_lt.mp he)
    rw [withHoles, holeBefore]
    by_cases hh : l < e.RunStartVbn
    swap
    · rw [if_neg hh, nil_append]
      exact hr i (Int64.le_trans (Int64.not_lt.mp hh) hv)
    rw [if_pos hh, singleton_append, lookupIn]
    rw [add_sub_vbn]
    by_cases he : v < e.RunStartVbn
    swap
    · rw [if_neg he]
      exact hr (i + 1) (Int64.not_lt.mp he)
    rw [if_pos he, RunsOk.lbnOf_none]
    · rfl
    intro f hf hhs
    have hs : e.RunStartVbn ≤ f.RunStartVbn := by
      rcases mem_cons.mp hf with rfl | hf
      · exact Int64.le_refl _
      · have := ha f hf
        grind
    exact absurd (Int64.le_trans hs hhs.1) (Int64.not_le.mpr he)

lemma lookupIn_result {runs : List McbRun} {i : Nat} (h : (lookupIn v runs i).Lbn ≠ -1) :
    (lookupIn v runs i).Result := by
  induction runs generalizing i with
  | nil => exact absurd rfl h
  | cons run runs ih =>
    rw [lookupIn] at h ⊢
    split
    · rfl
    rename_i hge
    rw [if_neg hge] at h
    exact ih h

lemma lookupMcb_spec (h : McbOk m xs) (hv : 0 ≤ v) :
    ∃ m' found, fsRtlLookupBaseMcbEntry m v = some (m', found) ∧ McbOk m' xs ∧ found.Lbn = lbnOf xs v ∧
      (found.Lbn ≠ -1 → found.Result) := by
  obtain ⟨m', hl, hs, hp⟩ := lookupStored_spec h.stored v
  refine ⟨m', _, hl, ⟨hs.linked, h.runs, hp.trans h.count⟩, ?_, lookupIn_result⟩
  exact lookupIn_lbn h.runs (fun e he => (h.runs.bounds e he).1) (Int64.le_refl 0) hv

end FreeNT.FsRtl
