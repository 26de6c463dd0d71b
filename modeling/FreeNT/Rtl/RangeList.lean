import Mathlib.Tactic.Ring
import FreeNT.Lib.Run

/-!
# Range lists (`sdk/lib/rtl/rangelist.c`)

`RtlAddRange` puts a range before the first one that starts after its end, and looks for no
conflict. `RtlIsRangeAvailable` misses a range that starts where the interval ends and goes on
(`checked_ranges`). `RtlInvertRangeList` adds what is after the last range, but nothing if this
ends at `2 ^ 64 - 2`, and everything if it ends at `2 ^ 64 - 1` (`inverted_iff`).
-/

namespace FreeNT.Rtl

open List

/-- The bounds of an `RTL_RANGE`. -/
structure RtlRange where
  Start : Nat
  End : Nat
  le : Start ≤ End

def RtlRange.Has (r : RtlRange) (x : Nat) : Prop := r.Start ≤ x ∧ x ≤ r.End

inductive RangeStatus where
  | success
  | invalidParameter
  | insufficientResources

/-- The loop of `RtlAddRange`. -/
def insertRange (r : RtlRange) : List RtlRange → List RtlRange
  | [] => [r]
  | current :: xs => if current.Start > r.End then r :: current :: xs else current :: insertRange r xs

/-- `RtlAddRange`; `memory` tells whether the entry can be allocated. -/
def rtlAddRange (memory : Bool) (xs : List RtlRange) (start stop : Nat) : RangeStatus × List RtlRange :=
  if h : start ≤ stop then
    if memory then (.success, insertRange ⟨start, stop, h⟩ xs) else (.insufficientResources, xs)
  else (.invalidParameter, xs)

/-- `RtlIsRangeAvailable` without flags and callback: one conflict makes the answer `FALSE`. -/
def rtlIsRangeAvailable (xs : List RtlRange) (start stop : Nat) : Bool :=
  xs.all fun current => (stop ≤ current.Start ∧ stop < current.End) ∨ (current.Start ≤ start ∧ current.End < start)

/-- `RtlAddRange` for the inverted list, with memory. -/
def addGap (ys : List RtlRange) (start stop : Nat) : Option (List RtlRange) :=
  match rtlAddRange true ys start stop with
  | (.success, ys) => some ys
  | _ => none

def addGapIf (c : Prop) [Decidable c] (ys : List RtlRange) (start stop : Nat) : Option (List RtlRange) :=
  if c then addGap ys start stop else some ys

/-- The trailing range. -/
def invertLast (ys : List RtlRange) (previous : RtlRange) : Option (List RtlRange) :=
  addGapIf ((previous.End + 1) % 2 ^ 64 ≠ 2 ^ 64 - 1) ys ((previous.End + 1) % 2 ^ 64) (2 ^ 64 - 1)

/-- The loop of `RtlInvertRangeList`, from the second range on. -/
def invertLoop (ys : List RtlRange) (previous : RtlRange) : List RtlRange → Option (List RtlRange)
  | [] => invertLast ys previous
  | current :: xs => do
    let ys ← addGapIf ((previous.End + 1) % 2 ^ 64 ≠ current.Start) ys ((previous.End + 1) % 2 ^ 64)
      ((current.Start + 2 ^ 64 - 1) % 2 ^ 64)
    invertLoop ys current xs

/-- `RtlInvertRangeList`: the inverted list, if the status is a success. -/
def rtlInvertRangeList (ys : List RtlRange) : List RtlRange → Option (List RtlRange)
  | [] => some ys
  | current :: xs => do
    let ys ← addGapIf (current.Start ≠ 0) ys 0 (current.Start - 1)
    invertLoop ys current xs

/-- The ranges are in order, and disjoint. -/
def Sorted (xs : List RtlRange) : Prop := xs.Pairwise fun a b => a.End < b.Start

variable {xs ys ps : List RtlRange} {r p : RtlRange} {start stop b c : Nat}

lemma mem_insertRange {y : RtlRange} : y ∈ insertRange r xs ↔ y = r ∨ y ∈ xs := by
  induction xs with
  | nil => simp [insertRange]
  | cons x xs ih => grind [insertRange]

lemma sorted_insertRange (hs : Sorted xs) (hd : ∀ x ∈ xs, x.End < r.Start ∨ r.End < x.Start) :
    Sorted (insertRange r xs) := by
  induction xs with
  | nil => exact pairwise_singleton ..
  | cons x xs ih =>
    obtain ⟨hx, hs⟩ := pairwise_cons.mp hs
    obtain ⟨hr, hd⟩ := forall_mem_cons.mp hd
    rw [insertRange]
    split
    · refine pairwise_cons.mpr ⟨fun y hy => ?_, pairwise_cons.mpr ⟨hx, hs⟩⟩
      have := x.le
      grind
    · refine pairwise_cons.mpr ⟨fun y hy => ?_, ih hs hd⟩
      rcases mem_insertRange.mp hy with rfl | hy
      · omega
      · exact hx y hy

/-! ## Checked insertion -/

def Meets (start stop : Nat) (r : RtlRange) : Prop := ∃ x, r.Has x ∧ start ≤ x ∧ x ≤ stop

lemma meets_iff (h : start ≤ stop) : Meets start stop r ↔ r.Start ≤ stop ∧ start ≤ r.End := by
  have := r.le
  constructor
  · rintro ⟨x, hx, h1, h2⟩
    exact ⟨hx.1.trans h2, h1.trans hx.2⟩
  · rintro ⟨h1, h2⟩
    exact ⟨max start r.Start, ⟨by omega, by omega⟩, by omega, by omega⟩

/-- A range that starts at the end of the interval, and goes on. -/
def StartsAt (stop : Nat) (r : RtlRange) : Prop := r.Start = stop ∧ stop < r.End

lemma available_iff (h : start ≤ stop) :
    rtlIsRangeAvailable xs start stop ↔ ∀ r ∈ xs, StartsAt stop r ∨ ¬ Meets start stop r := by
  rw [rtlIsRangeAvailable, all_eq_true]
  refine forall₂_congr fun r _ => ?_
  have := r.le
  rw [decide_eq_true_iff, meets_iff h, StartsAt]
  omega

/-- A call of `RtlAddRange` for an interval that was just reported available. -/
structure CheckedAdd where
  memory : Bool
  start : Nat
  stop : Nat

def checkedStep (xs : List RtlRange) (a : CheckedAdd) : Option (List RtlRange) :=
  if rtlIsRangeAvailable xs a.start a.stop then some (rtlAddRange a.memory xs a.start a.stop).2 else none

lemma checkedStep_sorted {a : CheckedAdd} (hs : Sorted xs) (hok : ∀ r ∈ xs, ¬ StartsAt a.stop r)
    (h : checkedStep xs a = some ys) :
    Sorted ys := by
  rw [checkedStep] at h
  split at h <;> cases h
  rename_i ha
  rw [rtlAddRange]
  split
  · rename_i hle
    split
    · refine sorted_insertRange hs fun x hx => ?_
      have hm := ((available_iff hle).mp ha x hx).resolve_left (hok x hx)
      rw [meets_iff hle] at hm
      dsimp only
      omega
    · exact hs
  · exact hs

/-- The check is right if and only if no range starts at the end of the interval and goes on, or
another one meets the interval. Without such a range, lists that are built by checked insertions
are sorted. -/
theorem checked_ranges (xs : List RtlRange) (h : start ≤ stop) :
    ((rtlIsRangeAvailable xs start stop ↔ ∀ r ∈ xs, ¬ Meets start stop r) ↔
      (∀ r ∈ xs, ¬ StartsAt stop r) ∨ ∃ r ∈ xs, ¬ StartsAt stop r ∧ Meets start stop r) ∧
    ∀ calls xs, Run checkedStep (fun xs a => ∀ r ∈ xs, ¬ StartsAt a.stop r) [] calls xs → Sorted xs := by
  refine ⟨?_, fun calls xs hr => hr.invariant Sorted checkedStep_sorted Pairwise.nil⟩
  have hm (r : RtlRange) (hr : StartsAt stop r) : Meets start stop r := by
    rw [meets_iff h]
    exact ⟨hr.1.le, by have := hr.2; omega⟩
  rw [available_iff h]
  constructor
  · grind
  · rintro (hno | ⟨r, hr, hns, hme⟩)
    · exact forall₂_congr fun r hr => by simp [hno r hr]
    · exact iff_of_false (fun ha => (ha r hr).elim hns fun h => h hme) fun ha => ha r hr hme

theorem checked_ranges_before : rtlIsRangeAvailable [⟨5, 9, by decide⟩] 1 4 ∧
    ∃ xs, Run checkedStep (fun xs a => ∀ r ∈ xs, ¬ StartsAt a.stop r) [] [⟨true, 5, 9⟩,
      ⟨true, 1, 4⟩] xs ∧ Sorted xs := by
  have hst : ∀ r ∈ [(⟨5, 9, by decide⟩ : RtlRange)], ¬ StartsAt 4 r := by simp [StartsAt]
  have h := checked_ranges [⟨5, 9, by decide⟩] (show 1 ≤ 4 by decide)
  exact ⟨(h.1.mpr (.inl hst)).mpr (by simp [meets_iff]),
    Run.exists_and ⟨_, .cons (by simp) rfl (.cons hst rfl (.nil _))⟩ (h.2 _)⟩

/-- `[1, 5]` is available beside `[5, 9]`, and is added after it. -/
theorem checked_ranges_shared : rtlIsRangeAvailable [⟨5, 9, by decide⟩] 1 5 ∧ Meets 1 5 ⟨5, 9, by decide⟩ ∧
    ∃ xs, Run checkedStep (fun _ _ => True) [] [⟨true, 5, 9⟩, ⟨true, 1, 5⟩] xs ∧ ¬ Sorted xs := by
  refine ⟨rfl, (meets_iff (by decide)).mpr (by decide), _, .cons trivial rfl (.cons trivial rfl (.nil _)), ?_⟩
  simp [Sorted, rtlAddRange, insertRange]

/-! ## Inversion -/

/-- The ranges end before `b`, and up to there the points of `ys` are those of no range of `xs`. -/
structure Inverted (xs ys : List RtlRange) (b : Nat) : Prop where
  ends : ∀ r ∈ xs, r.End < b
  sorted : Sorted ys
  below : ∀ r ∈ ys, r.End < b
  points : ∀ x < b, (∃ r ∈ ys, r.Has x) ↔ ∀ r ∈ xs, ¬ r.Has x

lemma addGap_eq (h : start ≤ stop) (hb : ∀ r ∈ ys, r.End < start) :
    addGap ys start stop = some (ys ++ [⟨start, stop, h⟩]) := by
  have hi : insertRange ⟨start, stop, h⟩ ys = ys ++ [⟨start, stop, h⟩] := by
    induction ys with
    | nil => rfl
    | cons y ys ih =>
      have := y.le
      grind [insertRange]
  simp [addGap, rtlAddRange, h, hi]

lemma Inverted.gap (hi : Inverted xs ys b) (h : b ≤ c - 1) (hc : 0 < c) :
    Inverted xs (ys ++ [⟨b, c - 1, h⟩]) c where
  ends r hr := (hi.ends r hr).trans (by omega)
  sorted := pairwise_append.mpr ⟨hi.sorted, pairwise_singleton .., by simpa using hi.below⟩
  below r hr := by
    have := hi.below r
    grind
  points x hlt := by
    have := hi.points x
    have := hi.ends
    by_cases hxb : x < b
    · grind [RtlRange.Has]
    · exact iff_of_true ⟨_, mem_append_right _ (mem_singleton_self _), Nat.not_lt.mp hxb,
        Nat.le_sub_one_of_lt hlt⟩ (by grind [RtlRange.Has])

lemma Inverted.range (hi : Inverted xs ys r.Start) : Inverted (xs ++ [r]) ys (r.End + 1) where
  ends := by
    have := hi.ends
    have := r.le
    grind
  sorted := hi.sorted
  below s hs := (hi.below s hs).trans_le (r.le.trans (Nat.le_succ _))
  points x hlt := by
    by_cases hx : x < r.Start
    · have hr : ¬ r.Has x := fun h => Nat.not_le.mpr hx h.1
      rw [hi.points x hx]
      simp [or_imp, forall_and, hr]
    · have := hi.below
      exact iff_of_false (by grind [RtlRange.Has]) fun h => h r (by simp) ⟨Nat.not_lt.mp hx, Nat.le_of_lt_succ hlt⟩

lemma Inverted.addGapIf {q : Prop} [Decidable q] (hi : Inverted xs ys b) (h : b ≤ c) (hq : q ↔ b ≠ c) :
    ∃ zs, addGapIf q ys b (c - 1) = some zs ∧ Inverted xs zs c := by
  by_cases he : b = c
  · exact ⟨ys, if_neg (by simp [hq, he]), he ▸ hi⟩
  · exact ⟨_, (if_pos (hq.mpr he)).trans (addGap_eq (by omega) hi.below), hi.gap _ (by omega)⟩

def lastRange (p : RtlRange) (xs : List RtlRange) : RtlRange := (p :: xs).getLast (cons_ne_nil p xs)

lemma invertLoop_eq (hi : Inverted ps ys (p.End + 1)) (hs : Sorted (p :: xs))
    (hlt : ∀ r ∈ p :: xs, r.End < 2 ^ 64) :
    ∃ zs, invertLoop ys p xs = invertLast zs (lastRange p xs) ∧
      Inverted (ps ++ xs) zs ((lastRange p xs).End + 1) := by
  induction xs generalizing ps ys p with
  | nil => exact ⟨ys, rfl, by rwa [append_nil]⟩
  | cons c xs ih =>
    obtain ⟨hpc, hs⟩ := pairwise_cons.mp hs
    obtain ⟨_, hlt⟩ := forall_mem_cons.mp hlt
    have hc := hpc c mem_cons_self
    have := c.le
    have := hlt c mem_cons_self
    obtain ⟨us, hus, hiu⟩ := hi.addGapIf (show p.End + 1 ≤ c.Start from hc) Iff.rfl
    obtain ⟨zs, hz, hiz⟩ := ih hiu.range hs hlt
    rw [append_assoc] at hiz
    refine ⟨zs, ?_, hiz⟩
    rw [invertLoop, Nat.mod_eq_of_lt (by omega), show (c.Start + 2 ^ 64 - 1) % 2 ^ 64 = c.Start - 1 by omega, hus]
    exact hz

/-- The inverted list is the complement if and only if the last range ends before `2 ^ 64 - 2`. -/
theorem inverted_iff (hs : Sorted (r :: xs)) (hlt : ∀ s ∈ r :: xs, s.End < 2 ^ 64) :
    (∃ ys, rtlInvertRangeList [] (r :: xs) = some ys ∧ Inverted (r :: xs) ys (2 ^ 64)) ↔
      (lastRange r xs).End < 2 ^ 64 - 2 := by
  have h0 : Inverted [] [] 0 := ⟨by simp, Pairwise.nil, by simp, by simp⟩
  obtain ⟨us, hus, hiu⟩ := h0.addGapIf (q := r.Start ≠ 0) (Nat.zero_le r.Start) ne_comm
  obtain ⟨zs, hz, hiz⟩ := invertLoop_eq hiu.range hs hlt
  have hq : lastRange r xs ∈ r :: xs := getLast_mem _
  generalize lastRange r xs = q at *
  have hr : rtlInvertRangeList [] (r :: xs) = invertLast zs q := by
    rw [rtlInvertRangeList, hus]
    exact hz
  have hq64 := hlt q hq
  rw [hr, invertLast, addGapIf]
  constructor
  · rintro ⟨ys, hys, hi⟩
    by_contra hc
    rcases (show q.End = 2 ^ 64 - 2 ∨ q.End = 2 ^ 64 - 1 by omega) with he | he
    · -- the last point is missing
      rw [he, if_neg (by decide)] at hys
      cases hys
      have := hi.points (2 ^ 64 - 1) (by omega)
      have := hiz.below
      have := hiz.ends
      grind [RtlRange.Has]
    · -- everything is added
      rw [he, if_pos (by decide)] at hys
      have hm : (⟨0, 2 ^ 64 - 1, Nat.zero_le _⟩ : RtlRange) ∈ ys := by
        simp [addGap, rtlAddRange] at hys
        exact hys ▸ mem_insertRange.mpr (.inl rfl)
      exact (hi.points q.End hq64).mp ⟨_, hm, by simp, by simp; omega⟩ q hq ⟨q.le, le_rfl⟩
  · intro h
    rw [Nat.mod_eq_of_lt (by omega), if_pos (by omega), addGap_eq (by omega) hiz.below]
    exact ⟨_, rfl, hiz.gap (by omega) (by decide)⟩

theorem inverted_iff_middle : ∃ ys, rtlInvertRangeList [] [⟨1, 2, by decide⟩, ⟨3, 8, by decide⟩] = some ys ∧
    Inverted [⟨1, 2, by decide⟩, ⟨3, 8, by decide⟩] ys (2 ^ 64) :=
  (inverted_iff (by simp [Sorted]) (by simp)).mpr (by simp [lastRange])

/-- The list of everything inverts to everything. -/
theorem inverted_iff_all : ¬ ∃ ys, rtlInvertRangeList [] [⟨0, 2 ^ 64 - 1, by decide⟩] = some ys ∧
    Inverted [⟨0, 2 ^ 64 - 1, by decide⟩] ys (2 ^ 64) := by
  rintro ⟨ys, hys, hi⟩
  cases hys
  exact (hi.points 0 (by decide)).mp ⟨_, mem_singleton_self _, by decide, by decide⟩
    _ (mem_singleton_self _) ⟨by decide, by decide⟩

end FreeNT.Rtl
