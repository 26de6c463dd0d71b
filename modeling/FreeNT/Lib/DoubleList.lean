import Mathlib.Data.List.Nodup
import Mathlib.Data.List.Induction
import Mathlib.Tactic.Common

/-!
# Doubly linked lists

`Segment next prev b xs e` says that the elements `xs` are linked both ways, the first
one back to `b` and the last one on to `e`. A list with a head (`DoubleList`) is a segment between
two values that are no elements, together with the first and the last link of its head. The
three changes are `pushBack`, `pushFront` and `remove`; each asks for the new links
of the elements of this list only, so that several lists can share one pair of link fields.
-/

namespace FreeNT

open List

variable {α : Type*} {next prev next' prev' : α → α} {b b' e e' : α} {xs ys : List α}

def Segment (next prev : α → α) (b : α) : List α → α → Prop
  | [], _ => True
  | x :: xs, e => prev x = b ∧ next x = xs.headD e ∧ Segment next prev x xs e

lemma segment_append : Segment next prev b (xs ++ ys) e ↔
      Segment next prev b xs (ys.headD e) ∧ Segment next prev (xs.getLastD b) ys e := by
  induction xs generalizing b with
  | nil => simp [Segment]
  | cons x xs ih =>
    have hh : (xs ++ ys).headD e = xs.headD (ys.headD e) := by cases xs <;> rfl
    rw [cons_append, Segment, Segment, ih, hh, getLastD_cons]
    exact ⟨fun h => ⟨⟨h.1, h.2.1, h.2.2.1⟩, h.2.2.2⟩, fun h => ⟨h.1.1, h.1.2.1, h.1.2.2, h.2⟩⟩

namespace Segment

lemma congr (h : Segment next prev b xs e) (hn : ∀ x ∈ xs, next' x = next x)
    (hp : ∀ x ∈ xs, prev' x = prev x) : Segment next' prev' b xs e := by
  induction xs generalizing b with
  | nil => trivial
  | cons x xs ih =>
    refine ⟨(hp x mem_cons_self).trans h.1, (hn x mem_cons_self).trans h.2.1, ?_⟩
    exact ih h.2.2 (fun y hy => hn y (mem_cons_of_mem _ hy)) fun y hy => hp y (mem_cons_of_mem _ hy)

lemma at_middle {x : α} (h : Segment next prev b (xs ++ x :: ys) e) :
    prev x = xs.getLastD b ∧ next x = ys.headD e :=
  let hx := (segment_append.mp h).2
  ⟨hx.1, hx.2.1⟩

lemma turn_end (h : Segment next prev b xs e) (hnd : xs.Nodup)
    (hl : ∀ x ∈ xs.getLast?, next' x = e') (hn : ∀ x ∈ xs, x ∉ xs.getLast? → next' x = next x)
    (hp : ∀ x ∈ xs, prev' x = prev x) : Segment next' prev' b xs e' := by
  induction xs using reverseRecOn with
  | nil => trivial
  | append_singleton xs x _ =>
    obtain ⟨hin, hx, -, -⟩ := segment_append.mp h
    have hne (y : α) (hy : y ∈ xs) : y ≠ x := by
      rintro rfl
      exact (disjoint_of_nodup_append hnd) hy mem_cons_self
    have hk : Segment next' prev' b xs x := by
      refine hin.congr (fun y hy => hn y (mem_append_left _ hy) fun hc => ?_) fun y hy =>
        hp y (mem_append_left _ hy)
      rw [getLast?_append_of_ne_nil _ (cons_ne_nil _ _)] at hc
      exact hne y hy (Option.some.inj hc).symm
    refine segment_append.mpr ⟨hk, ?_, hl x (by simp), trivial⟩
    rw [hp x (by simp), hx]

lemma turn_start (h : Segment next prev b xs e) (hnd : xs.Nodup)
    (hf : ∀ x ∈ xs.head?, prev' x = b') (hp : ∀ x ∈ xs, x ∉ xs.head? → prev' x = prev x)
    (hn : ∀ x ∈ xs, next' x = next x) : Segment next' prev' b' xs e := by
  cases xs with
  | nil => trivial
  | cons x xs =>
    refine ⟨hf x rfl, (hn x mem_cons_self).trans h.2.1, h.2.2.congr (fun y hy => hn y (mem_cons_of_mem _ hy))
      fun y hy => hp y (mem_cons_of_mem _ hy) fun hc => ?_⟩
    obtain rfl : x = y := Option.some.inj hc
    exact (nodup_cons.mp hnd).1 hy

end Segment

/-! ### The ends of a list -/

variable {d : α}

lemma getLastD_eq_iff (hd : d ∉ xs) : xs.getLastD d = d ↔ xs = [] := by
  induction xs using reverseRecOn with
  | nil => simp
  | append_singleton xs x _ =>
    rw [getLastD_concat]
    refine iff_of_false (fun hx : x = d => ?_) (by simp)
    exact hd (hx ▸ mem_append_right _ mem_cons_self)

lemma headD_eq_iff (hd : d ∉ xs) : xs.headD d = d ↔ xs = [] := by
  cases xs with
  | nil => simp
  | cons x xs =>
    refine iff_of_false (fun hx : x = d => ?_) (cons_ne_nil x xs)
    exact hd (hx ▸ mem_cons_self)

lemma getLastD_mem (xs : List α) (d : α) : xs.getLastD d = d ∨ xs.getLastD d ∈ xs := by
  induction xs using reverseRecOn with
  | nil => exact Or.inl rfl
  | append_singleton xs x _ => simp

lemma headD_mem (xs : List α) (d : α) : xs.headD d = d ∨ xs.headD d ∈ xs := by
  cases xs with
  | nil => exact Or.inl rfl
  | cons x xs => exact Or.inr mem_cons_self

lemma mem_getLast?_iff {y : α} (hy : y ∈ xs) : y ∈ xs.getLast? ↔ y = xs.getLastD d := by
  induction xs using reverseRecOn with
  | nil => exact absurd hy not_mem_nil
  | append_singleton xs x _ => rw [getLastD_concat, getLast?_concat, Option.mem_some_iff, eq_comm]

lemma mem_head?_iff {y : α} (hy : y ∈ xs) : y ∈ xs.head? ↔ y = xs.headD d := by
  cases xs with
  | nil => exact absurd hy not_mem_nil
  | cons x xs => rw [head?_cons, Option.mem_some_iff, headD_cons, eq_comm]

/-- A list with a head, whose links `first` and `last` are `nil` if it is empty. The last element
points on to `nil` and the first one back to `nilPrev`. -/
structure DoubleList (next prev : α → α) (nil nilPrev first last : α) (xs : List α) : Prop where
  nodup : xs.Nodup
  nil_notMem : nil ∉ xs
  nilPrev_notMem : nilPrev ∉ xs
  first_eq : first = xs.headD nil
  last_eq : last = xs.getLastD nil
  links : Segment next prev nilPrev xs nil

namespace DoubleList

variable {nil nilPrev first last first' last' x : α}

lemma empty (next prev : α → α) (nil nilPrev : α) : DoubleList next prev nil nilPrev nil nil [] :=
  ⟨nodup_nil, not_mem_nil, not_mem_nil, rfl, rfl, trivial⟩

section whole

variable (h : DoubleList next prev nil nilPrev first last xs)

include h

lemma congr (hn : ∀ x ∈ xs, next' x = next x) (hp : ∀ x ∈ xs, prev' x = prev x) :
    DoubleList next' prev' nil nilPrev first last xs :=
  { h with links := h.links.congr hn hp }

lemma first_eq_nil_iff : first = nil ↔ xs = [] := by rw [h.first_eq, headD_eq_iff h.nil_notMem]

lemma last_eq_nil_iff : last = nil ↔ xs = [] := by rw [h.last_eq, getLastD_eq_iff h.nil_notMem]

lemma first_mem : first = nil ∨ first ∈ xs := by
  rw [h.first_eq]
  exact headD_mem xs nil

lemma last_mem : last = nil ∨ last ∈ xs := by
  rw [h.last_eq]
  exact getLastD_mem xs nil

lemma pushBack [DecidableEq α] (hx : x ∉ xs) (hnl : x ≠ nil)
    (hn : x ≠ nilPrev) (hnt : next' x = nil) (hp : prev' x = xs.getLastD nilPrev)
    (hnx : ∀ y ∈ xs, next' y = if y = last then x else next y) (hpr : ∀ y ∈ xs, prev' y = prev y)
    (hf : first' = if xs = [] then x else first) :
    DoubleList next' prev' nil nilPrev first' x (xs ++ [x]) := by
  have hl (y : α) (hy : y ∈ xs) : y ∈ xs.getLast? ↔ y = last := by rw [h.last_eq, mem_getLast?_iff hy]
  refine ⟨?_, ?_, ?_, ?_, by simp, ?_⟩
  · exact nodup_append.mpr ⟨h.nodup, nodup_singleton x, fun y hy z hz hyz => hx (mem_singleton.mp hz ▸ hyz ▸ hy)⟩
  · simpa [hnl.symm] using h.nil_notMem
  · simpa [hn.symm] using h.nilPrev_notMem
  · rw [hf, h.first_eq]
    cases xs <;> simp
  refine segment_append.mpr ⟨?_, hp, hnt, trivial⟩
  refine h.links.turn_end h.nodup (fun y hy => ?_) (fun y hy hne => ?_) hpr
  · have hm := mem_of_getLast? hy
    rw [hnx y hm, if_pos ((hl y hm).mp hy)]
    rfl
  · rw [hnx y hy, if_neg (mt (hl y hy).mpr hne)]

lemma pushFront [DecidableEq α] (hx : x ∉ xs) (hnl : x ≠ nil)
    (hn : x ≠ nilPrev) (hnx : next' x = first) (hpr : prev' x = nilPrev)
    (hnt : ∀ y ∈ xs, next' y = next y) (hp : ∀ y ∈ xs, prev' y = if y = first then x else prev y)
    (hl : last' = if xs = [] then x else last) :
    DoubleList next' prev' nil nilPrev x last' (x :: xs) := by
  have hf (y : α) (hy : y ∈ xs) : y ∈ xs.head? ↔ y = first := by rw [h.first_eq, mem_head?_iff hy]
  refine ⟨nodup_cons.mpr ⟨hx, h.nodup⟩, ?_, ?_, rfl, ?_, hpr, hnx.trans h.first_eq, ?_⟩
  · simpa [hnl.symm] using h.nil_notMem
  · simpa [hn.symm] using h.nilPrev_notMem
  · rw [hl, h.last_eq, getLastD_cons]
    split
    case isTrue he => rw [he]; rfl
    case isFalse hne =>
      rw [getLastD_eq_getLast?, getLastD_eq_getLast?, getLast?_eq_some_getLast hne]
      rfl
  refine h.links.turn_start h.nodup (fun y hy => ?_) (fun y hy hne => ?_) hnt
  · have hm := mem_of_mem_head? hy
    rw [hp y hm, if_pos ((hf y hm).mp hy)]
  · rw [hp y hy, if_neg (mt (hf y hy).mpr hne)]

end whole

section entry

variable (h : DoubleList next prev nil nilPrev first last (xs ++ x :: ys))

include h

lemma prev_eq : prev x = xs.getLastD nilPrev := h.links.at_middle.1

lemma next_eq : next x = ys.headD nil := h.links.at_middle.2

lemma prev_eq_nilPrev_iff : prev x = nilPrev ↔ xs = [] := by
  rw [h.prev_eq, getLastD_eq_iff fun hc => h.nilPrev_notMem (mem_append_left _ hc)]

lemma next_eq_nil_iff : next x = nil ↔ ys = [] := by
  rw [h.next_eq, headD_eq_iff fun hc => h.nil_notMem (mem_append_right _ (mem_cons_of_mem _ hc))]

lemma prev_mem : prev x = nilPrev ∨ prev x ∈ xs := by
  rw [h.prev_eq]
  exact getLastD_mem xs nilPrev

lemma next_mem : next x = nil ∨ next x ∈ ys := by
  rw [h.next_eq]
  exact headD_mem ys nil

lemma prev_ne_self : prev x ≠ x := by
  intro hx
  rcases h.prev_mem with hn | hm
  · have hs : nilPrev = x := hn.symm.trans hx
    apply h.nilPrev_notMem
    rw [hs]
    exact mem_append_right _ mem_cons_self
  · rw [hx] at hm
    exact disjoint_of_nodup_append h.nodup hm mem_cons_self

lemma first_eq_iff : first = x ↔ prev x = nilPrev := by
  rw [h.prev_eq_nilPrev_iff, h.first_eq]
  cases xs with
  | nil => simp
  | cons y xs =>
    refine iff_of_false (fun hy : y = x => ?_) (cons_ne_nil y xs)
    have hnd := disjoint_of_nodup_append h.nodup
    exact hnd (hy ▸ mem_cons_self) mem_cons_self

lemma remove [DecidableEq α] (hn : ∀ y ∈ xs ++ ys, next' y = if y = prev x then next x else next y)
    (hp : ∀ y ∈ xs ++ ys, prev' y = if y = next x then prev x else prev y)
    (hfs : first' = if prev x = nilPrev then next x else first)
    (hl : last' = if next x = nil then (if prev x = nilPrev then nil else prev x) else last) :
    DoubleList next' prev' nil nilPrev first' last' (xs ++ ys) := by
  have hs : (xs ++ ys).Sublist (xs ++ x :: ys) := Sublist.append_left (sublist_cons_self _ _) _
  have hnd := h.nodup.sublist hs
  have hd := disjoint_of_nodup_append hnd
  obtain ⟨hf, -, -, hb⟩ := segment_append.mp h.links
  have hns := fun hc => h.nil_notMem (hs.subset (mem_append_left ys hc))
  have hnl := fun hc => h.nilPrev_notMem (hs.subset (mem_append_left ys hc))
  have hni := fun hc => h.nilPrev_notMem (hs.subset (mem_append_right xs hc))
  -- the elements before `x` do not follow it, and those behind it do not precede it
  have hnext_front (y : α) (hy : y ∈ xs) : y ≠ next x := by
    rintro rfl
    rcases h.next_mem with hnil | hm
    · exact hns (hnil ▸ hy)
    · exact hd hy hm
  have hprev_back (y : α) (hy : y ∈ ys) : y ≠ prev x := by
    rintro rfl
    rcases h.prev_mem with hnil | hm
    · exact hni (hnil ▸ hy)
    · exact hd hm hy
  refine ⟨hnd, fun hc => h.nil_notMem (hs.subset hc), fun hc => h.nilPrev_notMem (hs.subset hc),
    ?_, ?_, segment_append.mpr ⟨?_, ?_⟩⟩
  · rw [hfs, h.first_eq]
    by_cases he : xs = []
    · rw [if_pos (h.prev_eq_nilPrev_iff.mpr he), h.next_eq, he, nil_append]
    rw [if_neg (mt h.prev_eq_nilPrev_iff.mp he)]
    cases xs with
    | nil => exact absurd rfl he
    | cons y xs => rfl
  · rw [hl, h.last_eq]
    induction ys using reverseRecOn with
    | nil =>
      rw [if_pos (h.next_eq_nil_iff.mpr rfl), append_nil, h.prev_eq]
      induction xs using reverseRecOn with
      | nil => exact if_pos rfl
      | append_singleton xs y _ =>
        rw [getLastD_concat, getLastD_concat]
        exact if_neg fun hy : y = nilPrev => hnl (hy ▸ mem_append_right _ mem_cons_self)
    | append_singleton ys y _ =>
      rw [if_neg (mt h.next_eq_nil_iff.mp (by simp)), ← cons_append, ← append_assoc,
        ← append_assoc, getLastD_concat, getLastD_concat]
  · refine hf.turn_end (hnd.sublist (sublist_append_left _ _)) (fun y hy => ?_) (fun y hy hne => ?_) fun y hy => ?_
    · have hm := mem_of_getLast? hy
      have hl := (mem_getLast?_iff (d := nilPrev) hm).mp hy
      rw [hn y (mem_append_left _ hm), if_pos (hl.trans h.prev_eq.symm), h.next_eq]
    · have hl := mt (mem_getLast?_iff (d := nilPrev) hy).mpr hne
      rw [hn y (mem_append_left _ hy), if_neg (fun hc => hl (hc.trans h.prev_eq))]
    · rw [hp y (mem_append_left _ hy), if_neg (hnext_front y hy)]
  refine hb.turn_start (hnd.sublist (sublist_append_right _ _)) (fun y hy => ?_) (fun y hy hne =>
    ?_) fun y hy => ?_
  · have hm := mem_of_mem_head? hy
    rw [hp y (mem_append_right _ hm), if_pos (((mem_head?_iff hm).mp hy).trans h.next_eq.symm), h.prev_eq]
  · have hfs := mt (mem_head?_iff (d := nil) hy).mpr hne
    rw [hp y (mem_append_right _ hy), if_neg (fun hc => hfs (hc.trans h.next_eq))]
  · rw [hn y (mem_append_right _ hy), if_neg (hprev_back y hy)]

end entry

end DoubleList

end FreeNT
