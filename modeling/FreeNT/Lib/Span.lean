import Mathlib.Tactic.Common
import Mathlib.Data.List.Nodup
import Mathlib.Data.List.Pairwise
import Mathlib.Data.List.Perm.Subperm
import Mathlib.Algebra.BigOperators.Intervals

/-!
# Spans that share out an interval

A span is a start and a size. The spans `l`, in any order, share out `[a, a + n)`
(`SharesOut l a n`) if none is empty and each point of the interval is in one of them, counted
with repetition, and no other point is in any. Two spans that meet may be joined and a
span may be cut in two (`sharesOut_join`). The spans are then apart from each other
(`SharesOut.apart`), cover the interval (`SharesOut.covers`), and their sizes sum
up to that of the interval (`SharesOut.sum`).
-/

namespace FreeNT

open List

structure Span where
  start : Nat
  size : Nat
  deriving DecidableEq, Repr

namespace Span

variable {r r' : Span} {l l' : List Span} {a n i : Nat}

def stop (r : Span) : Nat := r.start + r.size

def Has (r : Span) (i : Nat) : Prop := r.start ≤ i ∧ i < r.stop

instance : Decidable (r.Has i) := inferInstanceAs (Decidable (_ ∧ _))

/-- The two have no point in common. -/
def Apart (r r' : Span) : Prop := r.stop ≤ r'.start ∨ r'.stop ≤ r.start

/-- One of the two begins where the other ends. -/
def Meets (r r' : Span) : Prop := r.stop = r'.start ∨ r'.stop = r.start

instance : Decidable (r.Meets r') := inferInstanceAs (Decidable (_ ∨ _))

lemma Meets.symm (h : r.Meets r') : r'.Meets r := Or.symm h

lemma Apart.symm (h : r.Apart r') : r'.Apart r := Or.symm h

instance : Std.Symm Apart := ⟨fun _ _ => Apart.symm⟩

instance : Std.Symm fun r r' : Span => ¬ r.Meets r' := ⟨fun _ _ h hm => h hm.symm⟩

/-- The number of spans that have the point. -/
def cover (l : List Span) (i : Nat) : Nat := l.countP fun r => r.Has i

lemma cover_cons : cover (r :: l) i = cover l i + if r.Has i then 1 else 0 := by simp [cover, countP_cons]

lemma cover_pos : 0 < cover l i ↔ ∃ r ∈ l, r.Has i := by simp [cover, countP_pos_iff]

lemma cover_perm (h : l.Perm l') (i : Nat) : cover l i = cover l' i := h.countP_eq _

/-- Spans that are not apart have the later of their starts in common. -/
lemma common_of_not_apart (hn : ¬ r.Apart r') (hr : 0 < r.size) (hr' : 0 < r'.size) : ∃ i, r.Has i ∧ r'.Has i := by
  unfold Apart stop at hn
  unfold Has stop
  rcases Nat.le_total r.start r'.start with hle | hle
  · exact ⟨r'.start, by omega⟩
  · exact ⟨r.start, by omega⟩

lemma apart_of_cover_le (hp : ∀ r ∈ l, 0 < r.size) (hle : ∀ i, cover l i ≤ 1) : l.Pairwise Apart := by
  induction l with
  | nil => exact .nil
  | cons r l ih =>
    have hle' (i : Nat) : cover l i ≤ 1 := by
      have := hle i
      rw [cover_cons] at this
      omega
    refine pairwise_cons.mpr ⟨fun r' hr' => ?_, ih (fun x hx => hp x (mem_cons_of_mem _ hx)) hle'⟩
    by_contra hn
    obtain ⟨i, hi, hi'⟩ := common_of_not_apart hn (hp r mem_cons_self) (hp r' (mem_cons_of_mem _ hr'))
    have hb := hle i
    have := cover_pos.mpr ⟨r', hr', hi'⟩
    rw [cover_cons, if_pos hi] at hb
    omega

/-- If no two spans meet, a row of their points is in one of them. -/
lemma size_le_of_row {l : List Span} {r : Span} (ha : l.Pairwise Apart) (hm : l.Pairwise fun r r' => ¬ r.Meets r')
    (hr : 0 < r.size) (hc : ∀ i, r.Has i → ∃ x ∈ l, x.Has i) : ∃ x ∈ l, r.size ≤ x.size := by
  obtain ⟨x, hx, hs, hlt⟩ := hc r.start ⟨Nat.le_refl _, Nat.lt_add_of_pos_right hr⟩
  refine ⟨x, hx, Nat.le_of_not_lt fun hsz => ?_⟩
  -- the span that has the end of `x` starts there
  obtain ⟨y, hy, h1, h2⟩ := hc x.stop ⟨hlt.le, by unfold stop; omega⟩
  have hne : x ≠ y := by rintro rfl; omega
  refine hm.forall hx hy hne (.inl ?_)
  have := ha.forall hx hy hne
  unfold Apart at this
  omega

/-- A span counts at each of its points once. -/
lemma sum_has (hle : a ≤ r.start) (hs : r.stop ≤ a + n) :
    ∑ i ∈ Finset.Ico a (a + n), (if r.Has i then 1 else 0) = r.size := by
  have hf : (Finset.Ico a (a + n)).filter (fun i => r.Has i) = Finset.Ico r.start r.stop := by
    ext i
    rw [Finset.mem_filter, Finset.mem_Ico, Finset.mem_Ico]
    unfold Has
    omega
  rw [← Finset.card_filter, hf, Nat.card_Ico, stop, Nat.add_sub_cancel_left]

structure SharesOut (l : List Span) (a n : Nat) : Prop where
  pos : ∀ r ∈ l, 0 < r.size
  cover : ∀ i, cover l i = if a ≤ i ∧ i < a + n then 1 else 0

lemma sharesOut_singleton (hn : 0 < n) : SharesOut [⟨a, n⟩] a n := by
  refine ⟨fun r hr => ?_, fun i => ?_⟩
  · rw [mem_singleton.mp hr]
    exact hn
  · rw [cover_cons, show cover [] i = 0 from rfl, Nat.zero_add]
    rfl

lemma cover_join (hm : r.stop = r'.start) (i : Nat) :
    cover (⟨r.start, r.size + r'.size⟩ :: l) i = cover (r :: r' :: l) i := by
  have hor : Has ⟨r.start, r.size + r'.size⟩ i ↔ r.Has i ∨ r'.Has i := by
    unfold Has stop at *
    dsimp only
    omega
  have hn : ¬ (r.Has i ∧ r'.Has i) := by
    unfold Has stop at *
    omega
  by_cases h1 : r.Has i <;> by_cases h2 : r'.Has i <;> simp_all [cover_cons]

lemma sharesOut_join (hr : 0 < r.size) (hr' : 0 < r'.size) (hm : r.stop = r'.start) :
    SharesOut (⟨r.start, r.size + r'.size⟩ :: l) a n ↔ SharesOut (r :: r' :: l) a n := by
  have hcv (i : Nat) := cover_join (l := l) hm i
  constructor <;> rintro ⟨hp, hc⟩
  · refine ⟨fun x hx => ?_, fun i => (hcv i).symm.trans (hc i)⟩
    rcases mem_cons.mp hx with rfl | hx
    · exact hr
    rcases mem_cons.mp hx with rfl | hx
    · exact hr'
    · exact hp x (mem_cons_of_mem _ hx)
  refine ⟨fun x hx => ?_, fun i => (hcv i).trans (hc i)⟩
  rcases mem_cons.mp hx with rfl | hx
  · exact Nat.add_pos_left hr _
  · exact hp x (mem_cons_of_mem _ (mem_cons_of_mem _ hx))

namespace SharesOut

variable (h : SharesOut l a n)

include h

lemma perm (hp : l'.Perm l) : SharesOut l' a n :=
  ⟨fun r hr => h.pos r (hp.mem_iff.mp hr), fun i => (cover_perm hp i).trans (h.cover i)⟩

lemma covers : (∃ r ∈ l, r.Has i) ↔ a ≤ i ∧ i < a + n := by
  rw [← cover_pos, h.cover]
  split <;> simp_all

lemma bounds (hr : r ∈ l) : a ≤ r.start ∧ r.stop ≤ a + n := by
  have hp := h.pos r hr
  have hf : r.Has r.start := ⟨Nat.le_refl _, by unfold stop; omega⟩
  have hl : r.Has (r.stop - 1) := by unfold Has stop; omega
  have h1 := h.covers.mp ⟨r, hr, hf⟩
  have h2 := h.covers.mp ⟨r, hr, hl⟩
  omega

lemma apart : l.Pairwise Apart := by
  refine apart_of_cover_le h.pos fun i => ?_
  rw [h.cover]
  split <;> omega

lemma sum : (l.map size).sum = n := by
  have hc : ∑ i ∈ Finset.Ico a (a + n), Span.cover l i = (l.map size).sum := by
    have hb := fun r hr => h.bounds (r := r) hr
    clear h
    induction l with
    | nil => simp [Span.cover]
    | cons r l ih =>
      obtain ⟨hle, hs⟩ := hb r mem_cons_self
      simp only [cover_cons, Finset.sum_add_distrib, sum_has hle hs, map_cons, sum_cons,
        ih fun x hx => hb x (mem_cons_of_mem _ hx)]
      omega
  have ho : ∑ i ∈ Finset.Ico a (a + n), Span.cover l i = n := by
    rw [Finset.sum_const_nat fun i hi => (h.cover i).trans (if_pos (Finset.mem_Ico.mp hi)), Nat.card_Ico,
      Nat.add_sub_cancel_left, Nat.mul_one]
  exact hc.symm.trans ho

lemma length_le : l.length ≤ n := by
  rw [← h.sum, ← length_map (f := size)]
  refine length_le_sum_of_one_le _ fun k hk => ?_
  obtain ⟨r, hr, rfl⟩ := mem_map.mp hk
  exact h.pos r hr

end SharesOut

end Span

end FreeNT
