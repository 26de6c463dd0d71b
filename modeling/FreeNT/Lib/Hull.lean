import Mathlib.Logic.Relation
import Mathlib.Order.Bounds.Basic
import FreeNT.Lib.Interval

/-!
# Hulls of intervals that are joined

Intervals of a family are joined, two that touch at a time (`Joined`). The result covers
intervals of the family that are linked, each meeting the next one (`Joined.linked`), and has
its ends from them. If it covers all that meet one it covers, it is the hull of a connected
component (`Joined.isHull`).
-/

namespace FreeNT.Interval

variable {a b c : Interval} {P Q : Interval → Prop}

/-- The intervals have a point in common. -/
def Meets (a b : Interval) : Prop := ∃ x, a.lo ≤ x ∧ x < a.hi ∧ b.lo ≤ x ∧ x < b.hi

lemma touches_iff_meets (ha : a.lo < a.hi) (hb : b.lo < b.hi) : Touches a b ↔ Meets a b := by
  constructor
  · intro h
    unfold Touches at h
    exact ⟨max a.lo b.lo, by omega, by omega, by omega, by omega⟩
  rintro ⟨x, h1, h2, h3, h4⟩
  unfold Touches
  omega

/-- Joined from intervals with `P`, two that touch at a time. -/
inductive Joined (P : Interval → Prop) : Interval → Prop
  | one {a : Interval} : P a → Joined P a
  | join {a b : Interval} : Joined P a → Joined P b → Touches a b → Joined P (hull a b)

/-- Two intervals with `P` are linked by others, each of which meets the next one. -/
def Linked (P : Interval → Prop) : Interval → Interval → Prop := Relation.ReflTransGen fun a b => P b ∧ Meets a b

/-- The intervals with `P` that are linked to `a`. -/
def component (P : Interval → Prop) (a : Interval) : Set Interval := {b | Linked P a b}

/-- The least interval that covers those of `S`. -/
def IsHull (S : Set Interval) (a : Interval) : Prop := IsLeast (lo '' S) a.lo ∧ IsGreatest (hi '' S) a.hi

namespace Joined

lemma valid (hP : ∀ a, P a → Valid a) (h : Joined P a) : Valid a := by
  induction h with
  | one ha => exact hP _ ha
  | join _ _ _ i _ => exact hull_valid i

lemma imp (h : Joined P a) (hPQ : ∀ b, P b → Covers a b → Q b) : Joined Q a := by
  induction h with
  | one ha => exact .one (hPQ _ ha (.refl _))
  | join _ _ ht i ib =>
    exact .join (i fun b hb hc => hPQ b hb ((hull_covers_left ht).trans hc))
      (ib fun b hb hc => hPQ b hb ((hull_covers_right ht).trans hc)) ht

/-- What touches the result touches an interval that was joined. -/
lemma touches (hP : ∀ a, P a → Valid a) (h : Joined P a) (ht : Touches a c) :
    ∃ b, P b ∧ Covers a b ∧ Touches b c := by
  induction h with
  | one ha => exact ⟨_, ha, .refl _, ht⟩
  | join ha hb hab i ib =>
    rcases touches_hull (ha.valid hP) (hb.valid hP) hab ht with ht | ht
    · obtain ⟨b, hb, hc, ht⟩ := i ht
      exact ⟨b, hb, (hull_covers_left hab).trans hc, ht⟩
    · obtain ⟨b, hb, hc, ht⟩ := ib ht
      exact ⟨b, hb, (hull_covers_right hab).trans hc, ht⟩

lemma exists_lo (h : Joined P a) : ∃ b, P b ∧ Covers a b ∧ b.lo = a.lo := by
  induction h with
  | one ha => exact ⟨_, ha, .refl _, rfl⟩
  | @join a b _ _ hab i ib =>
    obtain ⟨a', ha', hca, hl⟩ := i
    obtain ⟨b', hb', hcb, hlb⟩ := ib
    rcases le_total a.lo b.lo with hle | hle
    · exact ⟨a', ha', (hull_covers_left hab).trans hca, by simp [hull, hl, hle]⟩
    · exact ⟨b', hb', (hull_covers_right hab).trans hcb, by simp [hull, hlb, hle]⟩

lemma exists_hi (h : Joined P a) : ∃ b, P b ∧ Covers a b ∧ b.hi = a.hi := by
  induction h with
  | one ha => exact ⟨_, ha, .refl _, rfl⟩
  | @join a b _ _ hab i ib =>
    obtain ⟨a', ha', hca, hh⟩ := i
    obtain ⟨b', hb', hcb, hhb⟩ := ib
    rcases le_total a.hi b.hi with hle | hle
    · exact ⟨b', hb', (hull_covers_right hab).trans hcb, by simp [hull, hhb, hle]⟩
    · exact ⟨a', ha', (hull_covers_left hab).trans hca, by simp [hull, hh, hle]⟩

variable (hP : ∀ a, P a → a.lo < a.hi)

include hP

lemma linked (h : Joined P a) (hb : P b) (hc : P c) (hab : Touches a b) (hac : Touches a c) : Linked P b c := by
  have hvalid : ∀ a, P a → Valid a := fun a ha => Int.le_of_lt (hP a ha)
  induction h generalizing b c with
  | one ha =>
    exact (Relation.ReflTransGen.single ⟨ha, (touches_iff_meets (hP _ hb) (hP _ ha)).mp hab.symm⟩).tail
      ⟨hc, (touches_iff_meets (hP _ ha) (hP _ hc)).mp hac⟩
  | @join a1 a2 h1 h2 ht ih1 ih2 =>
    -- one interval touches both parts
    obtain ⟨d, hd, hcv, hd2⟩ := h1.touches hvalid ht
    have hd1 : Touches a1 d := hcv.touches
    rcases touches_hull (h1.valid hvalid) (h2.valid hvalid) ht hab with hab | hab <;>
      rcases touches_hull (h1.valid hvalid) (h2.valid hvalid) ht hac with hac | hac
    · exact ih1 hb hc hab hac
    · exact (ih1 hb hd hab hd1).trans (ih2 hd hc hd2.symm hac)
    · exact (ih2 hb hd hab hd2.symm).trans (ih1 hd hc hd1 hac)
    · exact ih2 hb hc hab hac

/-- The result is the hull of a component, if nothing meets it from outside. -/
lemma isHull (h : Joined P a) (hcl : ∀ b c, P c → Covers a b → Meets b c → Covers a c) (hb : P b)
    (hab : Covers a b) :
    IsHull (component P b) a := by
  have hcv : ∀ c, Linked P b c → Covers a c := fun c hc => by
    induction hc with
    | refl => exact hab
    | tail _ hs ih => exact hcl _ _ hs.1 ih hs.2
  have hm : ∀ c, P c → Covers a c → c ∈ component P b := fun c hc hac => h.linked hP hb hc hab.touches hac.touches
  obtain ⟨l, hl, hal, hlo⟩ := h.exists_lo
  obtain ⟨r, hr, har, hhi⟩ := h.exists_hi
  refine ⟨⟨⟨l, hm l hl hal, hlo⟩, ?_⟩, ⟨⟨r, hm r hr har, hhi⟩, ?_⟩⟩
  · rintro _ ⟨c, hc, rfl⟩
    exact (hcv c hc).1
  · rintro _ ⟨c, hc, rfl⟩
    exact (hcv c hc).2.1

end Joined

end FreeNT.Interval
