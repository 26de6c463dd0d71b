import Mathlib.Data.List.Nodup
import Mathlib.Data.List.GetD
import Mathlib.Data.Nat.ModEq
import Mathlib.Logic.Function.Iterate
import Mathlib.Tactic.Ring

/-!
# Circular lists

A list with a head is walked in a circle: `head :: xs`, and behind the last element the head
again. Positions are counted from the head (`circleAt`), modulo the length of the circle. A step
along `Flink` adds one, one along `Blink` takes it away (`iterate_circleNext`,
`iterate_circlePrev`).
-/

namespace FreeNT

open Nat

variable {α : Type*} {head a : α} {xs : List α} {p q i k : Nat}

/-- The element at a position; the head is at 0. -/
def circleAt (head : α) (xs : List α) (p : Nat) : α := (head :: xs).getD (p % (xs.length + 1)) head

lemma circleAt_mod : circleAt head xs (p % (xs.length + 1)) = circleAt head xs p := by
  rw [circleAt, circleAt, mod_mod]

lemma circleAt_mem : circleAt head xs p ∈ head :: xs := by
  have hlt : p % (xs.length + 1) < (head :: xs).length := mod_lt p (succ_pos _)
  rw [circleAt, List.getD_eq_getElem _ _ hlt]
  exact List.getElem_mem hlt

lemma circleAt_succ (hi : i < xs.length) : xs[i]? = some (circleAt head xs (i + 1)) := by
  rw [circleAt, mod_eq_of_lt (by omega), List.getD_cons_succ, List.getElem?_eq_getElem hi,
    List.getD_eq_getElem _ _ hi]

variable [DecidableEq α]

/-- The position of an element. -/
def circlePosition (head : α) (xs : List α) (a : α) : Nat := (head :: xs).idxOf a

def circleNext (head : α) (xs : List α) (a : α) : α := circleAt head xs (circlePosition head xs a + 1)

def circlePrev (head : α) (xs : List α) (a : α) : α := circleAt head xs (circlePosition head xs a + xs.length)

lemma circleAt_position (ha : a ∈ head :: xs) : circleAt head xs (circlePosition head xs a) = a := by
  have hlt : circlePosition head xs a < (head :: xs).length := List.idxOf_lt_length_iff.mpr ha
  rw [circleAt, ← List.length_cons, mod_eq_of_lt hlt, List.getD_eq_getElem _ _ hlt]
  exact List.getElem_idxOf hlt

lemma circlePosition_lt (ha : a ∈ head :: xs) : circlePosition head xs a < xs.length + 1 :=
    List.idxOf_lt_length_iff.mpr ha

lemma circlePosition_head : circlePosition head xs head = 0 := List.idxOf_cons_self

lemma circlePosition_at (hnd : (head :: xs).Nodup) :
    circlePosition head xs (circleAt head xs p) = p % (xs.length + 1) := by
  have hlt : p % (xs.length + 1) < (head :: xs).length := mod_lt p (succ_pos _)
  rw [circleAt, List.getD_eq_getElem _ _ hlt]
  exact hnd.idxOf_getElem _ hlt

lemma circleAt_eq_iff (hnd : (head :: xs).Nodup) :
    circleAt head xs p = circleAt head xs q ↔ p % (xs.length + 1) = q % (xs.length + 1) := by
  constructor
  · intro h
    rw [← circlePosition_at hnd, ← circlePosition_at hnd, h]
  · intro h
    rw [← circleAt_mod, h, circleAt_mod]

section

variable (hnd : (head :: xs).Nodup)

include hnd

lemma iterate_circle {d : Nat} (ha : a ∈ head :: xs) :
    (fun b => circleAt head xs (circlePosition head xs b + d))^[k] a =
      circleAt head xs (circlePosition head xs a + k * d) := by
  induction k with
  | zero => rw [zero_mul, add_zero, circleAt_position ha, Function.iterate_zero_apply]
  | succ k ih =>
    rw [Function.iterate_succ_apply', ih, circleAt_eq_iff hnd, circlePosition_at hnd, mod_add_mod,
      succ_mul, add_assoc]

lemma iterate_circleNext (ha : a ∈ head :: xs) :
    (circleNext head xs)^[k] a = circleAt head xs (circlePosition head xs a + k) := by
  rw [show circleNext head xs = fun b => circleAt head xs (circlePosition head xs b + 1) from rfl,
    iterate_circle hnd ha,
    mul_one]

lemma iterate_circlePrev (ha : a ∈ head :: xs) :
    (circlePrev head xs)^[k] a = circleAt head xs (circlePosition head xs a + k * xs.length) :=
      iterate_circle hnd ha

end

lemma mod_add_right_iff {m : Nat} : (p + k) % m = (q + k) % m ↔ p % m = q % m :=
  ⟨fun h => Nat.ModEq.add_right_cancel' k h, fun h => Nat.ModEq.add_right k h⟩

/-- Going back `k` positions comes to the position that is `k` before. -/
lemma mod_back_iff {n : Nat} : (p + k * n) % (n + 1) = q % (n + 1) ↔ p % (n + 1) = (q + k) % (n + 1) := by
  have hb : p + k * n + k = p + k * (n + 1) := by ring
  rw [← @mod_add_right_iff (p + k * n) q k, hb, add_mul_mod_self_right]

end FreeNT
