import Mathlib.Tactic.Common
import Mathlib.Data.List.Nodup

/-!
# Removing entries from a list while walking it

A loop walks a linked list and takes the entries that `pick` chooses out of it.
It goes on from an entry by the link it reads there, also from an entry it has
just taken out and given away: what is then read is `after x link`, where `link`
is what the entry held. The walk is wild if it comes to something that is not on
the list. If the links of the entries given away can still be read, the loop
takes out exactly the chosen entries, each once and in order (`sweep_of_kept`). If
a link read in an entry given away leads off the list, a loop that takes everything
goes wild (`sweep_of_lost`).
-/

namespace FreeNT

open List

variable {α : Type*} [DecidableEq α]

/-- The entry after `x`; `none` is the head of the list. -/
def nextOf (xs : List α) (x : α) : Option α := ((xs.dropWhile (· ≠ x)).drop 1).head?

/-- The walk from `cur` on: what stays on the list and what has been taken. -/
def sweepLoop (pick : α → Bool) (after : α → Option α → Option α) :
    Nat → List α → Option α → List α → Option (List α × List α)
  | _, xs, none, taken => some (xs, taken)
  | 0, _, some _, _ => none
  | fuel + 1, xs, some x, taken =>
    if x ∈ xs then
      if pick x then sweepLoop pick after fuel (xs.erase x) (after x (nextOf xs x)) (taken ++ [x])
      else sweepLoop pick after fuel xs (nextOf xs x) taken
    else none

/-- Between two entries that are taken the walk meets no entry twice, unless it never ends. -/
def sweep (pick : α → Bool) (after : α → Option α → Option α) (xs : List α) : Option (List α × List α) :=
  sweepLoop pick after ((xs.length + 1) * (xs.length + 1)) xs xs.head? []

variable {pick : α → Bool} {after : α → Option α → Option α} {xs ys zs taken : List α} {x : α}

lemma nextOf_append (hx : x ∉ ys) : nextOf (ys ++ x :: zs) x = zs.head? := by
  have hd : (ys ++ x :: zs).dropWhile (· ≠ x) = x :: zs := by
    rw [dropWhile_append_of_pos fun y hy => decide_eq_true (ne_of_mem_of_not_mem hy hx)]
    simp
  rw [nextOf, hd]
  rfl

lemma sweepLoop_of_kept {k : Nat} (hnd : (ys ++ zs).Nodup)
    (hk : ∀ x ∈ zs, pick x → ∀ l, after x l = l) (hf : zs.length ≤ k) :
    sweepLoop pick after k (ys ++ zs) zs.head? taken =
      some (ys ++ zs.filter (fun x => !pick x), taken ++ zs.filter pick) := by
  induction zs generalizing ys taken k with
  | nil => simp [sweepLoop]
  | cons x zs ih =>
    obtain ⟨k, rfl⟩ : ∃ n, k = n + 1 := ⟨k - 1, by rw [length_cons] at hf; omega⟩
    have hf : zs.length ≤ k := Nat.le_of_succ_le_succ hf
    have hx : x ∉ ys := fun h => (nodup_append.mp hnd).2.2 x h x mem_cons_self rfl
    have hk' := fun y hy => hk y (mem_cons_of_mem _ hy)
    rw [head?_cons, sweepLoop, if_pos (by simp), nextOf_append hx]
    by_cases hp : pick x
    · have he : (ys ++ x :: zs).erase x = ys ++ zs := by rw [erase_append_right _ hx, erase_cons_head]
      rw [if_pos hp, hk x mem_cons_self hp, he, ih (hnd.sublist (by simp)) hk' hf, filter_cons_of_pos hp,
        filter_cons_of_neg (by simp [hp]), append_assoc]
      rfl
    have hs : ys ++ x :: zs = (ys ++ [x]) ++ zs := by simp
    rw [if_neg hp, hs, ih (by rwa [← hs]) hk' hf, filter_cons_of_neg hp,
      filter_cons_of_pos (by simpa using hp), append_assoc]
    rfl

lemma sweep_of_kept (hnd : xs.Nodup) (hk : ∀ x ∈ xs, pick x → ∀ l, after x l = l) :
    sweep pick after xs = some (xs.filter (fun x => !pick x), xs.filter pick) := by
  have hf : xs.length ≤ (xs.length + 1) * (xs.length + 1) :=
    Nat.le_trans (Nat.le_succ _) (Nat.le_mul_of_pos_left _ (Nat.succ_pos _))
  exact @sweepLoop_of_kept α _ pick after [] xs [] _ hnd hk hf

lemma sweepLoop_of_lost {k : Nat} (hsub : zs ⊆ xs)
    (hd : ∀ x ∈ xs, (∀ l, after x l = l) ∨ ∀ l, ∃ y ∉ xs, after x l = some y)
    (hl : ∃ x ∈ zs, ¬ ∀ l, after x l = l) :
    sweepLoop (fun _ => true) after k zs zs.head? taken = none := by
  induction zs generalizing taken k with
  | nil => simp at hl
  | cons x zs ih =>
    cases k with
    | zero => rfl
    | succ k =>
      rw [head?_cons, sweepLoop, if_pos mem_cons_self, if_pos rfl, erase_cons_head]
      rcases hd x (hsub mem_cons_self) with hk | hx
      · rw [hk, ← nil_append (x :: zs), nextOf_append not_mem_nil]
        obtain ⟨y, hy, hny⟩ := hl
        obtain rfl | hy := mem_cons.mp hy
        · exact absurd hk hny
        · exact ih (fun z hz => hsub (mem_cons_of_mem _ hz)) ⟨y, hy, hny⟩
      · -- what is read is not on the list, so the next turn is wild
        obtain ⟨y, hy, hay⟩ := hx (nextOf (x :: zs) x)
        rw [hay]
        cases k with
        | zero => rfl
        | succ k => exact if_neg fun hm => hy (hsub (mem_cons_of_mem _ hm))

lemma sweep_of_lost (hd : ∀ x ∈ xs, (∀ l, after x l = l) ∨ ∀ l, ∃ y ∉ xs, after x l = some y)
    (hl : ∃ x ∈ xs, ¬ ∀ l, after x l = l) : sweep (fun _ => true) after xs = none :=
  sweepLoop_of_lost (Subset.refl _) hd hl

end FreeNT
