import Mathlib.Tactic.Common
import Mathlib.Data.List.Nodup

/-!
# Singly linked lists

`Chain enc next nil v xs` says that the link `v` leads to the elements `xs` in
order and then to `nil`: a link to `x` is `enc x`, and `next x` is the link that
`x` holds. A chain depends on the links of its own elements only
(`Chain.congr`); an element is unlinked by giving its link to the element before
it (`Chain.unlink`).

In `ChainFrom enc link nil loc xs` the head of the list is a place with a link of its own,
`none`. A walk that has passed `xs` stands at `endOf loc xs`, and a change of the link
there changes what follows (`ChainFrom.splice`).
-/

namespace FreeNT

variable {α β : Type*} {enc next next' : α → β} {nil v : β}

def Chain (enc next : α → β) (nil : β) : β → List α → Prop
  | v, [] => v = nil
  | v, x :: xs => v = enc x ∧ Chain enc next nil (next x) xs

variable {xs ys : List α}

namespace Chain

lemma congr (h : Chain enc next nil v xs) (heq : ∀ x ∈ xs, next' x = next x) : Chain enc next' nil v xs := by
  induction xs generalizing v with
  | nil => exact h
  | cons x xs ih =>
    refine ⟨h.1, ?_⟩
    rw [heq x List.mem_cons_self]
    exact ih h.2 fun y hy => heq y (List.mem_cons_of_mem _ hy)

lemma unlink {p x : α} (h : Chain enc next nil v (xs ++ p :: x :: ys))
    (hp : next' p = next x) (heq : ∀ y ∈ xs ++ ys, next' y = next y) :
    Chain enc next' nil v (xs ++ p :: ys) := by
  induction xs generalizing v with
  | nil =>
    obtain ⟨hv, -, hys⟩ := h
    refine ⟨hv, ?_⟩
    rw [hp]
    exact hys.congr heq
  | cons y xs ih =>
    refine ⟨h.1, ?_⟩
    rw [heq y (by simp)]
    exact ih h.2 fun z hz => heq z (List.mem_cons_of_mem _ hz)

end Chain

/-- The place whose link leads to what follows `xs`: the last of them, or `loc`. -/
def endOf (loc : Option α) : List α → Option α
  | [] => loc
  | x :: xs => endOf (some x) xs

lemma endOf_append {loc : Option α} : endOf loc (xs ++ ys) = endOf (endOf loc xs) ys := by
  induction xs generalizing loc with
  | nil => rfl
  | cons x xs ih => exact ih

lemma endOf_mem {loc : Option α} : endOf loc xs ∈ loc :: xs.map some := by
  induction xs generalizing loc with
  | nil => exact List.mem_cons_self
  | cons x xs ih => exact List.mem_cons_of_mem _ ih

/-- The place `loc` leads to the elements `xs`. -/
def ChainFrom (enc : α → β) (link : Option α → β) (nil : β) (loc : Option α) (xs : List α) : Prop :=
  Chain enc (fun x => link (some x)) nil (link loc) xs

namespace ChainFrom

variable {link link' : Option α → β} {loc : Option α} {xs ys zs : List α}

lemma drop (h : ChainFrom enc link nil loc (xs ++ ys)) : ChainFrom enc link nil (endOf loc xs) ys := by
  induction xs generalizing loc with
  | nil => exact h
  | cons x xs ih => exact ih h.2

lemma congr (h : ChainFrom enc link nil loc xs) (hl : link' loc = link loc)
    (heq : ∀ x ∈ xs, link' (some x) = link (some x)) : ChainFrom enc link' nil loc xs := by
  unfold ChainFrom
  rw [hl]
  exact Chain.congr h heq

lemma splice (h : ChainFrom enc link nil loc (xs ++ ys)) (hnd : (loc :: xs.map some).Nodup)
    (heq : ∀ p ∈ loc :: xs.map some, p ≠ endOf loc xs → link' p = link p)
    (hzs : ChainFrom enc link' nil (endOf loc xs) zs) : ChainFrom enc link' nil loc (xs ++ zs) := by
  induction xs generalizing loc with
  | nil => exact hzs
  | cons x xs ih =>
    obtain ⟨hn, hnd⟩ := List.nodup_cons.mp hnd
    have hl : link' loc = link loc := heq loc List.mem_cons_self fun he => hn (he ▸ endOf_mem)
    exact ⟨hl.trans h.1, ih h.2 hnd (fun p hp => heq p (List.mem_cons_of_mem _ hp)) hzs⟩

end ChainFrom

end FreeNT
