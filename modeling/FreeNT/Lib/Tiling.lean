import Mathlib.Tactic.Common
import Mathlib.Data.List.Forall2

/-!
# Tilings of an interval

`Tiles pos len a e xs` says that the pieces `xs`, in order, fill `[a, e)`: the
piece `x` is `[pos x, pos x + len x)`. Pieces lie inside the interval
(`Tiles.mem_bounds`), two of them are equal or apart (`Tiles.disjoint`), and
every point is in one (`Tiles.cover`).
-/

namespace FreeNT

open List

variable {α : Type*} {pos len : α → Nat}

def Tiles (pos len : α → Nat) : Nat → Nat → List α → Prop
  | a, e, [] => a = e
  | a, e, x :: xs => pos x = a ∧ Tiles pos len (a + len x) e xs

namespace Tiles

variable {a e : Nat} {xs ys : List α}

lemma append_iff : Tiles pos len a e (xs ++ ys) ↔ ∃ b, Tiles pos len a b xs ∧ Tiles pos len b e ys := by
  induction xs generalizing a with
  | nil => simp [Tiles]
  | cons x xs ih => simp [cons_append, Tiles, ih, and_assoc, exists_and_left]

lemma le (h : Tiles pos len a e xs) : a ≤ e := by
  induction xs generalizing a with
  | nil => exact Nat.le_of_eq h
  | cons x xs ih => have := ih h.2; omega

variable {x : α}

section

variable (h : Tiles pos len a e xs)

include h

lemma mem_bounds (hx : x ∈ xs) : a ≤ pos x ∧ pos x + len x ≤ e := by
  induction xs generalizing a with
  | nil => cases hx
  | cons y ys ih =>
    obtain ⟨hy, hys⟩ := h
    have hle := hys.le
    rcases mem_cons.mp hx with rfl | hx
    · omega
    · have := ih hys hx; omega

lemma disjoint {y : α} (hx : x ∈ xs) (hy : y ∈ xs) :
    x = y ∨ pos x + len x ≤ pos y ∨ pos y + len y ≤ pos x := by
  induction xs generalizing a with
  | nil => cases hx
  | cons z zs ih =>
    obtain ⟨hz, hzs⟩ := h
    rcases mem_cons.mp hx with rfl | hx' <;> rcases mem_cons.mp hy with rfl | hy'
    · exact .inl rfl
    · have := hzs.mem_bounds hy'; omega
    · have := hzs.mem_bounds hx'; omega
    · exact ih hzs hx' hy'

lemma pairwise : xs.Pairwise fun x y => pos x + len x ≤ pos y := by
  induction xs generalizing a with
  | nil => exact .nil
  | cons x xs ih =>
    obtain ⟨rfl, hxs⟩ := h
    exact .cons (fun y hy => (hxs.mem_bounds hy).1) (ih hxs)

lemma cover {p : Nat} (ha : a ≤ p) (he : p < e) : ∃ x ∈ xs, pos x ≤ p ∧ p < pos x + len x := by
  induction xs generalizing a with
  | nil => have : a = e := h; omega
  | cons x xs ih =>
    obtain ⟨hx, hxs⟩ := h
    by_cases hp : p < a + len x
    · exact ⟨x, mem_cons_self, by omega, by omega⟩
    · obtain ⟨y, hy, hp⟩ := ih hxs (by omega)
      exact ⟨y, mem_cons_of_mem _ hy, hp⟩

end

lemma mod_eq_zero {n : Nat} (h : Tiles pos len a e xs) (hl : ∀ x ∈ xs, len x % n = 0)
    (ha : a % n = 0) : (∀ x ∈ xs, pos x % n = 0) ∧ e % n = 0 := by
  induction xs generalizing a with
  | nil => exact ⟨nofun, (show a = e from h) ▸ ha⟩
  | cons x xs ih =>
    obtain ⟨hx, hxs⟩ := h
    have hn : (a + len x) % n = 0 := by simp [Nat.add_mod, ha, hl x mem_cons_self]
    obtain ⟨hp, he⟩ := ih hxs (fun y hy => hl y (mem_cons_of_mem _ hy)) hn
    exact ⟨forall_mem_cons.mpr ⟨hx ▸ ha, hp⟩, he⟩

/-- Two tilings whose pieces have equal lengths where they start at the same point
have the same pieces, up to `R`. -/
lemma forall₂ {R : α → α → Prop} (h : Tiles pos len a e xs) (h' : Tiles pos len a e ys)
    (hp : ∀ x ∈ xs, 0 < len x) (hp' : ∀ y ∈ ys, 0 < len y)
    (hd : ∀ x ∈ xs, ∀ y ∈ ys, pos x = pos y → R x y ∧ len x = len y) : Forall₂ R xs ys := by
  induction xs generalizing a ys with
  | nil =>
    cases ys with
    | nil => exact .nil
    | cons y ys =>
      have h1 : a = e := h
      have h2 := h'.2.le
      have := hp' y mem_cons_self
      omega
  | cons x xs ih =>
    cases ys with
    | nil =>
      have h1 : a = e := h'
      have h2 := h.2.le
      have := hp x mem_cons_self
      omega
    | cons y ys =>
      obtain ⟨hr, hl⟩ := hd x mem_cons_self y mem_cons_self (h.1.trans h'.1.symm)
      have hys := h'.2
      rw [← hl] at hys
      exact .cons hr (ih h.2 hys (fun z hz => hp z (mem_cons_of_mem _ hz)) (fun z hz =>
        hp' z (mem_cons_of_mem _ hz))
        fun z hz w hw => hd z (mem_cons_of_mem _ hz) w (mem_cons_of_mem _ hw))

/-- Tilings by pieces that are determined by where they start are equal. -/
lemma unique (h : Tiles pos len a e xs) (h' : Tiles pos len a e ys) (hp : ∀ x ∈ xs, 0 < len x)
    (hp' : ∀ y ∈ ys, 0 < len y)
    (hd : ∀ x ∈ xs, ∀ y ∈ ys, pos x = pos y → x = y) : xs = ys :=
  forall₂_eq_eq_eq ▸ h.forall₂ h' hp hp' fun x hx y hy heq =>
    ⟨hd x hx y hy heq, congrArg len (hd x hx y hy heq)⟩

end Tiles

end FreeNT
