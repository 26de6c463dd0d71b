import Mathlib.Tactic.Common

/-!
# Runs of a system

A system takes a state and an operation to the next state, or to `none` if the
operation cannot be carried out (a failed assertion, a wild access, a loop that
never ends). `Run step ok s ops s'` is a run from `s` to `s'` in which every
operation meets `ok` in the state it is applied to. An invariant kept by the
steps that meet `ok` holds at the end of every run (`Run.invariant`).
-/

namespace FreeNT

variable {σ α : Type*}

inductive Run (step : σ → α → Option σ) (ok : σ → α → Prop) : σ → List α → σ → Prop
  | nil (s : σ) : Run step ok s [] s
  | cons {s s₁ s' : σ} {a : α} {as : List α} :
    ok s a → step s a = some s₁ → Run step ok s₁ as s' → Run step ok s (a :: as) s'

namespace Run

variable {step : σ → α → Option σ} {ok ok' : σ → α → Prop} {s s' : σ} {as : List α}

/-- The rule of invariants. -/
lemma invariant (inv : σ → Prop) (hst : ∀ {s a s'}, inv s → ok s a → step s a = some s' → inv s')
    (hr : Run step ok s as s') (hs : inv s) : inv s' := by
  induction hr with
  | nil => exact hs
  | cons hok hs1 _ ih => exact ih (hst hs hok hs1)

lemma single {a : α} (hok : ok s a) (h : step s a = some s') : Run step ok s [a] s' := .cons hok h (.nil s')

lemma exists_and {P : σ → Prop} (hr : ∃ s', Run step ok s as s') (h : ∀ s', Run step ok s as s' → P s') :
    ∃ s', Run step ok s as s' ∧ P s' :=
  hr.imp fun s' hs' => ⟨hs', h s' hs'⟩

lemma exists_and_and {P Q : σ → Prop} (hr : ∃ s', Run step ok s as s' ∧ Q s')
    (h : ∀ s', Run step ok s as s' → P s') : ∃ s', Run step ok s as s' ∧ Q s' ∧ P s' :=
  hr.imp fun s' hs' => ⟨hs'.1, hs'.2, h s' hs'.1⟩

end Run

lemma do_some {α β : Type _} (a : α) (f : α → Option β) : (some a >>= f) = f a := rfl

end FreeNT
