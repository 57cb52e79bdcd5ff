import Mathlib

/-!
# Steps that fail with an error

A step that may fail returns an `Except`. A run of such steps is `List.foldlM`. What every step
that succeeds keeps, a run that succeeds keeps (`invariant`).
-/

namespace Fallible

variable {ε σ τ α : Type}

/-- A sequence of two computations that succeeds goes through a result of the first. -/
theorem exists_of_bind_eq_ok {x : Except ε σ} {f : σ → Except ε τ} {t : τ}
    (h : x >>= f = .ok t) : ∃ s, x = .ok s ∧ f s = .ok t := by
  cases x with
  | error e => cases h
  | ok s => exact ⟨s, rfl, h⟩

theorem foldlM_cons_eq_ok {step : σ → α → Except ε σ} {a : α} {as : List α} {s t : σ} :
    (a :: as).foldlM step s = .ok t ↔ ∃ u, step s a = .ok u ∧ as.foldlM step u = .ok t := by
  rw [List.foldlM_cons]
  refine ⟨exists_of_bind_eq_ok, ?_⟩
  rintro ⟨u, hu, ht⟩
  rw [hu]
  exact ht

/-- What each step that succeeds keeps, a run that succeeds keeps. -/
theorem invariant {step : σ → α → Except ε σ} {P : σ → Prop}
    (hstep : ∀ s a t, P s → step s a = .ok t → P t) {as : List α} {s t : σ} (hs : P s)
    (h : as.foldlM step s = .ok t) : P t := by
  induction as generalizing s with
  | nil =>
    cases h
    exact hs
  | cons a as ih =>
    obtain ⟨u, hu, ht⟩ := foldlM_cons_eq_ok.1 h
    exact ih (hstep s a u hs hu) ht

end Fallible
