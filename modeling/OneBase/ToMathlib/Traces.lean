import Mathlib.Data.List.Basic

/-! # Runs of a step function

A run is a list of actions applied one after another. `Along P step s run` says that every step of
the run meets `P` in the state it is taken from. An invariant that each such step keeps holds at the
end of the run, hence in every state of it, because every initial part of the run is such a run too.
-/

namespace Traces

variable {σ α : Type*} {step : σ → α → σ} {P : σ → α → Prop} {I : σ → Prop}

/-- Every step of a run meets `P`. -/
def Along (P : σ → α → Prop) (step : σ → α → σ) : σ → List α → Prop
  | _, [] => True
  | s, a :: rest => P s a ∧ Along P step (step s a) rest

/-- The invariant rule. -/
theorem Along.invariant (keeps : ∀ s a, I s → P s a → I (step s a)) {s : σ} {run : List α}
    (along : Along P step s run) (initial : I s) : I (run.foldl step s) := by
  induction run generalizing s with
  | nil => exact initial
  | cons a rest ih => exact ih along.2 (keeps s a initial along.1)

theorem along_append {s : σ} {a b : List α} :
    Along P step s (a ++ b) ↔ Along P step s a ∧ Along P step (a.foldl step s) b := by
  induction a generalizing s with
  | nil => simp [Along]
  | cons x rest ih => simp [Along, ih, and_assoc]

instance decidableAlong [∀ s a, Decidable (P s a)] : ∀ s run, Decidable (Along P step s run)
  | _, [] => isTrue trivial
  | s, a :: rest =>
    have := decidableAlong (step s a) rest
    inferInstanceAs (Decidable (_ ∧ _))

end Traces
