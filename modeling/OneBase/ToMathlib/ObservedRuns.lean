import Mathlib.Tactic.Basic

/-! # Total runs of state-passing code, seen through an observation

Code in `StateT σ Option` fails when it runs out of rounds. `RunsTo good view m v Q` says that
from every good state that looks like `v` the code succeeds, ends in a good state, and the result
together with what the end state looks like satisfies `Q`. State that the observation hides
(counters, pins) may differ from run to run. The rules below follow the shape of `do` blocks.
-/

namespace ObservedRuns

variable {σ ν α β : Type} (good : σ → Prop) (view : σ → ν)

/-- From every good state observed as `v`, `m` succeeds in a good state and `Q` holds of the
result and the observation. -/
def RunsTo (m : StateT σ Option α) (v : ν) (Q : α → ν → Prop) : Prop :=
  ∀ s, good s → view s = v → ∃ a s', m s = some (a, s') ∧ good s' ∧ Q a (view s')

namespace RunsTo

variable {good view} {m : StateT σ Option α} {v : ν} {Q : α → ν → Prop}

theorem pure {a : α} (holds : Q a v) : RunsTo good view (Pure.pure a) v Q := by
  rintro s valid rfl
  exact ⟨a, s, rfl, valid, holds⟩

/-- Sequential composition. -/
theorem bind {f : α → StateT σ Option β} {R : β → ν → Prop} (first : RunsTo good view m v Q)
    (rest : ∀ a v', Q a v' → RunsTo good view (f a) v' R) : RunsTo good view (m >>= f) v R := by
  intro s valid seen
  obtain ⟨a, middle, run, validMiddle, holds⟩ := first s valid seen
  obtain ⟨b, last, runRest, validLast, conclusion⟩ := rest a _ holds middle validMiddle rfl
  refine ⟨b, last, ?_, validLast, conclusion⟩
  change (m s).bind (fun pair => f pair.1 pair.2) = some (b, last)
  rw [run]
  exact runRest

theorem mono {R : α → ν → Prop} (run : RunsTo good view m v Q) (weaker : ∀ a v', Q a v' → R a v') :
    RunsTo good view m v R := by
  intro s valid seen
  obtain ⟨a, s', success, valid', holds⟩ := run s valid seen
  exact ⟨a, s', success, valid', weaker a _ holds⟩

end RunsTo

end ObservedRuns
