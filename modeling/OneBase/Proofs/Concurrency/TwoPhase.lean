import OneBase.Proofs.Concurrency.TransactionStates

/-! # Two-phase locking

A call that releases locks leaves its transaction in a state other than `GROWING`, and no action leads
back. The lock calls turn away a transaction that is `SHRINKING` or `ABORTED`, on entry, and no call of
the transaction can be waiting at its release. They do not turn away a `COMMITTED` one, so the rule
holds as long as no transaction asks for a lock after its commit.
-/

namespace OneBase.LockManager

open Traces

variable {s : LockManager} {t : TxnId} {a call release : Action} {between : List Action}

/-- The calls of a transaction that release locks. -/
def Action.Releases (t : TxnId) : Action → Prop
  | .unlock t' _ | .commit t' _ | .abort t' _ => t' = t
  | _ => False

/-- A step brings a row into a lock set of a transaction. -/
def Adds (s : LockManager) (t : TxnId) (a : Action) : Prop :=
  ∃ rid, (rid ∈ ((s.step a).txns t).sharedLockSet ∧ rid ∉ (s.txns t).sharedLockSet) ∨
    (rid ∈ ((s.step a).txns t).exclusiveLockSet ∧ rid ∉ (s.txns t).exclusiveLockSet)

/-- A lock call of a committed transaction. -/
def LocksCommitted (s : LockManager) : Action → Prop
  | .lockShared t _ | .lockExclusive t _ | .lockUpgrade t _ => (s.txns t).state = .committed
  | _ => False

instance : (a : Action) → Decidable (s.LocksCommitted a)
  | .lockShared _ _ | .lockExclusive _ _ | .lockUpgrade _ _ => inferInstanceAs (Decidable (_ = _))
  | .unlock _ _ | .commit _ _ | .abort _ _ | .wake _ | .setAborted _ => .isFalse id

/-- A transaction that is past its growing phase and in no call. -/
def Past (t : TxnId) (s : LockManager) : Prop := (s.txns t).state ≠ .growing ∧ s.waits t = none

/-- A lock call of a transaction past its growing phase gets to no wait. -/
theorem lockCall_of_past (past : Past t s) (legal : ¬ s.LocksCommitted a) (mine : a.subject = t)
    (asks : ¬ a.Releases t) (enabled : s.Enabled a) :
    s.step a = s ∨ s.step a = s.setState t .aborted := by
  obtain ⟨state, idle⟩ := past
  have turned (rest : LockManager × Option Bool) (open' : (s.txns t).state ≠ .committed) :
      (if (s.txns t).state = .shrinking then (s.setState t .aborted, some false)
        else if (s.txns t).state = .aborted then (s, some false) else rest).1 = s ∨
      (if (s.txns t).state = .shrinking then (s.setState t .aborted, some false)
        else if (s.txns t).state = .aborted then (s, some false) else rest).1 = s.setState t .aborted := by
    cases held : (s.txns t).state with
    | growing => exact absurd held state
    | shrinking => exact .inr rfl
    | committed => exact absurd held open'
    | aborted => exact .inl rfl
  cases a with
  | lockShared t' rid =>
    subst mine
    exact turned _ legal
  | lockExclusive t' rid =>
    subst mine
    exact turned _ legal
  | lockUpgrade t' rid =>
    subst mine
    exact turned _ legal
  | wake t' =>
    subst mine
    exact absurd idle enabled
  | setAborted t' =>
    subst mine
    exact .inr rfl
  | unlock t' rid => exact absurd mine asks
  | commit t' visited => exact absurd mine asks
  | abort t' visited => exact absurd mine asks

/-- A release ends the growing phase. -/
theorem past_of_releases (enabled : s.Enabled a) (releases : a.Releases t) : Past t (s.step a) := by
  cases a with
  | unlock t' rid =>
    obtain rfl := releases
    constructor
    · simp only [step, state_unlock]
      grind
    · rw [step, waits_unlock]
      exact enabled
  | commit t' visited =>
    obtain rfl := releases
    constructor
    · simp [step, state_release]
    · rw [step, waits_release]
      exact enabled
  | abort t' visited =>
    obtain rfl := releases
    constructor
    · simp [step, state_release]
    · rw [step, waits_release]
      exact enabled
  | lockShared | lockExclusive | lockUpgrade | wake | setAborted => exact releases.elim

/-- No action leads back into the growing phase. -/
theorem Past.step (past : Past t s) (enabled : s.Enabled a) (legal : ¬ s.LocksCommitted a) : Past t (s.step a) := by
  by_cases mine : t = a.subject
  · by_cases releases : a.Releases t
    · exact past_of_releases enabled releases
    · rcases lockCall_of_past past legal mine.symm releases enabled with same | aborted
      · rwa [same]
      · rw [aborted]
        exact ⟨by simp [setState], past.2⟩
  · rw [Past, (s.step_of_ne a mine).1, (s.step_of_ne a mine).2]
    exact past

/-- A release takes rows out of the lock sets only. -/
theorem not_adds_of_releases (releases : a.Releases t) : ¬ s.Adds t a := by
  rintro ⟨rid, added⟩
  cases a with
  | unlock t' rid' =>
    obtain rfl := releases
    simp only [step, sharedLockSet_unlock, exclusiveLockSet_unlock, List.mem_filter] at added
    grind
  | commit t' visited =>
    obtain rfl := releases
    simp [step, release, clearLockSets] at added
  | abort t' visited =>
    obtain rfl := releases
    simp [step, release, clearLockSets] at added
  | lockShared | lockExclusive | lockUpgrade | wake | setAborted => exact releases

/-- A transaction past its growing phase gets no lock. -/
theorem Past.not_adds (past : Past t s) (enabled : s.Enabled a) (legal : ¬ s.LocksCommitted a) : ¬ s.Adds t a := by
  by_cases mine : t = a.subject
  · by_cases releases : a.Releases t
    · exact not_adds_of_releases releases
    · rcases lockCall_of_past past legal mine.symm releases enabled with same | aborted
      · simp [Adds, same]
      · simp [Adds, aborted, setState]
  · simp [Adds, (s.step_of_ne a mine).1]

/-- In a run without lock calls of committed transactions, no step after a release of a transaction
brings a row into its lock sets. -/
theorem no_lock_after_release
    (run : Along (fun s a => s.Enabled a ∧ ¬ s.LocksCommitted a) step s (release :: between ++ [call]))
    (releases : release.Releases t) : ¬ ((release :: between).foldl step s).Adds t call := by
  obtain ⟨before, now, -⟩ := along_append.mp run
  apply Past.not_adds (before.2.invariant _ (past_of_releases before.1.1 releases)) now.1 now.2
  exact fun s a past legal => past.step legal.1 legal.2

theorem no_lock_after_unlock_of_row : ¬ ((([.unlock 1 row, .lockExclusive 2 row] : List Action).foldl step
    (initial.step (.lockShared 1 row))).Adds 1 (.lockShared 1 row)) :=
  no_lock_after_release (by decide) rfl

/-- A transaction that unlocks a row, commits and locks the row again. -/
theorem lock_after_commit :
    Along (fun s a => s.Enabled a) step initial
      [.lockShared 1 row, .unlock 1 row, .commit 1 [], .lockShared 1 row] ∧
    row ∈ ((initial.step (.lockShared 1 row)).txns 1).sharedLockSet ∧
    row ∉ (([.lockShared 1 row, .unlock 1 row] : List Action).foldl step initial |>.txns 1).sharedLockSet ∧
    (([.lockShared 1 row, .unlock 1 row, .commit 1 []] : List Action).foldl step initial).Adds 1
      (.lockShared 1 row) :=
  ⟨by decide, by decide, by decide, row, .inl ⟨by decide, by decide⟩⟩

end OneBase.LockManager
