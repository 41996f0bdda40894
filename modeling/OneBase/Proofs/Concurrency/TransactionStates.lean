import OneBase.Model.TransactionManager
import OneBase.Proofs.Concurrency.Requests
import OneBase.ToMathlib.Traces

/-! # The states of a transaction

Every action belongs to one transaction and leaves the others alone. `stateAfter` is the state that an
action leaves its transaction in: the seven places that write a state, under the tests in front of them.
`Commit` and `Abort` test nothing, and `LockUpgrade` aborts on a conflict without a look at
`COMMITTED`, so a final state stays only where no such write hits it.
-/

namespace OneBase

/-- The order in which a transaction moves through its states. -/
inductive TransactionState.Leads : TransactionState → TransactionState → Prop where
  | refl (state : TransactionState) : Leads state state
  | shrink : Leads .growing .shrinking
  | commit {state : TransactionState} (running : state = .growing ∨ state = .shrinking) : Leads state .committed
  | abort {state : TransactionState} (running : state = .growing ∨ state = .shrinking) : Leads state .aborted

theorem TransactionState.leads_iff {old new : TransactionState} : old.Leads new ↔
    new = old ∨ (old = .growing ∧ new ≠ .growing) ∨ (old = .shrinking ∧ new ≠ .growing) := by
  constructor
  · rintro (_ | _ | running | running) <;> grind
  · intro order
    cases old <;> cases new <;> simp at order <;> constructor <;> simp

theorem TransactionState.Leads.trans {a b c : TransactionState} (first : a.Leads b) (second : b.Leads c) :
    a.Leads c := by
  rw [leads_iff] at first second ⊢
  grind

namespace LockManager

open Traces

variable {s : LockManager} {t t' : TxnId}

/-- The transaction an action belongs to. -/
def Action.subject : Action → TxnId
  | .lockShared t _ | .lockExclusive t _ | .lockUpgrade t _ | .unlock t _ | .commit t _ | .abort t _ | .wake t |
    .setAborted t => t

section Frame

theorem txns_goOn_of_ne {wait : Wait} (other : t' ≠ t) : (s.goOn t wait).1.txns t' = s.txns t' := by
  simp only [goOn]
  split <;> split <;> simp [insertShared, insertExclusive, eraseShared, other]

theorem waits_goOn {wait : Wait} : (s.goOn t wait).1.waits = s.waits := by
  simp only [goOn]
  split <;> split <;> rfl

theorem state_goOn {wait : Wait} : ((s.goOn t wait).1.txns t').state = (s.txns t').state := by
  by_cases self : t' = t
  · subst self
    simp only [goOn]
    split <;> split <;> simp [insertShared, insertExclusive, eraseShared]
  · rw [txns_goOn_of_ne self]

/-- A blocked call that goes on, or not, shows in its own transaction only. -/
theorem wake_of_ne (other : t' ≠ t) :
    (s.wake t).1.txns t' = s.txns t' ∧ (s.wake t).1.waits t' = s.waits t' := by
  rcases s.wake_cases t with ⟨same, -⟩ | ⟨wait, -, -, went⟩
  · rw [same]
    exact ⟨rfl, rfl⟩
  · rw [went, txns_goOn_of_ne other, waits_goOn]
    exact ⟨rfl, Function.update_of_ne other ..⟩

theorem state_wake : ((s.wake t).1.txns t').state = (s.txns t').state := by
  rcases s.wake_cases t with ⟨same, -⟩ | ⟨wait, -, -, went⟩
  · rw [same]
  · rw [went, state_goOn]
    rfl

/-- What the loop of `Commit` and `Abort` leaves of the other transactions and of the waits. -/
theorem release_of_ne {state : TransactionState} {visited : List Rid} (other : t' ≠ t) :
    (s.release t state visited).txns t' = s.txns t' := by
  have walked (s : LockManager) : (visited.foldl (fun s rid => (s.unlock t rid).1) s).txns t' = s.txns t' := by
    induction visited generalizing s with
    | nil => rfl
    | cons rid rest ih => rw [List.foldl_cons, ih, txns_unlock_of_ne s rid other]
  simp only [release, clearLockSets, txns_setTxn, Function.update_of_ne other, walked]
  simp [setState, other]

theorem waits_release {state : TransactionState} {visited : List Rid} :
    (s.release t state visited).waits = s.waits := by
  have walked (s : LockManager) : (visited.foldl (fun s rid => (s.unlock t rid).1) s).waits = s.waits := by
    induction visited generalizing s with
    | nil => rfl
    | cons rid rest ih => rw [List.foldl_cons, ih, waits_unlock]
  simp [release, clearLockSets, walked, setState]

/-- An action leaves the other transactions alone. -/
theorem step_of_ne (a : Action) (other : t ≠ a.subject) :
    (s.step a).txns t = s.txns t ∧ (s.step a).waits t = s.waits t := by
  cases a with
  | lockShared t' rid =>
    rcases s.lockShared_cases t' rid with same | aborted | ⟨-, -, -, entered⟩
    · simp only [step, same, and_self]
    · simp only [step, aborted]
      exact ⟨Function.update_of_ne other .., rfl⟩
    · simp only [step, entered, wake_of_ne (show t ≠ t' from other)]
      exact ⟨rfl, Function.update_of_ne other ..⟩
  | lockExclusive t' rid =>
    rcases s.lockExclusive_cases t' rid with same | aborted | ⟨-, -, -, entered⟩
    · simp only [step, same, and_self]
    · simp only [step, aborted]
      exact ⟨Function.update_of_ne other .., rfl⟩
    · simp only [step, entered, wake_of_ne (show t ≠ t' from other)]
      exact ⟨rfl, Function.update_of_ne other ..⟩
  | lockUpgrade t' rid =>
    rcases s.lockUpgrade_cases t' rid with aborted | same | ⟨request, -, -, -, -, entered⟩
    · simp only [step, aborted]
      exact ⟨Function.update_of_ne other .., rfl⟩
    · simp only [step, same, and_self]
    · simp only [step, entered, wake_of_ne (show t ≠ t' from other)]
      exact ⟨rfl, Function.update_of_ne other ..⟩
  | unlock t' rid => exact ⟨txns_unlock_of_ne s rid other, by rw [step, waits_unlock]⟩
  | commit t' visited => exact ⟨release_of_ne other, by rw [step, waits_release]⟩
  | abort t' visited => exact ⟨release_of_ne other, by rw [step, waits_release]⟩
  | wake t' => exact wake_of_ne other
  | setAborted t' => exact ⟨Function.update_of_ne other .., rfl⟩

end Frame

section States

/-- The state an action leaves its transaction in. -/
def stateAfter (s : LockManager) : Action → TransactionState
  | .lockShared t _ | .lockExclusive t _ =>
    if (s.txns t).state = .shrinking then .aborted else (s.txns t).state
  | .lockUpgrade t rid =>
    if (s.txns t).state = .shrinking ∨ (s.lockTable rid).upgrading then .aborted else (s.txns t).state
  | .unlock t _ => if (s.txns t).state = .growing then .shrinking else (s.txns t).state
  | .commit _ _ => .committed
  | .abort _ _ | .setAborted _ => .aborted
  | .wake t => (s.txns t).state

theorem state_setState {state : TransactionState} : ((s.setState t state).txns t).state = state := by
  simp [setState]

theorem state_unlock {rid : Rid} : ((s.unlock t rid).1.txns t).state =
    if (s.txns t).state = .growing then .shrinking else (s.txns t).state := by
  simp only [unlock, unlockRequest]
  split <;> simp_all [eraseExclusive, eraseShared, setState]

/-- The loop of `Commit` and `Abort` leaves the state alone that stands in front of it. -/
theorem state_release {state : TransactionState} {visited : List Rid} (final : state ≠ .growing) :
    ((s.release t state visited).txns t).state = state := by
  have walked (s : LockManager) (here : (s.txns t).state = state) :
      ((visited.foldl (fun s rid => (s.unlock t rid).1) s).txns t).state = state := by
    induction visited generalizing s with
    | nil => exact here
    | cons rid rest ih =>
      apply ih
      rw [state_unlock, here, if_neg final]
  simp only [release, clearLockSets, txns_setTxn, Function.update_self]
  exact walked _ state_setState

/-- All the writes of a state. -/
theorem state_step (s : LockManager) (a : Action) : ((s.step a).txns a.subject).state = s.stateAfter a := by
  cases a with
  | lockShared t rid =>
    simp only [step, Action.subject, stateAfter, lockShared]
    split
    · exact state_setState
    · split
      · rfl
      · split
        · rfl
        · rw [state_wake]
          rfl
  | lockExclusive t rid =>
    simp only [step, Action.subject, stateAfter, lockExclusive]
    split
    · exact state_setState
    · split
      · rfl
      · split
        · rfl
        · rw [state_wake]
          rfl
  | lockUpgrade t rid =>
    simp only [step, Action.subject, stateAfter, lockUpgrade]
    by_cases shrinking : (s.txns t).state = .shrinking
    · rw [if_pos shrinking, if_pos (.inl shrinking)]
      exact state_setState
    · rw [if_neg shrinking]
      split
      · next aborted => simp [aborted]
      · split
        · next busy =>
          rw [if_pos (.inr busy)]
          exact state_setState
        · next free =>
          rw [if_neg (by simp [shrinking, free])]
          split
          · rfl
          · rw [state_wake]
            rfl
  | unlock t rid => exact state_unlock
  | commit t visited => exact state_release (by simp)
  | abort t visited => exact state_release (by simp)
  | wake t => exact state_wake
  | setAborted t => exact state_setState

end States

end LockManager

end OneBase
