import OneBase.Proofs.Concurrency.TransactionStates

/-! # Final states

A run keeps every transaction in the order of its states exactly if no step writes over a final state:
no `Commit` of an aborted transaction, no `Abort` of a committed one, and no `LockUpgrade` of a
committed one that meets another upgrade.
-/

namespace OneBase.TransactionManager

open LockManager Traces

variable {s : TransactionManager} {t : TxnId} {run : List Call}

/-- A transaction that acts has begun. -/
def Begun (s : TransactionManager) : Call → Prop
  | .begin => True
  | .act a => a.subject < s.nextTxnId

/-- A transaction issues its calls one after another. -/
def Sequential (s : TransactionManager) : Call → Prop
  | .begin => True
  | .act a => s.locks.Enabled a

instance : (call : Call) → Decidable (s.Begun call)
  | .begin => .isTrue trivial
  | .act _ => inferInstanceAs (Decidable (_ < _))

instance : (call : Call) → Decidable (s.Sequential call)
  | .begin => .isTrue trivial
  | .act a => inferInstanceAs (Decidable (s.locks.Enabled a))

/-- No final state is written over. -/
def KeepsFinal (s : TransactionManager) : Call → Prop
  | .act (.commit t _) => (s.locks.txns t).state ≠ .aborted
  | .act (.abort t _) | .act (.setAborted t) => (s.locks.txns t).state ≠ .committed
  | .act (.lockUpgrade t rid) => ¬ ((s.locks.txns t).state = .committed ∧ (s.locks.lockTable rid).upgrading)
  | _ => True

instance : (call : Call) → Decidable (s.KeepsFinal call)
  | .begin => .isTrue trivial
  | .act (.commit _ _) | .act (.abort _ _) | .act (.setAborted _) | .act (.lockUpgrade _ _) =>
    inferInstanceAs (Decidable (¬ _))
  | .act (.lockShared _ _) | .act (.lockExclusive _ _) | .act (.unlock _ _) | .act (.wake _) => .isTrue trivial

/-- Wherever a run is cut, the state of a transaction at the later cut follows from that at the earlier one. -/
def Ordered (s : TransactionManager) (run : List Call) : Prop :=
  ∀ t first middle last, run = first ++ middle ++ last → t < (first.foldl step s).nextTxnId →
    ((first.foldl step s).locks.txns t).state.Leads (((first ++ middle).foldl step s).locks.txns t).state

/-- One step keeps the order of the states of its transaction exactly if it writes over no final state. -/
theorem leads_stateAfter_iff (s : TransactionManager) (a : Action) :
    ((s.locks.txns a.subject).state.Leads (s.locks.stateAfter a)) ↔ s.KeepsFinal (.act a) := by
  rw [TransactionState.leads_iff]
  cases a with
  | lockShared t rid | lockExclusive t rid | unlock t rid | wake t =>
    simp only [Action.subject, stateAfter, KeepsFinal, iff_true]
    grind
  | lockUpgrade t rid =>
    simp only [Action.subject, stateAfter, KeepsFinal]
    cases (s.locks.txns t).state <;> simp
  | commit t visited | abort t visited | setAborted t =>
    simp only [Action.subject, stateAfter, KeepsFinal]
    cases (s.locks.txns t).state <;> simp

theorem nextTxnId_step (s : TransactionManager) (call : Call) : s.nextTxnId ≤ (s.step call).nextTxnId := by
  cases call with
  | begin => exact Int.le_add_one le_rfl
  | act a => exact le_rfl

/-- A step that writes over no final state keeps the order of the states of all transactions. -/
theorem leads_step {call : Call} (keeps : s.KeepsFinal call) (begun : t < s.nextTxnId) :
    (s.locks.txns t).state.Leads ((s.step call).locks.txns t).state := by
  cases call with
  | begin =>
    rw [step, TransactionManager.begin, txns_setTxn, Function.update_of_ne begun.ne]
    exact .refl _
  | act a =>
    rw [step]
    by_cases mine : t = a.subject
    · rw [mine, state_step]
      exact (leads_stateAfter_iff s a).mpr keeps
    · rw [(s.locks.step_of_ne a mine).1]
      exact .refl _

theorem leads_foldl (keeps : Along KeepsFinal step s run) (begun : t < s.nextTxnId) :
    (s.locks.txns t).state.Leads ((run.foldl step s).locks.txns t).state := by
  induction run generalizing s with
  | nil => exact .refl _
  | cons call rest ih =>
    exact (leads_step keeps.1 begun).trans (ih keeps.2 (begun.trans_le (s.nextTxnId_step call)))

/-- The order of the states in the rest of a run. -/
theorem Ordered.tail {call : Call} {rest : List Call} (ordered : Ordered s (call :: rest)) :
    Ordered (s.step call) rest := by
  intro t first middle last cut begun
  exact ordered t (call :: first) middle last (by rw [cut]; rfl) begun

/-- The states of all transactions keep their order through a run exactly if no step of the run writes
over a final state. -/
theorem ordered_iff_keepsFinal (begun : Along Begun step s run) :
    Ordered s run ↔ Along KeepsFinal step s run := by
  constructor
  · intro ordered
    induction run generalizing s with
    | nil => trivial
    | cons call rest ih =>
      refine ⟨?_, ih begun.2 ordered.tail⟩
      cases call with
      | begin => trivial
      | act a =>
        -- the first cut in front of the step and the second one behind it
        have first := ordered a.subject [] [.act a] rest rfl begun.1
        rw [List.nil_append, List.foldl_cons, List.foldl_nil, List.foldl_nil, step, state_step] at first
        exact (leads_stateAfter_iff s a).mp first
  · intro keeps t first middle last cut begun
    rw [cut, List.append_assoc] at keeps
    have later := (along_append.mp (along_append.mp keeps).2).1
    rw [List.foldl_append]
    exact leads_foldl later begun

/-- A transaction that asks for a lock after it unlocked one, and is aborted. -/
def protocolConflict : List Call :=
  [.begin, .act (.lockShared 0 row), .act (.unlock 0 row), .act (.lockShared 0 row)]

theorem ordered_protocolConflict : Ordered {} (protocolConflict ++ [.act (.abort 0 [])]) ↔
    Along KeepsFinal step {} (protocolConflict ++ [.act (.abort 0 [])]) :=
  ordered_iff_keepsFinal (by decide)

/-- The client overlooks the failed call and commits. -/
theorem committed_after_abort :
    Along (fun s call => s.Begun call ∧ s.Sequential call) step {} (protocolConflict ++ [.act (.commit 0 [])]) ∧
    ((protocolConflict.foldl step {}).locks.txns 0).state = .aborted ∧
    (((protocolConflict ++ [Call.act (.commit 0 [])]).foldl step {}).locks.txns 0).state = .committed ∧
    ¬ Ordered {} (protocolConflict ++ [.act (.commit 0 [])]) := by
  refine ⟨by decide, by decide, by decide, fun ordered => ?_⟩
  have moved := ordered 0 protocolConflict [.act (.commit 0 [])] [] rfl (by decide)
  rw [TransactionState.leads_iff] at moved
  revert moved
  decide

end OneBase.TransactionManager
