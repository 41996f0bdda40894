import OneBase.Model.TransactionManager
import OneBase.Proofs.Concurrency.Requests
import OneBase.ToMathlib.Traces

/-! # Releasing locks at the end of a transaction

`Unlock` erases the element that a release loop stands on, so a loop over a set with an element never
gets past it: in the shared set the reference dies between the two erasures of `Unlock`, in the
exclusive set the loop goes on from the erased element. A transaction without locks is released, as
far as its lock sets tell: a request that an earlier call left in a queue stays there.
-/

namespace OneBase.LockManager

open Traces

variable {s s' : LockManager} {t : TxnId} {state : TransactionState} {unlocked : List Rid}

/-- Every row held is unlocked, no loop leaves defined behaviour, and nothing of the transaction is left. -/
def ReleasesAll (s : LockManager) (t : TxnId) (outcome : Except Fault (LockManager × List Rid)) : Prop :=
  ∃ s' unlocked, outcome = .ok (s', unlocked) ∧
    (∀ rid, rid ∈ (s.txns t).sharedLockSet ∨ rid ∈ (s.txns t).exclusiveLockSet → rid ∈ unlocked) ∧
    (s'.txns t).sharedLockSet = [] ∧ (s'.txns t).exclusiveLockSet = [] ∧ ∀ rid, s'.requestsOf t rid = []

/-- No lock is held and no request is queued. -/
def HoldsNothing (s : LockManager) (t : TxnId) : Prop :=
  (s.txns t).sharedLockSet = [] ∧ (s.txns t).exclusiveLockSet = [] ∧ ∀ rid, s.requestsOf t rid = []

theorem lockSet_unlockRequest (s : LockManager) (t : TxnId) (rid : Rid) (home : LockMode) :
    (s.unlockRequest t rid).lockSet t home = s.lockSet t home := by
  rw [unlockRequest]
  split
  · cases home <;> simp [lockSet, setState]
  · cases home <;> simp [lockSet]

/-- A loop over a set with an element runs into a fault. -/
theorem unlockAll_cons {home : LockMode} {rid : Rid} {rest : List Rid} (held : s.lockSet t home = rid :: rest) :
    ∃ fault, unlockAll t home s (rid :: rest) = .error fault := by
  rw [unlockAll, unlockElement, lockSet_unlockRequest]
  cases home with
  | shared =>
    rw [if_pos ⟨rfl, by simp [held]⟩]
    exact ⟨.usesErased rid, rfl⟩
  | exclusive =>
    rw [if_neg (by simp)]
    refine ⟨.continuesFromErased rid, ?_⟩
    simp [lockSet, eraseExclusive, eraseShared, bind, Except.bind, throw, throwThe, MonadExceptOf.throw]

theorem lockSet_setState (s : LockManager) (t : TxnId) (state : TransactionState) (home : LockMode) :
    (s.setState t state).lockSet t home = s.lockSet t home := by
  cases home <;> simp [lockSet, setState]

/-- Without locks the loops do nothing. -/
theorem finish_of_empty (shared : s.lockSet t .shared = []) (exclusive : s.lockSet t .exclusive = []) :
    finish state s t = .ok ((s.setState t state).clearLockSets t, []) := by
  rw [← lockSet_setState s t state] at shared exclusive
  simp only [finish, shared, unlockAll, bind, Except.bind, exclusive]
  rfl

/-- With a lock one of the loops runs into a fault. -/
theorem finish_of_held (state : TransactionState)
    (held : s.lockSet t .shared ≠ [] ∨ s.lockSet t .exclusive ≠ []) :
    ∃ fault, finish state s t = .error fault := by
  rw [← lockSet_setState s t state, ← lockSet_setState s t state] at held
  cases shared : (s.setState t state).lockSet t .shared with
  | cons rid rest =>
    obtain ⟨fault, failed⟩ := unlockAll_cons shared
    refine ⟨fault, ?_⟩
    simp only [finish, shared, failed, bind, Except.bind]
  | nil =>
    cases exclusive : (s.setState t state).lockSet t .exclusive with
    | cons rid rest =>
      obtain ⟨fault, failed⟩ := unlockAll_cons exclusive
      refine ⟨fault, ?_⟩
      simp only [finish, shared, unlockAll, exclusive, failed, bind, Except.bind]
    | nil =>
      rw [shared, exclusive] at held
      simp at held

theorem finish_releasesAll_iff : ReleasesAll s t (finish state s t) ↔ s.HoldsNothing t := by
  constructor
  · rintro ⟨s', unlocked, done, -, -, -, queues⟩
    by_cases held : s.lockSet t .shared ≠ [] ∨ s.lockSet t .exclusive ≠ []
    · obtain ⟨fault, failed⟩ := finish_of_held state held
      rw [failed] at done
      cases done
    · rw [not_or, not_ne_iff, not_ne_iff] at held
      rw [finish_of_empty held.1 held.2] at done
      cases done
      exact ⟨held.1, held.2, queues⟩
  · rintro ⟨shared, exclusive, queues⟩
    refine ⟨_, [], finish_of_empty shared exclusive, ?_, ?_, ?_, queues⟩
    · simp [shared, exclusive]
    · simp [clearLockSets]
    · simp [clearLockSets]

/-- `Commit` and `Abort` release everything exactly for a transaction that holds no lock and has no
request in any queue. -/
theorem commit_abort_releasesAll_iff (s : LockManager) (t : TxnId) :
    (ReleasesAll s t (s.commit t) ↔ s.HoldsNothing t) ∧ (ReleasesAll s t (s.abort t) ↔ s.HoldsNothing t) :=
  ⟨finish_releasesAll_iff, finish_releasesAll_iff⟩

/-- One shared lock is enough: `Unlock` reads the row again after it erased it from the set it lies in. -/
theorem commit_of_shared_lock : Along (fun s a => s.Enabled a) step initial [.lockShared 1 row] ∧
    (initial.lockShared 1 row).1.commit 1 = .error (.usesErased row) ∧
    ¬ ReleasesAll (initial.lockShared 1 row).1 1 ((initial.lockShared 1 row).1.commit 1) := by
  have faulted : (initial.lockShared 1 row).1.commit 1 = .error (.usesErased row) := rfl
  refine ⟨by decide, faulted, ?_⟩
  rintro ⟨s', unlocked, done, -⟩
  rw [faulted] at done
  cases done

end OneBase.LockManager
