import OneBase.Model.LockManager

/-! # Commit and abort

`concurrency/transaction_manager.cpp`. The release loops walk a lock set and hand `Unlock` a
reference to the element they stand on, while `Unlock` erases that element. Each place where the
language leaves the outcome open is an error here: erasing the element and then reading the
reference again, and taking the next element of a walk from one that is gone.
-/

namespace OneBase

/-- What a release loop can run into. -/
inductive Fault where
  | usesErased (rid : Rid)
  | continuesFromErased (rid : Rid)
deriving DecidableEq, Repr

namespace LockManager

def lockSet (s : LockManager) (t : TxnId) : LockMode → List Rid
  | .shared => (s.txns t).sharedLockSet
  | .exclusive => (s.txns t).exclusiveLockSet

/-- `Unlock(txn, rid)` where `rid` refers into the lock set `home` of the transaction. -/
def unlockElement (s : LockManager) (t : TxnId) (home : LockMode) (rid : Rid) : Except Fault LockManager :=
  let s := s.unlockRequest t rid
  -- `GetSharedLockSet()->erase(rid)` comes first and may take the element `rid` refers to
  if home = .shared ∧ rid ∈ s.lockSet t .shared then .error (.usesErased rid)
  else .ok ((s.eraseShared t rid).eraseExclusive t rid)

/-- `for (const auto &rid : *set) Unlock(txn, rid)`, with the rows unlocked. `Unlock` takes no other
element out of the set, so what is left to visit is the rest of the set. -/
def unlockAll (t : TxnId) (home : LockMode) : LockManager → List Rid → Except Fault (LockManager × List Rid)
  | s, [] => .ok (s, [])
  | s, rid :: rest => do
    let s ← s.unlockElement t home rid
    if rid ∈ s.lockSet t home then
      let (s, unlocked) ← unlockAll t home s rest
      return (s, rid :: unlocked)
    else throw (.continuesFromErased rid)

/-- The common body of `Commit` and `Abort`. -/
def finish (state : TransactionState) (s : LockManager) (t : TxnId) : Except Fault (LockManager × List Rid) := do
  let s := s.setState t state
  let (s, shared) ← unlockAll t .shared s (s.lockSet t .shared)
  let (s, exclusive) ← unlockAll t .exclusive s (s.lockSet t .exclusive)
  return (s.clearLockSets t, shared ++ exclusive)

/-- `Commit`. -/
def commit : LockManager → TxnId → Except Fault (LockManager × List Rid) := finish .committed

/-- `Abort`. -/
def abort : LockManager → TxnId → Except Fault (LockManager × List Rid) := finish .aborted

end LockManager

/-- The lock table and the transactions with `next_txn_id_`. -/
structure TransactionManager where
  locks : LockManager := {}
  nextTxnId : TxnId := 0

namespace TransactionManager

/-- `Begin`, or what a transaction that has begun can do. -/
inductive Call where
  | begin
  | act (a : LockManager.Action)
deriving DecidableEq, Repr

/-- `Begin`: a new transaction under the next id. -/
def begin (s : TransactionManager) : TransactionManager :=
  { locks := s.locks.setTxn s.nextTxnId {}, nextTxnId := s.nextTxnId + 1 }

def step (s : TransactionManager) : Call → TransactionManager
  | .begin => s.begin
  | .act a => { s with locks := s.locks.step a }

end TransactionManager

end OneBase
