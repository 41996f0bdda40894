import Mathlib.Logic.Function.Basic
import OneBase.Model.Types

/-! # Row locks

`concurrency/lock_manager.cpp`. The state holds the lock table, the transactions and, for a
transaction whose call blocks on the condition variable of a queue, what it needs to go on. The
latch makes everything between two waits one step, so a lock call is its part up to the wait, and
`wake` is the rest of it, taken when the predicate of the wait is true. A request is one node of its
list and `node` is where that node lies: iterators into a `std::list` stay with their node.
-/

namespace OneBase

/-- `txn_id_t`. -/
abbrev TxnId := ℤ

/-- `TransactionState`. -/
inductive TransactionState where
  | growing
  | shrinking
  | committed
  | aborted
deriving DecidableEq, Repr

/-- `LockMode`. -/
inductive LockMode where
  | shared
  | exclusive
deriving DecidableEq, Repr

/-- `Transaction`: its state and its lock sets, in the order a walk over them takes. -/
structure Transaction where
  state : TransactionState := .growing
  sharedLockSet : List Rid := []
  exclusiveLockSet : List Rid := []
deriving DecidableEq, Repr

/-- `LockRequest`, with the list node it lies in. -/
structure LockRequest where
  node : ℕ
  txnId : TxnId
  lockMode : LockMode
  granted : Bool := false
deriving DecidableEq, Repr

/-- `LockRequestQueue`. -/
structure LockRequestQueue where
  requestQueue : List LockRequest := []
  upgrading : Bool := false
deriving DecidableEq, Repr

/-- The calls that wait. -/
inductive LockCall where
  | lockShared
  | lockExclusive
  | lockUpgrade
deriving DecidableEq, Repr

/-- A call at its wait: the row and the iterator `it`. -/
structure Wait where
  call : LockCall
  rid : Rid
  it : ℕ
deriving DecidableEq, Repr

/-- The lock table with the transactions that use it. -/
structure LockManager where
  lockTable : Rid → LockRequestQueue := fun _ => {}
  txns : TxnId → Transaction := fun _ => {}
  waits : TxnId → Option Wait := fun _ => none
  nextNode : ℕ := 0

namespace LockManager

variable (s : LockManager) (t : TxnId) (rid : Rid)

def setTxn (txn : Transaction) : LockManager := { s with txns := Function.update s.txns t txn }

def setQueue (queue : LockRequestQueue) : LockManager :=
  { s with lockTable := Function.update s.lockTable rid queue }

def setState (state : TransactionState) : LockManager := s.setTxn t { s.txns t with state := state }

/-- `GetSharedLockSet()->insert`. -/
def insertShared : LockManager :=
  s.setTxn t { s.txns t with sharedLockSet := (s.txns t).sharedLockSet.insert rid }

/-- `GetSharedLockSet()->erase`. -/
def eraseShared : LockManager :=
  s.setTxn t { s.txns t with sharedLockSet := (s.txns t).sharedLockSet.filter (· ≠ rid) }

/-- `GetExclusiveLockSet()->insert`. -/
def insertExclusive : LockManager :=
  s.setTxn t { s.txns t with exclusiveLockSet := (s.txns t).exclusiveLockSet.insert rid }

/-- `GetExclusiveLockSet()->erase`. -/
def eraseExclusive : LockManager :=
  s.setTxn t { s.txns t with exclusiveLockSet := (s.txns t).exclusiveLockSet.filter (· ≠ rid) }

/-- Change the requests of one row. -/
def modifyRequests (change : List LockRequest → List LockRequest) : LockManager :=
  s.setQueue rid { s.lockTable rid with requestQueue := change (s.lockTable rid).requestQueue }

def setUpgrading (upgrading : Bool) : LockManager :=
  s.setQueue rid { s.lockTable rid with upgrading := upgrading }

def setWait (wait : Option Wait) : LockManager := { s with waits := Function.update s.waits t wait }

/-- Work on the request an iterator leads to. -/
def atNode (it : ℕ) (f : LockRequest → LockRequest) : List LockRequest → List LockRequest :=
  List.map fun request => if request.node = it then f request else request

/-- `it->granted_ = true`. -/
def grant (it : ℕ) : List LockRequest → List LockRequest :=
  atNode it fun request => { request with granted := true }

/-- `it->lock_mode_ = EXCLUSIVE; it->granted_ = false`. -/
def ungrant (it : ℕ) : List LockRequest → List LockRequest :=
  atNode it fun request => { request with lockMode := .exclusive, granted := false }

/-- `request_queue_.erase(it)`. -/
def eraseNode (it : ℕ) : List LockRequest → List LockRequest := List.filter (·.node ≠ it)

/-- The predicate of a wait. -/
def mayGoOn (wait : Wait) : Bool :=
  (s.txns t).state = .aborted ||
    (s.lockTable wait.rid).requestQueue.all fun request =>
      match wait.call with
      | .lockShared => !(request.granted && request.lockMode = .exclusive)
      | .lockExclusive => !(request.granted && request.txnId ≠ t)
      | .lockUpgrade => !(request.granted && request.txnId ≠ t)

/-- What a call does after its wait, and its answer. -/
def goOn (wait : Wait) : LockManager × Bool :=
  match wait.call with
  | .lockShared =>
    if (s.txns t).state = .aborted then (s.modifyRequests wait.rid (eraseNode wait.it), false)
    else ((s.modifyRequests wait.rid (grant wait.it)).insertShared t wait.rid, true)
  | .lockExclusive =>
    if (s.txns t).state = .aborted then (s.modifyRequests wait.rid (eraseNode wait.it), false)
    else ((s.modifyRequests wait.rid (grant wait.it)).insertExclusive t wait.rid, true)
  | .lockUpgrade =>
    let s := s.setUpgrading wait.rid false
    if (s.txns t).state = .aborted then (s, false)
    else (((s.modifyRequests wait.rid (grant wait.it)).eraseShared t wait.rid).insertExclusive t wait.rid, true)

/-- A call at its wait goes on if the predicate is true, also before it blocks for the first time. The
answer is `none` while it blocks. -/
def wake : LockManager × Option Bool :=
  match s.waits t with
  | none => (s, none)
  | some wait =>
    if s.mayGoOn t wait then
      let result := (s.setWait t none).goOn t wait
      (result.1, some result.2)
    else (s, none)

/-- `request_queue_.emplace_back` in front of a wait. -/
def enqueue (call : LockCall) (lockMode : LockMode) : LockManager :=
  { (s.modifyRequests rid (· ++ [⟨s.nextNode, t, lockMode, false⟩])).setWait t
    (some ⟨call, rid, s.nextNode⟩) with
    nextNode := s.nextNode + 1 }

/-- `LockShared`. -/
def lockShared : LockManager × Option Bool :=
  if (s.txns t).state = .shrinking then (s.setState t .aborted, some false)
  else if (s.txns t).state = .aborted then (s, some false)
  else if rid ∈ (s.txns t).sharedLockSet ∨ rid ∈ (s.txns t).exclusiveLockSet then (s, some true)
  else (s.enqueue t rid .lockShared .shared).wake t

/-- `LockExclusive`. -/
def lockExclusive : LockManager × Option Bool :=
  if (s.txns t).state = .shrinking then (s.setState t .aborted, some false)
  else if (s.txns t).state = .aborted then (s, some false)
  else if rid ∈ (s.txns t).exclusiveLockSet then (s, some true)
  else (s.enqueue t rid .lockExclusive .exclusive).wake t

/-- The upgrade of a granted request, in front of the wait. -/
def startUpgrade (it : ℕ) : LockManager :=
  ((s.setUpgrading rid true).modifyRequests rid (ungrant it)).setWait t (some ⟨.lockUpgrade, rid, it⟩)

/-- `LockUpgrade`. -/
def lockUpgrade : LockManager × Option Bool :=
  if (s.txns t).state = .shrinking then (s.setState t .aborted, some false)
  else if (s.txns t).state = .aborted then (s, some false)
  else if (s.lockTable rid).upgrading then (s.setState t .aborted, some false)
  else
    match (s.lockTable rid).requestQueue.find? fun request => request.txnId = t && request.granted with
    | none => (s.setUpgrading rid false, some false)
    | some request => (s.startUpgrade t rid request.node).wake t

/-- `Unlock` up to the lock sets: the first request of the transaction goes. -/
def unlockRequest : LockManager :=
  let s := s.modifyRequests rid (List.eraseP (·.txnId = t))
  if (s.txns t).state = .growing then s.setState t .shrinking else s

/-- `Unlock`. -/
def unlock : LockManager × Bool := (((s.unlockRequest t rid).eraseShared t rid).eraseExclusive t rid, true)

/-- Both lock sets cleared. -/
def clearLockSets : LockManager :=
  s.setTxn t { s.txns t with sharedLockSet := [], exclusiveLockSet := [] }

/-- `Commit` and `Abort` with the rows `visited` by their two loops. -/
def release (state : TransactionState) (visited : List Rid) : LockManager :=
  (visited.foldl (fun s rid => (s.unlock t rid).1) (s.setState t state)).clearLockSets t

/-- What can happen next: a call of a transaction, a blocked call going on, or a transaction being
aborted from outside. -/
inductive Action where
  | lockShared (t : TxnId) (rid : Rid)
  | lockExclusive (t : TxnId) (rid : Rid)
  | lockUpgrade (t : TxnId) (rid : Rid)
  | unlock (t : TxnId) (rid : Rid)
  | commit (t : TxnId) (visited : List Rid)
  | abort (t : TxnId) (visited : List Rid)
  | wake (t : TxnId)
  | setAborted (t : TxnId)
deriving DecidableEq, Repr

def step : Action → LockManager
  | .lockShared t rid => (s.lockShared t rid).1
  | .lockExclusive t rid => (s.lockExclusive t rid).1
  | .lockUpgrade t rid => (s.lockUpgrade t rid).1
  | .unlock t rid => (s.unlock t rid).1
  | .commit t visited => s.release t .committed visited
  | .abort t visited => s.release t .aborted visited
  | .wake t => (s.wake t).1
  | .setAborted t => s.setState t .aborted

/-- A transaction issues its calls one after another. -/
def Enabled : Action → Prop
  | .lockShared t _ | .lockExclusive t _ | .lockUpgrade t _ | .unlock t _ | .commit t _ | .abort t _ =>
    s.waits t = none
  | .wake t => s.waits t ≠ none
  | .setAborted _ => True

instance : (a : Action) → Decidable (s.Enabled a)
  | .lockShared t _ | .lockExclusive t _ | .lockUpgrade t _ | .unlock t _ | .commit t _ | .abort t _ =>
    inferInstanceAs (Decidable (s.waits t = none))
  | .wake t => inferInstanceAs (Decidable (s.waits t ≠ none))
  | .setAborted _ => .isTrue trivial

end LockManager

end OneBase
