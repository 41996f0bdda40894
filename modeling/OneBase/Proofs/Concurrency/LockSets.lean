import OneBase.Proofs.Concurrency.Requests
import OneBase.ToMathlib.Traces

/-! # Lock sets and the lock table

Outside of lock calls a transaction has one granted request for each row it holds and none for other
rows. Two calls break that. `LockExclusive` on a row held shared adds a second request, of which
`Unlock` erases the first only. `LockUpgrade` gives back the grant before it waits and does not restore
it when the transaction is aborted meanwhile.
-/

namespace OneBase.LockManager

open Traces

variable {s s' : LockManager} {t : TxnId} {rid : Rid}

section Views

variable {requests : List LockRequest} {inShared inExclusive : Prop}

/-- The requests for a row and the lock sets of a transaction that is in no call on the row. -/
def Settled (t : TxnId) (requests : List LockRequest) (inShared inExclusive : Prop) : Prop :=
  (requests = [] ∧ ¬ inShared ∧ ¬ inExclusive) ∨
  (∃ node, requests = [⟨node, t, .shared, true⟩] ∧ inShared ∧ ¬ inExclusive) ∨
  (∃ node, requests = [⟨node, t, .exclusive, true⟩] ∧ ¬ inShared ∧ inExclusive)

/-- The same for a transaction that waits for the row. -/
def Pending (t : TxnId) (it : ℕ) (requests : List LockRequest) (inShared inExclusive : Prop) : LockCall → Prop
  | .lockShared => requests = [⟨it, t, .shared, false⟩] ∧ ¬ inShared ∧ ¬ inExclusive
  | .lockExclusive => (requests = [⟨it, t, .exclusive, false⟩] ∧ ¬ inShared ∧ ¬ inExclusive) ∨
      ∃ node, requests = [⟨node, t, .shared, true⟩, ⟨it, t, .exclusive, false⟩] ∧ inShared ∧
        ¬ inExclusive
  | .lockUpgrade => requests = [⟨it, t, .exclusive, false⟩]

end Views

/-- A transaction and a row, in or out of a call. -/
def View (s : LockManager) (t : TxnId) (rid : Rid) : Prop :=
  match s.waits t with
  | none => Settled t (s.requestsOf t rid) (rid ∈ (s.txns t).sharedLockSet) (rid ∈ (s.txns t).exclusiveLockSet)
  | some wait =>
    if wait.rid = rid then
      Pending t wait.it (s.requestsOf t rid) (rid ∈ (s.txns t).sharedLockSet) (rid ∈ (s.txns t).exclusiveLockSet)
        wait.call
    else Settled t (s.requestsOf t rid) (rid ∈ (s.txns t).sharedLockSet) (rid ∈ (s.txns t).exclusiveLockSet)

theorem view_of_idle (idle : s.waits t = none) : s.View t rid ↔
    Settled t (s.requestsOf t rid) (rid ∈ (s.txns t).sharedLockSet) (rid ∈ (s.txns t).exclusiveLockSet) := by
  simp [View, idle]

theorem view_of_waits {wait : Wait} (waiting : s.waits t = some wait) : s.View t wait.rid ↔
    Pending t wait.it (s.requestsOf t wait.rid) (wait.rid ∈ (s.txns t).sharedLockSet)
      (wait.rid ∈ (s.txns t).exclusiveLockSet) wait.call := by
  simp [View, waiting]

theorem view_of_elsewhere (elsewhere : ∀ wait, s.waits t = some wait → wait.rid ≠ rid) : s.View t rid ↔
    Settled t (s.requestsOf t rid) (rid ∈ (s.txns t).sharedLockSet) (rid ∈ (s.txns t).exclusiveLockSet) := by
  rw [View]
  split
  · rfl
  · next wait waiting => rw [if_neg (elsewhere wait waiting)]

/-- Lock sets and lock table agree. -/
structure Consistent (s : LockManager) : Prop extends Linked s where
  view : ∀ t rid, s.View t rid

namespace Consistent

/-- A step of one transaction on one row. -/
theorem of_step (consistent : Consistent s) (t : TxnId) (rid : Rid) (linked' : Linked s')
    (requests : ∀ t' rid', ¬ (t' = t ∧ rid' = rid) → s'.requestsOf t' rid' = s.requestsOf t' rid')
    (txns : ∀ t' ≠ t, s'.txns t' = s.txns t') (waits : ∀ t' ≠ t, s'.waits t' = s.waits t')
    (before : ∀ wait, s.waits t = some wait → wait.rid = rid)
    (after : ∀ wait, s'.waits t = some wait → wait.rid = rid)
    (shared : ∀ rid' ≠ rid, rid' ∈ (s'.txns t).sharedLockSet ↔ rid' ∈ (s.txns t).sharedLockSet)
    (exclusive : ∀ rid' ≠ rid, rid' ∈ (s'.txns t).exclusiveLockSet ↔ rid' ∈ (s.txns t).exclusiveLockSet)
    (own : s'.View t rid) : Consistent s' := by
  refine ⟨linked', fun t' rid' => ?_⟩
  have old := consistent.view t' rid'
  by_cases self : t' = t
  · subst self
    by_cases same : rid' = rid
    · exact same ▸ own
    · rw [view_of_elsewhere fun wait waiting there => same (there.symm.trans (before wait waiting))] at old
      rw [view_of_elsewhere fun wait waiting there => same (there.symm.trans (after wait waiting)),
        requests t' rid' fun both => same both.2, shared rid' same, exclusive rid' same]
      exact old
  · rw [View] at old ⊢
    rw [requests t' rid' fun both => self both.1, txns t' self, waits t' self]
    exact old

theorem setState {state : TransactionState} (consistent : Consistent s) : Consistent (s.setState t state) := by
  refine ⟨consistent.toLinked.setTxn t _, fun t' rid' => ?_⟩
  have old := consistent.view t' rid'
  by_cases self : t' = t
  · subst self
    simpa [View, LockManager.setState] using old
  · simpa [View, LockManager.setState, self] using old

theorem enqueue (call : LockCall) (consistent : Consistent s) (idle : s.waits t = none)
    (own : Pending t s.nextNode (s.requestsOf t rid ++ [⟨s.nextNode, t, callMode call, false⟩])
      (rid ∈ (s.txns t).sharedLockSet) (rid ∈ (s.txns t).exclusiveLockSet) call) :
    Consistent (s.enqueue t rid call (callMode call)) := by
  have requests := s.requestsOf_enqueue t rid call (callMode call)
  have waiting := s.waits_enqueue t rid call (callMode call)
  refine consistent.of_step t rid (consistent.toLinked.enqueue t rid call) (fun t' rid' other => ?_) (fun _ _ => rfl)
    (fun t' other => Function.update_of_ne other ..) ?_ ?_ (fun _ _ => Iff.rfl) (fun _ _ => Iff.rfl) ?_
  · rw [requests, if_neg other]
  · simp [idle]
  · simp [waiting, eq_comm]
  · refine (view_of_waits waiting).mpr ?_
    rw [requests, if_pos ⟨rfl, rfl⟩]
    exact own

theorem startUpgrade {request : LockRequest} (consistent : Consistent s) (idle : s.waits t = none)
    (mine : request ∈ s.requestsOf t rid) :
    Consistent (s.startUpgrade t rid request.node) := by
  have requests := consistent.toLinked.requestsOf_startUpgrade mine
  have waiting : (s.startUpgrade t rid request.node).waits t = some ⟨.lockUpgrade, rid, request.node⟩ :=
    Function.update_self ..
  refine consistent.of_step t rid (consistent.toLinked.startUpgrade idle mine) (fun t' rid' other => ?_)
    (fun _ _ => rfl) (fun t' other => Function.update_of_ne other ..) ?_ ?_ (fun _ _ => Iff.rfl) (fun _ _ => Iff.rfl) ?_
  · rw [requests, if_neg other]
  · simp [idle]
  · simp [waiting, eq_comm]
  · refine (view_of_waits waiting).mpr ?_
    rw [requests, if_pos ⟨rfl, rfl⟩]
    -- the request found is the only one of the transaction
    rcases (view_of_idle idle).mp (consistent.view t rid) with ⟨none, -⟩ | ⟨node, one, -⟩ | ⟨node, one, -⟩
    · simp [none] at mine
    · rw [one, List.mem_singleton] at mine
      simp [one, mine, ungrant, atNode, Pending]
    · rw [one, List.mem_singleton] at mine
      simp [one, mine, ungrant, atNode, Pending]

/-- The end of a call: what is left for its row must be settled. -/
theorem of_goOn {wait : Wait} {own : List LockRequest} (consistent : Consistent s) (waiting : s.waits t = some wait)
    (linked' : Linked s')
    (requests : ∀ t' rid', s'.requestsOf t' rid' = if t' = t ∧ rid' = wait.rid then own else s.requestsOf t' rid')
    (txns : ∀ t' ≠ t, s'.txns t' = s.txns t') (waits : s'.waits = Function.update s.waits t none)
    (shared : ∀ rid' ≠ wait.rid, rid' ∈ (s'.txns t).sharedLockSet ↔ rid' ∈ (s.txns t).sharedLockSet)
    (exclusive : ∀ rid' ≠ wait.rid, rid' ∈ (s'.txns t).exclusiveLockSet ↔ rid' ∈ (s.txns t).exclusiveLockSet)
    (settled : Settled t own (wait.rid ∈ (s'.txns t).sharedLockSet) (wait.rid ∈ (s'.txns t).exclusiveLockSet)) :
    Consistent s' := by
  have idle : s'.waits t = none := by rw [waits, Function.update_self]
  refine consistent.of_step t wait.rid linked' (fun t' rid' other => ?_) txns (fun t' other => ?_) ?_ ?_ shared
    exclusive ?_
  · rw [requests, if_neg other]
  · rw [waits, Function.update_of_ne other]
  · simp [waiting]
  · simp [idle]
  · rw [view_of_idle idle, requests, if_pos ⟨rfl, rfl⟩]
    exact settled

/-- The nodes of a transaction's two requests differ. -/
theorem node_ne {node it : ℕ} (linked : Linked s)
    (two : s.requestsOf t rid = [⟨node, t, .shared, true⟩, ⟨it, t, .exclusive, false⟩]) : node ≠ it := by
  intro same
  have member (request : LockRequest) (mine : request ∈ s.requestsOf t rid) := (mem_ofTxn.mp mine).1
  have := linked.distinct rid _ (member ⟨node, t, .shared, true⟩ (by simp [two])) _
    (member ⟨it, t, .exclusive, false⟩ (by simp [two])) same
  simp at this

/-- A call goes on. It must not be an upgrade of an aborted transaction, nor lock a shared row exclusively. -/
theorem goOn {wait : Wait} (consistent : Consistent s) (waiting : s.waits t = some wait)
    (upgrade : wait.call = .lockUpgrade → (s.txns t).state ≠ .aborted)
    (doubled : wait.call = .lockExclusive → (s.txns t).state ≠ .aborted → wait.rid ∉ (s.txns t).sharedLockSet) :
    Consistent ((s.setWait t none).goOn t wait).1 := by
  have linked' := consistent.toLinked.goOn waiting
  have view := (view_of_waits waiting).mp (consistent.view t wait.rid)
  have granted := consistent.toLinked.requestsOf_grant waiting
  have erased := consistent.toLinked.requestsOf_erase waiting
  obtain ⟨call, rid, it⟩ := wait
  simp only at view granted erased upgrade doubled
  cases call with
  | lockShared =>
    obtain ⟨one, notShared, notExclusive⟩ := view
    by_cases aborted : (s.txns t).state = .aborted
    · simp only [LockManager.goOn, txns_setWait, aborted, if_true] at linked' ⊢
      refine consistent.of_goOn waiting linked' erased (fun _ _ => rfl) rfl (fun _ _ => Iff.rfl) (fun _ _ => Iff.rfl) ?_
      exact .inl ⟨by simp [one, eraseNode], notShared, notExclusive⟩
    · simp only [LockManager.goOn, txns_setWait, aborted, if_false] at linked' ⊢
      refine consistent.of_goOn waiting linked' granted (fun t' other => ?_) rfl (fun rid' other => ?_)
        (fun rid' other => ?_) (.inr (.inl ⟨it, ?_, ?_, ?_⟩))
      · simp [insertShared, other]
      · simp [insertShared, other]
      · simp [insertShared]
      · simp [one, grant, atNode]
      · simp [insertShared]
      · simpa [insertShared] using notExclusive
  | lockExclusive =>
    by_cases aborted : (s.txns t).state = .aborted
    · simp only [LockManager.goOn, txns_setWait, aborted, if_true] at linked' ⊢
      refine consistent.of_goOn waiting linked' erased (fun _ _ => rfl) rfl (fun _ _ => Iff.rfl) (fun _ _ => Iff.rfl) ?_
      rcases view with ⟨one, notShared, notExclusive⟩ | ⟨node, two, shared, notExclusive⟩
      · exact .inl ⟨by simp [one, eraseNode], notShared, notExclusive⟩
      · have different := node_ne consistent.toLinked two
        exact .inr (.inl ⟨node, by simp [two, eraseNode, different], shared, notExclusive⟩)
    · simp only [LockManager.goOn, txns_setWait, aborted, if_false] at linked' ⊢
      rcases view with ⟨one, notShared, notExclusive⟩ | ⟨node, two, shared, notExclusive⟩
      · refine consistent.of_goOn waiting linked' granted (fun t' other => ?_) rfl (fun rid' other => ?_)
          (fun rid' other => ?_) (.inr (.inr ⟨it, ?_, ?_, ?_⟩))
        · simp [insertExclusive, other]
        · simp [insertExclusive]
        · simp [insertExclusive, other]
        · simp [one, grant, atNode]
        · simpa [insertExclusive] using notShared
        · simp [insertExclusive]
      · exact absurd shared (doubled rfl aborted)
  | lockUpgrade =>
    have one : s.requestsOf t rid = [⟨it, t, .exclusive, false⟩] := view
    have alive := upgrade rfl
    have granted := (consistent.toLinked.setUpgrading rid false).requestsOf_grant waiting
    simp only [requestsOf_setUpgrading] at granted
    simp only [LockManager.goOn, txns_setWait, txns_setUpgrading, alive, if_false] at linked' ⊢
    refine consistent.of_goOn waiting linked' granted (fun t' other => ?_) rfl (fun rid' other => ?_)
      (fun rid' other => ?_) (.inr (.inr ⟨it, ?_, ?_, ?_⟩))
    · simp [insertExclusive, eraseShared, other]
    · simp [insertExclusive, eraseShared, other]
    · simp [insertExclusive, eraseShared, other]
    · simp [one, grant, atNode]
    · simp [insertExclusive, eraseShared]
    · simp [insertExclusive, eraseShared]

theorem wake (consistent : Consistent s)
    (upgrade : ∀ wait, s.waits t = some wait → wait.call = .lockUpgrade → (s.txns t).state ≠ .aborted)
    (doubled : ∀ wait, s.waits t = some wait → wait.call = .lockExclusive → (s.txns t).state ≠ .aborted →
      s.mayGoOn t wait → wait.rid ∉ (s.txns t).sharedLockSet) : Consistent (s.wake t).1 := by
  rcases s.wake_cases t with ⟨same, -⟩ | ⟨wait, waiting, may, went⟩
  · rwa [same]
  · rw [went]
    exact consistent.goOn waiting (upgrade wait waiting) fun call alive => doubled wait waiting call alive may

/-- With one request at most, `Unlock` leaves none. -/
theorem requestsOf_unlock (consistent : Consistent s) (idle : s.waits t = none) (rid : Rid) :
    (s.unlock t rid).1.requestsOf t rid = [] := by
  rw [LockManager.requestsOf_unlock, if_pos ⟨rfl, rfl⟩]
  rcases (view_of_idle idle).mp (consistent.view t rid) with ⟨none, -⟩ | ⟨node, one, -⟩ | ⟨node, one, -⟩
  · rw [none, List.tail_nil]
  · rw [one, List.tail_cons]
  · rw [one, List.tail_cons]

theorem unlock (consistent : Consistent s) (idle : s.waits t = none) (rid : Rid) :
    Consistent (s.unlock t rid).1 := by
  refine consistent.of_step t rid (consistent.toLinked.unlock idle rid) (fun t' rid' other => ?_)
    (fun t' other => s.txns_unlock_of_ne rid other) (fun t' _ => by rw [waits_unlock]) (by simp [idle])
    (by simp [waits_unlock, idle]) (fun rid' other => ?_) (fun rid' other => ?_) ?_
  · rw [LockManager.requestsOf_unlock, if_neg other]
  · simp [sharedLockSet_unlock, other]
  · simp [exclusiveLockSet_unlock, other]
  · rw [view_of_idle (by rw [waits_unlock, idle]), consistent.requestsOf_unlock idle rid]
    exact .inl ⟨rfl, by simp [sharedLockSet_unlock], by simp [exclusiveLockSet_unlock]⟩

end Consistent

/-- A request is granted exclusively on a row held shared, or an upgrade ends with its transaction aborted. -/
def Spoils (s : LockManager) : Action → Prop
  | .lockExclusive t rid => (s.txns t).state ≠ .shrinking ∧ (s.txns t).state ≠ .aborted ∧
      rid ∈ (s.txns t).sharedLockSet ∧ rid ∉ (s.txns t).exclusiveLockSet ∧ s.OthersUngranted t rid
  | .wake t => ∃ wait ∈ s.waits t,
      (wait.call = .lockExclusive ∧ (s.txns t).state ≠ .aborted ∧ wait.rid ∈ (s.txns t).sharedLockSet ∧
        s.OthersUngranted t wait.rid) ∨
      (wait.call = .lockUpgrade ∧ (s.txns t).state = .aborted)
  | _ => False

instance : (a : Action) → Decidable (s.Spoils a)
  | .lockExclusive _ _ => inferInstanceAs (Decidable (_ ∧ _))
  | .wake t => inferInstanceAs (Decidable (∃ wait ∈ s.waits t, _))
  | .lockShared _ _ | .lockUpgrade _ _ | .unlock _ _ | .commit _ _ | .abort _ _ | .setAborted _ =>
    inferInstanceAs (Decidable False)

/-- The action is part of a call on the lock manager, or an abort from outside. -/
def Action.isLocking : Action → Bool
  | .commit _ _ | .abort _ _ => false
  | _ => true

/-- Lock calls, each transaction issuing them one after another, and aborts at any moment. -/
def Locking (s : LockManager) (a : Action) : Prop := s.Enabled a ∧ a.isLocking

instance (a : Action) : Decidable (s.Locking a) := inferInstanceAs (Decidable (_ ∧ _))

/-- One step that spoils nothing. -/
theorem Consistent.step (consistent : Consistent s) {a : Action} (locking : s.Locking a) (clean : ¬ s.Spoils a) :
    Consistent (s.step a) := by
  obtain ⟨enabled, called⟩ := locking
  cases a with
  | lockShared t rid =>
    simp only [LockManager.step]
    rcases s.lockShared_cases t rid with same | aborted | ⟨alive, notShared, notExclusive, entered⟩
    · rwa [same]
    · rw [aborted]
      exact consistent.setState
    · rw [entered]
      have view := (view_of_idle enabled).mp (consistent.view t rid)
      have pending : Consistent (s.enqueue t rid .lockShared .shared) := by
        refine consistent.enqueue .lockShared enabled ?_
        rcases view with ⟨none, -⟩ | ⟨node, one, shared, -⟩ | ⟨node, one, -, exclusive⟩
        · exact ⟨by rw [none]; rfl, notShared, notExclusive⟩
        · exact absurd shared notShared
        · exact absurd exclusive notExclusive
      refine pending.wake (fun wait waiting call => ?_) (fun wait waiting call => ?_)
      all_goals
        rw [waits_enqueue, Option.some.injEq] at waiting
        subst waiting
        cases call
  | lockExclusive t rid =>
    simp only [LockManager.step]
    rcases s.lockExclusive_cases t rid with same | aborted | ⟨growing, alive, new, entered⟩
    · rwa [same]
    · rw [aborted]
      exact consistent.setState
    · rw [entered]
      have view := (view_of_idle enabled).mp (consistent.view t rid)
      have pending : Consistent (s.enqueue t rid .lockExclusive .exclusive) := by
        refine consistent.enqueue .lockExclusive enabled ?_
        rcases view with ⟨none, notShared, -⟩ | ⟨node, one, shared, -⟩ | ⟨node, one, -, exclusive⟩
        · exact .inl ⟨by rw [none]; rfl, notShared, new⟩
        · exact .inr ⟨node, by rw [one]; rfl, shared, new⟩
        · exact absurd exclusive new
      refine pending.wake (fun wait waiting call => ?_) (fun wait waiting call alive may shared => ?_)
      · rw [waits_enqueue, Option.some.injEq] at waiting
        subst waiting
        cases call
      · rw [waits_enqueue, Option.some.injEq] at waiting
        subst waiting
        have others := othersUngranted_of_mayGoOn alive call may
        refine clean ⟨growing, alive, shared, new, fun request member granted => ?_⟩
        refine others request ?_ granted
        rw [lockTable_enqueue, requestQueue_modifyRequests, if_pos rfl]
        exact List.mem_append_left _ member
  | lockUpgrade t rid =>
    simp only [LockManager.step]
    rcases s.lockUpgrade_cases t rid with aborted | same | ⟨request, mine, -, alive, -, entered⟩
    · rw [aborted]
      exact consistent.setState
    · rwa [same]
    · rw [entered]
      have waiting : (s.startUpgrade t rid request.node).waits t = some ⟨.lockUpgrade, rid, request.node⟩ :=
        Function.update_self ..
      refine (consistent.startUpgrade enabled mine).wake (fun _ _ _ => alive) (fun wait waiting' call => ?_)
      rw [waiting, Option.some.injEq] at waiting'
      subst waiting'
      cases call
  | unlock t rid => exact consistent.unlock enabled rid
  | commit t visited => cases called
  | abort t visited => cases called
  | wake t =>
    refine consistent.wake (fun wait waiting call aborted => ?_) (fun wait waiting call alive may shared => ?_)
    · exact clean ⟨wait, waiting, .inr ⟨call, aborted⟩⟩
    · exact clean ⟨wait, waiting, .inl ⟨call, alive, shared, othersUngranted_of_mayGoOn alive call may⟩⟩
  | setAborted t => exact consistent.setState

theorem consistent_initial : Consistent initial :=
  ⟨linked_initial, fun _ _ => .inl ⟨rfl, List.not_mem_nil, List.not_mem_nil⟩⟩

/-- What the lock table holds for a transaction is what its lock sets say. -/
structure Agrees (s : LockManager) (t : TxnId) (rid : Rid) : Prop where
  single : (s.requestsOf t rid).length ≤ 1
  shared : rid ∈ (s.txns t).sharedLockSet ↔ ∃ a ∈ s.requestsOf t rid, a.granted ∧ a.lockMode = .shared
  exclusive : rid ∈ (s.txns t).exclusiveLockSet ↔ ∃ a ∈ s.requestsOf t rid, a.granted ∧
    a.lockMode = .exclusive
  absent : rid ∉ (s.txns t).sharedLockSet → rid ∉ (s.txns t).exclusiveLockSet → s.requestsOf t rid = []

theorem Consistent.agrees (consistent : Consistent s) (idle : s.waits t = none) : s.Agrees t rid := by
  rcases (view_of_idle idle).mp (consistent.view t rid) with ⟨none, notShared, notExclusive⟩ |
    ⟨node, one, shared, notExclusive⟩ | ⟨node, one, notShared, exclusive⟩
  · constructor <;> simp [none, notShared, notExclusive]
  · constructor <;> simp [one, shared, notExclusive]
  · constructor <;> simp [one, notShared, exclusive]

/-- In every run in which no `LockExclusive` is granted on a row its transaction holds shared and no
`LockUpgrade` ends its wait by abort, every transaction outside a lock call has in each queue what its
lock sets say, and nothing after `Unlock`. -/
theorem run_consistent (run : List Action)
    (along : Along (fun s a => s.Locking a ∧ ¬ s.Spoils a) step initial run) (t : TxnId)
    (idle : (run.foldl step initial).waits t = none) (rid : Rid) :
    (run.foldl step initial).Agrees t rid ∧ ((run.foldl step initial).unlock t rid).1.requestsOf t rid = [] := by
  have consistent : Consistent (run.foldl step initial) := along.invariant
    (fun _ _ consistent allowed => consistent.step allowed.1 allowed.2) consistent_initial
  exact ⟨consistent.agrees idle, consistent.requestsOf_unlock idle rid⟩

/-- A reader upgrades its lock; another one is aborted while it waits. -/
def abortedRun : List Action :=
  [.lockShared 1 row, .lockUpgrade 1 row, .lockShared 2 row, .setAborted 2, .wake 2]

theorem run_consistent_abortedRun :
    (Along (fun s a => s.Locking a ∧ ¬ s.Spoils a) step initial abortedRun ∧
      (abortedRun.foldl step initial).waits 1 = none) ∧
    (abortedRun.foldl step initial).Agrees 1 row ∧
      ((abortedRun.foldl step initial).unlock 1 row).1.requestsOf 1 row = [] :=
  ⟨by decide, run_consistent abortedRun (by decide) 1 (by decide) row⟩

/-- A row locked shared, then exclusively, then unlocked. -/
def doubledRun : List Action := [.lockShared 1 row, .lockExclusive 1 row, .unlock 1 row]

/-- A granted exclusive request of a transaction that holds nothing stays behind. -/
theorem doubledRun_leaves_request : Along Locking step initial doubledRun ∧
    (doubledRun.foldl step initial).waits 1 = none ∧
    (doubledRun.foldl step initial).requestsOf 1 row = [⟨1, 1, .exclusive, true⟩] ∧
    row ∉ ((doubledRun.foldl step initial).txns 1).sharedLockSet ∧
    row ∉ ((doubledRun.foldl step initial).txns 1).exclusiveLockSet := by
  decide

end OneBase.LockManager
