import OneBase.Proofs.Concurrency.TransactionStates

/-! # Nodes of waiting calls

`Abort` may come from another thread while its transaction waits, and `Unlock` then erases requests
under the waiting call. What is left of the order of nodes and iterators after every action whatsoever:
an iterator leads to an ungranted request of its own transaction, or to a request that is gone.
-/

namespace OneBase.LockManager

variable {s : LockManager} {t t' : TxnId} {rid : Rid} {wait : Wait}

/-- Nodes are told apart, and the iterator of a waiting call leads to an ungranted request of its
transaction, or to a request that is gone. -/
structure Guarded (s : LockManager) : Prop where
  fresh : ∀ rid, ∀ request ∈ (s.lockTable rid).requestQueue, request.node < s.nextNode
  distinct : ∀ rid, ∀ a ∈ (s.lockTable rid).requestQueue, ∀ b ∈ (s.lockTable rid).requestQueue,
    a.node = b.node → a = b
  issued : ∀ t wait, s.waits t = some wait → wait.it < s.nextNode
  own : ∀ t wait, s.waits t = some wait → ∀ request ∈ (s.lockTable wait.rid).requestQueue,
    request.node = wait.it → request.txnId = t ∧ request.granted = false

namespace Guarded

theorem setTxn (guarded : Guarded s) (t : TxnId) (txn : Transaction) : Guarded (s.setTxn t txn) :=
  ⟨guarded.fresh, guarded.distinct, guarded.issued, guarded.own⟩

theorem setUpgrading (guarded : Guarded s) (rid : Rid) (upgrading : Bool) : Guarded (s.setUpgrading rid upgrading) := by
  constructor
  · simpa using guarded.fresh
  · simpa using guarded.distinct
  · exact guarded.issued
  · simpa using guarded.own

theorem setWait_none (guarded : Guarded s) (t : TxnId) : Guarded (s.setWait t none) := by
  have old (t' : TxnId) (wait : Wait) (waiting : (s.setWait t none).waits t' = some wait) :
      s.waits t' = some wait := by
    by_cases self : t' = t
    · simp [self] at waiting
    · rwa [waits_setWait, Function.update_of_ne self] at waiting
  exact ⟨guarded.fresh, guarded.distinct, fun t' wait waiting => guarded.issued t' wait (old t' wait waiting),
    fun t' wait waiting => guarded.own t' wait (old t' wait waiting)⟩

/-- A change of one queue through which the requests can be traced back. -/
theorem modifyRequests {change : List LockRequest → List LockRequest} (guarded : Guarded s)
    (old : ∀ a ∈ change (s.lockTable rid).requestQueue, ∃ b ∈ (s.lockTable rid).requestQueue,
      a.node = b.node ∧ a.txnId = b.txnId ∧
      (a.granted → b.granted ∨ ∀ t wait, s.waits t = some wait → wait.rid = rid → b.node ≠ wait.it))
    (apart : ∀ a ∈ change (s.lockTable rid).requestQueue, ∀ b ∈ change (s.lockTable rid).requestQueue,
      a.node = b.node → a = b) : Guarded (s.modifyRequests rid change) := by
  constructor
  · intro rid' request member
    rw [requestQueue_modifyRequests] at member
    split at member
    · obtain ⟨b, memberB, same, -⟩ := old request member
      exact same ▸ guarded.fresh rid b memberB
    · exact guarded.fresh rid' request member
  · intro rid' a memberA b memberB
    rw [requestQueue_modifyRequests] at memberA memberB
    split at memberA
    · next row =>
      rw [if_pos row] at memberB
      exact apart a memberA b memberB
    · next row =>
      rw [if_neg row] at memberB
      exact guarded.distinct rid' a memberA b memberB
  · exact guarded.issued
  · intro t' wait waiting request member here
    rw [requestQueue_modifyRequests] at member
    split at member
    · next row =>
      obtain ⟨b, memberB, node, owner, granted⟩ := old request member
      obtain ⟨mine, ungranted⟩ := guarded.own t' wait waiting b (row ▸ memberB) (node ▸ here)
      refine ⟨owner.trans mine, Bool.eq_false_iff.mpr fun now => ?_⟩
      rcases granted now with before | foreign
      · simp [ungranted] at before
      · exact foreign t' wait waiting row (node ▸ here)
    · exact guarded.own t' wait waiting request member here

theorem atNode {it : ℕ} {f : LockRequest → LockRequest} (guarded : Guarded s)
    (keeps : ∀ request, (f request).txnId = request.txnId ∧ (f request).node = request.node)
    (grants : ∀ request ∈ (s.lockTable rid).requestQueue, request.node = it → (f request).granted →
      ∀ t wait, s.waits t = some wait → wait.rid = rid → it ≠ wait.it) :
    Guarded (s.modifyRequests rid (LockManager.atNode it f)) := by
  have node (a : LockRequest) : (if a.node = it then f a else a).node = a.node := by
    split
    · exact (keeps a).2
    · rfl
  apply guarded.modifyRequests
  · intro a member
    obtain ⟨b, memberB, rfl⟩ := List.mem_map.mp member
    refine ⟨b, memberB, node b, ?_, ?_⟩
    · split
      · exact (keeps b).1
      · rfl
    · split
      · next here => exact fun granted => .inr (here ▸ grants b memberB here granted)
      · exact .inl
  · intro a memberA b memberB same
    obtain ⟨a, oldA, rfl⟩ := List.mem_map.mp memberA
    obtain ⟨b, oldB, rfl⟩ := List.mem_map.mp memberB
    rw [node, node] at same
    rw [guarded.distinct rid a oldA b oldB same]

/-- Requests that only go away. -/
theorem sublist {change : List LockRequest → List LockRequest} (guarded : Guarded s)
    (fewer : ∀ a ∈ change (s.lockTable rid).requestQueue, a ∈ (s.lockTable rid).requestQueue) :
    Guarded (s.modifyRequests rid change) := by
  apply guarded.modifyRequests
  · exact fun a member => ⟨a, fewer a member, rfl, rfl, .inl⟩
  · exact fun a memberA b memberB => guarded.distinct rid a (fewer a memberA) b (fewer b memberB)

theorem unlock (guarded : Guarded s) (t : TxnId) (rid : Rid) : Guarded (s.unlock t rid).1 := by
  have erased : Guarded (s.modifyRequests rid (List.eraseP (·.txnId = t))) :=
    guarded.sublist fun _ member => List.mem_of_mem_eraseP member
  apply Guarded.setTxn
  apply Guarded.setTxn
  rw [unlockRequest]
  split
  · exact erased.setTxn t _
  · exact erased

theorem release (guarded : Guarded s) (t : TxnId) (state : TransactionState) (visited : List Rid) :
    Guarded (s.release t state visited) := by
  have walked (s : LockManager) (guarded : Guarded s) :
      Guarded (visited.foldl (fun s rid => (s.unlock t rid).1) s) := by
    induction visited generalizing s with
    | nil => exact guarded
    | cons rid rest ih => exact ih _ (guarded.unlock t rid)
  exact (walked _ (guarded.setTxn t _)).setTxn t _

/-- The start of a wait at a request of one's own that is not granted. -/
theorem setWait_some (guarded : Guarded s) (issued : wait.it < s.nextNode)
    (own : ∀ request ∈ (s.lockTable wait.rid).requestQueue,
      request.node = wait.it → request.txnId = t ∧ request.granted = false) :
    Guarded (s.setWait t (some wait)) := by
  refine ⟨guarded.fresh, guarded.distinct, fun t' wait' waiting => ?_, fun t' wait' waiting => ?_⟩ <;>
    rw [waits_setWait] at waiting <;> by_cases self : t' = t
  · rw [self, Function.update_self, Option.some.injEq] at waiting
    exact waiting ▸ issued
  · rw [Function.update_of_ne self] at waiting
    exact guarded.issued t' wait' waiting
  · rw [self, Function.update_self, Option.some.injEq] at waiting
    exact waiting ▸ self ▸ own
  · rw [Function.update_of_ne self] at waiting
    exact guarded.own t' wait' waiting

theorem enqueue (guarded : Guarded s) (t : TxnId) (rid : Rid) (call : LockCall) (lockMode : LockMode) :
    Guarded (s.enqueue t rid call lockMode) := by
  have old (rid' : Rid) (a : LockRequest)
      (member : a ∈ ((s.enqueue t rid call lockMode).lockTable rid').requestQueue) :
      a ∈ (s.lockTable rid').requestQueue ∨ a = ⟨s.nextNode, t, lockMode, false⟩ := by
    rw [lockTable_enqueue, requestQueue_modifyRequests] at member
    split at member
    · next row =>
      rcases List.mem_append.mp member with there | pushed
      · exact .inl (row ▸ there)
      · exact .inr (List.mem_singleton.mp pushed)
    · exact .inl member
  constructor
  · intro rid' a member
    change a.node < s.nextNode + 1
    rcases old rid' a member with there | rfl
    · exact Nat.lt_succ_of_lt (guarded.fresh rid' a there)
    · exact Nat.lt_succ_self _
  · intro rid' a memberA b memberB same
    rcases old rid' a memberA with thereA | rfl <;> rcases old rid' b memberB with thereB | rfl
    · exact guarded.distinct rid' a thereA b thereB same
    · exact absurd same (guarded.fresh rid' a thereA).ne
    · exact absurd same.symm (guarded.fresh rid' b thereB).ne
    · rfl
  · intro t' wait waiting
    change Function.update s.waits t _ t' = some wait at waiting
    change wait.it < s.nextNode + 1
    by_cases self : t' = t
    · rw [self, Function.update_self, Option.some.injEq] at waiting
      exact waiting ▸ Nat.lt_succ_self _
    · rw [Function.update_of_ne self] at waiting
      exact Nat.lt_succ_of_lt (guarded.issued t' wait waiting)
  · intro t' wait waiting request member here
    change Function.update s.waits t _ t' = some wait at waiting
    by_cases self : t' = t
    · rw [self, Function.update_self, Option.some.injEq] at waiting
      subst waiting
      rcases old rid request member with there | rfl
      · exact absurd here (guarded.fresh rid request there).ne
      · exact ⟨self.symm, rfl⟩
    · rw [Function.update_of_ne self] at waiting
      rcases old wait.rid request member with there | rfl
      · exact guarded.own t' wait waiting request there here
      · exact absurd here (guarded.issued t' wait waiting).ne'

theorem startUpgrade {request : LockRequest} (guarded : Guarded s) (mine : request ∈ s.requestsOf t rid) :
    Guarded (s.startUpgrade t rid request.node) := by
  obtain ⟨member, owner⟩ := mem_ofTxn.mp mine
  apply Guarded.setWait_some
  · exact (guarded.setUpgrading rid true).atNode (fun _ => ⟨rfl, rfl⟩) (by simp)
  · exact guarded.fresh rid request member
  · intro a memberA here
    rw [requestQueue_modifyRequests, if_pos rfl, requestQueue_setUpgrading] at memberA
    obtain ⟨b, memberB, rfl⟩ := List.mem_map.mp memberA
    by_cases same : b.node = request.node
    · rw [if_pos same, guarded.distinct rid b memberB request member same]
      exact ⟨owner, rfl⟩
    · rw [if_neg same] at here
      exact absurd here same

/-- No other call waits at the node of a call that goes on. -/
theorem it_ne (guarded : Guarded s) (waiting : s.waits t = some wait) {request : LockRequest}
    (member : request ∈ (s.lockTable wait.rid).requestQueue) (here : request.node = wait.it) :
    ∀ t' wait', (s.setWait t none).waits t' = some wait' → wait'.rid = wait.rid → wait.it ≠ wait'.it := by
  intro t' wait' waiting' row same
  by_cases self : t' = t
  · simp [self] at waiting'
  · rw [waits_setWait, Function.update_of_ne self] at waiting'
    have foreign := guarded.own t' wait' waiting' request (row ▸ member) (here.trans same)
    exact self (foreign.1.symm.trans (guarded.own t wait waiting request member here).1)

/-- The grant at the end of a wait. -/
theorem grant (guarded : Guarded s) (waiting : s.waits t = some wait) (upgrading : Bool) :
    Guarded (((s.setWait t none).setUpgrading wait.rid upgrading).modifyRequests wait.rid
      (LockManager.grant wait.it)) := by
  apply ((guarded.setWait_none t).setUpgrading wait.rid upgrading).atNode
    (f := fun request => { request with granted := true }) fun _ => ⟨rfl, rfl⟩
  intro request member here _
  rw [requestQueue_setUpgrading] at member
  exact guarded.it_ne waiting member here

theorem goOn (guarded : Guarded s) (waiting : s.waits t = some wait) :
    Guarded ((s.setWait t none).goOn t wait).1 := by
  have erased : Guarded ((s.setWait t none).modifyRequests wait.rid (eraseNode wait.it)) :=
    (guarded.setWait_none t).sublist fun _ member => List.mem_of_mem_filter member
  have granted : Guarded ((s.setWait t none).modifyRequests wait.rid (LockManager.grant wait.it)) :=
    (guarded.setWait_none t).atNode (fun _ => ⟨rfl, rfl⟩) fun _ member here _ => guarded.it_ne waiting member here
  rw [LockManager.goOn]
  cases wait.call with
  | lockShared =>
    dsimp only
    split
    · exact erased
    · exact granted.setTxn t _
  | lockExclusive =>
    dsimp only
    split
    · exact erased
    · exact granted.setTxn t _
  | lockUpgrade =>
    dsimp only
    split
    · exact (guarded.setWait_none t).setUpgrading wait.rid false
    · exact ((guarded.grant waiting false).setTxn t _).setTxn t _

theorem wake (guarded : Guarded s) (t : TxnId) : Guarded (s.wake t).1 := by
  rcases s.wake_cases t with ⟨same, -⟩ | ⟨wait, waiting, -, went⟩
  · rwa [same]
  · rw [went]
    exact guarded.goOn waiting

/-- Every action keeps nodes and iterators in order. -/
theorem step (guarded : Guarded s) (a : Action) : Guarded (s.step a) := by
  cases a with
  | lockShared t rid =>
    rcases s.lockShared_cases t rid with same | aborted | ⟨-, -, -, entered⟩
    · rwa [LockManager.step, same]
    · rw [LockManager.step, aborted]
      exact guarded.setTxn t _
    · rw [LockManager.step, entered]
      exact (guarded.enqueue t rid _ _).wake t
  | lockExclusive t rid =>
    rcases s.lockExclusive_cases t rid with same | aborted | ⟨-, -, -, entered⟩
    · rwa [LockManager.step, same]
    · rw [LockManager.step, aborted]
      exact guarded.setTxn t _
    · rw [LockManager.step, entered]
      exact (guarded.enqueue t rid _ _).wake t
  | lockUpgrade t rid =>
    rcases s.lockUpgrade_cases t rid with aborted | same | ⟨request, mine, -, -, -, entered⟩
    · rw [LockManager.step, aborted]
      exact guarded.setTxn t _
    · rwa [LockManager.step, same]
    · rw [LockManager.step, entered]
      exact (guarded.startUpgrade mine).wake t
  | unlock t rid => exact guarded.unlock t rid
  | commit t visited => exact guarded.release t .committed visited
  | abort t visited => exact guarded.release t .aborted visited
  | wake t => exact guarded.wake t
  | setAborted t => exact guarded.setTxn t _

end Guarded

theorem guarded_initial : Guarded initial := by
  constructor <;> simp [initial]

end OneBase.LockManager
