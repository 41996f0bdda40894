import Mathlib.Data.List.Basic
import OneBase.Model.LockManager

/-! # The requests of one transaction in one queue

Every property of the lock manager is about what a transaction has in a queue, so each operation is
described once by what it does to `requestsOf`. An iterator held at a wait leads to a request of the
waiting transaction, and no other request lies in the same node, so working through the iterator
leaves the requests of everyone else alone.
-/

namespace OneBase.LockManager

section Lists

variable {l : List LockRequest} {t t' : TxnId} {it : ℕ}

/-- The requests of a transaction. -/
def ofTxn (t : TxnId) (l : List LockRequest) : List LockRequest := l.filter (·.txnId = t)

theorem mem_ofTxn {request : LockRequest} : request ∈ ofTxn t l ↔ request ∈ l ∧ request.txnId = t := by
  simp [ofTxn]

theorem ofTxn_atNode {f : LockRequest → LockRequest} (keeps : ∀ request, (f request).txnId = request.txnId) :
    ofTxn t (atNode it f l) = atNode it f (ofTxn t l) := by
  simp only [ofTxn, atNode, List.filter_map]
  congr 1
  apply List.filter_congr
  intro request _
  by_cases here : request.node = it <;> simp [here, keeps]

theorem ofTxn_eraseNode : ofTxn t (eraseNode it l) = eraseNode it (ofTxn t l) := by
  simp only [ofTxn, eraseNode, List.filter_filter, Bool.and_comm]

theorem ofTxn_append (request : LockRequest) : ofTxn t (l ++ [request]) =
    if request.txnId = t then ofTxn t l ++ [request] else ofTxn t l := by
  by_cases own : request.txnId = t <;> simp [ofTxn, own]

/-- Erasing the first request of a transaction. -/
theorem ofTxn_eraseP_self : ofTxn t (l.eraseP (·.txnId = t)) = (ofTxn t l).tail := by
  induction l with
  | nil => rfl
  | cons request rest ih =>
    by_cases own : request.txnId = t
    · simp [ofTxn, own]
    · simpa [ofTxn, own] using ih

theorem ofTxn_eraseP_of_ne (other : t' ≠ t) : ofTxn t' (l.eraseP (·.txnId = t)) = ofTxn t' l := by
  induction l with
  | nil => rfl
  | cons request rest ih =>
    by_cases own : request.txnId = t
    · have foreign : request.txnId ≠ t' := fun same => other (same ▸ own)
      simp [ofTxn, own, own ▸ foreign]
    · by_cases mine : request.txnId = t'
      · simpa [ofTxn, own, mine, other] using ih
      · simpa [ofTxn, own, mine] using ih

theorem atNode_of_forall_ne {f : LockRequest → LockRequest} (absent : ∀ request ∈ l, request.node ≠ it) :
    atNode it f l = l := by
  rw [atNode]
  conv_rhs => rw [← List.map_id l]
  apply List.map_congr_left
  intro request member
  rw [if_neg (absent request member), id]

theorem eraseNode_of_forall_ne (absent : ∀ request ∈ l, request.node ≠ it) : eraseNode it l = l := by
  simpa [eraseNode] using absent

/-- What a grant leaves of a list of requests. -/
theorem mem_grant {a : LockRequest} (member : a ∈ grant it l) :
    a ∈ l ∨ ∃ b ∈ l, b.node = it ∧ a = { b with granted := true } := by
  obtain ⟨b, old, rfl⟩ := List.mem_map.mp member
  split
  · next here => exact .inr ⟨b, old, here, rfl⟩
  · exact .inl old

/-- A grant takes no grant away. -/
theorem grant_keeps {a : LockRequest} (member : a ∈ l) (granted : a.granted) : a ∈ grant it l := by
  refine List.mem_map.mpr ⟨a, member, ?_⟩
  split
  · rw [← granted]
  · rfl

theorem granted_mem {a : LockRequest} (member : a ∈ l) : { a with granted := true } ∈ grant a.node l :=
  List.mem_map.mpr ⟨a, member, if_pos rfl⟩

end Lists

variable {s : LockManager} {t t' : TxnId} {rid rid' : Rid}

/-- What a transaction has in the queue of a row. -/
def requestsOf (s : LockManager) (t : TxnId) (rid : Rid) : List LockRequest :=
  ofTxn t (s.lockTable rid).requestQueue

section Fields

@[simp] theorem requestsOf_setTxn {txn : Transaction} : (s.setTxn t txn).requestsOf t' rid = s.requestsOf t' rid := rfl

@[simp] theorem waits_setTxn {txn : Transaction} : (s.setTxn t txn).waits = s.waits := rfl

@[simp] theorem txns_setTxn {txn : Transaction} : (s.setTxn t txn).txns = Function.update s.txns t txn := rfl

@[simp] theorem lockTable_setTxn {txn : Transaction} : (s.setTxn t txn).lockTable = s.lockTable := rfl

@[simp] theorem nextNode_setTxn {txn : Transaction} : (s.setTxn t txn).nextNode = s.nextNode := rfl

@[simp] theorem requestsOf_setWait {wait : Option Wait} :
    (s.setWait t wait).requestsOf t' rid = s.requestsOf t' rid := rfl

@[simp] theorem waits_setWait {wait : Option Wait} : (s.setWait t wait).waits = Function.update s.waits t wait := rfl

@[simp] theorem txns_setWait {wait : Option Wait} : (s.setWait t wait).txns = s.txns := rfl

@[simp] theorem lockTable_setWait {wait : Option Wait} : (s.setWait t wait).lockTable = s.lockTable := rfl

@[simp] theorem nextNode_setWait {wait : Option Wait} : (s.setWait t wait).nextNode = s.nextNode := rfl

variable {change : List LockRequest → List LockRequest} {upgrading : Bool}

@[simp] theorem txns_modifyRequests : (s.modifyRequests rid change).txns = s.txns := rfl

@[simp] theorem waits_modifyRequests : (s.modifyRequests rid change).waits = s.waits := rfl

@[simp] theorem nextNode_modifyRequests : (s.modifyRequests rid change).nextNode = s.nextNode := rfl

theorem requestQueue_modifyRequests : ((s.modifyRequests rid change).lockTable rid').requestQueue =
    if rid' = rid then change (s.lockTable rid).requestQueue else (s.lockTable rid').requestQueue := by
  by_cases same : rid' = rid <;> simp [modifyRequests, setQueue, same]

@[simp] theorem upgrading_modifyRequests :
    ((s.modifyRequests rid change).lockTable rid').upgrading = (s.lockTable rid').upgrading := by
  by_cases same : rid' = rid <;> simp [modifyRequests, setQueue, same]

/-- A change of one queue that shows in the requests of one transaction only. -/
theorem requestsOf_modifyRequests {own : List LockRequest}
    (mine : ofTxn t (change (s.lockTable rid).requestQueue) = own)
    (others : ∀ t' ≠ t, ofTxn t' (change (s.lockTable rid).requestQueue) = s.requestsOf t' rid) (t' : TxnId)
    (rid' : Rid) : (s.modifyRequests rid change).requestsOf t' rid' =
      if t' = t ∧ rid' = rid then own else s.requestsOf t' rid' := by
  rw [requestsOf, requestQueue_modifyRequests]
  by_cases row : rid' = rid
  · rw [if_pos row, row]
    by_cases self : t' = t
    · rw [if_pos ⟨self, rfl⟩, self]
      exact mine
    · rw [if_neg fun both => self both.1]
      exact others t' self
  · rw [if_neg row, if_neg fun both => row both.2]
    rfl

@[simp] theorem txns_setUpgrading : (s.setUpgrading rid upgrading).txns = s.txns := rfl

@[simp] theorem waits_setUpgrading : (s.setUpgrading rid upgrading).waits = s.waits := rfl

@[simp] theorem nextNode_setUpgrading : (s.setUpgrading rid upgrading).nextNode = s.nextNode := rfl

@[simp] theorem requestQueue_setUpgrading :
    ((s.setUpgrading rid upgrading).lockTable rid').requestQueue = (s.lockTable rid').requestQueue := by
  by_cases same : rid' = rid <;> simp [setUpgrading, setQueue, same]

@[simp] theorem requestsOf_setUpgrading :
    (s.setUpgrading rid upgrading).requestsOf t rid' = s.requestsOf t rid' := by
  simp [requestsOf]

theorem upgrading_setUpgrading : ((s.setUpgrading rid upgrading).lockTable rid').upgrading =
    if rid' = rid then upgrading else (s.lockTable rid').upgrading := by
  by_cases same : rid' = rid <;> simp [setUpgrading, setQueue, same]

theorem setUpgrading_self (same : (s.lockTable rid).upgrading = upgrading) : s.setUpgrading rid upgrading = s := by
  rw [setUpgrading, ← same]
  simp only [setQueue, Function.update_eq_self]

end Fields

/-- The mode a waiting request has. -/
def callMode : LockCall → LockMode
  | .lockShared => .shared
  | .lockExclusive => .exclusive
  | .lockUpgrade => .exclusive

/-- Nodes are told apart, and the iterator of a waiting transaction leads to an ungranted request of it. -/
structure Linked (s : LockManager) : Prop where
  fresh : ∀ rid, ∀ request ∈ (s.lockTable rid).requestQueue, request.node < s.nextNode
  distinct : ∀ rid, ∀ a ∈ (s.lockTable rid).requestQueue, ∀ b ∈ (s.lockTable rid).requestQueue,
    a.node = b.node → a = b
  held : ∀ t wait, s.waits t = some wait → ∃ request ∈ s.requestsOf t wait.rid,
    request.node = wait.it ∧ request.granted = false ∧ request.lockMode = callMode wait.call

namespace Linked

variable {request : LockRequest} {f : LockRequest → LockRequest}

/-- No request of another transaction lies in the node of one's own. -/
theorem foreign (linked : Linked s) (mine : request ∈ s.requestsOf t rid) (other : t' ≠ t) :
    ∀ a ∈ s.requestsOf t' rid, a.node ≠ request.node := by
  intro a member same
  obtain ⟨memberA, ownerA⟩ := mem_ofTxn.mp member
  obtain ⟨memberB, ownerB⟩ := mem_ofTxn.mp mine
  have := linked.distinct rid a memberA request memberB same
  exact other (ownerA ▸ this ▸ ownerB)

/-- Working through one's own iterator. -/
theorem requestsOf_atNode (linked : Linked s) (mine : request ∈ s.requestsOf t rid)
    (keeps : ∀ request, (f request).txnId = request.txnId) (t' : TxnId) (rid' : Rid) :
    (s.modifyRequests rid (atNode request.node f)).requestsOf t' rid' =
      if t' = t ∧ rid' = rid then atNode request.node f (s.requestsOf t rid) else s.requestsOf t' rid' :=
  requestsOf_modifyRequests (ofTxn_atNode keeps)
    (fun _ other => (ofTxn_atNode keeps).trans (atNode_of_forall_ne (linked.foreign mine other))) t' rid'

/-- Erasing through one's own iterator. -/
theorem requestsOf_eraseNode (linked : Linked s) (mine : request ∈ s.requestsOf t rid) (t' : TxnId) (rid' : Rid) :
    (s.modifyRequests rid (eraseNode request.node)).requestsOf t' rid' =
      if t' = t ∧ rid' = rid then eraseNode request.node (s.requestsOf t rid) else s.requestsOf t' rid' :=
  requestsOf_modifyRequests ofTxn_eraseNode
    (fun _ other => ofTxn_eraseNode.trans (eraseNode_of_forall_ne (linked.foreign mine other))) t' rid'

end Linked

theorem lockTable_enqueue (s : LockManager) (t : TxnId) (rid : Rid) (call : LockCall) (lockMode : LockMode) :
    (s.enqueue t rid call lockMode).lockTable =
      (s.modifyRequests rid (· ++ [⟨s.nextNode, t, lockMode, false⟩])).lockTable := rfl

theorem waits_enqueue (s : LockManager) (t : TxnId) (rid : Rid) (call : LockCall) (lockMode : LockMode) :
    (s.enqueue t rid call lockMode).waits t = some ⟨call, rid, s.nextNode⟩ := Function.update_self ..

theorem requestsOf_enqueue (s : LockManager) (t : TxnId) (rid : Rid) (call : LockCall) (lockMode : LockMode)
    (t' : TxnId) (rid' : Rid) : (s.enqueue t rid call lockMode).requestsOf t' rid' =
      if t' = t ∧ rid' = rid then s.requestsOf t rid ++ [⟨s.nextNode, t, lockMode, false⟩]
      else s.requestsOf t' rid' := by
  rw [requestsOf, lockTable_enqueue]
  apply requestsOf_modifyRequests
  · rw [ofTxn_append, if_pos rfl]
    rfl
  · intro other different
    rw [ofTxn_append, if_neg (Ne.symm different)]
    rfl

theorem requestsOf_unlockRequest (s : LockManager) (t : TxnId) (rid : Rid) (t' : TxnId) (rid' : Rid) :
    (s.unlockRequest t rid).requestsOf t' rid' =
      if t' = t ∧ rid' = rid then (s.requestsOf t rid).tail else s.requestsOf t' rid' := by
  have erased : (s.unlockRequest t rid).requestsOf t' rid' =
      (s.modifyRequests rid (List.eraseP (·.txnId = t))).requestsOf t' rid' := by
    rw [unlockRequest]
    split <;> rfl
  rw [erased]
  exact requestsOf_modifyRequests ofTxn_eraseP_self (fun _ other => ofTxn_eraseP_of_ne other) t' rid'

namespace Linked

theorem setTxn (linked : Linked s) (t : TxnId) (txn : Transaction) : Linked (s.setTxn t txn) :=
  ⟨linked.fresh, linked.distinct, linked.held⟩

theorem setUpgrading (linked : Linked s) (rid : Rid) (upgrading : Bool) : Linked (s.setUpgrading rid upgrading) := by
  constructor
  · simpa using linked.fresh
  · simpa using linked.distinct
  · simpa using linked.held

/-- The end of a wait. -/
theorem setWait_none (linked : Linked s) (t : TxnId) : Linked (s.setWait t none) := by
  refine ⟨linked.fresh, linked.distinct, fun t' wait waiting => ?_⟩
  by_cases self : t' = t
  · simp [self] at waiting
  · rw [waits_setWait, Function.update_of_ne self] at waiting
    exact linked.held t' wait waiting

/-- A change of one queue that adds no node, keeps nodes apart and leaves waiting requests alone. -/
theorem modifyRequests {change : List LockRequest → List LockRequest} (linked : Linked s)
    (old : ∀ a ∈ change (s.lockTable rid).requestQueue, ∃ b ∈ (s.lockTable rid).requestQueue, a.node = b.node)
    (apart : ∀ a ∈ change (s.lockTable rid).requestQueue, ∀ b ∈ change (s.lockTable rid).requestQueue,
      a.node = b.node → a = b)
    (mine : ∀ t' ≠ t, (s.modifyRequests rid change).requestsOf t' rid = s.requestsOf t' rid)
    (idle : s.waits t = none) : Linked (s.modifyRequests rid change) := by
  constructor
  · intro rid' request member
    rw [requestQueue_modifyRequests] at member
    split at member
    · obtain ⟨b, memberB, same⟩ := old request member
      exact same ▸ linked.fresh rid b memberB
    · exact linked.fresh rid' request member
  · intro rid' a memberA b memberB
    rw [requestQueue_modifyRequests] at memberA memberB
    split at memberA
    · next row =>
      rw [if_pos row] at memberB
      exact apart a memberA b memberB
    · next row =>
      rw [if_neg row] at memberB
      exact linked.distinct rid' a memberA b memberB
  · intro t' wait waiting
    have other : t' ≠ t := fun self => by simp [self, idle] at waiting
    by_cases row : wait.rid = rid
    · rw [row, mine t' other, ← row]
      exact linked.held t' wait waiting
    · have same : (s.modifyRequests rid change).requestsOf t' wait.rid = s.requestsOf t' wait.rid := by
        rw [requestsOf, requestQueue_modifyRequests, if_neg row]
        rfl
      rw [same]
      exact linked.held t' wait waiting

theorem atNode {request : LockRequest} {f : LockRequest → LockRequest} (linked : Linked s)
    (idle : s.waits t = none) (mine : request ∈ s.requestsOf t rid)
    (keeps : ∀ request, (f request).txnId = request.txnId ∧ (f request).node = request.node) :
    Linked (s.modifyRequests rid (LockManager.atNode request.node f)) := by
  have node (a : LockRequest) : (if a.node = request.node then f a else a).node = a.node := by
    split
    · exact (keeps a).2
    · rfl
  refine linked.modifyRequests (t := t) ?_ ?_ (fun t' other => ?_) idle
  · intro a member
    obtain ⟨b, memberB, rfl⟩ := List.mem_map.mp member
    exact ⟨b, memberB, node b⟩
  · intro a memberA b memberB same
    obtain ⟨a, oldA, rfl⟩ := List.mem_map.mp memberA
    obtain ⟨b, oldB, rfl⟩ := List.mem_map.mp memberB
    rw [node, node] at same
    rw [linked.distinct rid a oldA b oldB same]
  · rw [linked.requestsOf_atNode mine (fun request => (keeps request).1), if_neg fun both => other both.1]

theorem eraseNode {request : LockRequest} (linked : Linked s) (idle : s.waits t = none)
    (mine : request ∈ s.requestsOf t rid) :
    Linked (s.modifyRequests rid (LockManager.eraseNode request.node)) := by
  refine linked.modifyRequests (t := t) ?_ ?_ (fun t' other => ?_) idle
  · exact fun a member => ⟨a, List.mem_of_mem_filter member, rfl⟩
  · exact fun a memberA b memberB =>
      linked.distinct rid a (List.mem_of_mem_filter memberA) b (List.mem_of_mem_filter memberB)
  · rw [linked.requestsOf_eraseNode mine, if_neg fun both => other both.1]

theorem unlockRequest (linked : Linked s) (idle : s.waits t = none) (rid : Rid) :
    Linked (s.unlockRequest t rid) := by
  have erased : Linked (s.modifyRequests rid (List.eraseP (·.txnId = t))) := by
    refine linked.modifyRequests (t := t) ?_ ?_ (fun t' other => ?_) idle
    · exact fun a member => ⟨a, List.mem_of_mem_eraseP member, rfl⟩
    · exact fun a memberA b memberB =>
        linked.distinct rid a (List.mem_of_mem_eraseP memberA) b (List.mem_of_mem_eraseP memberB)
    · rw [requestsOf_modifyRequests ofTxn_eraseP_self (fun _ other => ofTxn_eraseP_of_ne other),
        if_neg fun both => other both.1]
  rw [LockManager.unlockRequest]
  split
  · exact erased.setTxn t _
  · exact erased

theorem enqueue (linked : Linked s) (t : TxnId) (rid : Rid) (call : LockCall) :
    Linked (s.enqueue t rid call (callMode call)) := by
  have queue (rid' : Rid) : ((s.enqueue t rid call (callMode call)).lockTable rid').requestQueue =
      if rid' = rid then (s.lockTable rid).requestQueue ++ [⟨s.nextNode, t, callMode call, false⟩]
      else (s.lockTable rid').requestQueue := by
    rw [lockTable_enqueue, requestQueue_modifyRequests]
  have old (rid' : Rid) (a : LockRequest)
      (member : a ∈ ((s.enqueue t rid call (callMode call)).lockTable rid').requestQueue) :
      a ∈ (s.lockTable rid').requestQueue ∨
        (a.node = s.nextNode ∧ a = ⟨s.nextNode, t, callMode call, false⟩) := by
    rw [queue] at member
    split at member
    · next row =>
      rcases List.mem_append.mp member with there | pushed
      · exact .inl (row ▸ there)
      · rw [List.mem_singleton] at pushed
        exact .inr ⟨pushed ▸ rfl, pushed⟩
    · exact .inl member
  constructor
  · intro rid' a member
    change a.node < s.nextNode + 1
    rcases old rid' a member with there | ⟨new, -⟩
    · exact Nat.lt_succ_of_lt (linked.fresh rid' a there)
    · omega
  · intro rid' a memberA b memberB same
    rcases old rid' a memberA with thereA | ⟨newA, isA⟩ <;> rcases old rid' b memberB with thereB | ⟨newB, isB⟩
    · exact linked.distinct rid' a thereA b thereB same
    · have := linked.fresh rid' a thereA
      omega
    · have := linked.fresh rid' b thereB
      omega
    · rw [isA, isB]
  · intro t' wait waiting
    change Function.update s.waits t _ t' = some wait at waiting
    rw [requestsOf_enqueue]
    by_cases self : t' = t
    · rw [self, Function.update_self, Option.some.injEq] at waiting
      subst waiting
      rw [if_pos ⟨self, rfl⟩]
      exact ⟨⟨s.nextNode, t, callMode call, false⟩, by simp, rfl, rfl, rfl⟩
    · rw [Function.update_of_ne self] at waiting
      rw [if_neg fun both => self both.1]
      exact linked.held t' wait waiting

theorem requestsOf_startUpgrade {request : LockRequest} (linked : Linked s) (mine : request ∈ s.requestsOf t rid)
    (t' : TxnId) (rid' : Rid) : (s.startUpgrade t rid request.node).requestsOf t' rid' =
      if t' = t ∧ rid' = rid then ungrant request.node (s.requestsOf t rid) else s.requestsOf t' rid' := by
  have effect := (linked.setUpgrading rid true).requestsOf_atNode (by rwa [requestsOf_setUpgrading])
    (f := fun request => { request with lockMode := .exclusive, granted := false }) (fun _ => rfl) t' rid'
  rwa [requestsOf_setUpgrading, requestsOf_setUpgrading] at effect

theorem startUpgrade {request : LockRequest} (linked : Linked s) (idle : s.waits t = none)
    (mine : request ∈ s.requestsOf t rid) : Linked (s.startUpgrade t rid request.node) := by
  have mine' : request ∈ (s.setUpgrading rid true).requestsOf t rid := by rwa [requestsOf_setUpgrading]
  have linked' := (linked.setUpgrading rid true).atNode idle mine'
    (f := fun request => { request with lockMode := .exclusive, granted := false }) fun _ => ⟨rfl, rfl⟩
  refine ⟨linked'.fresh, linked'.distinct, fun t' wait waiting => ?_⟩
  change Function.update s.waits t _ t' = some wait at waiting
  by_cases self : t' = t
  · rw [self, Function.update_self, Option.some.injEq] at waiting
    subst waiting self
    refine ⟨{ request with lockMode := .exclusive, granted := false }, ?_, rfl, rfl, rfl⟩
    obtain ⟨member, owner⟩ := mem_ofTxn.mp mine'
    refine mem_ofTxn.mpr ⟨?_, owner⟩
    rw [LockManager.startUpgrade, lockTable_setWait, requestQueue_modifyRequests, if_pos rfl]
    exact List.mem_map.mpr ⟨request, member, if_pos rfl⟩
  · rw [Function.update_of_ne self] at waiting
    exact linked'.held t' wait waiting

/-- The grant at the end of a wait. -/
theorem requestsOf_grant {wait : Wait} (linked : Linked s) (waiting : s.waits t = some wait) (t' : TxnId)
    (rid' : Rid) : (s.modifyRequests wait.rid (grant wait.it)).requestsOf t' rid' =
      if t' = t ∧ rid' = wait.rid then grant wait.it (s.requestsOf t wait.rid) else s.requestsOf t' rid' := by
  obtain ⟨request, mine, node, -, -⟩ := linked.held t wait waiting
  rw [← node]
  exact linked.requestsOf_atNode mine (f := fun request => { request with granted := true }) (fun _ => rfl) t' rid'

theorem requestsOf_erase {wait : Wait} (linked : Linked s) (waiting : s.waits t = some wait) (t' : TxnId)
    (rid' : Rid) : (s.modifyRequests wait.rid (LockManager.eraseNode wait.it)).requestsOf t' rid' =
      if t' = t ∧ rid' = wait.rid then LockManager.eraseNode wait.it (s.requestsOf t wait.rid)
      else s.requestsOf t' rid' := by
  obtain ⟨request, mine, node, -, -⟩ := linked.held t wait waiting
  rw [← node]
  exact linked.requestsOf_eraseNode mine t' rid'

/-- A call that goes on from its wait. -/
theorem goOn {wait : Wait} (linked : Linked s) (waiting : s.waits t = some wait) :
    Linked ((s.setWait t none).goOn t wait).1 := by
  obtain ⟨request, mine, node, -, -⟩ := linked.held t wait waiting
  have idle : (s.setWait t none).waits t = none := by simp
  have linked := linked.setWait_none t
  have granted (upgrading : Bool) :
      Linked (((s.setWait t none).setUpgrading wait.rid upgrading).modifyRequests wait.rid (grant wait.it)) := by
    rw [← node]
    exact (linked.setUpgrading wait.rid upgrading).atNode idle (by rwa [requestsOf_setUpgrading]) fun _ =>
      ⟨rfl, rfl⟩
  have granted' : Linked ((s.setWait t none).modifyRequests wait.rid (grant wait.it)) := by
    rw [← node]
    exact linked.atNode idle mine fun _ => ⟨rfl, rfl⟩
  have erased : Linked ((s.setWait t none).modifyRequests wait.rid (LockManager.eraseNode wait.it)) := by
    rw [← node]
    exact linked.eraseNode idle mine
  rw [LockManager.goOn]
  cases wait.call with
  | lockShared =>
    dsimp only
    split
    · exact erased
    · exact granted'.setTxn t _
  | lockExclusive =>
    dsimp only
    split
    · exact erased
    · exact granted'.setTxn t _
  | lockUpgrade =>
    dsimp only
    split
    · exact linked.setUpgrading wait.rid false
    · exact ((granted false).setTxn t _).setTxn t _

theorem unlock (linked : Linked s) (idle : s.waits t = none) (rid : Rid) : Linked (s.unlock t rid).1 :=
  ((linked.unlockRequest idle rid).setTxn t _).setTxn t _

end Linked

section Unlock

theorem requestsOf_unlock (s : LockManager) (t : TxnId) (rid : Rid) (t' : TxnId) (rid' : Rid) :
    (s.unlock t rid).1.requestsOf t' rid' =
      if t' = t ∧ rid' = rid then (s.requestsOf t rid).tail else s.requestsOf t' rid' :=
  s.requestsOf_unlockRequest t rid t' rid'

theorem waits_unlock (s : LockManager) (t : TxnId) (rid : Rid) : (s.unlock t rid).1.waits = s.waits := by
  rw [unlock, unlockRequest]
  split <;> rfl

theorem upgrading_unlock (s : LockManager) (t : TxnId) (rid rid' : Rid) :
    ((s.unlock t rid).1.lockTable rid').upgrading = (s.lockTable rid').upgrading := by
  rw [unlock, unlockRequest]
  split <;> exact upgrading_modifyRequests

theorem txns_unlock_of_ne (s : LockManager) (rid : Rid) (other : t' ≠ t) :
    (s.unlock t rid).1.txns t' = s.txns t' := by
  simp only [unlock, unlockRequest]
  split <;> simp [eraseExclusive, eraseShared, setState, other]

theorem sharedLockSet_unlock (s : LockManager) (t : TxnId) (rid : Rid) :
    ((s.unlock t rid).1.txns t).sharedLockSet = (s.txns t).sharedLockSet.filter (· ≠ rid) := by
  simp only [unlock, unlockRequest]
  split <;> simp [eraseExclusive, eraseShared, setState]

theorem exclusiveLockSet_unlock (s : LockManager) (t : TxnId) (rid : Rid) :
    ((s.unlock t rid).1.txns t).exclusiveLockSet = (s.txns t).exclusiveLockSet.filter (· ≠ rid) := by
  simp only [unlock, unlockRequest]
  split <;> simp [eraseExclusive, eraseShared, setState]

end Unlock

section Cases

/-- The predicate of the waits for an exclusive lock. -/
theorem mayGoOn_exclusive {wait : Wait} (alive : (s.txns t).state ≠ .aborted) (call : wait.call ≠ .lockShared) :
    s.mayGoOn t wait ↔ ∀ t' ≠ t, ∀ a ∈ s.requestsOf t' wait.rid, a.granted = false := by
  have test : s.mayGoOn t wait ↔ ∀ a ∈ (s.lockTable wait.rid).requestQueue, a.granted → a.txnId = t := by
    simp only [mayGoOn, alive, decide_false, Bool.false_or, List.all_eq_true]
    cases held : wait.call with
    | lockShared => exact absurd held call
    | lockExclusive => simp [or_iff_not_imp_left]
    | lockUpgrade => simp [or_iff_not_imp_left]
  rw [test]
  constructor
  · intro others t' other a member
    by_contra granted
    obtain ⟨member, owner⟩ := mem_ofTxn.mp member
    exact other (owner ▸ others a member (by simpa using granted))
  · intro others a member granted
    by_contra other
    simp [others a.txnId other a (mem_ofTxn.mpr ⟨member, rfl⟩)] at granted

/-- The grant condition of an exclusive lock, in the state before the call. -/
def OthersUngranted (s : LockManager) (t : TxnId) (rid : Rid) : Prop :=
  ∀ request ∈ (s.lockTable rid).requestQueue, request.granted → request.txnId = t

instance : Decidable (s.OthersUngranted t rid) := inferInstanceAs (Decidable (∀ request ∈ _, _))

theorem othersUngranted_of_mayGoOn {wait : Wait} (alive : (s.txns t).state ≠ .aborted)
    (call : wait.call = .lockExclusive) (may : s.mayGoOn t wait) : s.OthersUngranted t wait.rid := by
  rw [mayGoOn_exclusive alive (by simp [call])] at may
  intro request member granted
  by_contra other
  simp [may request.txnId other request (mem_ofTxn.mpr ⟨member, rfl⟩)] at granted

/-- Everything a blocked call can do. -/
theorem wake_cases (s : LockManager) (t : TxnId) :
    ((s.wake t).1 = s ∧ ∀ wait, s.waits t = some wait → s.mayGoOn t wait = false) ∨
    ∃ wait, s.waits t = some wait ∧ s.mayGoOn t wait ∧ (s.wake t).1 = ((s.setWait t none).goOn t wait).1 := by
  rw [wake]
  split
  · next idle => exact .inl ⟨rfl, by simp [idle]⟩
  · next wait waiting =>
    split
    · next may => exact .inr ⟨wait, waiting, may, rfl⟩
    · next blocked => exact .inl ⟨rfl, by simpa [waiting] using blocked⟩

/-- Everything `LockShared` can do. -/
theorem lockShared_cases (s : LockManager) (t : TxnId) (rid : Rid) : (s.lockShared t rid).1 = s ∨
    (s.lockShared t rid).1 = s.setState t .aborted ∨
    ((s.txns t).state ≠ .aborted ∧ rid ∉ (s.txns t).sharedLockSet ∧ rid ∉ (s.txns t).exclusiveLockSet ∧
      (s.lockShared t rid).1 = ((s.enqueue t rid .lockShared .shared).wake t).1) := by
  rw [lockShared]
  split
  · exact .inr (.inl rfl)
  · split
    · exact .inl rfl
    · next alive =>
      split
      · exact .inl rfl
      · next new =>
        rw [not_or] at new
        exact .inr (.inr ⟨alive, new.1, new.2, rfl⟩)

/-- Everything `LockExclusive` can do. -/
theorem lockExclusive_cases (s : LockManager) (t : TxnId) (rid : Rid) : (s.lockExclusive t rid).1 = s ∨
    (s.lockExclusive t rid).1 = s.setState t .aborted ∨
    ((s.txns t).state ≠ .shrinking ∧ (s.txns t).state ≠ .aborted ∧ rid ∉ (s.txns t).exclusiveLockSet ∧
      (s.lockExclusive t rid).1 = ((s.enqueue t rid .lockExclusive .exclusive).wake t).1) := by
  rw [lockExclusive]
  split
  · exact .inr (.inl rfl)
  · next growing =>
    split
    · exact .inl rfl
    · next alive =>
      split
      · exact .inl rfl
      · next new => exact .inr (.inr ⟨growing, alive, new, rfl⟩)

/-- Everything `LockUpgrade` can do. -/
theorem lockUpgrade_cases (s : LockManager) (t : TxnId) (rid : Rid) :
    (s.lockUpgrade t rid).1 = s.setState t .aborted ∨ (s.lockUpgrade t rid).1 = s ∨
    ∃ request ∈ s.requestsOf t rid, request.granted ∧ (s.txns t).state ≠ .aborted ∧
      (s.lockTable rid).upgrading = false ∧
      (s.lockUpgrade t rid).1 = ((s.startUpgrade t rid request.node).wake t).1 := by
  rw [lockUpgrade]
  split
  · exact .inl rfl
  · split
    · exact .inr (.inl rfl)
    · next alive =>
      split
      · exact .inl rfl
      · next free =>
        rw [Bool.not_eq_true] at free
        split
        · exact .inr (.inl (setUpgrading_self free))
        · next request found =>
          have member := List.mem_of_find?_eq_some found
          have test := List.find?_some found
          rw [Bool.and_eq_true, decide_eq_true_eq] at test
          exact .inr (.inr ⟨request, mem_ofTxn.mpr ⟨member, test.1⟩, test.2, alive, free, rfl⟩)

/-- What the loops of `Commit` and `Abort` keep. -/
theorem release_keeps {I : LockManager → Prop} {state : TransactionState}
    (setState : I s → I (s.setState t state))
    (unlock : ∀ s rid, s.waits t = none → I s → I (s.unlock t rid).1)
    (clears : ∀ s, s.waits t = none → I s → I (s.clearLockSets t)) (idle : s.waits t = none) (holds : I s)
    (visited : List Rid) : I (s.release t state visited) := by
  have walked (s : LockManager) (idle : s.waits t = none) (holds : I s) :
      (visited.foldl (fun s rid => (s.unlock t rid).1) s).waits t = none ∧
        I (visited.foldl (fun s rid => (s.unlock t rid).1) s) := by
    induction visited generalizing s with
    | nil => exact ⟨idle, holds⟩
    | cons rid rest ih =>
      have idle' : (s.unlock t rid).1.waits t = none := by rw [waits_unlock, idle]
      exact ih _ idle' (unlock s rid idle holds)
  obtain ⟨idle', holds'⟩ := walked (s.setState t state) idle (setState holds)
  exact clears _ idle' holds'

end Cases

/-- No transaction has locked anything. -/
def initial : LockManager := {}

theorem linked_initial : Linked initial := by
  constructor <;> simp [initial]

/-- The row of the sample runs. -/
def row : Rid := ⟨0, 0⟩

end OneBase.LockManager
