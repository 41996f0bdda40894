import OneBase.Proofs.Concurrency.Requests
import OneBase.ToMathlib.Traces

/-! # Lock compatibility

A row in an exclusive lock set is backed by a granted exclusive request, and next to one of those no
other transaction has a granted request. A row in a shared lock set is backed by a granted request
too, except while its transaction waits to upgrade: `LockUpgrade` takes the grant back before it waits.
`LockUpgrade` itself respects that, since one transaction upgrades at a time; `LockExclusive` does not
look at `upgrading_` and may pass the waiting transaction by.
-/

namespace OneBase.LockManager

open Traces

variable {s : LockManager} {t : TxnId} {rid : Rid}

/-- The transaction waits in `LockUpgrade` for the row. -/
def Upgrades (s : LockManager) (t : TxnId) (rid : Rid) : Prop := ∃ it, s.waits t = some ⟨.lockUpgrade, rid, it⟩

/-- What keeps the lock sets compatible. The grant behind an exclusive lock may be missing where `exempt`. -/
structure CompatibleExcept (s : LockManager) (exempt : TxnId → Rid → Prop) : Prop extends Linked s where
  sole : ∀ t rid, ∀ a ∈ s.requestsOf t rid, a.granted → a.lockMode = .exclusive →
    ∀ t' ≠ t, ∀ b ∈ s.requestsOf t' rid, b.granted = false
  exclusive : ∀ t rid, ¬ exempt t rid → rid ∈ (s.txns t).exclusiveLockSet →
    ∃ a ∈ s.requestsOf t rid, a.granted ∧ a.lockMode = .exclusive
  shared : ∀ t rid, rid ∈ (s.txns t).sharedLockSet → (∃ a ∈ s.requestsOf t rid, a.granted) ∨
    s.Upgrades t rid
  flagged : ∀ t rid, s.Upgrades t rid → (s.lockTable rid).upgrading
  single : ∀ t rid, s.Upgrades t rid → ∀ t', s.Upgrades t' rid → t' = t
  alone : ∀ t rid, rid ∈ (s.txns t).exclusiveLockSet → ∀ t', s.Upgrades t' rid → t' = t
  awake : ∀ t, s.waits t ≠ none → (s.txns t).state ≠ .aborted

abbrev Compatible (s : LockManager) : Prop := CompatibleExcept s fun _ _ => False

/-- A row in the exclusive lock set of a transaction is in no lock set of another one. -/
theorem CompatibleExcept.locks (compatible : Compatible s) {t' : TxnId} (other : t' ≠ t)
    (locked : rid ∈ (s.txns t).exclusiveLockSet) :
    rid ∉ (s.txns t').sharedLockSet ∧ rid ∉ (s.txns t').exclusiveLockSet := by
  obtain ⟨a, mine, granted, mode⟩ := compatible.exclusive t rid not_false locked
  have ungranted := compatible.sole t rid a mine granted mode t' other
  constructor
  · intro shared
    rcases compatible.shared t' rid shared with ⟨b, theirs, granted'⟩ | upgrades
    · simp [ungranted b theirs] at granted'
    · exact other (compatible.alone t rid locked t' upgrades)
  · intro locked'
    obtain ⟨b, theirs, granted', -⟩ := compatible.exclusive t' rid not_false locked'
    simp [ungranted b theirs] at granted'

namespace CompatibleExcept

theorem enqueue (call : LockCall) (compatible : Compatible s) (idle : s.waits t = none)
    (alive : (s.txns t).state ≠ .aborted) (locks : call ≠ .lockUpgrade) (rid : Rid) :
    Compatible (s.enqueue t rid call (callMode call)) := by
  have requests := s.requestsOf_enqueue t rid call (callMode call)
  have txns (t' : TxnId) : (s.enqueue t rid call (callMode call)).txns t' = s.txns t' := rfl
  have waits (t' : TxnId) : (s.enqueue t rid call (callMode call)).waits t' =
      if t' = t then some ⟨call, rid, s.nextNode⟩ else s.waits t' := Function.update_apply ..
  have flags (rid' : Rid) :
      ((s.enqueue t rid call (callMode call)).lockTable rid').upgrading = (s.lockTable rid').upgrading := by
    rw [lockTable_enqueue, upgrading_modifyRequests]
  obtain ⟨linked, sole, exclusive, shared, flagged, single, alone, awake⟩ := compatible
  have linked' := linked.enqueue t rid call
  generalize s.enqueue t rid call (callMode call) = s' at *
  have upgrades (t' : TxnId) (rid' : Rid) : s'.Upgrades t' rid' ↔ s.Upgrades t' rid' := by
    simp only [Upgrades, waits]
    grind
  constructor <;> grind

/-- The state in front of the wait of `LockUpgrade`; an exclusive lock upgraded once more lacks its grant. -/
theorem startUpgrade {request : LockRequest} (compatible : Compatible s) (idle : s.waits t = none)
    (alive : (s.txns t).state ≠ .aborted) (mine : request ∈ s.requestsOf t rid) (granted : request.granted)
    (free : (s.lockTable rid).upgrading = false) :
    CompatibleExcept (s.startUpgrade t rid request.node) fun t' rid' => t' = t ∧ rid' = rid := by
  have linked' := compatible.toLinked.startUpgrade idle mine
  have requests := compatible.toLinked.requestsOf_startUpgrade mine
  have txns (t' : TxnId) : (s.startUpgrade t rid request.node).txns t' = s.txns t' := rfl
  have waits (t' : TxnId) : (s.startUpgrade t rid request.node).waits t' =
      if t' = t then some ⟨.lockUpgrade, rid, request.node⟩ else s.waits t' := Function.update_apply ..
  have flags (rid' : Rid) : ((s.startUpgrade t rid request.node).lockTable rid').upgrading =
      if rid' = rid then true else (s.lockTable rid').upgrading := by
    rw [LockManager.startUpgrade, lockTable_setWait, upgrading_modifyRequests, upgrading_setUpgrading]
  have kept : ∀ a ∈ ungrant request.node (s.requestsOf t rid), a.granted → a ∈ s.requestsOf t rid := by
    intro a member
    obtain ⟨b, old, rfl⟩ := List.mem_map.mp member
    split
    · simp
    · exact fun _ => old
  obtain ⟨linked, sole, exclusive, shared, flagged, single, alone, awake⟩ := compatible
  generalize s.startUpgrade t rid request.node = s' at *
  have upgrades (t' : TxnId) (rid' : Rid) :
      s'.Upgrades t' rid' ↔ s.Upgrades t' rid' ∨ (t' = t ∧ rid' = rid) := by
    simp only [Upgrades, waits]
    grind
  constructor
  · exact linked'
  · grind
  · grind
  · grind
  · grind
  · grind
  · grind
  · grind

/-- `LockShared` goes on: no exclusive request is granted. -/
theorem goOn_lockShared {it : ℕ} (compatible : Compatible s) (waiting : s.waits t = some ⟨.lockShared, rid, it⟩)
    (may : s.mayGoOn t ⟨.lockShared, rid, it⟩) :
    Compatible ((s.setWait t none).goOn t ⟨.lockShared, rid, it⟩).1 := by
  have alive := compatible.awake t (by simp [waiting])
  have linked' := compatible.toLinked.goOn waiting
  obtain ⟨request, mine, node, -, mode⟩ := compatible.held t _ waiting
  have unique : ∀ b ∈ s.requestsOf t rid, b.node = it → b.lockMode = .shared := by
    intro b member here
    rw [compatible.distinct rid b (mem_ofTxn.mp member).1 request (mem_ofTxn.mp mine).1 (here.trans node.symm), mode]
    rfl
  simp only [LockManager.goOn, txns_setWait, alive, if_false] at linked' ⊢
  simp only [mayGoOn, alive, decide_false, Bool.false_or, List.all_eq_true] at may
  have blocked : ∀ t', ∀ a ∈ s.requestsOf t' rid, a.granted → a.lockMode ≠ .exclusive := by
    intro t' a member granted
    simpa [granted] using may a (mem_ofTxn.mp member).1
  have requests := compatible.toLinked.requestsOf_grant waiting
  have given : ∃ a ∈ grant it (s.requestsOf t rid), a.granted := ⟨_, node ▸ granted_mem mine, rfl⟩
  obtain ⟨linked, sole, exclusive, shared, flagged, single, alone, awake⟩ := compatible
  have state (t' : TxnId) (rid' : Rid) :
      (((s.setWait t none).modifyRequests rid (grant it)).insertShared t rid).requestsOf t' rid' =
      if t' = t ∧ rid' = rid then grant it (s.requestsOf t rid) else s.requestsOf t' rid' := requests t' rid'
  have txns (t' : TxnId) : (((s.setWait t none).modifyRequests rid (grant it)).insertShared t rid).txns t' =
      if t' = t then { s.txns t with sharedLockSet := (s.txns t).sharedLockSet.insert rid } else s.txns t' :=
    Function.update_apply ..
  have waits (t' : TxnId) : (((s.setWait t none).modifyRequests rid (grant it)).insertShared t rid).waits t' =
      if t' = t then none else s.waits t' := Function.update_apply ..
  have flags (rid' : Rid) : ((((s.setWait t none).modifyRequests rid (grant it)).insertShared t rid).lockTable
      rid').upgrading = (s.lockTable rid').upgrading := by
    rw [insertShared, lockTable_setTxn, upgrading_modifyRequests, lockTable_setWait]
  generalize ((s.setWait t none).modifyRequests rid (grant it)).insertShared t rid = s' at *
  have upgrades (t' : TxnId) (rid' : Rid) : s'.Upgrades t' rid' ↔ s.Upgrades t' rid' := by
    simp only [Upgrades, waits]
    grind
  constructor
  · exact linked'
  · grind [mem_grant]
  · grind [grant_keeps]
  · grind [grant_keeps]
  · grind
  · grind
  · grind
  · grind

/-- The transaction is given the row exclusively: no other transaction has a grant, or waits to upgrade. -/
theorem grantExclusive {s' : LockManager} {it : ℕ} {request : LockRequest}
    (compatible : CompatibleExcept s fun t' rid' => t' = t ∧ rid' = rid) (linked' : Linked s')
    (mine : request ∈ s.requestsOf t rid) (node : request.node = it) (mode : request.lockMode = .exclusive)
    (blocked : ∀ t' ≠ t, ∀ a ∈ s.requestsOf t' rid, a.granted = false)
    (ahead : ∀ t', s.Upgrades t' rid → t' = t)
    (requests : ∀ t' rid', s'.requestsOf t' rid' =
      if t' = t ∧ rid' = rid then grant it (s.requestsOf t rid) else s.requestsOf t' rid')
    (others : ∀ t' ≠ t, s'.txns t' = s.txns t')
    (shared' : ∀ rid' ∈ (s'.txns t).sharedLockSet, rid' ∈ (s.txns t).sharedLockSet ∧ ¬ s.Upgrades t rid')
    (exclusive' : ∀ rid' ∈ (s'.txns t).exclusiveLockSet, rid' = rid ∨ rid' ∈ (s.txns t).exclusiveLockSet)
    (waits : ∀ t', s'.waits t' = if t' = t then none else s.waits t')
    (flags : ∀ rid' ≠ rid, (s'.lockTable rid').upgrading = (s.lockTable rid').upgrading) : Compatible s' := by
  have given : ∃ a ∈ grant it (s.requestsOf t rid), a.granted ∧ a.lockMode = .exclusive :=
    ⟨{ request with granted := true }, node ▸ granted_mem mine, rfl, mode⟩
  obtain ⟨linked, sole, exclusive, shared, flagged, single, alone, awake⟩ := compatible
  have upgrades (t' : TxnId) (rid' : Rid) : s'.Upgrades t' rid' ↔ s.Upgrades t' rid' ∧ t' ≠ t := by
    simp only [Upgrades, waits]
    grind
  constructor
  · exact linked'
  · grind [mem_grant]
  · grind [grant_keeps]
  · grind [grant_keeps]
  · grind
  · grind
  · grind
  · grind

/-- `LockExclusive` goes on while nobody upgrades. -/
theorem goOn_lockExclusive {it : ℕ} (compatible : Compatible s)
    (waiting : s.waits t = some ⟨.lockExclusive, rid, it⟩)
    (may : s.mayGoOn t ⟨.lockExclusive, rid, it⟩) (free : (s.lockTable rid).upgrading = false) :
    Compatible ((s.setWait t none).goOn t ⟨.lockExclusive, rid, it⟩).1 := by
  have alive := compatible.awake t (by simp [waiting])
  have linked' := compatible.toLinked.goOn waiting
  obtain ⟨request, mine, node, -, mode⟩ := compatible.held t _ waiting
  have requests := compatible.toLinked.requestsOf_grant waiting
  rw [mayGoOn_exclusive alive (by simp)] at may
  simp only [LockManager.goOn, txns_setWait, alive, if_false] at linked' ⊢
  have weaker : CompatibleExcept s fun t' rid' => t' = t ∧ rid' = rid :=
    { compatible with exclusive := fun t' rid' _ => compatible.exclusive t' rid' not_false }
  refine weaker.grantExclusive linked' mine node mode may ?_ requests ?_ ?_ ?_ ?_ ?_
  · intro t' upgrades
    simp [compatible.flagged t' rid upgrades] at free
  · intro t' other
    exact Function.update_of_ne other ..
  · intro rid' member
    simp only [insertExclusive, txns_setTxn, Function.update_self] at member
    refine ⟨member, ?_⟩
    simp [Upgrades, waiting]
  · intro rid' member
    simpa [insertExclusive] using member
  · exact fun t' => Function.update_apply ..
  · intro rid' _
    rw [insertExclusive, lockTable_setTxn, upgrading_modifyRequests, lockTable_setWait]

/-- `LockUpgrade` goes on. -/
theorem goOn_lockUpgrade {it : ℕ} (compatible : CompatibleExcept s fun t' rid' => t' = t ∧ rid' = rid)
    (waiting : s.waits t = some ⟨.lockUpgrade, rid, it⟩) (may : s.mayGoOn t ⟨.lockUpgrade, rid, it⟩) :
    Compatible ((s.setWait t none).goOn t ⟨.lockUpgrade, rid, it⟩).1 := by
  have alive := compatible.awake t (by simp [waiting])
  have linked' := compatible.toLinked.goOn waiting
  obtain ⟨request, mine, node, -, mode⟩ := compatible.held t _ waiting
  have requests := (compatible.toLinked.setUpgrading rid false).requestsOf_grant waiting
  rw [mayGoOn_exclusive alive (by simp)] at may
  simp only [LockManager.goOn, txns_setWait, txns_setUpgrading, alive, if_false] at linked' ⊢
  simp only [requestsOf_setUpgrading] at requests
  refine compatible.grantExclusive linked' mine node mode may ?_ requests ?_ ?_ ?_ ?_ ?_
  · exact fun t' upgrades => compatible.single t rid ⟨it, waiting⟩ t' upgrades
  · intro t' other
    simp [insertExclusive, eraseShared, other]
  · intro rid' member
    simp [insertExclusive, eraseShared] at member
    refine ⟨member.1, ?_⟩
    simp [Upgrades, waiting, Ne.symm member.2]
  · intro rid' member
    simpa [insertExclusive, eraseShared] using member
  · exact fun t' => Function.update_apply ..
  · intro rid' other
    rw [insertExclusive, eraseShared, lockTable_setTxn, lockTable_setTxn, upgrading_modifyRequests,
      upgrading_setUpgrading, if_neg other, lockTable_setWait]

/-- A transaction outside a lock call changes its state or drops locks. -/
theorem setTxn {txn : Transaction} (compatible : Compatible s) (idle : s.waits t = none)
    (fewerShared : ∀ rid ∈ txn.sharedLockSet, rid ∈ (s.txns t).sharedLockSet)
    (fewerExclusive : ∀ rid ∈ txn.exclusiveLockSet, rid ∈ (s.txns t).exclusiveLockSet) :
    Compatible (s.setTxn t txn) := by
  have txns (t' : TxnId) : (s.setTxn t txn).txns t' = if t' = t then txn else s.txns t' := Function.update_apply ..
  have waits (t' : TxnId) : (s.setTxn t txn).waits t' = s.waits t' := rfl
  obtain ⟨linked, sole, exclusive, shared, flagged, single, alone, awake⟩ := compatible
  refine ⟨linked.setTxn t txn, sole, ?_, ?_, flagged, single, ?_, ?_⟩
  · intro t' rid' _ member
    exact exclusive t' rid' not_false (by grind)
  · intro t' rid' member
    exact shared t' rid' (by grind)
  · intro t' rid' member
    exact alone t' rid' (by grind)
  · grind

/-- Locks are given up with at most one request. -/
theorem unlock (compatible : Compatible s) (idle : s.waits t = none) (rid : Rid) : Compatible (s.unlock t rid).1 := by
  have linked' := compatible.toLinked.unlock idle rid
  have requests := s.requestsOf_unlock t rid
  have waits (t' : TxnId) : (s.unlock t rid).1.waits t' = s.waits t' := by rw [waits_unlock]
  have flags := s.upgrading_unlock t rid
  have others (t' : TxnId) (other : t' ≠ t) := s.txns_unlock_of_ne rid other
  have shared' := s.sharedLockSet_unlock t rid
  have exclusive' := s.exclusiveLockSet_unlock t rid
  obtain ⟨linked, sole, exclusive, shared, flagged, single, alone, awake⟩ := compatible
  generalize (s.unlock t rid).1 = s' at *
  have upgrades (t' : TxnId) (rid' : Rid) : s'.Upgrades t' rid' ↔ s.Upgrades t' rid' := by
    simp only [Upgrades, waits]
  constructor
  · exact linked'
  · grind [List.mem_of_mem_tail]
  · grind
  · grind
  · grind
  · grind
  · grind
  · grind

theorem setState {state : TransactionState} (compatible : Compatible s) (idle : s.waits t = none) :
    Compatible (s.setState t state) :=
  compatible.setTxn idle (fun _ => id) fun _ => id

theorem release {state : TransactionState} (compatible : Compatible s) (idle : s.waits t = none)
    (visited : List Rid) : Compatible (s.release t state visited) :=
  release_keeps (fun compatible => compatible.setState idle) (fun _ rid idle compatible => compatible.unlock idle rid)
    (fun _ idle compatible => compatible.setTxn idle (by simp) (by simp)) idle compatible visited

end CompatibleExcept

/-- `LockExclusive` is granted while another transaction waits to upgrade. -/
def Overtakes (s : LockManager) : Action → Prop
  | .lockExclusive t rid => (s.txns t).state ≠ .shrinking ∧ (s.txns t).state ≠ .aborted ∧
      rid ∉ (s.txns t).exclusiveLockSet ∧ s.OthersUngranted t rid ∧ (s.lockTable rid).upgrading
  | .wake t => ∃ wait ∈ s.waits t, wait.call = .lockExclusive ∧ s.OthersUngranted t wait.rid ∧
      (s.lockTable wait.rid).upgrading
  | _ => False

instance : (a : Action) → Decidable (s.Overtakes a)
  | .lockExclusive _ _ => inferInstanceAs (Decidable (_ ∧ _))
  | .wake t => inferInstanceAs (Decidable (∃ wait ∈ s.waits t, _))
  | .lockShared _ _ | .lockUpgrade _ _ | .unlock _ _ | .commit _ _ | .abort _ _ | .setAborted _ =>
    inferInstanceAs (Decidable False)

/-- The action is (part of) a call. -/
def Action.isCall : Action → Bool
  | .setAborted _ => false
  | _ => true

/-- The calls, each transaction issuing them one after another. -/
def Calls (s : LockManager) (a : Action) : Prop := s.Enabled a ∧ a.isCall

instance (a : Action) : Decidable (s.Calls a) := inferInstanceAs (Decidable (_ ∧ _))

section Step

open CompatibleExcept

/-- A call at its wait goes on without overtaking. -/
theorem CompatibleExcept.wake (compatible : Compatible s)
    (orderly : ∀ wait, s.waits t = some wait → wait.call = .lockExclusive → s.mayGoOn t wait →
      (s.lockTable wait.rid).upgrading = false) : Compatible (s.wake t).1 := by
  rcases s.wake_cases t with ⟨same, -⟩ | ⟨⟨call, rid, it⟩, waiting, may, went⟩
  · rwa [same]
  · rw [went]
    cases call with
    | lockShared => exact compatible.goOn_lockShared waiting may
    | lockExclusive => exact compatible.goOn_lockExclusive waiting may (orderly _ waiting rfl may)
    | lockUpgrade =>
      have weaker : CompatibleExcept s fun t' rid' => t' = t ∧ rid' = rid :=
        { compatible with exclusive := fun t' rid' _ => compatible.exclusive t' rid' not_false }
      exact weaker.goOn_lockUpgrade waiting may

/-- Upgrading a row: an exclusive lock is upgraded at once, a shared lock may have to wait. -/
theorem CompatibleExcept.lockUpgrade (compatible : Compatible s) (idle : s.waits t = none) (rid : Rid) :
    Compatible (s.lockUpgrade t rid).1 := by
  rcases s.lockUpgrade_cases t rid with aborted | same | ⟨request, mine, granted, alive, free, entered⟩
  · rw [aborted]
    exact compatible.setState idle
  · rwa [same]
  · rw [entered]
    have started := compatible.startUpgrade idle alive mine granted free
    have waiting : (s.startUpgrade t rid request.node).waits t = some ⟨.lockUpgrade, rid, request.node⟩ :=
      Function.update_self ..
    rcases (s.startUpgrade t rid request.node).wake_cases t with ⟨blocked, test⟩ | ⟨wait, waiting', may, went⟩
    · rw [blocked]
      refine { started with exclusive := fun t' rid' _ locked => ?_ }
      by_cases exempt : t' = t ∧ rid' = rid
      · -- with the row locked exclusively nobody else has a grant, and the call does not block
        obtain ⟨rfl, rfl⟩ := exempt
        obtain ⟨a, own, granted', mode⟩ := compatible.exclusive t' rid' not_false locked
        have others := compatible.sole t' rid' a own granted' mode
        have may : (s.startUpgrade t' rid' request.node).mayGoOn t' ⟨.lockUpgrade, rid', request.node⟩ := by
          refine (mayGoOn_exclusive (s := s.startUpgrade t' rid' request.node) alive (by simp)).mpr ?_
          intro t other
          rw [compatible.toLinked.requestsOf_startUpgrade mine, if_neg fun both => other both.1]
          exact others t other
        simp [test _ waiting] at may
      · exact started.exclusive t' rid' exempt locked
    · rw [waiting, Option.some.injEq] at waiting'
      subst waiting'
      rw [went]
      exact started.goOn_lockUpgrade waiting may

/-- One step that overtakes nobody. -/
theorem CompatibleExcept.step (compatible : Compatible s) {a : Action} (calls : s.Calls a)
    (orderly : ¬ s.Overtakes a) : Compatible (s.step a) := by
  obtain ⟨enabled, called⟩ := calls
  cases a with
  | lockShared t rid =>
    simp only [LockManager.step]
    rcases s.lockShared_cases t rid with same | aborted | ⟨alive, -, -, entered⟩
    · rwa [same]
    · rw [aborted]
      exact compatible.setState enabled
    · rw [entered]
      refine (compatible.enqueue .lockShared enabled alive (by simp) rid).wake fun wait waiting call => ?_
      rw [waits_enqueue, Option.some.injEq] at waiting
      subst waiting
      cases call
  | lockExclusive t rid =>
    simp only [LockManager.step]
    rcases s.lockExclusive_cases t rid with same | aborted | ⟨growing, alive, new, entered⟩
    · rwa [same]
    · rw [aborted]
      exact compatible.setState enabled
    · rw [entered]
      refine (compatible.enqueue .lockExclusive enabled alive (by simp) rid).wake fun wait waiting call may => ?_
      rw [waits_enqueue, Option.some.injEq] at waiting
      subst waiting
      have others := othersUngranted_of_mayGoOn (s := s.enqueue t rid .lockExclusive .exclusive) alive rfl may
      rw [callMode, lockTable_enqueue, upgrading_modifyRequests]
      by_contra upgrading
      refine orderly ⟨growing, alive, new, fun request member granted => ?_, by simpa using upgrading⟩
      refine others request ?_ granted
      rw [lockTable_enqueue, requestQueue_modifyRequests, if_pos rfl]
      exact List.mem_append_left _ member
  | lockUpgrade t rid => exact compatible.lockUpgrade enabled rid
  | unlock t rid => exact compatible.unlock enabled rid
  | commit t visited => exact compatible.release enabled visited
  | abort t visited => exact compatible.release enabled visited
  | wake t =>
    refine compatible.wake fun wait waiting call may => ?_
    by_contra upgrading
    have alive := compatible.awake t (by simp [waiting])
    exact orderly ⟨wait, waiting, call, othersUngranted_of_mayGoOn alive call may, by simpa using upgrading⟩
  | setAborted t => cases called

end Step

theorem compatible_initial : Compatible initial := by
  constructor
  · exact linked_initial
  all_goals simp [initial, requestsOf, ofTxn, Upgrades]

/-- In every run in which no `LockExclusive` is granted on a row while another transaction waits in
`LockUpgrade` for it, a row locked exclusively is locked by nobody else. -/
theorem run_compatible (run : List Action)
    (along : Along (fun s a => s.Calls a ∧ ¬ s.Overtakes a) step initial run) (t t' : TxnId) (other : t' ≠ t)
    (rid : Rid) (locked : rid ∈ ((run.foldl step initial).txns t).exclusiveLockSet) :
    rid ∉ ((run.foldl step initial).txns t').sharedLockSet ∧
      rid ∉ ((run.foldl step initial).txns t').exclusiveLockSet :=
  (along.invariant (I := Compatible) (fun _ _ compatible allowed => compatible.step allowed.1 allowed.2)
    compatible_initial).locks other locked

/-- Two readers; one upgrades once the other has let go. -/
def upgradingRun : List Action :=
  [.lockShared 1 row, .lockShared 2 row, .lockUpgrade 1 row, .unlock 2 row, .wake 1]

theorem run_compatible_upgradingRun :
    (Along (fun s a => s.Calls a ∧ ¬ s.Overtakes a) step initial upgradingRun ∧
      row ∈ ((upgradingRun.foldl step initial).txns 1).exclusiveLockSet) ∧
    row ∉ ((upgradingRun.foldl step initial).txns 2).sharedLockSet ∧
      row ∉ ((upgradingRun.foldl step initial).txns 2).exclusiveLockSet :=
  ⟨by decide, run_compatible upgradingRun (by decide) 1 2 (by decide) row (by decide)⟩

/-- The same, and a third transaction asks for the row exclusively while the first waits. -/
def overtakingRun : List Action :=
  [.lockShared 1 row, .lockShared 2 row, .lockUpgrade 1 row, .lockExclusive 3 row, .unlock 2 row, .wake 3]

/-- The third transaction holds the row exclusively, the first one still shared. -/
theorem overtakingRun_incompatible : Along Calls step initial overtakingRun ∧
    row ∈ ((overtakingRun.foldl step initial).txns 3).exclusiveLockSet ∧
    row ∈ ((overtakingRun.foldl step initial).txns 1).sharedLockSet := by
  decide

end OneBase.LockManager
