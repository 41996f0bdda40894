import OneBase.Proofs.Concurrency.WaitNodes
import OneBase.ToMathlib.Traces

/-! # Lost wake-ups

A blocked call goes on when its predicate is true, and looks at the predicate when the queue of its row
is notified. Only `Unlock` notifies. The predicate turns true without it in two ways: `Abort` from
another thread writes the state of a transaction that waits for a row it does not hold, and `LockUpgrade`
takes the grant away that a transaction is waiting for and then waits itself.
-/

namespace OneBase.LockManager

open Traces

variable {s : LockManager} {t t' : TxnId} {rid : Rid} {wait : Wait} {a : Action} {run : List Action}

/-- The rows whose queues an action notifies. -/
def Action.notified : Action → List Rid
  | .unlock _ rid => [rid]
  | .commit _ visited | .abort _ visited => visited
  | _ => []

/-- A transaction is in one lock call at a time. `Unlock`, `Commit` and `Abort` may also come from
another thread while it waits. -/
def OneLockCall (s : LockManager) : Action → Prop
  | .lockShared t _ | .lockExclusive t _ | .lockUpgrade t _ => s.waits t = none
  | _ => True

instance : (a : Action) → Decidable (s.OneLockCall a)
  | .lockShared _ _ | .lockExclusive _ _ | .lockUpgrade _ _ => inferInstanceAs (Decidable (_ = none))
  | .unlock _ _ | .commit _ _ | .abort _ _ | .wake _ | .setAborted _ => .isTrue trivial

/-- A step that turns the predicate of a blocked call true notifies the queue of its row. -/
def NotifiesTurned (s : LockManager) (a : Action) : Prop :=
  ∀ t wait, s.waits t = some wait → (s.step a).waits t = some wait → s.mayGoOn t wait = false →
    (s.step a).mayGoOn t wait = true → wait.rid ∈ a.notified

/-- The lock table with a mark on each blocked call whose queue has been notified since its predicate
became true. -/
structure Watched where
  locks : LockManager
  notified : TxnId → Bool := fun _ => false

namespace Watched

def step (w : Watched) (a : Action) : Watched where
  locks := w.locks.step a
  notified t :=
    match (w.locks.step a).waits t with
    | none => false
    | some wait => (w.locks.step a).mayGoOn t wait && (w.notified t || wait.rid ∈ a.notified)

/-- A blocked call whose predicate is true and whose queue has not been notified since. -/
def Lost (w : Watched) : Prop :=
  ∃ t wait, w.locks.waits t = some wait ∧ w.locks.mayGoOn t wait = true ∧ w.notified t = false

end Watched

section Predicate

/-- A granted request that a blocked call waits for. -/
def Hinders (t : TxnId) (wait : Wait) (request : LockRequest) : Prop :=
  request.granted ∧ if wait.call = .lockShared then request.lockMode = .exclusive else request.txnId ≠ t

instance {request : LockRequest} : Decidable (Hinders t wait request) := inferInstanceAs (Decidable (_ ∧ ite _ _ _))

theorem mayGoOn_eq_false_iff : s.mayGoOn t wait = false ↔ (s.txns t).state ≠ .aborted ∧
    ∃ request ∈ (s.lockTable wait.rid).requestQueue, Hinders t wait request := by
  obtain ⟨call, rid, it⟩ := wait
  rw [mayGoOn, Bool.or_eq_false_iff, decide_eq_false_iff_not, List.all_eq_false]
  cases call <;> simp [Hinders]

/-- The predicate stays false where the state stays and the grants stay. -/
theorem mayGoOn_stays {s' : LockManager} (blocked : s.mayGoOn t wait = false)
    (alive : (s'.txns t).state = .aborted → (s.txns t).state = .aborted)
    (grants : ∀ request ∈ (s.lockTable wait.rid).requestQueue, Hinders t wait request →
      ∃ request' ∈ (s'.lockTable wait.rid).requestQueue, Hinders t wait request') :
    s'.mayGoOn t wait = false := by
  rw [mayGoOn_eq_false_iff] at blocked ⊢
  obtain ⟨state, request, member, hinders⟩ := blocked
  exact ⟨fun aborted => state (alive aborted), grants request member hinders⟩

end Predicate

section Steps

/-- A call that goes on takes no grant away. -/
theorem wake_keeps (guarded : Guarded s) {request : LockRequest} (member : request ∈ (s.lockTable rid).requestQueue)
    (granted : request.granted) : request ∈ ((s.wake t).1.lockTable rid).requestQueue := by
  rcases s.wake_cases t with ⟨same, -⟩ | ⟨wait, waiting, -, went⟩
  · rwa [same]
  · rw [went]
    have erased : request ∈
        (((s.setWait t none).modifyRequests wait.rid (eraseNode wait.it)).lockTable rid).requestQueue := by
      rw [requestQueue_modifyRequests]
      split
      · next row =>
        subst row
        have other : request.node ≠ wait.it := by
          intro here
          simp [(guarded.own t wait waiting request member here).2] at granted
        simpa [eraseNode, other] using member
      · exact member
    have grants (upgrading : Bool) : request ∈ ((((s.setWait t none).setUpgrading wait.rid upgrading).modifyRequests
        wait.rid (grant wait.it)).lockTable rid).requestQueue := by
      rw [requestQueue_modifyRequests, requestQueue_setUpgrading, requestQueue_setUpgrading]
      split
      · next row => exact grant_keeps (row ▸ member) granted
      · exact member
    have grants' : request ∈
        (((s.setWait t none).modifyRequests wait.rid (grant wait.it)).lockTable rid).requestQueue := by
      rw [requestQueue_modifyRequests]
      split
      · next row => exact grant_keeps (row ▸ member) granted
      · exact member
    rw [goOn]
    cases wait.call with
    | lockShared =>
      dsimp only
      split
      · exact erased
      · exact grants'
    | lockExclusive =>
      dsimp only
      split
      · exact erased
      · exact grants'
    | lockUpgrade =>
      dsimp only
      split
      · rw [requestQueue_setUpgrading]
        exact member
      · exact grants false

/-- A call that goes on makes no other predicate true. -/
theorem mayGoOn_wake (guarded : Guarded s) (blocked : s.mayGoOn t' wait = false) :
    (s.wake t).1.mayGoOn t' wait = false :=
  mayGoOn_stays blocked (fun aborted => state_wake.symm.trans aborted)
    fun request member hinders => ⟨request, wake_keeps guarded member hinders.1, hinders⟩

theorem mayGoOn_enqueue {call : LockCall} {lockMode : LockMode} (blocked : s.mayGoOn t' wait = false) :
    (s.enqueue t rid call lockMode).mayGoOn t' wait = false := by
  apply mayGoOn_stays blocked
  · exact id
  intro request member hinders
  refine ⟨request, ?_, hinders⟩
  rw [lockTable_enqueue, requestQueue_modifyRequests]
  split
  · next row => exact List.mem_append_left _ (row ▸ member)
  · exact member

theorem mayGoOn_setState {state : TransactionState} (blocked : s.mayGoOn t' wait = false)
    (alive : t' = t → state ≠ .aborted) : (s.setState t state).mayGoOn t' wait = false := by
  apply mayGoOn_stays blocked
  · intro aborted
    by_cases self : t' = t
    · simp [setState, self] at aborted
      exact absurd aborted (alive self)
    · simpa [setState, self] using aborted
  · exact fun request member hinders => ⟨request, member, hinders⟩

theorem lockTable_unlock_of_ne {rid' : Rid} (other : rid' ≠ rid) :
    (s.unlock t rid).1.lockTable rid' = s.lockTable rid' := by
  rw [unlock, unlockRequest]
  split <;> exact Function.update_of_ne other ..

/-- `Unlock` makes no predicate true of a call that waits for another row. -/
theorem mayGoOn_unlock (blocked : s.mayGoOn t' wait = false) (other : wait.rid ≠ rid) :
    (s.unlock t rid).1.mayGoOn t' wait = false := by
  apply mayGoOn_stays blocked
  · intro aborted
    by_cases self : t' = t
    · subst self
      rw [state_unlock] at aborted
      split at aborted
      · cases aborted
      · exact aborted
    · rwa [txns_unlock_of_ne s rid self] at aborted
  · rw [lockTable_unlock_of_ne other]
    exact fun request member hinders => ⟨request, member, hinders⟩

theorem mayGoOn_release {state : TransactionState} {visited : List Rid} (blocked : s.mayGoOn t' wait = false)
    (alive : t' = t → state ≠ .aborted) (other : wait.rid ∉ visited) :
    (s.release t state visited).mayGoOn t' wait = false := by
  have walked (s : LockManager) (blocked : s.mayGoOn t' wait = false) :
      (visited.foldl (fun s rid => (s.unlock t rid).1) s).mayGoOn t' wait = false := by
    induction visited generalizing s with
    | nil => exact blocked
    | cons rid rest ih =>
      rw [List.mem_cons, not_or] at other
      exact ih other.2 _ (mayGoOn_unlock blocked other.1)
  apply mayGoOn_stays (walked _ (mayGoOn_setState blocked alive))
  · intro aborted
    by_cases self : t' = t
    · subst self
      simpa [release, clearLockSets] using aborted
    · simpa [release, clearLockSets, self] using aborted
  · exact fun request member hinders => ⟨request, member, hinders⟩

end Steps

/-- `LockUpgrade` clears the one grant that a blocked call of another transaction waits for, and a grant
of a third request makes it wait itself. -/
def ClearsLast (s : LockManager) (t : TxnId) (rid : Rid) : Prop :=
  (s.txns t).state ≠ .shrinking ∧ (s.txns t).state ≠ .aborted ∧ (s.lockTable rid).upgrading = false ∧
    ¬ s.OthersUngranted t rid ∧
    ∃ request, ((s.lockTable rid).requestQueue.find? fun request => request.txnId = t && request.granted) =
      some request ∧
      ∃ t' wait, s.waits t' = some wait ∧ wait.rid = rid ∧ (s.txns t').state ≠ .aborted ∧
        Hinders t' wait request ∧
        ∀ other ∈ (s.lockTable rid).requestQueue, Hinders t' wait other → other = request

/-- The actions that turn the predicate of a blocked call true and do not notify: an abort of a blocked
transaction that does not unlock the row it waits for, and an upgrade that clears the last grant. -/
def TurnsSilently (s : LockManager) : Action → Prop
  | .abort t visited => ∃ wait, s.waits t = some wait ∧ s.mayGoOn t wait = false ∧ wait.rid ∉ visited
  | .setAborted t => ∃ wait, s.waits t = some wait ∧ s.mayGoOn t wait = false
  | .lockUpgrade t rid => s.ClearsLast t rid
  | _ => False

section Upgrade

variable {request : LockRequest}

theorem requestQueue_startUpgrade : ((s.startUpgrade t rid request.node).lockTable rid).requestQueue =
    ungrant request.node (s.lockTable rid).requestQueue := by
  rw [startUpgrade, lockTable_setWait, requestQueue_modifyRequests, if_pos rfl, requestQueue_setUpgrading]

theorem requestQueue_startUpgrade_of_ne {rid' : Rid} (other : rid' ≠ rid) :
    ((s.startUpgrade t rid request.node).lockTable rid').requestQueue = (s.lockTable rid').requestQueue := by
  rw [startUpgrade, lockTable_setWait, requestQueue_modifyRequests, if_neg other, requestQueue_setUpgrading]

/-- A request other than the one being upgraded stays as it is. -/
theorem mem_startUpgrade {other : LockRequest} (guarded : Guarded s)
    (member : request ∈ (s.lockTable rid).requestQueue)
    (there : other ∈ (s.lockTable rid).requestQueue) (apart : other ≠ request) :
    other ∈ ((s.startUpgrade t rid request.node).lockTable rid).requestQueue := by
  rw [requestQueue_startUpgrade]
  refine List.mem_map.mpr ⟨other, there, if_neg fun same => ?_⟩
  exact apart (guarded.distinct rid other there request member same)

/-- An upgrade goes through at once if nobody else has a grant. -/
theorem wake_startUpgrade (alone : s.OthersUngranted t rid) (alive : (s.txns t).state ≠ .aborted)
    (mine : request ∈ s.requestsOf t rid) : { request with lockMode := .exclusive, granted := true } ∈
      (((s.startUpgrade t rid request.node).wake t).1.lockTable rid).requestQueue := by
  have member := (mem_ofTxn.mp mine).1
  have waiting : (s.startUpgrade t rid request.node).waits t = some ⟨.lockUpgrade, rid, request.node⟩ :=
    Function.update_self ..
  have may : (s.startUpgrade t rid request.node).mayGoOn t ⟨.lockUpgrade, rid, request.node⟩ = true := by
    by_contra blocked
    rw [Bool.not_eq_true, mayGoOn_eq_false_iff] at blocked
    obtain ⟨-, other, there, granted, foreign⟩ := blocked
    rw [requestQueue_startUpgrade] at there
    obtain ⟨old, thereOld, rfl⟩ := List.mem_map.mp there
    split at granted
    · simp at granted
    · next apart =>
      rw [if_neg apart, if_neg (by simp)] at foreign
      exact foreign (alone old thereOld granted)
  rw [wake, waiting]
  simp only [may, if_true, goOn]
  have state : (((s.startUpgrade t rid request.node).setWait t none).setUpgrading rid false).txns t = s.txns t := rfl
  rw [state, if_neg alive]
  have queue : ((((s.startUpgrade t rid request.node).setWait t none).setUpgrading rid false).lockTable
      rid).requestQueue =
      ungrant request.node (s.lockTable rid).requestQueue := by
    rw [requestQueue_setUpgrading, lockTable_setWait, requestQueue_startUpgrade]
  simp only [insertExclusive, eraseShared, lockTable_setTxn, requestQueue_modifyRequests, if_true, queue]
  refine List.mem_map.mpr ⟨{ request with lockMode := .exclusive, granted := false }, ?_, if_pos rfl⟩
  exact List.mem_map.mpr ⟨request, member, if_pos rfl⟩

end Upgrade

theorem wake_of_blocked (waiting : s.waits t = some wait) (blocked : s.mayGoOn t wait = false) :
    (s.wake t).1 = s := by
  rcases s.wake_cases t with ⟨same, -⟩ | ⟨wait', waiting', may, -⟩
  · exact same
  · cases waiting.symm.trans waiting'
    simp [blocked] at may

/-- The predicate of a call that blocks is false. -/
theorem wake_blocks (waiting : (s.wake t).1.waits t = some wait) : (s.wake t).1.mayGoOn t wait = false := by
  rcases s.wake_cases t with ⟨same, blocked⟩ | ⟨wait', -, -, went⟩
  · rw [same] at waiting ⊢
    exact blocked wait waiting
  · rw [went, waits_goOn] at waiting
    simp at waiting

theorem step_blocks (one : s.OneLockCall a) (waiting : (s.step a).waits t = some wait) :
    s.waits t = some wait ∨ (s.step a).mayGoOn t wait = false := by
  by_cases mine : t = a.subject
  · subst mine
    cases a with
    | lockShared t rid =>
      rcases s.lockShared_cases t rid with same | aborted | ⟨-, -, -, entered⟩
      · rw [step, same] at waiting
        exact .inl waiting
      · rw [step, aborted] at waiting
        exact .inl waiting
      · rw [step, entered] at waiting ⊢
        exact .inr (wake_blocks waiting)
    | lockExclusive t rid =>
      rcases s.lockExclusive_cases t rid with same | aborted | ⟨-, -, -, entered⟩
      · rw [step, same] at waiting
        exact .inl waiting
      · rw [step, aborted] at waiting
        exact .inl waiting
      · rw [step, entered] at waiting ⊢
        exact .inr (wake_blocks waiting)
    | lockUpgrade t rid =>
      rcases s.lockUpgrade_cases t rid with aborted | same | ⟨request, -, -, -, -, entered⟩
      · rw [step, aborted] at waiting
        exact .inl waiting
      · rw [step, same] at waiting
        exact .inl waiting
      · rw [step, entered] at waiting ⊢
        exact .inr (wake_blocks waiting)
    | unlock t rid =>
      rw [step, waits_unlock] at waiting
      exact .inl waiting
    | commit t visited =>
      rw [step, waits_release] at waiting
      exact .inl waiting
    | abort t visited =>
      rw [step, waits_release] at waiting
      exact .inl waiting
    | wake t => exact .inr (wake_blocks waiting)
    | setAborted t => exact .inl waiting
  · rw [(s.step_of_ne a mine).2] at waiting
    exact .inl waiting

section Upgrades

/-- An upgrade that does not clear a last grant makes no predicate true. -/
theorem mayGoOn_lockUpgrade (guarded : Guarded s) (idle : s.waits t = none) (spares : ¬ s.ClearsLast t rid)
    (waiting : s.waits t' = some wait) (blocked : s.mayGoOn t' wait = false) :
    (s.lockUpgrade t rid).1.mayGoOn t' wait = false := by
  have foreign : t' ≠ t := fun self => by simp [← self, waiting] at idle
  rw [lockUpgrade]
  split
  · exact mayGoOn_setState blocked fun self => absurd self foreign
  next growing =>
  split
  · exact blocked
  next alive =>
  split
  · exact mayGoOn_setState blocked fun self => absurd self foreign
  next free =>
  rw [Bool.not_eq_true] at free
  split
  · rwa [setUpgrading_self free]
  next request found =>
  have member := List.mem_of_find?_eq_some found
  have test := List.find?_some found
  rw [Bool.and_eq_true, decide_eq_true_eq] at test
  have guarded' := guarded.startUpgrade (mem_ofTxn.mpr ⟨member, test.1⟩)
  obtain ⟨state, hindering, there, hinders⟩ := mayGoOn_eq_false_iff.mp blocked
  rw [mayGoOn_eq_false_iff]
  refine ⟨fun aborted => state ((state_wake (s := s.startUpgrade t rid request.node)).symm.trans aborted), ?_⟩
  by_cases row : wait.rid = rid
  · by_cases last : ∀ other ∈ (s.lockTable rid).requestQueue, Hinders t' wait other → other = request
    · -- the cleared grant is the only one, so the upgrade must go through
      have own := last hindering (row ▸ there) hinders
      subst own
      have alone : s.OthersUngranted t rid := by
        by_contra others
        exact spares ⟨growing, alive, free, others, hindering, found, t', wait, waiting, row, state, hinders, last⟩
      rw [row]
      refine ⟨_, wake_startUpgrade alone alive (mem_ofTxn.mpr ⟨member, test.1⟩), rfl, ?_⟩
      split
      · rfl
      · exact fun self => foreign (self.symm.trans test.1)
    · push Not at last
      obtain ⟨other, thereOther, hindersOther, apart⟩ := last
      rw [row]
      exact ⟨other, wake_keeps guarded' (mem_startUpgrade guarded member thereOther apart) hindersOther.1,
        hindersOther⟩
  · refine ⟨hindering, wake_keeps guarded' ?_ hinders.1, hinders⟩
    rwa [requestQueue_startUpgrade_of_ne row]

/-- An upgrade that clears a last grant makes a predicate true. -/
theorem ClearsLast.turns (guarded : Guarded s) (idle : s.waits t = none) (clears : s.ClearsLast t rid) :
    ∃ t' wait, s.waits t' = some wait ∧ (s.lockUpgrade t rid).1.waits t' = some wait ∧
      s.mayGoOn t' wait = false ∧ (s.lockUpgrade t rid).1.mayGoOn t' wait = true := by
  obtain ⟨growing, alive, free, others, request, found, t', wait, waiting, row, state, hinders, last⟩ := clears
  have foreign : t' ≠ t := fun self => by simp [← self, waiting] at idle
  have member := List.mem_of_find?_eq_some found
  have test := List.find?_some found
  rw [Bool.and_eq_true, decide_eq_true_eq] at test
  have blocks : (s.startUpgrade t rid request.node).mayGoOn t ⟨.lockUpgrade, rid, request.node⟩ = false := by
    rw [OthersUngranted] at others
    push Not at others
    obtain ⟨other, thereOther, granted, owner⟩ := others
    refine mayGoOn_eq_false_iff.mpr ⟨alive, other, ?_, granted, owner⟩
    exact mem_startUpgrade guarded member thereOther fun same => owner (same ▸ test.1)
  have stays : (s.lockUpgrade t rid).1 = s.startUpgrade t rid request.node := by
    rw [lockUpgrade, if_neg growing, if_neg alive, if_neg (by simp [free]), found]
    exact wake_of_blocked (Function.update_self ..) blocks
  refine ⟨t', wait, waiting, ?_, mayGoOn_eq_false_iff.mpr ⟨state, request, row ▸ member, hinders⟩, ?_⟩
  · rw [stays]
    exact (Function.update_of_ne foreign ..).trans waiting
  · rw [stays]
    by_contra still
    rw [Bool.not_eq_true, mayGoOn_eq_false_iff] at still
    obtain ⟨-, other, there, granted, hindersOther⟩ := still
    rw [row, requestQueue_startUpgrade] at there
    obtain ⟨old, thereOld, rfl⟩ := List.mem_map.mp there
    by_cases same : old.node = request.node
    · simp [same] at granted
    · rw [if_neg same] at granted hindersOther
      exact same (last old thereOld ⟨granted, hindersOther⟩ ▸ rfl)

end Upgrades

/-- A step notifies where it turns a predicate true, exactly if it is none of the silent ones. -/
theorem notifiesTurned_iff (guarded : Guarded s) (one : s.OneLockCall a) :
    s.NotifiesTurned a ↔ ¬ s.TurnsSilently a := by
  have abortTurns (t : TxnId) (wait : Wait) (visited : List Rid) :
      (s.release t .aborted visited).mayGoOn t wait = true := by
    simp [mayGoOn, state_release]
  cases a with
  | lockShared t rid =>
    simp only [TurnsSilently, not_false_iff, iff_true]
    intro t' wait waiting _ blocked turned
    have foreign : t' ≠ t := fun self => by simp [OneLockCall, ← self, waiting] at one
    rcases s.lockShared_cases t rid with same | aborted | ⟨-, -, -, entered⟩
    · simp [step, same, blocked] at turned
    · simp [step, aborted, mayGoOn_setState blocked fun self => absurd self foreign] at turned
    · simp [step, entered, mayGoOn_wake (guarded.enqueue ..) (mayGoOn_enqueue blocked)] at turned
  | lockExclusive t rid =>
    simp only [TurnsSilently, not_false_iff, iff_true]
    intro t' wait waiting _ blocked turned
    have foreign : t' ≠ t := fun self => by simp [OneLockCall, ← self, waiting] at one
    rcases s.lockExclusive_cases t rid with same | aborted | ⟨-, -, -, entered⟩
    · simp [step, same, blocked] at turned
    · simp [step, aborted, mayGoOn_setState blocked fun self => absurd self foreign] at turned
    · simp [step, entered, mayGoOn_wake (guarded.enqueue ..) (mayGoOn_enqueue blocked)] at turned
  | lockUpgrade t rid =>
    constructor
    · intro notifies clears
      obtain ⟨t', wait, before, after, blocked, turned⟩ := ClearsLast.turns guarded one clears
      simpa [Action.notified] using notifies t' wait before after blocked turned
    · intro spares t' wait waiting _ blocked turned
      simp [step, mayGoOn_lockUpgrade guarded one spares waiting blocked] at turned
  | unlock t rid =>
    simp only [TurnsSilently, not_false_iff, iff_true]
    intro t' wait _ _ blocked turned
    by_contra silent
    rw [Action.notified, List.mem_singleton] at silent
    simp [step, mayGoOn_unlock blocked silent] at turned
  | commit t visited =>
    simp only [TurnsSilently, not_false_iff, iff_true]
    intro t' wait _ _ blocked turned
    by_contra silent
    have still : (s.release t .committed visited).mayGoOn t' wait = false :=
      mayGoOn_release blocked (by simp) silent
    simp [step, still] at turned
  | abort t visited =>
    constructor
    · rintro notifies ⟨wait, waiting, blocked, silent⟩
      exact silent (notifies t wait waiting (by rwa [step, waits_release]) blocked (abortTurns t wait visited))
    · intro loud t' wait waiting _ blocked turned
      by_contra silent
      by_cases self : t' = t
      · exact loud ⟨wait, self ▸ waiting, self ▸ blocked, silent⟩
      · have still : (s.release t .aborted visited).mayGoOn t' wait = false :=
          mayGoOn_release blocked (fun same => absurd same self) silent
        simp [step, still] at turned
  | wake t =>
    simp only [TurnsSilently, not_false_iff, iff_true]
    intro t' wait _ _ blocked turned
    simp [step, mayGoOn_wake guarded blocked] at turned
  | setAborted t =>
    constructor
    · rintro notifies ⟨wait, waiting, blocked⟩
      simpa [Action.notified] using notifies t wait waiting waiting blocked (by simp [step, mayGoOn, setState])
    · intro loud t' wait waiting _ blocked turned
      by_cases self : t' = t
      · exact absurd ⟨wait, self ▸ waiting, self ▸ blocked⟩ loud
      · simp [step, mayGoOn_setState blocked fun same => absurd same self] at turned

/-- One step of the marks. -/
theorem Watched.not_lost_step {w : Watched} (one : w.locks.OneLockCall a) (notifies : w.locks.NotifiesTurned a)
    (kept : ¬ w.Lost) : ¬ (w.step a).Lost := by
  rintro ⟨t, wait, waiting, turned, unnotified⟩
  simp only [Watched.step] at waiting turned unnotified
  simp only [waiting, turned, Bool.true_and, Bool.or_eq_false_iff, decide_eq_false_iff_not] at unnotified
  rcases step_blocks one waiting with before | blocked
  · cases earlier : w.locks.mayGoOn t wait with
    | false => exact unnotified.2 (notifies t wait before waiting earlier turned)
    | true => exact kept ⟨t, wait, before, earlier, unnotified.1⟩
  · simp [turned] at blocked

theorem Watched.not_lost_foldl {w : Watched} (one : Along OneLockCall LockManager.step w.locks run)
    (notifies : Along NotifiesTurned LockManager.step w.locks run) (kept : ¬ w.Lost) : ¬ (run.foldl step w).Lost := by
  induction run generalizing w with
  | nil => exact kept
  | cons a rest ih =>
    rw [List.foldl_cons]
    exact ih one.2 notifies.2 (Watched.not_lost_step one.1 notifies.1 kept)

theorem along_notifiesTurned_iff (guarded : Guarded s) (one : Along OneLockCall step s run) :
    Along NotifiesTurned step s run ↔ Along (fun s a => ¬ s.TurnsSilently a) step s run := by
  induction run generalizing s with
  | nil => rfl
  | cons a rest ih => exact and_congr (notifiesTurned_iff guarded one.1) (ih (guarded.step a) one.2)

/-- In a run from the start, every step notifies where it turns a predicate true, and no call stays
blocked unnotified with a true predicate, exactly if no step is one of the silent ones. -/
theorem no_lost_wakeup_iff (one : Along OneLockCall step initial run) :
    (Along NotifiesTurned step initial run ∧
      ∀ first rest, run = first ++ rest → ¬ (first.foldl Watched.step { locks := initial }).Lost) ↔
    Along (fun s a => ¬ s.TurnsSilently a) step initial run := by
  rw [← along_notifiesTurned_iff guarded_initial one]
  constructor
  · exact And.left
  · intro notifies
    refine ⟨notifies, fun first rest cut => ?_⟩
    rw [cut] at one notifies
    apply Watched.not_lost_foldl (along_append.mp one).1 (along_append.mp notifies).1
    rintro ⟨t, wait, waiting, -⟩
    simp [initial] at waiting

theorem no_lost_wakeup_unlock : (Along NotifiesTurned step initial
      [.lockExclusive 1 row, .lockShared 2 row, .unlock 1 row, .wake 2] ∧
    ∀ first rest, [Action.lockExclusive 1 row, .lockShared 2 row, .unlock 1 row, .wake 2] = first ++ rest →
      ¬ (first.foldl Watched.step { locks := initial }).Lost) ↔
    Along (fun s a => ¬ s.TurnsSilently a) step initial
      [.lockExclusive 1 row, .lockShared 2 row, .unlock 1 row, .wake 2] :=
  no_lost_wakeup_iff (by decide)

/-- Transaction 2 holds the row shared and waits in `LockExclusive` for transaction 1, which upgrades. -/
def silentUpgrade : List Action := [.lockShared 1 row, .lockShared 2 row, .lockExclusive 2 row, .lockUpgrade 1 row]

/-- Transaction 2 waits for a row and is aborted by another thread. -/
def silentAbort : List Action := [.lockExclusive 1 row, .lockShared 2 row, .abort 2 []]

/-- In both runs transaction 2 stays blocked while its predicate is true and nobody notifies it. -/
theorem lost_wakeups :
    (Along OneLockCall step initial silentUpgrade ∧ (silentUpgrade.foldl Watched.step { locks := initial }).Lost) ∧
    (Along OneLockCall step initial silentAbort ∧ (silentAbort.foldl Watched.step { locks := initial }).Lost) :=
  ⟨⟨by decide, 2, ⟨.lockExclusive, row, 2⟩, by decide, by decide, by decide⟩,
    ⟨by decide, 2, ⟨.lockShared, row, 1⟩, by decide, by decide, by decide⟩⟩

end OneBase.LockManager
