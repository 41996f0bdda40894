import OneBase.Proofs.Concurrency.LockCompatibility

/-! # One upgrade at a time

The flag of a queue is set in front of the wait of an upgrade and cleared behind it. So it says that somebody waits
there, and while it is set nobody else gets that far. -/

namespace OneBase.LockManager

open Traces

variable {s s' : LockManager} {t t' : TxnId} {rid rid' : Rid}

/-- The flags are set where a transaction waits to upgrade, and at most one does. -/
structure SingleUpgrader (s : LockManager) : Prop where
  flagged : ∀ rid, (s.lockTable rid).upgrading = true ↔ ∃ t, s.Upgrades t rid
  single : ∀ rid t t', s.Upgrades t rid → s.Upgrades t' rid → t = t'

namespace SingleUpgrader

/-- Nobody starts or ends an upgrade. -/
theorem of_same (upgrader : SingleUpgrader s)
    (flags : ∀ rid, (s'.lockTable rid).upgrading = (s.lockTable rid).upgrading)
    (waiting : ∀ t rid, s'.Upgrades t rid ↔ s.Upgrades t rid) : SingleUpgrader s' where
  flagged rid := by
    rw [flags, upgrader.flagged]
    simp only [waiting]
  single rid t t' := by
    rw [waiting, waiting]
    exact upgrader.single rid t t'

theorem setTxn (upgrader : SingleUpgrader s) (t : TxnId) (txn : Transaction) : SingleUpgrader (s.setTxn t txn) :=
  upgrader.of_same (fun _ => rfl) fun _ _ => Iff.rfl

theorem modifyRequests (upgrader : SingleUpgrader s) (rid : Rid) (change : List LockRequest → List LockRequest) :
    SingleUpgrader (s.modifyRequests rid change) :=
  upgrader.of_same (fun _ => upgrading_modifyRequests) fun _ _ => Iff.rfl

theorem unlock (upgrader : SingleUpgrader s) (t : TxnId) (rid : Rid) : SingleUpgrader (s.unlock t rid).1 := by
  have requested : SingleUpgrader (s.unlockRequest t rid) := by
    unfold unlockRequest
    dsimp only
    split
    · exact (upgrader.modifyRequests rid _).setTxn t _
    · exact upgrader.modifyRequests rid _
  exact (requested.setTxn t _).setTxn t _

theorem release (upgrader : SingleUpgrader s) (t : TxnId) (state : TransactionState) (visited : List Rid) :
    SingleUpgrader (s.release t state visited) := by
  have unlocked (s : LockManager) (upgrader : SingleUpgrader s) :
      SingleUpgrader (visited.foldl (fun s rid => (s.unlock t rid).1) s) := by
    induction visited generalizing s with
    | nil => exact upgrader
    | cons rid rest ih => exact ih _ (upgrader.unlock t rid)
  exact (unlocked _ (upgrader.setTxn t _)).setTxn t _

/-- A wait that is no upgrade, entered or left. -/
theorem setWait (upgrader : SingleUpgrader s) (idle : ∀ rid, ¬ s.Upgrades t rid) {wait : Option Wait}
    (other : ∀ rid it, wait ≠ some ⟨.lockUpgrade, rid, it⟩) : SingleUpgrader (s.setWait t wait) := by
  refine upgrader.of_same (fun _ => rfl) fun t' rid => ?_
  by_cases own : t' = t
  · subst own
    constructor
    · rintro ⟨it, waiting⟩
      rw [waits_setWait, Function.update_self] at waiting
      exact absurd waiting (other rid it)
    · exact fun upgrades => absurd upgrades (idle rid)
  · simp only [Upgrades, waits_setWait, Function.update_of_ne own]

theorem enqueue (upgrader : SingleUpgrader s) (idle : s.waits t = none) {call : LockCall}
    (other : call ≠ .lockUpgrade)
    (rid : Rid) (lockMode : LockMode) : SingleUpgrader (s.enqueue t rid call lockMode) := by
  have queued : SingleUpgrader ((s.modifyRequests rid (· ++ [⟨s.nextNode, t, lockMode, false⟩])).setWait t
      (some ⟨call, rid, s.nextNode⟩)) := (upgrader.modifyRequests rid _).setWait (fun _ ⟨it, waiting⟩ => by
      rw [waits_modifyRequests, idle] at waiting
      cases waiting) (by
      intro rid' it same
      cases same
      exact other rfl)
  exact queued.of_same (fun _ => rfl) fun _ _ => Iff.rfl

/-- The upgrade of the only transaction at the wait begins. -/
theorem startUpgrade (upgrader : SingleUpgrader s) (idle : s.waits t = none)
    (free : (s.lockTable rid).upgrading = false) (it : ℕ) : SingleUpgrader (s.startUpgrade t rid it) := by
  have nobody (t' : TxnId) : ¬ s.Upgrades t' rid := by
    intro upgrades
    rw [(upgrader.flagged rid).mpr ⟨t', upgrades⟩] at free
    cases free
  have waiting (t' : TxnId) (rid' : Rid) : (s.startUpgrade t rid it).Upgrades t' rid' ↔
      t' = t ∧ rid' = rid ∨ s.Upgrades t' rid' := by
    by_cases own : t' = t
    · subst own
      simp only [Upgrades, LockManager.startUpgrade, waits_setWait, Function.update_self, idle, Option.some.injEq,
        Wait.mk.injEq, true_and, reduceCtorEq, exists_const, or_false]
      constructor
      · rintro ⟨_, rfl, -⟩
        rfl
      · rintro rfl
        exact ⟨it, rfl, rfl⟩
    · simp [Upgrades, LockManager.startUpgrade, own]
  constructor
  · intro rid'
    have flag : ((s.startUpgrade t rid it).lockTable rid').upgrading =
        if rid' = rid then true else (s.lockTable rid').upgrading := by
      simp only [LockManager.startUpgrade, lockTable_setWait, upgrading_modifyRequests, upgrading_setUpgrading]
    rw [flag]
    simp only [waiting]
    split_ifs with same
    · exact ⟨fun _ => ⟨t, .inl ⟨rfl, same⟩⟩, fun _ => rfl⟩
    · simp [same, upgrader.flagged]
  · intro rid' a b
    rw [waiting, waiting]
    rintro (⟨rfl, rfl⟩ | upgradesA) (⟨rfl, same⟩ | upgradesB)
    · rfl
    · exact absurd upgradesB (nobody b)
    · exact absurd (same ▸ upgradesA) (nobody a)
    · exact upgrader.single rid' a b upgradesA upgradesB

/-- Behind its wait an upgrade clears the flag, whatever comes of it. -/
theorem endUpgrade (upgrader : SingleUpgrader s) {it : ℕ} (waiting : s.waits t = some ⟨.lockUpgrade, rid, it⟩) :
    SingleUpgrader ((s.setWait t none).setUpgrading rid false) := by
  have mine : s.Upgrades t rid := ⟨it, waiting⟩
  have others (t' : TxnId) (rid' : Rid) : ((s.setWait t none).setUpgrading rid false).Upgrades t' rid' ↔
      t' ≠ t ∧ s.Upgrades t' rid' := by
    by_cases own : t' = t
    · simp [Upgrades, own]
    · simp [Upgrades, own]
  constructor
  · intro rid'
    rw [upgrading_setUpgrading]
    simp only [others]
    split_ifs with same
    · subst same
      simp only [false_iff, not_exists, not_and]
      exact fun t' different upgrades => different (upgrader.single rid' t' t upgrades mine)
    · rw [lockTable_setWait, upgrader.flagged]
      constructor
      · rintro ⟨t', upgrades⟩
        refine ⟨t', ?_, upgrades⟩
        rintro rfl
        obtain ⟨it', waiting'⟩ := upgrades
        rw [waiting] at waiting'
        cases waiting'
        exact same rfl
      · rintro ⟨t', -, upgrades⟩
        exact ⟨t', upgrades⟩
  · intro rid' a b
    rw [others, others]
    exact fun first second => upgrader.single rid' a b first.2 second.2

theorem wake (upgrader : SingleUpgrader s) (t : TxnId) : SingleUpgrader (s.wake t).1 := by
  rcases s.wake_cases t with ⟨same, -⟩ | ⟨⟨call, rid, it⟩, waiting, -, went⟩
  · rwa [same]
  · rw [went, goOn]
    have left (different : call ≠ .lockUpgrade) : SingleUpgrader (s.setWait t none) := by
      apply upgrader.setWait
      · rintro rid' ⟨it', waiting'⟩
        rw [waiting] at waiting'
        cases waiting'
        exact different rfl
      · simp
    cases call with
    | lockShared =>
      dsimp only
      split
      · exact (left (by decide)).modifyRequests rid _
      · exact ((left (by decide)).modifyRequests rid _).setTxn t _
    | lockExclusive =>
      dsimp only
      split
      · exact (left (by decide)).modifyRequests rid _
      · exact ((left (by decide)).modifyRequests rid _).setTxn t _
    | lockUpgrade =>
      have ended := upgrader.endUpgrade waiting
      dsimp only
      split
      · exact ended
      · exact ((ended.modifyRequests rid _).setTxn t _).setTxn t _

/-- Every action keeps the flags right. -/
theorem step (upgrader : SingleUpgrader s) {a : Action} (enabled : s.Enabled a) : SingleUpgrader (s.step a) := by
  cases a with
  | lockShared t rid =>
    simp only [LockManager.step]
    rcases s.lockShared_cases t rid with same | aborted | ⟨-, -, -, entered⟩
    · rwa [same]
    · rw [aborted]
      exact upgrader.setTxn t _
    · rw [entered]
      exact (upgrader.enqueue enabled (by decide) rid .shared).wake t
  | lockExclusive t rid =>
    simp only [LockManager.step]
    rcases s.lockExclusive_cases t rid with same | aborted | ⟨-, -, -, entered⟩
    · rwa [same]
    · rw [aborted]
      exact upgrader.setTxn t _
    · rw [entered]
      exact (upgrader.enqueue enabled (by decide) rid .exclusive).wake t
  | lockUpgrade t rid =>
    simp only [LockManager.step]
    rcases s.lockUpgrade_cases t rid with aborted | same | ⟨request, -, -, -, free, entered⟩
    · rw [aborted]
      exact upgrader.setTxn t _
    · rwa [same]
    · rw [entered]
      exact (upgrader.startUpgrade enabled free request.node).wake t
  | unlock t rid => exact upgrader.unlock t rid
  | commit t visited => exact upgrader.release t .committed visited
  | abort t visited => exact upgrader.release t .aborted visited
  | wake t => exact upgrader.wake t
  | setAborted t => exact upgrader.setTxn t _

end SingleUpgrader

theorem singleUpgrader_initial : SingleUpgrader initial := by
  constructor
  · simp [initial, Upgrades]
  · simp [initial, Upgrades]

/-- What `LockUpgrade` answers while the flag is set. -/
theorem lockUpgrade_of_upgrading (flagged : (s.lockTable rid).upgrading = true) :
    (s.lockUpgrade t rid).2 = some false ∧ ((s.lockUpgrade t rid).1.txns t).state = .aborted ∧
      ((s.lockUpgrade t rid).1.txns t).sharedLockSet = (s.txns t).sharedLockSet ∧
      ((s.lockUpgrade t rid).1.txns t).exclusiveLockSet = (s.txns t).exclusiveLockSet ∧
      (s.lockUpgrade t rid).1.lockTable = s.lockTable := by
  rw [lockUpgrade]
  split_ifs with shrinking aborted
  · simp [setState]
  · simp [aborted]
  · simp [setState]

/-- What `LockUpgrade` does without a granted request. -/
theorem lockUpgrade_of_ungranted (ungranted : ∀ request ∈ s.requestsOf t rid, request.granted = false) :
    (s.lockUpgrade t rid).2 = some false ∧ (s.lockUpgrade t rid).1.lockTable = s.lockTable ∧
      ∀ t', ((s.lockUpgrade t rid).1.txns t').sharedLockSet = (s.txns t').sharedLockSet ∧
        ((s.lockUpgrade t rid).1.txns t').exclusiveLockSet = (s.txns t').exclusiveLockSet := by
  have missing : ((s.lockTable rid).requestQueue.find? fun request => request.txnId = t && request.granted) = none := by
    rw [List.find?_eq_none]
    intro request member
    by_cases own : request.txnId = t
    · simp [ungranted request (mem_ofTxn.mpr ⟨member, own⟩)]
    · simp [own]
  rw [lockUpgrade]
  split_ifs with shrinking aborted flagged
  · refine ⟨rfl, rfl, fun t' => ?_⟩
    by_cases own : t' = t
    · simp [setState, own]
    · simp [setState, own]
  · simp
  · refine ⟨rfl, rfl, fun t' => ?_⟩
    by_cases own : t' = t
    · simp [setState, own]
    · simp [setState, own]
  · rw [missing]
    have same : s.setUpgrading rid false = s := setUpgrading_self (by simpa using flagged)
    simp [same]

/-- In every state of every run the flag of a row is set exactly while one transaction waits in `LockUpgrade` for
it, and never two. Meanwhile `LockUpgrade` on the row aborts its caller and leaves locks and requests alone, and
without a granted request it changes nothing. -/
theorem run_singleUpgrader (run : List Action) (along : Along Enabled step initial run) :
    let s := run.foldl step initial
    (∀ rid, ((s.lockTable rid).upgrading = true ↔ ∃! t, s.Upgrades t rid) ∧
      ∀ t t', s.Upgrades t rid → s.Upgrades t' rid → t = t') ∧
    (∀ t t' rid, s.Upgrades t' rid → s.waits t = none →
      (s.lockUpgrade t rid).2 = some false ∧ ((s.lockUpgrade t rid).1.txns t).state = .aborted ∧
        ((s.lockUpgrade t rid).1.txns t).sharedLockSet = (s.txns t).sharedLockSet ∧
        ((s.lockUpgrade t rid).1.txns t).exclusiveLockSet = (s.txns t).exclusiveLockSet ∧
        (s.lockUpgrade t rid).1.lockTable = s.lockTable) ∧
    ∀ t rid, (∀ request ∈ s.requestsOf t rid, request.granted = false) → s.waits t = none →
      (s.lockUpgrade t rid).2 = some false ∧ (s.lockUpgrade t rid).1.lockTable = s.lockTable ∧
        ∀ t', ((s.lockUpgrade t rid).1.txns t').sharedLockSet = (s.txns t').sharedLockSet ∧
          ((s.lockUpgrade t rid).1.txns t').exclusiveLockSet = (s.txns t').exclusiveLockSet := by
  have upgrader : SingleUpgrader (run.foldl step initial) :=
    along.invariant (I := SingleUpgrader) (fun _ _ upgrader enabled => upgrader.step enabled) singleUpgrader_initial
  refine ⟨fun rid => ⟨?_, upgrader.single rid⟩, ?_, ?_⟩
  · rw [upgrader.flagged]
    constructor
    · rintro ⟨t, upgrades⟩
      exact ⟨t, upgrades, fun t' upgrades' => upgrader.single rid t' t upgrades' upgrades⟩
    · exact ExistsUnique.exists
  · intro t t' rid upgrades _
    exact lockUpgrade_of_upgrading ((upgrader.flagged rid).mpr ⟨t', upgrades⟩)
  · intro t rid ungranted _
    exact lockUpgrade_of_ungranted ungranted

/-- Two readers want to upgrade; the first one waits for the second. -/
def twoUpgraders : List Action := [.lockShared 1 row, .lockShared 2 row, .lockUpgrade 1 row]

theorem run_singleUpgrader_twoUpgraders : ((twoUpgraders.foldl step initial).lockUpgrade 2 row).2 = some false ∧
    (((twoUpgraders.foldl step initial).lockUpgrade 2 row).1.txns 2).state = .aborted := by
  have aborted := (run_singleUpgrader twoUpgraders (by decide)).2.1 2 1 row ⟨0, by decide⟩ (by decide)
  exact ⟨aborted.1, aborted.2.1⟩

end OneBase.LockManager
