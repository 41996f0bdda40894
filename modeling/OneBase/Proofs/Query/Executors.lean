import OneBase.Model.QueryExecutors
import OneBase.ToMathlib.ExceptLoops

/-! # What the executors deliver

One statement for each executor: when it runs to its end, and which rows it has delivered by then.
-/

namespace OneBase

open ExceptLoops

variable {F : Type} [Field F] [LinearOrder F]

omit [Field F] [LinearOrder F] in
theorem Stream.drain_eq_ok_iff {stream : Stream F} {rows : List (Row F)} :
    stream.drain = .ok rows ↔ stream.error = none ∧ stream.rows = rows := by
  cases failure : stream.error with
  | none => simp [drain, failure]
  | some message => simp [drain, failure]

/-- A test that answered yes. -/
def passes (answer : Except String Bool) : Bool := answer.toOption.getD false

namespace SeqScanExecutor

variable {predicate : Option (Expression F)} {rows : List (Row F)}

/-- A scan delivers rows that pass. -/
theorem mem_of_mem_scan {row : Row F} (member : row ∈ (scan predicate rows).rows) :
    row ∈ rows ∧ Expression.holds predicate row = .ok true := by
  induction rows with
  | nil => cases member
  | cons first rest ih =>
    unfold scan at member
    split at member
    · cases member
    · rename_i passed
      rcases List.mem_cons.mp member with rfl | later
      · exact ⟨List.mem_cons_self, passed⟩
      · exact ⟨List.mem_cons_of_mem _ (ih later).1, (ih later).2⟩
    · exact ⟨List.mem_cons_of_mem _ (ih member).1, (ih member).2⟩

/-- A scan delivers at most all rows. -/
theorem length_scan_le (predicate : Option (Expression F)) (rows : List (Row F)) :
    (scan predicate rows).rows.length ≤ rows.length := by
  induction rows with
  | nil => exact le_rfl
  | cons first rest ih =>
    unfold scan
    split
    · exact Nat.zero_le _
    · exact Nat.succ_le_succ ih
    · exact ih.trans (Nat.le_succ _)

/-- A scan fails on a row on which its predicate does. -/
theorem exists_of_scan_error {message : String} (failed : (scan predicate rows).error = some message) :
    ∃ row ∈ rows, Expression.holds predicate row = .error message := by
  induction rows with
  | nil => cases failed
  | cons first rest ih =>
    unfold scan at failed
    split at failed
    · rename_i failedFirst
      cases failed
      exact ⟨first, List.mem_cons_self, failedFirst⟩
    · obtain ⟨row, member, failedRow⟩ := ih failed
      exact ⟨row, List.mem_cons_of_mem _ member, failedRow⟩
    · obtain ⟨row, member, failedRow⟩ := ih failed
      exact ⟨row, List.mem_cons_of_mem _ member, failedRow⟩

/-- A scan delivers all rows when all pass. -/
theorem scan_all (pass : ∀ row ∈ rows, Expression.holds predicate row = .ok true) :
    scan predicate rows = { rows } := by
  induction rows with
  | nil => rfl
  | cons row rest ih =>
    rw [List.forall_mem_cons] at pass
    simp only [scan, pass.1, ih pass.2, Stream.cons]

end SeqScanExecutor

namespace NestedLoopJoinExecutor

variable {predicate : Option (Expression F)} {rights : Stream F}

/-- The inner loop succeeds when every test does, and keeps the pairs that pass. -/
theorem matchRight_eq_ok_iff {left : Row F} {rows out : List (Row F)} :
    matchRight predicate left rows = .ok out ↔
      (∀ right ∈ rows, ∃ answer, Expression.holdsJoin predicate left right = .ok answer) ∧
        out = (rows.filter fun right => passes (Expression.holdsJoin predicate left right)).map (left ++ ·) := by
  induction rows generalizing out with
  | nil => simp [matchRight, eq_comm]
  | cons right rest ih =>
    cases test : Expression.holdsJoin predicate left right with
    | error message => simp [matchRight, test, bind, Except.bind]
    | ok answer =>
      cases answer <;>
        simp only [matchRight, test, bind_eq_ok_iff, pure_eq_ok_iff, Except.ok.injEq, exists_eq_left', ih,
          List.forall_mem_cons, exists_eq', true_and, List.filter_cons, passes, Except.toOption, Option.getD_some,
          Bool.false_eq_true, ↓reduceIte, List.map_cons] <;>
        grind

/-- The outer loop reads the right side only when there is a left row. -/
theorem matchLeft_eq_ok_iff {rows out : List (Row F)} :
    matchLeft predicate rights rows = .ok out ↔
      (rows ≠ [] → rights.error = none) ∧
      (∀ left ∈ rows, ∀ right ∈ rights.rows, ∃ answer, Expression.holdsJoin predicate left right =
        .ok answer) ∧
        out = rows.flatMap fun left =>
          (rights.rows.filter fun right => passes (Expression.holdsJoin predicate left right)).map (left ++ ·) := by
  induction rows generalizing out with
  | nil => simp [matchLeft, eq_comm]
  | cons left rest ih =>
    simp only [matchLeft, bind_eq_ok_iff, pure_eq_ok_iff, matchRight_eq_ok_iff, ih, List.forall_mem_cons,
      List.flatMap_cons, Stream.drain_eq_ok_iff]
    constructor
    · rintro ⟨found, ⟨tested, rfl⟩, -, ⟨rightOk, -⟩, others, ⟨-, laterTested, rfl⟩, rfl⟩
      exact ⟨fun _ => rightOk, ⟨tested, laterTested⟩, rfl⟩
    · rintro ⟨rightOk, ⟨tested, laterTested⟩, rfl⟩
      have rightOk := rightOk (List.cons_ne_nil _ _)
      exact ⟨_, ⟨tested, rfl⟩, _, ⟨rightOk, rfl⟩, _, ⟨fun _ => rightOk, laterTested, rfl⟩, rfl⟩

theorem rows_eq_ok_iff {lefts : Stream F} {out : List (Row F)} :
    (init predicate (.ok lefts) (.ok rights) >>= Stream.drain) = .ok out ↔
      lefts.error = none ∧ matchLeft predicate rights lefts.rows = .ok out := by
  simp only [init, bind_eq_ok_iff, pure_eq_ok_iff, Stream.drain_eq_ok_iff, Except.ok.injEq, exists_eq_left']
  constructor
  · rintro ⟨-, ⟨rows, matched, -, ⟨ended, -⟩, rfl⟩, -, rfl⟩
    exact ⟨ended, matched⟩
  · rintro ⟨ended, matched⟩
    exact ⟨_, ⟨out, matched, _, ⟨ended, rfl⟩, rfl⟩, rfl, rfl⟩

end NestedLoopJoinExecutor

end OneBase
