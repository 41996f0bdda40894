import OneBase.Proofs.Query.FromNames
import OneBase.Proofs.Query.SelectPlan

/-! # INSERT with a SELECT

Inside an INSERT the binder compiles a SELECT on a path of its own, which reads the FROM and WHERE
clauses only. The child of the insert node then delivers what the SELECT alone does exactly when the
other clauses make no difference: no aggregate, no LIMIT, an ORDER BY that never fails, and a target
list that reproduces the rows; or when no row can pass the WHERE clause, apart from the row of zeros
of an aggregation without groups and from a LIMIT 0 that hides an error.
-/

namespace OneBase

open ExceptLoops Binder

section Scopes

variable {F : Type} {info : TableInfo} {aliasName aliasName' : String} {tupleIdx : ℕ}

/-- A column that two names of one table both resolve is the same. -/
theorem resolveColumn_unique {colName tableQualifier : String} {column column' : ℕ × ℕ × TypeId}
    (resolved : resolveColumn colName tableQualifier [⟨aliasName, info, tupleIdx⟩] = .ok column)
    (resolved' : resolveColumn colName tableQualifier [⟨aliasName', info, tupleIdx⟩] = .ok column') :
    column = column' := by
  cases found : findColumn info.schema colName with
  | none =>
    simp only [resolveColumn, found] at resolved
    split_ifs at resolved
  | some pair =>
    simp only [resolveColumn, found] at resolved resolved'
    rw [ite_eq_iff] at resolved resolved'
    simp only [reduceCtorEq, and_false, false_or, Except.ok.injEq] at resolved resolved'
    rw [← resolved.2, ← resolved'.2]

mutual

/-- An expression that is accepted under two names of one table is bound to the same expression. -/
theorem bindExpression_unique : ∀ (node : PgNode F) {e e' : Expression F},
    bindExpression [⟨aliasName, info, tupleIdx⟩] node = .ok e →
      bindExpression [⟨aliasName', info, tupleIdx⟩] node = .ok e' → e = e'
  | .columnRef fields, e, e', bound, bound' => by
    simp only [bindExpression, bindColumnRef, bind_eq_ok_iff, pure_eq_ok_iff] at bound bound'
    obtain ⟨column, resolved, rfl⟩ := bound
    obtain ⟨column', resolved', rfl⟩ := bound'
    rw [resolveColumn_unique resolved resolved']
  | .columnStar _, e, e', bound, bound' => by
    simp only [bindExpression, Except.ok.injEq] at bound bound'
    rw [← bound, ← bound']
  | .aConst val, e, e', bound, bound' => by
    simp only [bindExpression] at bound bound'
    exact Except.ok.inj (bound.symm.trans bound')
  | .aExpr _ name lexpr rexpr, e, e', bound, bound' => by
    simp only [bindExpression, bind_eq_ok_iff] at bound bound'
    obtain ⟨left, leftBound, right, rightBound, made⟩ := bound
    obtain ⟨left', leftBound', right', rightBound', made'⟩ := bound'
    rw [bindExpression_unique lexpr leftBound leftBound', bindExpression_unique rexpr rightBound rightBound'] at made
    exact Except.ok.inj (made.symm.trans made')
  | .unaryExpr name rexpr, e, e', bound, bound' => by
    simp only [bindExpression, bind_eq_ok_iff] at bound bound'
    obtain ⟨right, rightBound, made⟩ := bound
    obtain ⟨right', rightBound', made'⟩ := bound'
    rw [bindExpression_unique rexpr rightBound rightBound'] at made
    exact Except.ok.inj (made.symm.trans made')
  | .postfixExpr name lexpr, e, e', bound, bound' => by
    simp only [bindExpression, bind_eq_ok_iff] at bound bound'
    obtain ⟨left, leftBound, made⟩ := bound
    obtain ⟨left', leftBound', made'⟩ := bound'
    rw [bindExpression_unique lexpr leftBound leftBound'] at made
    exact Except.ok.inj (made.symm.trans made')
  | .boolExpr .and first rest, e, e', bound, bound' => by
    simp only [bindExpression, bind_eq_ok_iff] at bound bound'
    obtain ⟨result, firstBound, made⟩ := bound
    obtain ⟨result', firstBound', made'⟩ := bound'
    rw [bindExpression_unique first firstBound firstBound'] at made
    exact bindArgs_unique rest made made'
  | .boolExpr .or first rest, e, e', bound, bound' => by
    simp only [bindExpression, bind_eq_ok_iff] at bound bound'
    obtain ⟨result, firstBound, made⟩ := bound
    obtain ⟨result', firstBound', made'⟩ := bound'
    rw [bindExpression_unique first firstBound firstBound'] at made
    exact bindArgs_unique rest made made'
  | .boolExpr .not first rest, e, e', bound, bound' => by
    simp only [bindExpression, reduceCtorEq] at bound
  | .aStar, e, e', bound, bound' => by
    simp only [bindExpression, reduceCtorEq] at bound
  | .funcCall _ _ _, e, e', bound, bound' => by
    simp only [bindExpression, reduceCtorEq] at bound
  | .other _, e, e', bound, bound' => by
    simp only [bindExpression, reduceCtorEq] at bound

theorem bindArgs_unique : ∀ (args : List (PgNode F)) {logicType : LogicType} {result e e' : Expression F},
    bindArgs [⟨aliasName, info, tupleIdx⟩] logicType result args = .ok e →
      bindArgs [⟨aliasName', info, tupleIdx⟩] logicType result args = .ok e' → e = e'
  | [], logicType, result, e, e', bound, bound' => by
    simp only [bindArgs, Except.ok.injEq] at bound bound'
    rw [← bound, ← bound']
  | arg :: rest, logicType, result, e, e', bound, bound' => by
    simp only [bindArgs, bind_eq_ok_iff] at bound bound'
    obtain ⟨right, argBound, made⟩ := bound
    obtain ⟨right', argBound', made'⟩ := bound'
    rw [bindExpression_unique arg argBound argBound'] at made
    exact bindArgs_unique rest made made'

end

theorem bindPredicate_unique {whereClause : Option (PgNode F)} {predicate predicate' : Option (Expression F)}
    (bound : bindPredicate [⟨aliasName, info, tupleIdx⟩] whereClause = .ok predicate)
    (bound' : bindPredicate [⟨aliasName', info, tupleIdx⟩] whereClause = .ok predicate') :
    predicate = predicate' := by
  cases whereClause with
  | none => exact Except.ok.inj (bound.symm.trans bound')
  | some node =>
    simp only [bindPredicate, bind_eq_ok_iff, pure_eq_ok_iff] at bound bound'
    obtain ⟨e, exprBound, rfl⟩ := bound
    obtain ⟨e', exprBound', rfl⟩ := bound'
    rw [bindExpression_unique node exprBound exprBound']

/-- The child of the insert node is the scan that the SELECT alone starts from. -/
theorem bindInsert_single {getTable : GetTable} {rv : RangeVar} {select : SelectStmt F}
    (single : select.fromClause = [.rangeVar rv]) (found : getTable rv.relname = some info) {relname : String}
    {child : Plan F} {oid : TableOid} (accepted : bindInsert getTable relname select = .ok (child, oid))
    {predicate : Option (Expression F)}
    (bound : bindPredicate [⟨rv.scopeAlias, info, 0⟩] select.whereClause = .ok predicate) :
    child = .seqScan info.oid predicate := by
  simp only [bindInsert, single, bind_eq_ok_iff, List.isEmpty_cons, Bool.false_and, Bool.false_eq_true, ↓reduceIte,
    List.foldlM_cons, List.foldlM_nil, bindInsertFromItem, Reference.lookupTable_eq_ok_iff, found, Option.some.injEq,
    exists_eq_left', pure_eq_ok_iff, List.nil_append] at accepted
  obtain ⟨target, -, _, ⟨_, ⟨predicate', bound', rfl⟩, rfl⟩, made⟩ := accepted
  cases made
  rw [bindPredicate_unique bound bound']

end Scopes

namespace SelectPlan

variable {F : Type} [Field F] [LinearOrder F] [PrintsFloat F]
  {runtime : Runtime F} {targets : Targets F} {groupBys : List (Expression F)}
  {orderBys : List (Bool × Expression F)} {limitCount : Option ℤ} {stream : Stream F}

/-- The limit is zero, as the limit node holds it. -/
def IsZero (limitCount : Option ℤ) : Prop := ∃ ival, limitCount = some ival ∧ (ival % 2 ^ 64).toNat = 0

/-- All rows go through the stages unchanged. -/
structure PassesThrough (targets : Targets F) (groupBys : List (Expression F)) (orderBys : List (Bool × Expression F))
    (limitCount : Option ℤ) (selected : Row F → Prop) (fails : Prop) : Prop where
  noCall : (∃ row, selected row) → targets.aggCalls = []
  noLimit : (∃ row, selected row) → limitCount = none
  sortable : ∀ a b, selected a → selected b → ∃ answer, SortExecutor.less orderBys a b = .ok answer
  reproduced : ∀ row, selected row → targets.isStar = false → targets.outputExprs ≠ [] →
    (targets.outputExprs.mapM fun e => e.evaluate row) = .ok row
  grouped : targets.aggCalls ≠ [] → groupBys ≠ [] ∨ IsZero limitCount
  notHidden : fails → IsZero limitCount → targets.aggCalls ≠ [] ∨ orderBys ≠ []

section Sufficient

/-- A failed scan fails at the top. -/
theorem PassesThrough.outcome_failed {selected : Row F → Prop} {fails : Prop}
    (passes : PassesThrough targets groupBys orderBys limitCount selected fails)
    (delivered : ∀ row ∈ stream.rows, selected row) {message : String} (failed : stream.error = some message)
    (fail : fails) :
    outcome runtime targets groupBys orderBys limitCount stream = .error message := by
  unfold outcome
  by_cases noCalls : targets.aggCalls = []
  · rw [grouping, if_pos (by simpa using noCalls)]
    by_cases unsorted : orderBys = []
    · rw [sorting, if_pos (by simpa using unsorted)]
      -- a limit is there only when no row came, and it is not zero
      have limited : limiting limitCount (.ok stream) = .ok stream := by
        cases limit : limitCount with
        | none => rfl
        | some ival =>
          have none : stream.rows = [] := List.eq_nil_iff_forall_not_mem.mpr fun row member => by
            have := passes.noLimit ⟨row, delivered row member⟩
            rw [limit] at this
            cases this
          have notZero : (ival % 2 ^ 64).toNat ≠ 0 := fun zero => by
            rcases passes.notHidden fail ⟨ival, limit, zero⟩ with calls | sorts
            · exact calls noCalls
            · exact sorts unsorted
          rw [limiting_some, if_neg]
          rw [none]
          exact Nat.not_le_of_gt (Nat.pos_of_ne_zero notZero)
      rw [limited, projecting_eq fun row member => passes.reproduced row (delivered row member)]
      simp [Except.bind, Stream.drain, failed]
    · rw [sorting_failed unsorted failed, limiting_error, projecting_error]
      rfl
  · have noRow : stream.rows = [] :=
      List.eq_nil_iff_forall_not_mem.mpr fun row member => noCalls (passes.noCall ⟨row, delivered row member⟩)
    rw [grouping_failed noCalls noRow failed, sorting_error, limiting_error, projecting_error]
    rfl

/-- An aggregation of nothing gives nothing, or the row of zeros that the limit takes away. -/
theorem PassesThrough.outcome_aggregated {selected : Row F → Prop} {fails : Prop}
    (passes : PassesThrough targets groupBys orderBys limitCount selected fails) (calls : targets.aggCalls ≠ []) :
    outcome runtime targets groupBys orderBys limitCount { rows := [] } = .ok [] := by
  have unprojected (child : Executor F) : projecting targets child = child := by
    rw [projecting, if_neg (by simp [calls])]
  unfold outcome
  rw [unprojected, grouping, if_neg (by simpa using calls)]
  cases groupBys with
  | nil =>
    obtain ⟨ival, limit, zero⟩ := (passes.grouped calls).resolve_left fun ne => ne rfl
    have zeros : AggregationExecutor.init runtime [] targets.aggCalls (.ok { rows := [] }) =
        .ok { rows := [targets.aggCalls.map fun _ => .integer 0] } := rfl
    rw [zeros, sorting_single (by simp), limit, limiting_some, zero, if_pos (Nat.zero_le _)]
    rfl
  | cons first rest =>
    have visited : runtime.visit [] = [] := (runtime.visit_perm []).eq_nil
    have nothing : AggregationExecutor.init runtime (first :: rest) targets.aggCalls (.ok { rows := [] }) =
      .ok { rows := [] } := by
      simp [AggregationExecutor.init, AggregationExecutor.aggregate, Stream.drain, bind, Except.bind, pure, Except.pure]
      exact visited
    rw [nothing, sorting_single (by simp), limiting_nil]
    rfl

/-- Where the stages leave the selected rows alone, what comes out is what the scan delivers. -/
theorem PassesThrough.sameRows {selected : Row F → Prop} {fails : Prop}
    (passes : PassesThrough targets groupBys orderBys limitCount selected fails)
    (delivered : ∀ row ∈ stream.rows, selected row) (failed : stream.error ≠ none → fails) :
    SameRows stream.drain (outcome runtime targets groupBys orderBys limitCount stream) := by
  obtain ⟨rows, error⟩ := stream
  cases error with
  | some message =>
    rw [passes.outcome_failed delivered rfl (failed (by simp))]
    trivial
  | none =>
    have none_of (some : limitCount ≠ none ∨ targets.aggCalls ≠ []) : rows = [] :=
      List.eq_nil_iff_forall_not_mem.mpr fun row member => some.elim
        (fun limited => limited (passes.noLimit ⟨row, delivered row member⟩))
        fun calls => calls (passes.noCall ⟨row, delivered row member⟩)
    by_cases noCalls : targets.aggCalls = []
    · obtain ⟨sorted, returned, perm⟩ := sorting_returns runtime fun a memA b memB =>
        passes.sortable a b (delivered a memA) (delivered b memB)
      have limited : limiting limitCount (.ok { rows := sorted } : Executor F) = .ok { rows := sorted } := by
        cases limit : limitCount with
        | none => rfl
        | some ival =>
          have empty : sorted = [] := by
            have := perm
            rw [none_of (.inl (by simp [limit]))] at this
            exact this.eq_nil
          rw [empty, limiting_nil]
      have projected : projecting targets (.ok { rows := sorted } : Executor F) = .ok { rows := sorted } :=
        projecting_eq fun row member => passes.reproduced row (delivered row (perm.mem_iff.mp member))
      rw [outcome, grouping, if_pos (by simpa using noCalls), returned, limited, projected]
      exact perm.symm
    · obtain rfl := none_of (.inr noCalls)
      rw [passes.outcome_aggregated noCalls]
      exact .refl _

end Sufficient

section Necessary

variable {out : List (Row F)}

omit [PrintsFloat F] in
theorem length_sorting {sorted : Stream F} (ran : sorting runtime orderBys (.ok stream) = .ok sorted) :
    sorted.rows.length = stream.rows.length := by
  unfold sorting at ran
  split_ifs at ran
  · cases ran
    rfl
  · simp only [SortExecutor.init, bind_eq_ok_iff, pure_eq_ok_iff, Except.ok.injEq, exists_eq_left',
      Stream.drain_eq_ok_iff] at ran
    obtain ⟨rows, ⟨-, rfl⟩, result, returned, rfl⟩ := ran
    exact (SortExecutor.sort_sorted returned).1.length_eq

omit [Field F] [LinearOrder F] [PrintsFloat F] in
theorem length_limiting {limited : Stream F} (ran : limiting limitCount (.ok stream) = .ok limited) :
    limited.rows.length ≤ stream.rows.length ∧
      ∀ ival, limitCount = some ival → limited.rows.length ≤ (ival % 2 ^ 64).toNat := by
  cases limitCount with
  | none =>
    cases ran
    exact ⟨le_rfl, fun _ some => by cases some⟩
  | some ival =>
    rw [limiting_some] at ran
    cases ran
    split_ifs with reached
    · refine ⟨?_, ?_⟩
      · simp
      · rintro _ ⟨⟩
        simp
    · refine ⟨le_rfl, ?_⟩
      rintro _ ⟨⟩
      exact (not_le.mp reached).le

omit [PrintsFloat F] in
theorem length_project (expressions : List (Expression F)) (error : Option String) (rows : List (Row F)) :
    (ProjectionExecutor.project expressions error rows).rows.length ≤ rows.length := by
  induction rows with
  | nil => exact le_rfl
  | cons row rest ih =>
    unfold ProjectionExecutor.project
    split
    · exact Nat.zero_le _
    · exact Nat.succ_le_succ ih

omit [PrintsFloat F] in
theorem length_projecting {projected : Stream F} (ran : projecting targets (.ok stream) = .ok projected) :
    projected.rows.length ≤ stream.rows.length := by
  unfold projecting at ran
  split_ifs at ran
  · cases ran
    exact length_project _ _ _
  · cases ran
    exact le_rfl

/-- No stage above the aggregation adds a row. -/
theorem length_outcome {grouped : Stream F} (ran : grouping runtime targets groupBys (.ok stream) = .ok grouped)
    (delivered : outcome runtime targets groupBys orderBys limitCount stream = .ok out) :
    out.length ≤ grouped.rows.length ∧ ∀ ival, limitCount = some ival →
    out.length ≤ (ival % 2 ^ 64).toNat := by
  obtain ⟨grouped', sorted, limited, projected, ran', sortRan, limitRan, projectRan, drained⟩ :=
    outcome_eq_ok delivered
  obtain ⟨-, rfl⟩ := Stream.drain_eq_ok_iff.mp drained
  cases ran.symm.trans ran'
  have atMost := length_projecting projectRan
  have fewer := length_limiting limitRan
  have same := length_sorting sortRan
  exact ⟨by omega, fun ival some => atMost.trans (fewer.2 ival some)⟩

theorem addRow_eq_ok {calls : List (AggregationType × Expression F)} {groups groups' : AggregationExecutor.Groups F}
    {row : Row F}
    (added : AggregationExecutor.addRow groupBys calls groups row = .ok groups') :
    ∃ values state, (groupBys.mapM fun e => e.evaluate row) = .ok values ∧
      groups' = groups.insert (AggregationExecutor.groupKey values) state := by
  simp only [AggregationExecutor.addRow, bind_eq_ok_iff, pure_eq_ok_iff] at added
  obtain ⟨values, evaluated, state, -, rfl⟩ := added
  exact ⟨values, state, evaluated, rfl⟩

/-- Two copies of a row fall into one group. -/
theorem length_grouping_pair (calls : targets.aggCalls ≠ []) {row : Row F} {grouped : Stream F}
    (ran : grouping runtime targets groupBys (.ok { rows := [row, row] }) = .ok grouped) :
    grouped.rows.length ≤ 1 := by
  rw [grouping, if_neg (by simpa using calls)] at ran
  simp only [AggregationExecutor.init, AggregationExecutor.aggregate, bind_eq_ok_iff, pure_eq_ok_iff, Except.ok.injEq,
    exists_eq_left', Stream.drain_eq_ok_iff] at ran
  obtain ⟨result, ⟨groups, added, made⟩, -, -, rfl⟩ := ran
  simp only [List.foldlM_cons, List.foldlM_nil, bind_eq_ok_iff, pure_eq_ok_iff] at added
  obtain ⟨once, addedOnce, twice, addedTwice, rfl⟩ := added
  obtain ⟨values, state, evaluated, rfl⟩ := addRow_eq_ok addedOnce
  obtain ⟨values', state', evaluated', rfl⟩ := addRow_eq_ok addedTwice
  cases evaluated.symm.trans evaluated'
  cases made
  rw [List.length_map, (runtime.visit_perm _).length_eq, AList.insert_empty, AList.insert_singleton_eq]
  exact le_rfl

variable {predicate : Option (Expression F)} {fits : Row F → Prop}

/-- A row that fits and passes the scan. -/
def Selected (predicate : Option (Expression F)) (fits : Row F → Prop) (row : Row F) : Prop :=
  fits row ∧ Expression.holds predicate row = .ok true

/-- On whatever rows, what comes out is what the scan delivers. -/
def Agrees (predicate : Option (Expression F)) (fits : Row F → Prop) (targets : Targets F)
    (groupBys : List (Expression F))
    (orderBys : List (Bool × Expression F)) (limitCount : Option ℤ) : Prop :=
  ∀ (runtime : Runtime F) (rows : List (Row F)), (∀ row ∈ rows, fits row) →
    SameRows (SeqScanExecutor.scan predicate rows).drain
      (outcome runtime targets groupBys orderBys limitCount (SeqScanExecutor.scan predicate rows))

/-- Selected rows all come out. -/
theorem Agrees.outcome_selected (agrees : Agrees predicate fits targets groupBys orderBys limitCount)
    (rows : List (Row F))
    (selected : ∀ row ∈ rows, Selected predicate fits row) :
    ∃ out, outcome (.plain F) targets groupBys orderBys limitCount { rows } = .ok out ∧ rows.Perm out := by
  have same := agrees (.plain F) rows fun row member => (selected row member).1
  rw [SeqScanExecutor.scan_all fun row member => (selected row member).2] at same
  cases result : outcome (.plain F) targets groupBys orderBys limitCount { rows } with
  | error message =>
    rw [result] at same
    exact same.elim
  | ok out =>
    rw [result] at same
    exact ⟨out, rfl, same⟩

theorem Agrees.noCall (agrees : Agrees predicate fits targets groupBys orderBys limitCount) {row : Row F}
    (selected : Selected predicate fits row) : targets.aggCalls = [] := by
  by_contra calls
  obtain ⟨out, delivered, perm⟩ := agrees.outcome_selected [row, row] (by simp [selected])
  obtain ⟨grouped, -, -, -, ran, -⟩ := outcome_eq_ok delivered
  have atMost := (length_outcome ran delivered).1.trans (length_grouping_pair calls ran)
  have two := perm.length_eq
  simp only [List.length_cons, List.length_nil] at two
  omega

theorem Agrees.noLimit (agrees : Agrees predicate fits targets groupBys orderBys limitCount) {row : Row F}
    (selected : Selected predicate fits row) : limitCount = none := by
  cases limit : limitCount with
  | none => rfl
  | some ival =>
    obtain ⟨out, delivered, perm⟩ := agrees.outcome_selected (List.replicate ((ival % 2 ^ 64).toNat + 1) row)
      fun other member => List.eq_of_mem_replicate member ▸ selected
    have atMost := (length_outcome (grouping_eq (agrees.noCall selected) _) delivered).2 ival limit
    have more := perm.length_eq
    rw [List.length_replicate] at more
    omega

theorem Agrees.sortable (agrees : Agrees predicate fits targets groupBys orderBys limitCount) {a b : Row F}
    (selectedA : Selected predicate fits a) (selectedB : Selected predicate fits b) :
    ∃ answer, SortExecutor.less orderBys a b = .ok answer := by
  by_contra incomparable
  have sorts : orderBys ≠ [] := by
    rintro rfl
    exact incomparable ⟨false, rfl⟩
  obtain ⟨out, delivered, -⟩ := agrees.outcome_selected [a, b] (by simp [selectedA, selectedB])
  obtain ⟨grouped, sorted, -, -, ran, sortRan, -⟩ := outcome_eq_ok delivered
  cases (grouping_eq (agrees.noCall selectedA) _).symm.trans ran
  obtain ⟨rows, returned, -⟩ := (sorting_eq_ok sorts).mp sortRan
  obtain ⟨message, thrown⟩ := SortExecutor.sort_throws (.plain F) incomparable
  cases thrown.symm.trans returned

theorem Agrees.reproduced (agrees : Agrees predicate fits targets groupBys orderBys limitCount) {row : Row F}
    (selected : Selected predicate fits row) (noStar : targets.isStar = false) (some : targets.outputExprs ≠ []) :
    (targets.outputExprs.mapM fun e => e.evaluate row) = .ok row := by
  have noCalls := agrees.noCall selected
  have noLimit := agrees.noLimit selected
  obtain ⟨out, delivered, perm⟩ := agrees.outcome_selected [row] (by simp [selected])
  obtain rfl := List.perm_singleton.mp perm.symm
  rw [outcome, grouping_eq noCalls, sorting_single (by simp), noLimit] at delivered
  simp only [limiting, Option.elim_none, projecting, noStar, noCalls, Bool.not_false, List.isEmpty_nil, Bool.and_self,
    List.isEmpty_eq_false_iff.mpr some, ↓reduceIte, ProjectionExecutor.init, bind, Except.bind, pure,
    Except.pure, Stream.drain_eq_ok_iff, ProjectionExecutor.project] at delivered
  cases values : targets.outputExprs.mapM fun e => e.evaluate row with
  | error message =>
    rw [values] at delivered
    cases delivered.1
  | ok projected =>
    rw [values] at delivered
    exact congrArg Except.ok (List.cons.inj delivered.2).1

theorem Agrees.grouped (agrees : Agrees predicate fits targets groupBys orderBys limitCount)
    (calls : targets.aggCalls ≠ []) :
    groupBys ≠ [] ∨ IsZero limitCount := by
  by_contra neither
  obtain ⟨noGroups, notZero⟩ := not_or.mp neither
  obtain rfl := not_not.mp noGroups
  obtain ⟨out, delivered, perm⟩ := agrees.outcome_selected [] (by simp)
  obtain rfl := perm.symm.eq_nil
  have zeros : grouping (.plain F) targets [] (.ok { rows := [] }) =
      .ok { rows := [targets.aggCalls.map fun _ => .integer 0] } := by
    rw [grouping, if_neg (by simpa using calls)]
    rfl
  have limited : limiting limitCount (.ok { rows := [targets.aggCalls.map fun _ => (.integer 0 : Value F)] }) =
      .ok { rows := [targets.aggCalls.map fun _ => .integer 0] } := by
    cases limit : limitCount with
    | none => rfl
    | some ival =>
      have positive : (ival % 2 ^ 64).toNat ≠ 0 := fun zero => notZero ⟨ival, limit, zero⟩
      rw [limiting_some, List.take_of_length_le (Nat.pos_of_ne_zero positive), ite_self]
  rw [outcome, zeros, sorting_single (by simp), limited, projecting, if_neg (by simp [calls])] at delivered
  cases delivered

theorem Agrees.notHidden (agrees : Agrees predicate fits targets groupBys orderBys limitCount) {row : Row F}
    (fit : fits row) {message : String} (failed : Expression.holds predicate row = .error message)
    (zero : IsZero limitCount) :
    targets.aggCalls ≠ [] ∨ orderBys ≠ [] := by
  by_contra neither
  obtain ⟨noCalls, unsorted⟩ := not_or.mp neither
  obtain ⟨ival, rfl, zero⟩ := zero
  have scanned : SeqScanExecutor.scan predicate [row] = { rows := [], error := some message } := by
    simp only [SeqScanExecutor.scan, failed]
  have same := agrees (.plain F) [row] (by simpa using fit)
  rw [scanned, outcome, grouping_eq (not_not.mp noCalls), sorting, if_pos (by simpa using unsorted),
    limiting_some, zero,
    if_pos (Nat.zero_le _), List.take_zero, projecting_eq (by simp)] at same
  exact same

/-- The stages leave alone exactly the rows that can be selected. -/
theorem agrees_iff : Agrees predicate fits targets groupBys orderBys limitCount ↔
    PassesThrough targets groupBys orderBys limitCount (Selected predicate fits)
      (∃ row, fits row ∧ ∃ message, Expression.holds predicate row = .error message) := by
  constructor
  · intro agrees
    exact {
      noCall := fun ⟨_, selected⟩ => agrees.noCall selected
      noLimit := fun ⟨_, selected⟩ => agrees.noLimit selected
      sortable := fun _ _ => agrees.sortable
      reproduced := fun _ => agrees.reproduced
      grouped := agrees.grouped
      notHidden := fun ⟨_, fit, _, failed⟩ => agrees.notHidden fit failed }
  · intro passes runtime rows fit
    refine passes.sameRows (fun row member => ?_) fun failed => ?_
    · obtain ⟨stored, passed⟩ := SeqScanExecutor.mem_of_mem_scan member
      exact ⟨fit row stored, passed⟩
    · obtain ⟨message, failed⟩ := Option.ne_none_iff_exists'.mp failed
      obtain ⟨row, stored, failedRow⟩ := SeqScanExecutor.exists_of_scan_error failed
      exact ⟨row, fit row stored, message, failedRow⟩

end Necessary

end SelectPlan

section Statement

open SelectPlan

variable {F : Type} [Field F] [LinearOrder F]

/-- The WHERE clause at a row. -/
def whereAt (scopes : List TableScope) (select : SelectStmt F) (row : Row F) : Except String Bool := do
  let predicate ← bindPredicate scopes select.whereClause
  Expression.holds predicate row

/-- Whether the ORDER BY clause puts one row before another. -/
def orderAt (scopes : List TableScope) (select : SelectStmt F) (a b : Row F) : Except String Bool := do
  let orderBys ← select.sortClause.mapM (bindSortBy scopes)
  SortExecutor.less orderBys a b

/-- The targets at a row. -/
def targetsAt (scopes : List TableScope) (select : SelectStmt F) (row : Row F) : Except String (Row F) :=
  select.targetList.mapM fun val => do (← bindExpression scopes val).evaluate row

/-- A row of the table can pass the WHERE clause. -/
def Selects (scope : TableScope) (select : SelectStmt F) (row : Row F) : Prop :=
  RowFits scope.info.schema row ∧ whereAt [scope] select row = .ok true

/-- The clauses other than FROM and WHERE make no difference, whatever the table holds. -/
structure Transparent (scope : TableScope) (select : SelectStmt F) : Prop where
  /-- Where a row can pass, there is no aggregate, -/
  noCall : (∃ row, Selects scope select row) → ∀ val ∈ select.targetList, aggregateCall val = none
  /-- and no limit; -/
  noLimit : (∃ row, Selects scope select row) → select.limitCount = none
  /-- any two rows that pass can be compared, -/
  sortable : ∀ a b, Selects scope select a → Selects scope select b →
    ∃ answer, orderAt [scope] select a b = .ok answer
  /-- and the targets reproduce them, or there is a star. -/
  reproduced : ∀ row, Selects scope select row →
    select.targetList.any isStarTarget = true ∨ select.targetList = [] ∨ targetsAt [scope] select row = .ok row
  /-- An aggregation of nothing has no groups, or its row is cut off; -/
  grouped : (∃ val ∈ select.targetList, aggregateCall val ≠ none) → select.groupClause ≠ [] ∨
    IsZero select.limitCount
  /-- and where the WHERE clause can fail, it is evaluated. -/
  notHidden : (∃ row, RowFits scope.info.schema row ∧ ∃ message, whereAt [scope] select row = .error message) →
    IsZero select.limitCount → (∃ val ∈ select.targetList, aggregateCall val ≠ none) ∨
      select.sortClause ≠ []

variable {scope : TableScope} {select : SelectStmt F} {predicate : Option (Expression F)} {targets : Targets F}
  {groupBys : List (Expression F)} {orderBys : List (Bool × Expression F)}

/-- The projection evaluates the targets. -/
theorem Binder.BoundSelect.outputs (bound : BoundSelect [scope] select predicate targets groupBys orderBys)
    (noCall : ∀ val ∈ select.targetList, aggregateCall val = none)
    (noStar : select.targetList.any isStarTarget = false) (row : Row F) :
    (targets.outputExprs ≠ [] ↔ select.targetList ≠ []) ∧
      (targets.outputExprs.mapM fun e => e.evaluate row) = targetsAt [scope] select row := by
  have exprsBound := bound.outputExprs_bound noCall noStar
  exact ⟨mapM_ne_nil_iff exprsBound, (mapM_bind_eq exprsBound fun e => e.evaluate row).symm⟩

theorem Binder.BoundSelect.passesThrough_iff (bound : BoundSelect [scope] select predicate targets groupBys orderBys) :
    PassesThrough targets groupBys orderBys select.limitCount (Selected predicate (RowFits scope.info.schema))
        (∃ row, RowFits scope.info.schema row ∧ ∃ message, Expression.holds predicate row = .error message) ↔
      Transparent scope select := by
  have filters (row : Row F) : whereAt [scope] select row = Expression.holds predicate row := by
    simp only [whereAt, bound.predicateBound, bind, Except.bind]
  have orders (a b : Row F) : orderAt [scope] select a b = SortExecutor.less orderBys a b := by
    simp only [orderAt, bound.orderBysBound, bind, Except.bind]
  have calls := bound.aggCalls_ne_nil_iff
  have noCalls := bound.aggCalls_eq_nil_iff
  have star := bound.isStar_eq
  have selects (row : Row F) : Selects scope select row ↔ Selected predicate (RowFits scope.info.schema) row := by
    rw [Selects, filters, Selected]
  have sorts : orderBys ≠ [] ↔ select.sortClause ≠ [] := mapM_ne_nil_iff bound.orderBysBound
  constructor
  · intro passes
    refine ⟨fun some => ?_, fun some => ?_, fun a b => ?_, fun row selected => ?_, fun some =>
      ?_, fun some zero => ?_⟩
    · simp only [selects] at some
      exact noCalls.mp (passes.noCall some)
    · simp only [selects] at some
      exact passes.noLimit some
    · rw [selects, selects, orders]
      exact passes.sortable a b
    · rw [selects] at selected
      have noCall := noCalls.mp (passes.noCall ⟨row, selected⟩)
      refine or_iff_not_imp_left.mpr fun noStar => or_iff_not_imp_left.mpr fun some => ?_
      obtain ⟨present, same⟩ := bound.outputs noCall (Bool.eq_false_of_not_eq_true noStar) row
      rw [← same]
      exact passes.reproduced row selected (star ▸ Bool.eq_false_of_not_eq_true noStar) (present.mpr some)
    · have groups := mapM_ne_nil_iff (bound.groupBysBound (calls.mpr some))
      exact (passes.grouped (calls.mpr some)).imp_left groups.mp
    · simp only [filters] at some
      exact (passes.notHidden some zero).imp calls.mp sorts.mp
  · intro transparent
    refine ⟨fun some => ?_, fun some => ?_, fun a b => ?_, fun row selected noStar present => ?_, fun some => ?_,
      fun some zero => ?_⟩
    · simp only [← selects] at some
      exact noCalls.mpr (transparent.noCall some)
    · simp only [← selects] at some
      exact transparent.noLimit some
    · rw [← selects, ← selects, ← orders]
      exact transparent.sortable a b
    · rw [← selects] at selected
      have noCall := transparent.noCall ⟨row, selected⟩
      obtain ⟨some, same⟩ := bound.outputs noCall (star ▸ noStar) row
      rw [same]
      rcases transparent.reproduced row selected with isStar | none | reproduced
      · rw [star, isStar] at noStar
        cases noStar
      · exact absurd none (some.mp present)
      · exact reproduced
    · have groups := mapM_ne_nil_iff (bound.groupBysBound some)
      exact (transparent.grouped (calls.mp some)).imp_left groups.mpr
    · simp only [← filters] at some
      exact (transparent.notHidden some zero).imp calls.mpr sorts.mpr

variable [PrintsFloat F]

/-- For an accepted SELECT over one table that is also accepted inside an INSERT, the insert's child delivers what
the SELECT alone returns, whatever the table holds, exactly when the other clauses make no difference. -/
theorem insert_sameRows_iff {getTable : GetTable} {rv : RangeVar} {info : TableInfo} {select : SelectStmt F}
    {relname : String} {plan child : Plan F} {oid : TableOid} (single : select.fromClause = [.rangeVar rv])
    (found : getTable rv.relname = some info) (accepted : bindSelect getTable select = .ok plan)
    (inserted : bindInsert getTable relname select = .ok (child, oid)) :
    (∀ (runtime : Runtime F) (db : Database F), (∀ row ∈ db info.oid, RowFits info.schema row) →
        SameRows (child.execute runtime db) (plan.execute runtime db)) ↔
      Transparent ⟨rv.scopeAlias, info, 0⟩ select := by
  obtain ⟨predicate, targets, groupBys, orderBys, bound, rfl⟩ := bindSelect_single single found accepted
  obtain rfl := bindInsert_single single found inserted bound.predicateBound
  rw [← bound.passesThrough_iff, ← agrees_iff]
  have executed (runtime : Runtime F) (db : Database F) :
      (selectPlan (.seqScan info.oid predicate) targets groupBys orderBys select.limitCount).execute runtime db =
        outcome runtime targets groupBys orderBys select.limitCount (SeqScanExecutor.scan predicate (db info.oid)) := by
    rw [execute_eq, executor_selectPlan, outcome]
  simp only [executed]
  constructor
  · intro same runtime rows fit
    exact same runtime (fun _ => rows) fit
  · intro agrees runtime db fit
    exact agrees runtime (db info.oid) fit

end Statement

section Instances

open Reference SelectPlan

/-- `SELECT id, val FROM base ORDER BY id`. -/
def columnsInOrder : SelectStmt ℚ :=
  { fromClause := [fromBase ℚ], targetList := [.columnRef ["id"], .columnRef ["val"]],
    sortClause := [⟨false, .columnRef ["id"]⟩] }

theorem transparent_columnsInOrder : Transparent ⟨"base", baseTable, 0⟩ columnsInOrder := by
  have noCall : ∀ val ∈ columnsInOrder.targetList, aggregateCall val = none := by
    simp [columnsInOrder, aggregateCall]
  have wide {row : Row ℚ} (fits : RowFits baseTable.schema row) :
      ∃ id val, row = [id, val] ∧ id.typeId = .integer ∧ val.typeId = .integer := by
    have types : row.map Value.typeId = [.integer, .integer] := fits.1
    obtain ⟨id, val, rfl⟩ := List.length_eq_two.mp (by simpa using congrArg List.length types)
    exact ⟨id, val, rfl, by simpa using types⟩
  refine ⟨fun _ => noCall, fun _ => rfl, fun a b selectsA selectsB => ?_, fun row selects => ?_, fun some => ?_,
    fun _ zero => ?_⟩
  · have ordered : orderAt [⟨"base", baseTable, 0⟩] columnsInOrder a b =
        SortExecutor.less [(true, .columnValue 0 0 .integer)] a b := rfl
    obtain ⟨idA, valA, rfl, typeA, -⟩ := wide selectsA.1
    obtain ⟨idB, valB, rfl, typeB, -⟩ := wide selectsB.1
    simp only [ordered, SortExecutor.less_cons_eq_ok_iff]
    by_cases same : idA.rank = idB.rank
    · exact ⟨false, idA, idB, rfl, rfl, typeA.trans typeB.symm, by simp [typeA], by rw [if_pos same]; rfl⟩
    · exact ⟨_, idA, idB, rfl, rfl, typeA.trans typeB.symm, by simp [typeA], by
        rw [if_neg same]
        exact ⟨by simp [typeA], rfl⟩⟩
  · obtain ⟨id, val, rfl, -⟩ := wide selects.1
    exact .inr (.inr rfl)
  · obtain ⟨val, member, call⟩ := some
    exact absurd (noCall val member) call
  · obtain ⟨ival, some, -⟩ := zero
    cases some

theorem insert_columnsInOrder : Transparent ⟨"base", baseTable, 0⟩ columnsInOrder ∧
    ∀ (runtime : Runtime ℚ) (db : Database ℚ), (∀ row ∈ db 0, RowFits baseTable.schema row) →
      SameRows ((Plan.seqScan 0 none).execute runtime db)
        ((Plan.projection (.sort (.seqScan 0 none) [(true, .columnValue 0 0 .integer)])
          [.columnValue 0 0 .integer, .columnValue 0 1 .integer]).execute runtime db) := by
  have single : columnsInOrder.fromClause = [.rangeVar ⟨"base", none⟩] := rfl
  have accepted : bindSelect baseAndProbe columnsInOrder = .ok (.projection
      (.sort (.seqScan 0 none) [(true, .columnValue 0 0 .integer)])
      [.columnValue 0 0 .integer, .columnValue 0 1 .integer]) := by decide +kernel
  have inserted : bindInsert baseAndProbe "probe" columnsInOrder = .ok (.seqScan 0 none, 1) := by decide +kernel
  have same := insert_sameRows_iff single (by rfl : baseAndProbe "base" = some baseTable) accepted inserted
  exact ⟨transparent_columnsInOrder, same.mpr transparent_columnsInOrder⟩

/-- `SELECT val FROM base ORDER BY id LIMIT 1`. -/
def firstValue : SelectStmt ℚ :=
  { fromClause := [fromBase ℚ], targetList := [.columnRef ["val"]], sortClause := [⟨false, .columnRef ["id"]⟩],
    limitCount := some 1 }

/-- Alone it returns (7); `INSERT INTO probe` receives (1, 7) and (3, 8). -/
theorem insert_ignores_clauses :
    ∃ plan child, bindSelect baseAndProbe firstValue = .ok plan ∧
      bindInsert baseAndProbe "probe" firstValue = .ok (child, 1) ∧
      plan.execute (.plain ℚ) smallDb = .ok [[.integer 7]] ∧
      child.execute (.plain ℚ) smallDb = .ok [[.integer 1, .integer 7], [.integer 3, .integer 8]] ∧
      ¬ SameRows (child.execute (.plain ℚ) smallDb) (plan.execute (.plain ℚ) smallDb) := by
  refine ⟨.projection (.limit (.sort (.seqScan 0 none) [(true, .columnValue 0 0 .integer)]) 1)
    [.columnValue 0 1 .integer],
    .seqScan 0 none, by decide +kernel, by decide +kernel, ?_⟩
  have alone : (Plan.projection (.limit (.sort (.seqScan 0 none) [(true, .columnValue 0 0 .integer)]) 1)
      [.columnValue 0 1 .integer]).execute (.plain ℚ) smallDb = .ok [[.integer 7]] := by decide +kernel
  have inside : (Plan.seqScan 0 none).execute (.plain ℚ) smallDb =
      .ok [[.integer 1, .integer 7], [.integer 3, .integer 8]] := by
    decide +kernel
  rw [alone, inside]
  exact ⟨rfl, rfl, fun perm => absurd perm.length_eq (by decide)⟩

end Instances

end OneBase
