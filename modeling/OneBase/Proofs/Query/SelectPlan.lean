import OneBase.Proofs.Query.Executors
import OneBase.Proofs.Query.FromClause
import OneBase.Proofs.Query.Sort

/-! # The plan of a SELECT over one table

The binder puts the stages of a SELECT on top of each other: scan, aggregation, sort, limit,
projection, each only when its clause asks for it. Executing the plan runs the scan's rows through the
stages.
-/

namespace OneBase

open ExceptLoops

namespace Binder

section Targets

variable {F : Type} {scopes : List TableScope}

/-- A target that stands for all columns. -/
def isStarTarget : PgNode F → Bool
  | .aStar => true
  | .columnStar none => true
  | _ => false

/-- An aggregate call, with its arguments. -/
def aggregateCall : PgNode F → Option (AggregationType × List (PgNode F))
  | .funcCall funcname aggStar args => (aggregateType funcname aggStar args).map fun aggType => (aggType, args)
  | _ => none

/-- A target that is neither a star nor an aggregate call. -/
def isPlainTarget (val : PgNode F) : Bool := !isStarTarget val && (aggregateCall val).isNone

/-- One round of the loop over the target list, by the kind of the target. -/
theorem bindTarget_eq (targets : Targets F) (val : PgNode F) : bindTarget scopes targets val =
    if isStarTarget val then .ok { targets with isStar := true }
    else match aggregateCall val with
      | some (aggType, args) => do
        let call ← bindAggregate scopes aggType args
        return { targets with aggCalls := targets.aggCalls ++ [call] }
      | none => do
        let e ← bindExpression scopes val
        return { targets with outputExprs := targets.outputExprs ++ [e] } := by
  cases val with
  | columnStar qualifier => cases qualifier <;> rfl
  | funcCall funcname aggStar args =>
    simp only [bindTarget, isStarTarget, aggregateCall]
    cases aggregateType funcname aggStar args <;> rfl
  | _ => rfl

/-- The loop over the target list sorts the targets by their kinds. -/
theorem bindTargets_spec {targetList : List (PgNode F)} {start targets : Targets F}
    (bound : targetList.foldlM (bindTarget scopes) start = .ok targets) :
    targets.isStar = (start.isStar || targetList.any isStarTarget) ∧
      (∃ exprs, targets.outputExprs = start.outputExprs ++ exprs ∧
        (targetList.filter isPlainTarget).mapM (bindExpression scopes) = .ok exprs) ∧
      ∃ calls, targets.aggCalls = start.aggCalls ++ calls ∧
        (targetList.filterMap aggregateCall).mapM (fun call => bindAggregate scopes call.1 call.2) = .ok calls := by
  induction targetList generalizing start with
  | nil =>
    cases bound
    exact ⟨by simp, ⟨[], by simp, rfl⟩, [], by simp, rfl⟩
  | cons val rest ih =>
    simp only [List.foldlM_cons, bind_eq_ok_iff, bindTarget_eq] at bound
    obtain ⟨next, stepped, bound⟩ := bound
    obtain ⟨star, ⟨exprs, outputs, exprsBound⟩, calls, aggregates, callsBound⟩ := ih bound
    split_ifs at stepped with isStar
    · cases stepped
      have notPlain : isPlainTarget val = false := by simp [isPlainTarget, isStar]
      have noCall : aggregateCall val = none := by
        cases val <;> first | rfl | cases isStar
      exact ⟨by simp [star, isStar], ⟨exprs, outputs, by simpa [notPlain] using exprsBound⟩, calls, aggregates,
        by simpa [noCall] using callsBound⟩
    · cases called : aggregateCall val with
      | some call =>
        simp only [called, bind_eq_ok_iff, pure_eq_ok_iff] at stepped
        obtain ⟨e, callBound, rfl⟩ := stepped
        have notPlain : isPlainTarget val = false := by simp [isPlainTarget, called]
        refine ⟨by simp [star, isStar], ⟨exprs, outputs, by simpa [notPlain] using exprsBound⟩, e :: calls, by
          simp [aggregates], ?_⟩
        rw [List.filterMap_cons_some called, List.mapM_cons, callBound, callsBound]
        rfl
      | none =>
        simp only [called, bind_eq_ok_iff, pure_eq_ok_iff] at stepped
        obtain ⟨e, exprBound, rfl⟩ := stepped
        have plain : isPlainTarget val = true := by simp [isPlainTarget, called, isStar]
        refine ⟨by simp [star, isStar], ⟨e :: exprs, by simp [outputs], ?_⟩, calls, aggregates, by
          simpa [called] using callsBound⟩
        rw [List.filter_cons_of_pos plain, List.mapM_cons, exprBound, exprsBound]
        rfl

end Targets

section Stages

variable {F : Type}

/-- The stages on top of the scan. -/
def selectPlan (filtered : Plan F) (targets : Targets F) (groupBys : List (Expression F))
    (orderBys : List (Bool × Expression F)) (limitCount : Option ℤ) : Plan F :=
  let grouped := if targets.aggCalls.isEmpty then filtered else .aggregation filtered groupBys targets.aggCalls
  let sorted := if orderBys.isEmpty then grouped else .sort grouped orderBys
  let limited := match limitCount with
    | some ival => .limit sorted (ival % 2 ^ 64).toNat
    | none => sorted
  if !targets.isStar && targets.aggCalls.isEmpty && !targets.outputExprs.isEmpty then
    .projection limited targets.outputExprs
  else limited

/-- What the binder makes of a SELECT over one table. -/
structure BoundSelect (scopes : List TableScope) (select : SelectStmt F) (predicate : Option (Expression F))
    (targets : Targets F) (groupBys : List (Expression F)) (orderBys : List (Bool × Expression F)) : Prop where
  predicateBound : bindPredicate scopes select.whereClause = .ok predicate
  targetsBound : select.targetList.foldlM (bindTarget scopes) {} = .ok targets
  groupBysBound : targets.aggCalls ≠ [] → select.groupClause.mapM (bindExpression scopes) = .ok groupBys
  orderBysBound : select.sortClause.mapM (bindSortBy scopes) = .ok orderBys

variable {getTable : GetTable} {rv : RangeVar} {info : TableInfo} {select : SelectStmt F} {plan : Plan F}

theorem bindWhere_seqScan {scope : TableScope} {filtered : Plan F} {whereClause : Option (PgNode F)}
    (bound : bindWhere [scope] (.seqScan scope.info.oid none) whereClause = .ok filtered) :
    ∃ predicate, bindPredicate [scope] whereClause = .ok predicate ∧
      filtered = .seqScan scope.info.oid predicate := by
  cases whereClause with
  | none =>
    cases bound
    exact ⟨none, rfl, rfl⟩
  | some node =>
    simp only [bindWhere, bind_eq_ok_iff, pure_eq_ok_iff, List.head?_cons] at bound
    obtain ⟨e, exprBound, rfl⟩ := bound
    exact ⟨toPredicate e, by simp [bindPredicate, exprBound, bind, Except.bind, pure, Except.pure], rfl⟩

/-- The aggregation, when there is a call. -/
def bindGrouping (scopes : List TableScope) (groupClause : List (PgNode F)) (targets : Targets F) (filtered : Plan F) :
    Except String (Plan F) :=
  if targets.aggCalls.isEmpty then .ok filtered
  else do
    let groupBys ← groupClause.mapM (bindExpression scopes)
    return .aggregation filtered groupBys targets.aggCalls

/-- The sort, when there is an ORDER BY clause. -/
def bindSorting (scopes : List TableScope) (sortClause : List (SortBy F)) (grouped : Plan F) : Except String (Plan F) :=
  if sortClause.isEmpty then .ok grouped
  else do
    let orderBys ← sortClause.mapM (bindSortBy scopes)
    return .sort grouped orderBys

/-- The projection, when there are targets to project to. -/
def bindProjection (targets : Targets F) (limited : Plan F) : Except String (Plan F) :=
  if !targets.isStar && targets.aggCalls.isEmpty && !targets.outputExprs.isEmpty then
    if targets.outputExprs.any fun e => (toPredicate e).isNone then .error "undefined: null expression"
    else .ok (.projection limited targets.outputExprs)
  else .ok limited

theorem bindSelect_eq_stages : bindSelect getTable select = (do
    let (scopes, basePlan) ← bindFrom getTable select.fromClause
    let filtered ← bindWhere scopes basePlan select.whereClause
    let targets ← select.targetList.foldlM (bindTarget scopes) {}
    let grouped ← bindGrouping scopes select.groupClause targets filtered
    let sorted ← bindSorting scopes select.sortClause grouped
    bindProjection targets (match select.limitCount with
      | some ival => .limit sorted (ival % 2 ^ 64).toNat
      | none => sorted)) := by
  unfold bindSelect bindGrouping bindSorting bindProjection
  refine bind_congr fun base => bind_congr fun filtered => bind_congr fun targets => ?_
  split_ifs <;> simp <;> rfl

theorem bindGrouping_eq_ok {scopes : List TableScope} {groupClause : List (PgNode F)} {targets : Targets F}
    {filtered grouped : Plan F} (bound : bindGrouping scopes groupClause targets filtered = .ok grouped) :
    ∃ groupBys, (targets.aggCalls ≠ [] → groupClause.mapM (bindExpression scopes) = .ok groupBys) ∧
      grouped = if targets.aggCalls.isEmpty then filtered else .aggregation filtered groupBys targets.aggCalls := by
  unfold bindGrouping at bound
  split_ifs at bound ⊢ with noCalls
  · cases bound
    exact ⟨[], fun some => absurd (List.isEmpty_iff.mp noCalls) some, rfl⟩
  · simp only [bind_eq_ok_iff, pure_eq_ok_iff] at bound
    obtain ⟨groupBys, groupBysBound, rfl⟩ := bound
    exact ⟨groupBys, fun _ => groupBysBound, rfl⟩

theorem bindSorting_eq_ok {scopes : List TableScope} {sortClause : List (SortBy F)} {grouped sorted : Plan F}
    (bound : bindSorting scopes sortClause grouped = .ok sorted) :
    ∃ orderBys, sortClause.mapM (bindSortBy scopes) = .ok orderBys ∧
      sorted = if orderBys.isEmpty then grouped else .sort grouped orderBys := by
  unfold bindSorting at bound
  cases sortClause with
  | nil =>
    cases bound
    exact ⟨[], rfl, rfl⟩
  | cons sortBy rest =>
    simp only [List.isEmpty_cons, Bool.false_eq_true, ↓reduceIte, bind_eq_ok_iff, pure_eq_ok_iff] at bound
    obtain ⟨orderBys, orderBysBound, rfl⟩ := bound
    refine ⟨orderBys, orderBysBound, ?_⟩
    have length := (mapM_eq_ok_iff.mp orderBysBound).length_eq
    cases orderBys with
    | nil => cases length
    | cons first others => rfl

theorem bindProjection_eq_ok {targets : Targets F} {limited : Plan F}
    (bound : bindProjection targets limited = .ok plan) :
    plan = if !targets.isStar && targets.aggCalls.isEmpty && !targets.outputExprs.isEmpty then
      .projection limited targets.outputExprs else limited := by
  unfold bindProjection at bound
  split_ifs at bound ⊢ with projects null
  · cases bound
    rfl
  · cases bound
    rfl

/-- The plan of an accepted SELECT over one table. -/
theorem bindSelect_single (single : select.fromClause = [.rangeVar rv]) (found : getTable rv.relname = some info)
    (bound : bindSelect getTable select = .ok plan) :
    ∃ predicate targets groupBys orderBys,
      BoundSelect [⟨rv.scopeAlias, info, 0⟩] select predicate targets groupBys orderBys ∧
        plan = selectPlan (.seqScan info.oid predicate) targets groupBys orderBys select.limitCount := by
  simp only [bindSelect_eq_stages, single, Reference.bindFrom_rangeVar found, bind_eq_ok_iff, Except.ok.injEq,
    exists_eq_left'] at bound
  obtain ⟨filtered, whereBound, targets, targetsBound, grouped, groupingBound, sorted, sortingBound, bound⟩ := bound
  obtain ⟨predicate, predicateBound, rfl⟩ := bindWhere_seqScan whereBound
  obtain ⟨groupBys, groupBysBound, rfl⟩ := bindGrouping_eq_ok groupingBound
  obtain ⟨orderBys, orderBysBound, rfl⟩ := bindSorting_eq_ok sortingBound
  exact ⟨predicate, targets, groupBys, orderBys, ⟨predicateBound, targetsBound, groupBysBound, orderBysBound⟩,
    bindProjection_eq_ok bound⟩

variable {scope : TableScope} {predicate : Option (Expression F)} {targets : Targets F} {groupBys : List (Expression F)}
  {orderBys : List (Bool × Expression F)}

theorem BoundSelect.isStar_eq (bound : BoundSelect [scope] select predicate targets groupBys orderBys) :
    targets.isStar = select.targetList.any isStarTarget := by
  rw [(bindTargets_spec bound.targetsBound).1, Bool.false_or]

theorem BoundSelect.aggCalls_ne_nil_iff (bound : BoundSelect [scope] select predicate targets groupBys orderBys) :
    targets.aggCalls ≠ [] ↔ ∃ val ∈ select.targetList, aggregateCall val ≠ none := by
  obtain ⟨-, -, calls, aggregates, callsBound⟩ := bindTargets_spec bound.targetsBound
  rw [aggregates, List.nil_append, mapM_ne_nil_iff callsBound, ne_eq, List.filterMap_eq_nil_iff]
  push Not
  rfl

theorem BoundSelect.aggCalls_eq_nil_iff (bound : BoundSelect [scope] select predicate targets groupBys orderBys) :
    targets.aggCalls = [] ↔ ∀ val ∈ select.targetList, aggregateCall val = none := by
  rw [← not_iff_not, ← ne_eq, bound.aggCalls_ne_nil_iff]
  push Not
  rfl

/-- Without aggregates and stars, every target is projected to. -/
theorem BoundSelect.outputExprs_bound (bound : BoundSelect [scope] select predicate targets groupBys orderBys)
    (noCall : ∀ val ∈ select.targetList, aggregateCall val = none)
    (noStar : select.targetList.any isStarTarget = false) :
    select.targetList.mapM (bindExpression [scope]) = .ok targets.outputExprs := by
  obtain ⟨-, ⟨exprs, outputs, exprsBound⟩, -⟩ := bindTargets_spec bound.targetsBound
  have all : select.targetList.filter isPlainTarget = select.targetList := by
    rw [List.filter_eq_self]
    intro val member
    simp only [List.any_eq_false] at noStar
    simp [isPlainTarget, noCall val member, noStar val member]
  rw [all] at exprsBound
  rw [outputs, List.nil_append, exprsBound]

end Stages

end Binder

namespace SelectPlan

open Binder

variable {F : Type} [Field F] [LinearOrder F] [PrintsFloat F]

/-- The aggregation stage. -/
def grouping (runtime : Runtime F) (targets : Targets F) (groupBys : List (Expression F)) (child : Executor F) :
    Executor F :=
  if targets.aggCalls.isEmpty then child else AggregationExecutor.init runtime groupBys targets.aggCalls child

/-- The sort stage. -/
def sorting (runtime : Runtime F) (orderBys : List (Bool × Expression F)) (child : Executor F) : Executor F :=
  if orderBys.isEmpty then child else SortExecutor.init runtime orderBys child

/-- The limit stage. -/
def limiting (limitCount : Option ℤ) (child : Executor F) : Executor F :=
  limitCount.elim child fun ival => LimitExecutor.init (ival % 2 ^ 64).toNat child

/-- The projection stage. -/
def projecting (targets : Targets F) (child : Executor F) : Executor F :=
  if !targets.isStar && targets.aggCalls.isEmpty && !targets.outputExprs.isEmpty then
    ProjectionExecutor.init targets.outputExprs child
  else child

variable {runtime : Runtime F} {db : Database F} {targets : Targets F} {groupBys : List (Expression F)}
  {orderBys : List (Bool × Expression F)} {limitCount : Option ℤ} {oid : TableOid}
  {predicate : Option (Expression F)}

/-- The rows of the scan go through the stages. -/
theorem executor_selectPlan :
    (selectPlan (.seqScan oid predicate) targets groupBys orderBys limitCount).executor runtime db =
    projecting targets (limiting limitCount (sorting runtime orderBys (grouping runtime targets groupBys
      (.ok (SeqScanExecutor.scan predicate (db oid)))))) := by
  unfold selectPlan projecting limiting sorting grouping
  cases limitCount <;> split_ifs <;> rfl

theorem execute_eq (plan : Plan F) :
    plan.execute runtime db = Except.bind (plan.executor runtime db) Stream.drain := rfl

section Stages

variable {message : String} {stream : Stream F} {out : List (Row F)}

omit [PrintsFloat F] in
/-- An exception of `Init` comes out at the top. -/
theorem projecting_error : projecting targets (.error message) = .error message := by
  unfold projecting
  split_ifs <;> rfl

omit [Field F] [LinearOrder F] [PrintsFloat F] in
theorem limiting_error : limiting limitCount (.error message : Executor F) = .error message := by
  cases limitCount <;> rfl

omit [PrintsFloat F] in
theorem sorting_error : sorting runtime orderBys (.error message) = .error message := by
  unfold sorting
  split_ifs <;> rfl

/-- A scan that fails before its first row fails the stages that read all rows first. -/
theorem grouping_failed (calls : targets.aggCalls ≠ []) (noRow : stream.rows = [])
    (failed : stream.error = some message) :
    grouping runtime targets groupBys (.ok stream) = .error message := by
  have aggregated : ∃ rows, AggregationExecutor.aggregate runtime groupBys targets.aggCalls [] = .ok rows := by
    simp only [AggregationExecutor.aggregate, List.foldlM_nil, pure, Except.pure, bind, Except.bind]
    split_ifs <;> exact ⟨_, rfl⟩
  obtain ⟨rows, aggregated⟩ := aggregated
  rw [grouping, if_neg (by simpa using calls)]
  simp [AggregationExecutor.init, noRow, aggregated, Stream.drain, failed, bind, Except.bind]

omit [PrintsFloat F] in
theorem sorting_failed (sorts : orderBys ≠ []) (failed : stream.error = some message) :
    sorting runtime orderBys (.ok stream) = .error message := by
  rw [sorting, if_neg (by simpa using sorts)]
  simp [SortExecutor.init, Stream.drain, failed, bind, Except.bind]

omit [PrintsFloat F] in
/-- The sort stage on rows that all came. -/
theorem sorting_eq_ok (sorts : orderBys ≠ []) {rows : List (Row F)} {out : Stream F} :
    sorting runtime orderBys (.ok { rows }) = .ok out ↔
      ∃ sorted, runtime.sort (SortExecutor.less orderBys) rows = .ok sorted ∧ out = { rows := sorted } := by
  rw [sorting, if_neg (by simpa using sorts)]
  simp only [SortExecutor.init, Stream.drain, Option.elim_none, bind_eq_ok_iff, pure_eq_ok_iff, Except.ok.injEq,
    exists_eq_left', eq_comm (a := out)]

theorem grouping_eq (noCalls : targets.aggCalls = []) (child : Executor F) :
    grouping runtime targets groupBys child = child := by
  rw [grouping, if_pos (by simpa using noCalls)]

omit [Field F] [LinearOrder F] [PrintsFloat F] in
theorem limiting_some (ival : ℤ) : limiting (some ival) (.ok stream) = .ok
    (if (ival % 2 ^ 64).toNat ≤
      stream.rows.length then { rows := stream.rows.take (ival % 2 ^ 64).toNat } else stream) := rfl

omit [Field F] [LinearOrder F] [PrintsFloat F] in
theorem limiting_nil : limiting limitCount (.ok { rows := [] } : Executor F) = .ok { rows := [] } := by
  cases limitCount with
  | none => rfl
  | some ival =>
    rw [limiting_some, List.take_nil]
    split_ifs <;> rfl

omit [PrintsFloat F] in
theorem sorting_single {rows : List (Row F)} (single : rows.length ≤ 1) :
    sorting runtime orderBys (.ok { rows }) = .ok { rows } := by
  by_cases sorts : orderBys = []
  · rw [sorting, if_pos (by simpa using sorts)]
  · exact (sorting_eq_ok sorts).mpr ⟨rows, runtime.sort_single _ _ single, rfl⟩

omit [PrintsFloat F] in
/-- Rows that can be compared come out of the sort stage in some order. -/
theorem sorting_returns (runtime : Runtime F) {rows : List (Row F)}
    (sortable : ∀ a ∈ rows, ∀ b ∈ rows, ∃ answer, SortExecutor.less orderBys a b = .ok answer) :
    ∃ sorted, sorting runtime orderBys (.ok { rows }) = .ok { rows := sorted } ∧ sorted.Perm rows := by
  by_cases sorts : orderBys = []
  · exact ⟨rows, by rw [sorting, if_pos (by simpa using sorts)], .refl _⟩
  · obtain ⟨sorted, returned⟩ := SortExecutor.sort_returns runtime sortable
    exact ⟨sorted, (sorting_eq_ok sorts).mpr ⟨sorted, returned, rfl⟩, (SortExecutor.sort_sorted returned).1⟩

omit [PrintsFloat F] in
/-- A projection that reproduces rows leaves them. -/
theorem project_eq {expressions : List (Expression F)} {error : Option String} {rows : List (Row F)}
    (reproduced : ∀ row ∈ rows, (expressions.mapM fun e => e.evaluate row) = .ok row) :
    ProjectionExecutor.project expressions error rows = { rows, error } := by
  induction rows with
  | nil => rfl
  | cons row rest ih =>
    rw [List.forall_mem_cons] at reproduced
    simp only [ProjectionExecutor.project, reproduced.1, ih reproduced.2, Stream.cons]

omit [PrintsFloat F] in
theorem projecting_eq (reproduced : ∀ row ∈ stream.rows, targets.isStar = false → targets.outputExprs ≠ [] →
    (targets.outputExprs.mapM fun e => e.evaluate row) = .ok row) : projecting targets (.ok stream) = .ok stream := by
  unfold projecting
  split_ifs with projects
  · simp only [Bool.and_eq_true, Bool.not_eq_eq_eq_not, Bool.not_true, List.isEmpty_eq_false_iff] at projects
    simp only [ProjectionExecutor.init, bind, Except.bind, pure, Except.pure]
    rw [project_eq fun row member => reproduced row member projects.1.1 projects.2]
  · rfl

/-- What comes out at the top. -/
def outcome (runtime : Runtime F) (targets : Targets F) (groupBys : List (Expression F))
    (orderBys : List (Bool × Expression F)) (limitCount : Option ℤ) (stream : Stream F) :
    Except String (List (Row F)) :=
  Except.bind (projecting targets (limiting limitCount (sorting runtime orderBys (grouping runtime targets groupBys
    (.ok stream))))) Stream.drain

/-- When rows come out at the top, every stage has let its child's rows through. -/
theorem outcome_eq_ok (delivered : outcome runtime targets groupBys orderBys limitCount stream = .ok out) :
    ∃ grouped sorted limited projected : Stream F, grouping runtime targets groupBys (.ok stream) = .ok grouped ∧
      sorting runtime orderBys (.ok grouped) = .ok sorted ∧ limiting limitCount (.ok sorted) = .ok limited ∧
      projecting targets (.ok limited) = .ok projected ∧ projected.drain = .ok out := by
  unfold outcome at delivered
  cases groupRan : grouping runtime targets groupBys (.ok stream) with
  | error message =>
    rw [groupRan, sorting_error, limiting_error, projecting_error] at delivered
    cases delivered
  | ok grouped =>
    rw [groupRan] at delivered
    cases sortRan : sorting runtime orderBys (.ok grouped) with
    | error message =>
      rw [sortRan, limiting_error, projecting_error] at delivered
      cases delivered
    | ok sorted =>
      rw [sortRan] at delivered
      cases limitRan : limiting limitCount (.ok sorted) with
      | error message =>
        rw [limitRan, projecting_error] at delivered
        cases delivered
      | ok limited =>
        rw [limitRan] at delivered
        cases projectRan : projecting targets (.ok limited) with
        | error message =>
          rw [projectRan] at delivered
          cases delivered
        | ok projected =>
          rw [projectRan] at delivered
          exact ⟨grouped, sorted, limited, projected, rfl, sortRan, limitRan, projectRan, delivered⟩

end Stages

end SelectPlan

end OneBase
