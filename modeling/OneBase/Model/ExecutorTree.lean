import OneBase.Model.Catalog
import OneBase.Model.QueryExecutors
import OneBase.ToMathlib.ExceptRuns

/-! # Executor trees

The executors of `execution/executors` with their private state, as `Init` and `Next` change it. The pointer to the
plan node and to the children is the tree; what else a class has as fields is its state, and the state of an
executor is together with those of its children. A loop over a child takes a number of rounds. An exception leaves
the states as they are at that point.

Nothing here changes the database: what the iterator of a scan still has ahead is a list of rows. -/

namespace OneBase

open ExceptRuns

/-- What an executor calls: the rows of each table, `GetTuple` by table and RID, and `GetIndex` by oid. -/
structure ExecutorContext (F : Type) where
  table : Database F
  getTuple : TableOid → Rid → Except String (Row F)
  getIndex : IndexOid → Option IndexInfo

/-- `AbstractExecutor`: the virtual functions `Init`, with the rounds for its loops, and `Next`, where `none` is
`false`. -/
structure AbstractExecutor (σ F : Type) where
  init : ℕ → Code String σ Unit
  next : Code String σ (Option (Row F))

variable {F σ τ : Type}

/-- The fields of an executor that hands out rows it has collected. -/
structure ResultTuples (F : Type) where
  resultTuples : List (Row F) := []
  cursor : ℕ := 0

/-- `Next` of an executor that hands out rows it has collected. -/
def ResultTuples.next (results : ResultTuples F) : Option (Row F) × ResultTuples F :=
  match results.resultTuples[results.cursor]? with
  | none => (none, results)
  | some row => (some row, { results with cursor := results.cursor + 1 })

/-- An executor with one child. -/
structure OneChild (σ φ : Type) where
  child : σ
  fields : φ

/-- An executor with two children. -/
structure TwoChildren (σ τ φ : Type) where
  left : σ
  right : τ
  fields : φ

section Parts

variable {φ : Type}

def onChild : Part (OneChild σ φ) σ := ⟨OneChild.child, fun s child => { s with child }, fun _ _ => rfl⟩

def onLeft : Part (TwoChildren σ τ φ) σ := ⟨TwoChildren.left, fun s left => { s with left }, fun _ _ => rfl⟩

def onRight : Part (TwoChildren σ τ φ) τ := ⟨TwoChildren.right, fun s right => { s with right }, fun _ _ => rfl⟩

/-- The fields of the class itself. -/
def onFields : Part (OneChild σ φ) φ := ⟨OneChild.fields, fun s fields => { s with fields }, fun _ _ => rfl⟩

def onFieldsOfTwo : Part (TwoChildren σ τ φ) φ :=
  ⟨TwoChildren.fields, fun s fields => { s with fields }, fun _ _ => rfl⟩

/-- Code that cannot throw. -/
def stateCode {α : Type} (f : φ → α × φ) : Code String φ α := fun s => some (.ok (f s).1, (f s).2)

end Parts

variable [Field F] [LinearOrder F]

namespace SeqScanExecutor

/-- The loop of `Next`; the iterator is past a row before the predicate sees the row. -/
def advance (predicate : Option (Expression F)) : List (Row F) → Except String (Option (Row F)) × List (Row F)
  | [] => (.ok none, [])
  | row :: rest =>
    match Expression.holds predicate row with
    | .error message => (.error message, rest)
    | .ok true => (.ok (some row), rest)
    | .ok false => advance predicate rest

/-- `SeqScanExecutor`; its state is `iter_`. -/
def executor (context : ExecutorContext F) (tableOid : TableOid) (predicate : Option (Expression F)) :
    AbstractExecutor (List (Row F)) F where
  init _ := modify fun _ => context.table tableOid
  next := fun iter => some (advance predicate iter)

end SeqScanExecutor

namespace IndexScanExecutor

/-- `rids_` and `cursor_`. -/
structure Fields where
  rids : List Rid := []
  cursor : ℕ := 0

/-- The RIDs that `Init` looks up. -/
def lookup (index : Option IndexInfo) (lookupKey : Option (Expression F)) : Except String (List Rid) :=
  match index with
  | none => .ok []
  | some info =>
    if info.supportsPointLookup then
      match lookupKey with
      | some (.constantValue value) => do
        let key ← value.getAsInteger
        return (info.intRidMap.lookup key.toInt).getD []
      | _ => .ok []
    else .ok []

/-- The row at a RID and whether the predicate holds of it. -/
def fetch (context : ExecutorContext F) (tableOid : TableOid) (predicate : Option (Expression F)) (rid : Rid) :
    Except String (Row F × Bool) := do
  let row ← context.getTuple tableOid rid
  return (row, ← Expression.holds predicate row)

/-- The loop of `Next` over the RIDs from the cursor on; how many it took comes with its result. -/
def advance (context : ExecutorContext F) (tableOid : TableOid) (predicate : Option (Expression F)) :
    List Rid → Except String (Option (Row F)) × ℕ
  | [] => (.ok none, 0)
  | rid :: rest =>
    match fetch context tableOid predicate rid with
    | .error message => (.error message, 1)
    | .ok (row, true) => (.ok (some row), 1)
    | .ok (_, false) =>
      let later := advance context tableOid predicate rest
      (later.1, later.2 + 1)

/-- `IndexScanExecutor`. -/
def executor (context : ExecutorContext F) (indexOid : IndexOid) (tableOid : TableOid)
    (lookupKey predicate : Option (Expression F)) : AbstractExecutor Fields F where
  init _ := do
    modify fun _ => {}
    let rids ← Code.lift (lookup (context.getIndex indexOid) lookupKey)
    modify fun fields => { fields with rids }
  next := fun fields =>
    let found := advance context tableOid predicate (fields.rids.drop fields.cursor)
    some (found.1, { fields with cursor := fields.cursor + found.2 })

end IndexScanExecutor

namespace NestedLoopJoinExecutor

/-- One round of the inner loop. -/
def pushMatch (predicate : Option (Expression F)) (leftRow rightRow : Row F) :
    Code String (ResultTuples F) Unit := do
  let matched ← Code.lift (Expression.holdsJoin predicate leftRow rightRow)
  if matched then
    modify fun fields => { fields with resultTuples := fields.resultTuples ++ [leftRow ++ rightRow] }

/-- `NestedLoopJoinExecutor`. -/
def executor (predicate : Option (Expression F)) (left : AbstractExecutor σ F) (right : AbstractExecutor τ F) :
    AbstractExecutor (TwoChildren σ τ (ResultTuples F)) F where
  init rounds := do
    onLeft.on (left.init rounds)
    onRight.on (right.init rounds)
    onFieldsOfTwo.on (modify fun _ => {})
    whileNext (onLeft.on left.next) (fun _ leftRow => do
      whileNext (onRight.on right.next) (fun _ rightRow =>
        onFieldsOfTwo.on (pushMatch predicate leftRow rightRow)) rounds ()
      onRight.on (right.init rounds)) rounds ()
  next := onFieldsOfTwo.on (stateCode ResultTuples.next)

end NestedLoopJoinExecutor

/-- `LimitExecutor`; its state is `count_`. -/
def LimitExecutor.executor (limit : ℕ) (child : AbstractExecutor σ F) : AbstractExecutor (OneChild σ ℕ) F where
  init rounds := do
    onChild.on (child.init rounds)
    onFields.on (modify fun _ => 0)
  next := do
    let state ← get
    if limit ≤ state.fields then return none
    else
      match ← onChild.on child.next with
      | none => return none
      | some row =>
        onFields.on (modify (· + 1))
        return some row

/-- `ProjectionExecutor`. -/
def ProjectionExecutor.executor (expressions : List (Expression F)) (child : AbstractExecutor σ F) :
    AbstractExecutor (OneChild σ Unit) F where
  init rounds := onChild.on (child.init rounds)
  next := do
    match ← onChild.on child.next with
    | none => return none
    | some row => return some (← Code.lift (expressions.mapM fun e => e.evaluate row))

/-- `SortExecutor`; its rows are in `sorted_tuples_`. -/
def SortExecutor.executor (runtime : Runtime F) (orderBys : List (Bool × Expression F))
    (child : AbstractExecutor σ F) :
    AbstractExecutor (OneChild σ (ResultTuples F)) F where
  init rounds := do
    onChild.on (child.init rounds)
    onFields.on (modify fun _ => {})
    whileNext (onChild.on child.next) (fun _ row =>
      onFields.on (modify fun fields => { fields with resultTuples := fields.resultTuples ++ [row] })) rounds ()
    let state ← get
    let sorted ← Code.lift (runtime.sort (less orderBys) state.fields.resultTuples)
    onFields.on (modify fun fields => { fields with resultTuples := sorted })
  next := onFields.on (stateCode ResultTuples.next)

variable [PrintsFloat F]

namespace HashJoinExecutor

/-- `hash_table_` and the rows. -/
structure Fields (F : Type) where
  hashTable : HashTable F := ∅
  results : ResultTuples F := {}

def onResults : Part (TwoChildren σ τ (Fields F)) (ResultTuples F) :=
  ⟨fun s => s.fields.results, fun s results => { s with fields := { s.fields with results } }, fun _ _ => rfl⟩

/-- One round of the build loop. -/
def pushLeft (leftKeyExpr : Expression F) (leftRow : Row F) : Code String (Fields F) Unit := do
  let key ← Code.lift (leftKeyExpr.evaluate leftRow)
  modify fun fields =>
    let bucket := (fields.hashTable.lookup key.toString).getD []
    { fields with hashTable := fields.hashTable.insert key.toString (bucket ++ [leftRow]) }

/-- One round of the probe loop. -/
def pushMatches (rightKeyExpr : Expression F) (rightRow : Row F) : Code String (Fields F) Unit := do
  let key ← Code.lift (rightKeyExpr.evaluate rightRow)
  modify fun fields =>
    let found := ((fields.hashTable.lookup key.toString).getD []).map fun leftRow => leftRow ++ rightRow
    { fields with results := { fields.results with resultTuples := fields.results.resultTuples ++ found } }

/-- `HashJoinExecutor`. -/
def executor (leftKeyExpr rightKeyExpr : Expression F) (left : AbstractExecutor σ F) (right : AbstractExecutor τ F) :
    AbstractExecutor (TwoChildren σ τ (Fields F)) F where
  init rounds := do
    onLeft.on (left.init rounds)
    onRight.on (right.init rounds)
    onFieldsOfTwo.on (modify fun _ => {})
    whileNext (onLeft.on left.next) (fun _ leftRow => onFieldsOfTwo.on (pushLeft leftKeyExpr leftRow)) rounds ()
    whileNext (onRight.on right.next) (fun _ rightRow => onFieldsOfTwo.on (pushMatches rightKeyExpr rightRow)) rounds ()
  next := onResults.on (stateCode ResultTuples.next)

end HashJoinExecutor

/-- `AggregationExecutor`; `groups` and `has_input` are local to `Init`. -/
def AggregationExecutor.executor (runtime : Runtime F) (groupBys : List (Expression F))
    (aggregates : List (AggregationType × Expression F)) (child : AbstractExecutor σ F) :
    AbstractExecutor (OneChild σ (ResultTuples F)) F where
  init rounds := do
    onChild.on (child.init rounds)
    onFields.on (modify fun _ => {})
    let (groups, hasInput) ← whileNext (onChild.on child.next) (fun locals row => do
      return (← Code.lift (addRow groupBys aggregates locals.1 row), true)) rounds ((∅ : Groups F), false)
    let rows :=
      if !hasInput && groupBys.isEmpty then [aggregates.map fun _ => .integer 0]
      else (runtime.visit groups.entries).map fun group => outputRow aggregates group.2
    onFields.on (modify fun fields => { fields with resultTuples := rows })
  next := onFields.on (stateCode ResultTuples.next)

/-! ## Plans -/

/-- The plan nodes, with index scans. -/
inductive PlanNode (F : Type) where
  | seqScan (tableOid : TableOid) (predicate : Option (Expression F))
  | indexScan (indexOid : IndexOid) (tableOid : TableOid) (lookupKey predicate : Option (Expression F))
  | nestedLoopJoin (left right : PlanNode F) (predicate : Option (Expression F))
  | hashJoin (left right : PlanNode F) (leftKeyExpr rightKeyExpr : Expression F)
  | aggregation (child : PlanNode F) (groupBys : List (Expression F))
      (aggregates : List (AggregationType × Expression F))
  | sort (child : PlanNode F) (orderBys : List (Bool × Expression F))
  | limit (child : PlanNode F) (limit : ℕ)
  | projection (child : PlanNode F) (expressions : List (Expression F))

namespace PlanNode

/-- The private state of the executor of a plan. -/
def State : PlanNode F → Type
  | seqScan _ _ => List (Row F)
  | indexScan _ _ _ _ => IndexScanExecutor.Fields
  | nestedLoopJoin left right _ => TwoChildren left.State right.State (ResultTuples F)
  | hashJoin left right _ _ => TwoChildren left.State right.State (HashJoinExecutor.Fields F)
  | aggregation child _ _ | sort child _ => OneChild child.State (ResultTuples F)
  | limit child _ => OneChild child.State ℕ
  | projection child _ => OneChild child.State Unit

/-- The state that the constructors leave. -/
def fresh : (plan : PlanNode F) → plan.State
  | seqScan _ _ => ([] : List (Row F))
  | indexScan _ _ _ _ => ({} : IndexScanExecutor.Fields)
  | nestedLoopJoin left right _ => TwoChildren.mk left.fresh right.fresh {}
  | hashJoin left right _ _ => TwoChildren.mk left.fresh right.fresh {}
  | aggregation child _ _ => OneChild.mk child.fresh {}
  | sort child _ => OneChild.mk child.fresh {}
  | limit child _ => OneChild.mk child.fresh 0
  | projection child _ => OneChild.mk child.fresh ()

/-- `ExecutorFactory::CreateExecutor`. -/
def createExecutor (runtime : Runtime F) (context : ExecutorContext F) :
    (plan : PlanNode F) → AbstractExecutor plan.State F
  | seqScan tableOid predicate => SeqScanExecutor.executor context tableOid predicate
  | indexScan indexOid tableOid lookupKey predicate =>
    IndexScanExecutor.executor context indexOid tableOid lookupKey predicate
  | nestedLoopJoin left right predicate =>
    NestedLoopJoinExecutor.executor predicate (left.createExecutor runtime context)
      (right.createExecutor runtime context)
  | hashJoin left right leftKeyExpr rightKeyExpr =>
    HashJoinExecutor.executor leftKeyExpr rightKeyExpr (left.createExecutor runtime context)
      (right.createExecutor runtime context)
  | aggregation child groupBys aggregates =>
    AggregationExecutor.executor runtime groupBys aggregates (child.createExecutor runtime context)
  | sort child orderBys => SortExecutor.executor runtime orderBys (child.createExecutor runtime context)
  | limit child count => LimitExecutor.executor count (child.createExecutor runtime context)
  | projection child expressions => ProjectionExecutor.executor expressions (child.createExecutor runtime context)

end PlanNode

/-- `Init` and then `Next` until it returns false, with the rows. -/
def AbstractExecutor.initAndDrain (executor : AbstractExecutor σ F) (rounds : ℕ) :
    Code String σ (List (Row F)) := do
  executor.init rounds
  whileNext executor.next (fun rows row => return rows ++ [row]) rounds []

/-- `Next` a number of times, whatever it returns or throws. -/
def AbstractExecutor.afterNexts (executor : AbstractExecutor σ F) : ℕ → σ → σ
  | 0, s => s
  | calls + 1, s =>
    match executor.next s with
    | none => s
    | some outcome => afterNexts executor calls outcome.2

end OneBase
