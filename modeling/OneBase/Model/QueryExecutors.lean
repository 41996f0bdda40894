import OneBase.Model.Expression
import Mathlib.Data.List.AList
import Mathlib.Data.List.Sort

/-! # Query plans and their executors

The read-only executors of `execution/executors` and the join rule of `optimizer/optimizer.cpp`. An
executor is what its `Init` and the calls of `Next` after it give: `Init` may throw; after that come
rows, until the executor ends or throws. Nothing a query does changes a table, so a second `Init`
gives the same rows again. Output schemas carry names for display and are left out; so a row holds a
value for every column of its executor.

`std::sort` leaves the order of equal rows open and `std::unordered_map` the order of its entries;
`Runtime` stands for any choice.
-/

namespace OneBase

abbrev TableOid := ℕ

/-- What comes out of `Next`: rows, then the end or an exception. -/
structure Stream (F : Type) where
  rows : List (Row F)
  error : Option String := none
deriving DecidableEq

/-- `Init`, then the rows. -/
abbrev Executor (F : Type) := Except String (Stream F)

namespace Stream

variable {F : Type}

/-- Calling `Next` until it returns false. -/
def drain (stream : Stream F) : Except String (List (Row F)) := stream.error.elim (.ok stream.rows) .error

def cons (row : Row F) (stream : Stream F) : Stream F := { stream with rows := row :: stream.rows }

end Stream

inductive AggregationType where
  | countStarAggregate
  | countAggregate
  | sumAggregate
  | minAggregate
  | maxAggregate
deriving DecidableEq, Repr

/-- `AggState`. -/
structure AggState (F : Type) where
  groupValues : List (Value F) := []
  countStar : Int32 := 0
  count : Int32 := 0
  sum : Int32 := 0
  minVal : Int32 := Int32.maxValue
  maxVal : Int32 := Int32.minValue
  hasSum : Bool := false
  hasMin : Bool := false
  hasMax : Bool := false
deriving DecidableEq

/-- What the standard library leaves open. An exception of the comparison leaves `std::sort`; as long as all
answers fit an order, what `std::sort` returns is sorted by it. It returns when no comparison throws, it compares
nothing when there is only one row, and it throws when it has no two rows that it can compare. -/
structure Runtime (F : Type) where
  visit : List (Sigma fun _ : Text => AggState F) → List (Sigma fun _ : Text => AggState F)
  visit_perm : ∀ groups, (visit groups).Perm groups
  sort : (Row F → Row F → Except String Bool) → List (Row F) → Except String (List (Row F))
  sort_sorted : ∀ (less : Row F → Row F → Except String Bool) (le : Row F → Row F → Bool)
    (rows sorted : List (Row F)),
    (∀ a b, le a b ∨ le b a) → (∀ a b c, le a b → le b c → le a c) →
      (∀ a ∈ rows, ∀ b ∈ rows, ∀ answer, less a b = .ok answer → answer = !le b a) →
        sort less rows = .ok sorted → sorted.Perm rows ∧ sorted.Pairwise fun a b => le a b
  sort_ok : ∀ (less : Row F → Row F → Except String Bool) (le : Row F → Row F → Bool) (rows : List (Row F)),
    (∀ a b, le a b ∨ le b a) → (∀ a b c, le a b → le b c → le a c) →
      (∀ a ∈ rows, ∀ b ∈ rows, less a b = .ok (!le b a)) → ∃ sorted, sort less rows = .ok sorted
  sort_single : ∀ (less : Row F → Row F → Except String Bool) (rows : List (Row F)), rows.length ≤ 1 →
    sort less rows = .ok rows
  sort_error : ∀ (less : Row F → Row F → Except String Bool) (rows : List (Row F)), 2 ≤ rows.length →
    (rows.Pairwise fun a b => (∃ message, less a b = .error message) ∧ ∃ message, less b a = .error message) →
      ∃ message, sort less rows = .error message

/-- The plan nodes of queries. -/
inductive Plan (F : Type) where
  | seqScan (tableOid : TableOid) (predicate : Option (Expression F))
  | nestedLoopJoin (left right : Plan F) (predicate : Option (Expression F))
  | hashJoin (left right : Plan F) (leftKeyExpr rightKeyExpr : Expression F)
  | aggregation (child : Plan F) (groupBys : List (Expression F))
    (aggregates : List (AggregationType × Expression F))
  | sort (child : Plan F) (orderBys : List (Bool × Expression F))
  | limit (child : Plan F) (limit : ℕ)
  | projection (child : Plan F) (expressions : List (Expression F))
deriving DecidableEq

section Executors

variable {F : Type} [Field F] [LinearOrder F]

/-- A predicate on one row; no predicate is always true. -/
def Expression.holds (predicate : Option (Expression F)) (row : Row F) : Except String Bool :=
  predicate.elim (.ok true) fun e => do (← e.evaluate row).getAsBoolean

/-- A join predicate on two rows. -/
def Expression.holdsJoin (predicate : Option (Expression F)) (left right : Row F) : Except String Bool :=
  predicate.elim (.ok true) fun e => do (← e.evaluateJoin left right).getAsBoolean

/-- `SeqScanExecutor::Next`, call after call. -/
def SeqScanExecutor.scan (predicate : Option (Expression F)) : List (Row F) → Stream F
  | [] => { rows := [] }
  | row :: rest =>
    match Expression.holds predicate row with
    | .error message => { rows := [], error := some message }
    | .ok true => (scan predicate rest).cons row
    | .ok false => scan predicate rest

namespace NestedLoopJoinExecutor

/-- The inner loop. -/
def matchRight (predicate : Option (Expression F)) (left : Row F) : List (Row F) → Except String (List (Row F))
  | [] => .ok []
  | right :: rest => do
    let matched ← Expression.holdsJoin predicate left right
    let found ← matchRight predicate left rest
    return if matched then (left ++ right) :: found else found

/-- The outer loop; every round runs through the right side again. -/
def matchLeft (predicate : Option (Expression F)) (right : Stream F) : List (Row F) → Except String (List (Row F))
  | [] => .ok []
  | left :: rest => do
    let found ← matchRight predicate left right.rows
    let _ ← right.drain
    let others ← matchLeft predicate right rest
    return found ++ others

/-- `NestedLoopJoinExecutor::Init`. -/
def init (predicate : Option (Expression F)) (left right : Executor F) : Except String (Stream F) := do
  let leftStream ← left
  let rightStream ← right
  let rows ← matchLeft predicate rightStream leftStream.rows
  let _ ← leftStream.drain
  return { rows }

end NestedLoopJoinExecutor

variable [PrintsFloat F]

namespace HashJoinExecutor

/-- `hash_table_`. -/
abbrev HashTable (F : Type) := AList fun _ : Text => List (Row F)

/-- The build loop. -/
def build (leftKeyExpr : Expression F) : HashTable F → List (Row F) → Except String (HashTable F)
  | hashTable, [] => .ok hashTable
  | hashTable, left :: rest => do
    let key ← leftKeyExpr.evaluate left
    let bucket := (hashTable.lookup key.toString).getD []
    build leftKeyExpr (hashTable.insert key.toString (bucket ++ [left])) rest

/-- The probe loop. -/
def probe (rightKeyExpr : Expression F) (hashTable : HashTable F) : List (Row F) → Except String (List (Row F))
  | [] => .ok []
  | right :: rest => do
    let key ← rightKeyExpr.evaluate right
    let found := ((hashTable.lookup key.toString).getD []).map fun left => left ++ right
    let others ← probe rightKeyExpr hashTable rest
    return found ++ others

/-- `HashJoinExecutor::Init`. -/
def init (leftKeyExpr rightKeyExpr : Expression F) (left right : Executor F) : Except String (Stream F) := do
  let leftStream ← left
  let rightStream ← right
  let hashTable ← build leftKeyExpr ∅ leftStream.rows
  let _ ← leftStream.drain
  let rows ← probe rightKeyExpr hashTable rightStream.rows
  let _ ← rightStream.drain
  return { rows }

end HashJoinExecutor

namespace AggregationExecutor

/-- One aggregate of one row. -/
def accumulate (state : AggState F) (aggType : AggregationType) (value : Value F) : Except String (AggState F) :=
  if value.isNull then .ok state
  else
    match aggType with
    | .countStarAggregate => .ok state
    | .countAggregate => .ok { state with count := state.count + 1 }
    | .sumAggregate => do
      let i ← value.getAsInteger
      return { state with sum := state.sum + i, hasSum := true }
    | .minAggregate => do
      let i ← value.getAsInteger
      return if !state.hasMin || i < state.minVal then { state with minVal := i, hasMin := true } else state
    | .maxAggregate => do
      let i ← value.getAsInteger
      return if !state.hasMax || i > state.maxVal then { state with maxVal := i, hasMax := true } else state

/-- The loop over the aggregates of one row. -/
def accumulateAll (aggregates : List (AggregationType × Expression F)) (row : Row F) (state : AggState F) :
    Except String (AggState F) :=
  aggregates.foldlM (fun state (aggType, e) => do accumulate state aggType (← e.evaluate row)) state

/-- `group_key`. -/
def groupKey (groupValues : List (Value F)) : Text := groupValues.flatMap fun value => value.toString ++ ascii "|"

/-- `groups`. -/
abbrev Groups (F : Type) := AList fun _ : Text => AggState F

/-- One round of the loop over the rows. -/
def addRow (groupBys : List (Expression F)) (aggregates : List (AggregationType × Expression F))
    (groups : Groups F) (row : Row F) : Except String (Groups F) := do
  let groupValues ← groupBys.mapM fun e => e.evaluate row
  let state := (groups.lookup (groupKey groupValues)).getD {}
  let named := if state.countStar = 0 then { state with groupValues } else state
  let counted := { named with countStar := named.countStar + 1 }
  let state ← accumulateAll aggregates row counted
  return groups.insert (groupKey groupValues) state

/-- The value that a group's state gives for an aggregate. -/
def result (state : AggState F) : AggregationType → Value F
  | .countStarAggregate => .integer state.countStar
  | .countAggregate => .integer state.count
  | .sumAggregate => .integer (if state.hasSum then state.sum else 0)
  | .minAggregate => .integer (if state.hasMin then state.minVal else 0)
  | .maxAggregate => .integer (if state.hasMax then state.maxVal else 0)

/-- The row of a group. -/
def outputRow (aggregates : List (AggregationType × Expression F)) (state : AggState F) : Row F :=
  state.groupValues ++ aggregates.map fun aggregate => result state aggregate.1

/-- The loops over the rows and over the groups; without input and without groups, a row of zeros. -/
def aggregate (runtime : Runtime F) (groupBys : List (Expression F))
    (aggregates : List (AggregationType × Expression F)) (rows : List (Row F)) : Except String (List (Row F)) := do
  let groups ← rows.foldlM (addRow groupBys aggregates) ∅
  if rows.isEmpty && groupBys.isEmpty then return [aggregates.map fun _ => .integer 0]
  else return (runtime.visit groups.entries).map fun group => outputRow aggregates group.2

/-- `AggregationExecutor::Init`. -/
def init (runtime : Runtime F) (groupBys : List (Expression F)) (aggregates : List (AggregationType × Expression F))
    (child : Executor F) : Except String (Stream F) := do
  let stream ← child
  let rows ← aggregate runtime groupBys aggregates stream.rows
  let _ ← stream.drain
  return { rows }

end AggregationExecutor

namespace SortExecutor

/-- The comparison given to `std::sort`. -/
def less : List (Bool × Expression F) → Row F → Row F → Except String Bool
  | [], _, _ => .ok false
  | (isAscending, e) :: rest, a, b => do
    let valA ← e.evaluate a
    let valB ← e.evaluate b
    if ← (← valA.compareEquals valB).getAsBoolean then less rest a b
    else if isAscending then (← valA.compareLessThan valB).getAsBoolean
    else (← valA.compareGreaterThan valB).getAsBoolean

/-- `SortExecutor::Init`. -/
def init (runtime : Runtime F) (orderBys : List (Bool × Expression F)) (child : Executor F) :
    Except String (Stream F) := do
  let stream ← child
  let rows ← stream.drain
  let rows ← runtime.sort (less orderBys) rows
  return { rows }

end SortExecutor

/-- `LimitExecutor`; past the limit it does not ask its child. -/
def LimitExecutor.init (limit : ℕ) (child : Executor F) : Except String (Stream F) := do
  let stream ← child
  return if limit ≤ stream.rows.length then { rows := stream.rows.take limit } else stream

namespace ProjectionExecutor

/-- `ProjectionExecutor::Next`, call after call. -/
def project (expressions : List (Expression F)) (error : Option String) : List (Row F) → Stream F
  | [] => { rows := [], error }
  | row :: rest =>
    match expressions.mapM fun e => e.evaluate row with
    | .error message => { rows := [], error := some message }
    | .ok values => (project expressions error rest).cons values

def init (expressions : List (Expression F)) (child : Executor F) : Except String (Stream F) := do
  let stream ← child
  return project expressions stream.error stream.rows

end ProjectionExecutor

/-- What a scan of each table delivers. -/
abbrev Database (F : Type) := TableOid → List (Row F)

/-- `ExecutorFactory::CreateExecutor` and the executor it makes. -/
def Plan.executor (runtime : Runtime F) (db : Database F) : Plan F → Executor F
  | .seqScan tableOid predicate => .ok (SeqScanExecutor.scan predicate (db tableOid))
  | .nestedLoopJoin left right predicate =>
    NestedLoopJoinExecutor.init predicate (left.executor runtime db) (right.executor runtime db)
  | .hashJoin left right leftKeyExpr rightKeyExpr =>
    HashJoinExecutor.init leftKeyExpr rightKeyExpr (left.executor runtime db) (right.executor runtime db)
  | .aggregation child groupBys aggregates =>
      AggregationExecutor.init runtime groupBys aggregates (child.executor runtime db)
  | .sort child orderBys => SortExecutor.init runtime orderBys (child.executor runtime db)
  | .limit child count => LimitExecutor.init count (child.executor runtime db)
  | .projection child expressions => ProjectionExecutor.init expressions (child.executor runtime db)

/-- `ExecutionEngine::Execute`. -/
def Plan.execute (runtime : Runtime F) (db : Database F) (plan : Plan F) : Except String (List (Row F)) := do
  let stream ← plan.executor runtime db
  stream.drain

end Executors

/-- `OptimizeNLJToHashJoin`. -/
def Plan.optimizeNLJToHashJoin {F : Type} : Plan F → Plan F
  | .nestedLoopJoin left right
      (some (.comparison (.columnValue leftTuple leftCol leftType)
        (.columnValue rightTuple rightCol rightType) .equal)) =>
    if leftTuple = 0 ∧ rightTuple = 1 then
      .hashJoin left right (.columnValue 0 leftCol leftType) (.columnValue 0 rightCol rightType)
    else if leftTuple = 1 ∧ rightTuple = 0 then
      .hashJoin left right (.columnValue 0 rightCol rightType) (.columnValue 0 leftCol leftType)
    else
      .nestedLoopJoin left right
        (some (.comparison (.columnValue leftTuple leftCol leftType)
          (.columnValue rightTuple rightCol rightType) .equal))
  | plan => plan

end OneBase
