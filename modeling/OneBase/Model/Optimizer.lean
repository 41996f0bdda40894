import OneBase.Model.ExecutorTree

/-! # The optimizer

`optimizer/optimizer.cpp` on plan nodes, and the DDL statements that decide which indexes it finds. The rows of a table
come with their RIDs, in the order of a scan.
-/

namespace OneBase

variable {F : Type}

/-- `Optimizer`; `none` is a null `catalog_`. An `unordered_map` gives the indexes of a table in any order. -/
structure Optimizer where
  catalog : Option Catalog
  visit : List IndexInfo → List IndexInfo
  visit_perm : ∀ infos, (visit infos).Perm infos

namespace Optimizer

/-- `indexed_col` and `lookup_key`: the sides of a comparison, when they are a column and a constant. -/
def lookupOf : Expression F → Expression F → Option (ℕ × Expression F)
  | .columnValue _ colIdx _, .constantValue value => some (colIdx, .constantValue value)
  | .constantValue value, .columnValue _ colIdx _ => some (colIdx, .constantValue value)
  | _, _ => none

/-- The loop over the indexes of the table. -/
def firstIndex (optimizer : Optimizer) (indexedCol : ℕ) (infos : List IndexInfo) : Option IndexInfo :=
  (optimizer.visit infos).find? fun info => info.supportsPointLookup && info.keyAttrs.head? == some indexedCol

/-- `OptimizeSeqScanToIndexScan`. -/
def optimizeSeqScanToIndexScan (optimizer : Optimizer) : PlanNode F → Except String (PlanNode F)
  | .seqScan tableOid (some (.comparison left right .equal)) => do
    let plan := .seqScan tableOid (some (.comparison left right .equal))
    let some catalog := optimizer.catalog | return plan
    let some (indexedCol, lookupKey) := lookupOf left right | return plan
    let some tableInfo := catalog.getTableByOid tableOid | return plan
    let infos ← catalog.getTableIndexes tableInfo.name
    let some info := optimizer.firstIndex indexedCol infos | return plan
    return .indexScan info.oid tableOid (some lookupKey) (some (.comparison left right .equal))
  | plan => return plan

/-- `OptimizeNLJToHashJoin`. -/
def optimizeNLJToHashJoin : PlanNode F → PlanNode F
  | .nestedLoopJoin left right
      (some (.comparison (.columnValue leftTuple leftCol leftType)
        (.columnValue rightTuple rightCol rightType) .equal)) =>
    if leftTuple = 0 ∧ rightTuple = 1 then
      .hashJoin left right (.columnValue 0 leftCol leftType) (.columnValue 0 rightCol rightType)
    else if leftTuple = 1 ∧ rightTuple = 0 then
      .hashJoin left right (.columnValue 0 rightCol rightType) (.columnValue 0 leftCol leftType)
    else
      .nestedLoopJoin left right
        (some (.comparison (.columnValue leftTuple leftCol leftType)
          (.columnValue rightTuple rightCol rightType) .equal))
  | plan => plan

/-- Both rules, once the children are optimized. -/
def applyRules (optimizer : Optimizer) (plan : PlanNode F) : Except String (PlanNode F) := do
  return optimizeNLJToHashJoin (← optimizer.optimizeSeqScanToIndexScan plan)

/-- `Optimize`. -/
def optimize (optimizer : Optimizer) : PlanNode F → Except String (PlanNode F)
  | .seqScan tableOid predicate => optimizer.applyRules (.seqScan tableOid predicate)
  | .indexScan indexOid tableOid lookupKey predicate =>
    optimizer.applyRules (.indexScan indexOid tableOid lookupKey predicate)
  | .nestedLoopJoin left right predicate => do
    optimizer.applyRules (.nestedLoopJoin (← optimizer.optimize left) (← optimizer.optimize right) predicate)
  | .hashJoin left right leftKeyExpr rightKeyExpr => do
    optimizer.applyRules
      (.hashJoin (← optimizer.optimize left) (← optimizer.optimize right) leftKeyExpr rightKeyExpr)
  | .aggregation child groupBys aggregates => do
    optimizer.applyRules (.aggregation (← optimizer.optimize child) groupBys aggregates)
  | .sort child orderBys => do optimizer.applyRules (.sort (← optimizer.optimize child) orderBys)
  | .limit child count => do optimizer.applyRules (.limit (← optimizer.optimize child) count)
  | .projection child expressions => do optimizer.applyRules (.projection (← optimizer.optimize child) expressions)

end Optimizer

/-! ## Indexes over stored rows -/

/-- The rows of each table with their RIDs. -/
abbrev StoredRows (F : Type) := TableOid → List (Rid × Row F)

/-- The keys that `CreateIndex` reads from the rows of a table. -/
def indexKeys (attr : ℕ) (rows : List (Rid × Row F)) : Except String (List (ℤ × Rid)) :=
  rows.mapM fun row => do
    let value ← row.2.getValue attr
    let key ← value.getAsInteger
    return (key.toInt, row.1)

/-- The walk of `CreateIndex` over the table, which is read for a single key only. -/
def Catalog.keysFor (catalog : Catalog) (rows : StoredRows F) (tableName : String) (keyAttrs : List ℕ) :
    Except String (List (ℤ × Rid)) :=
  match catalog.getTable tableName, keyAttrs with
  | .ok (some tableInfo), [attr] => indexKeys attr (rows tableInfo.oid)
  | _, _ => .ok []

/-- The statements that change the catalog. -/
inductive Ddl where
  | createTable (tableName : String) (schema : Schema) (heap : Except String Unit)
  | createIndex (indexName tableName : String) (keyAttrs : List ℕ)
  | dropIndex (indexName tableName : String)

/-- The call that a statement makes on a catalog when these rows are stored. -/
def Ddl.call (rows : StoredRows F) (catalog : Catalog) : Ddl → CatalogCall
  | createTable tableName schema heap => .createTable tableName schema heap
  | createIndex indexName tableName keyAttrs =>
    .createIndex indexName tableName keyAttrs (catalog.keysFor rows tableName keyAttrs)
  | dropIndex indexName tableName => .dropIndex indexName tableName

/-- One statement. -/
def CatalogHistory.stepOn (rows : StoredRows F) (history : CatalogHistory) (statement : Ddl) : CatalogHistory :=
  history.step (statement.call rows history.catalog)

end OneBase
