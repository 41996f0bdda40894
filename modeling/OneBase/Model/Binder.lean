import OneBase.Model.QueryExecutors
import OneBase.Model.Tuple

/-! # The binder

`binder/binder.cpp`: `BindQuery` for SELECT, and for INSERT with a SELECT inside. The parse tree is that of libpg_query:
what the binder reads, and what changes the meaning of the parts it reads. A list that is null there is empty here, and
nodes the binder has no case for are `other`. A constant holds its value instead of its spelling. Tables are given by
name, without a schema or a sample, and SEMI, ANTI, ASOF and POSITIONAL joins are left out, as are the names of output
columns.

Where the source follows a null pointer there is no defined behaviour, and the binder fails here.
-/

namespace OneBase

/-- `PGAConst`. -/
inductive PgConst (F : Type) where
  | integer (ival : ℤ)
  | float (f : F)
  | string (str : Text)
  | other
deriving DecidableEq

/-- `PGBoolExprType`. -/
inductive PgBoolOp where
  | and
  | or
  | not
deriving DecidableEq, Repr

/-- `PGAExpr_Kind`. -/
inductive PgAExprKind where
  | op
  | opAny
  | opAll
  | distinct
  | notDistinct
  | nullif
  | isOf
  | inList
  | like
  | ilike
  | glob
  | similar
  | between
  | notBetween
  | betweenSym
  | notBetweenSym
  | paren
deriving DecidableEq, Repr

/-- The expression nodes of the parse tree. -/
inductive PgNode (F : Type) where
  /-- A `PGColumnRef` made of names. -/
  | columnRef (fields : List String)
  /-- A `PGColumnRef` that ends in a star. -/
  | columnStar (qualifier : Option String)
  /-- A bare `PGAStar`. -/
  | aStar
  | aConst (val : PgConst F)
  /-- A `PGAExpr` with both operands; the name of an operator may be qualified. -/
  | aExpr (kind : PgAExprKind) (name : List String) (lexpr rexpr : PgNode F)
  /-- A `PGAExpr` whose left operand is null. -/
  | unaryExpr (name : List String) (rexpr : PgNode F)
  /-- A `PGAExpr` whose right operand is null. -/
  | postfixExpr (name : List String) (lexpr : PgNode F)
  | boolExpr (boolop : PgBoolOp) (first : PgNode F) (rest : List (PgNode F))
  | funcCall (funcname : String) (aggStar : Bool) (args : List (PgNode F))
  | other (tag : ℕ)

/-- `PGAlias`, with names for the first columns. -/
structure PgAlias where
  aliasname : Option String
  colnames : List String := []
deriving DecidableEq

/-- `PGRangeVar`. -/
structure RangeVar where
  relname : String
  aliasClause : Option PgAlias := none
deriving DecidableEq

/-- The name that columns of the table are qualified with. -/
def RangeVar.scopeAlias (rv : RangeVar) : String := (rv.aliasClause.bind PgAlias.aliasname).getD rv.relname

/-- `PGJoinType`. -/
inductive PgJoinType where
  | inner
  | left
  | right
  | full
deriving DecidableEq, Repr

/-- `PGJoinRefType`. -/
inductive PgJoinRefType where
  | regular
  | natural
deriving DecidableEq, Repr

/-- `PGJoinExpr` of two tables. -/
structure JoinExpr (F : Type) where
  jointype : PgJoinType
  joinreftype : PgJoinRefType := .regular
  larg : RangeVar
  rarg : RangeVar
  usingClause : List String := []
  quals : Option (PgNode F)
  aliasClause : Option PgAlias := none

/-- An item of the FROM clause. -/
inductive FromItem (F : Type) where
  | rangeVar (rv : RangeVar)
  | joinExpr (join : JoinExpr F)
  | other

/-- `PGSortBy`: whether the direction is DESC, and the expression. -/
structure SortBy (F : Type) where
  descending : Bool
  node : PgNode F

/-- `PGSelectStmt`; a limit is the integer of its constant. -/
structure SelectStmt (F : Type) where
  fromClause : List (FromItem F)
  whereClause : Option (PgNode F) := none
  targetList : List (PgNode F)
  groupClause : List (PgNode F) := []
  sortClause : List (SortBy F) := []
  limitCount : Option ℤ := none
  valuesLists : Bool := false

/-- `TableInfo`, without the heap. -/
structure TableInfo where
  schema : Schema
  name : String
  oid : TableOid
deriving DecidableEq

/-- `TableScope`. -/
structure TableScope where
  aliasName : String
  info : TableInfo
  tupleIdx : ℕ
deriving DecidableEq

namespace Binder

/-- `Catalog::GetTable`. -/
abbrev GetTable := String → Option TableInfo

/-- The first column of a table with a given name. -/
def findColumn (schema : Schema) (colName : String) : Option (ℕ × TypeId) := do
  let colIdx ← schema.columns.findIdx? fun column => column.name = colName
  let column ← schema.columns[colIdx]?
  return (colIdx, column.typeId)

/-- `ResolveColumn`; an empty qualifier matches every scope. -/
def resolveColumn (colName tableQualifier : String) : List TableScope → Except String (ℕ × ℕ × TypeId)
  | [] => .error ("Column not found: " ++ if tableQualifier = "" then colName else tableQualifier ++ "." ++ colName)
  | scope :: rest =>
    if tableQualifier ≠ "" ∧ tableQualifier ≠ scope.aliasName then resolveColumn colName tableQualifier rest
    else
      match findColumn scope.info.schema colName with
      | some (colIdx, type) => .ok (scope.tupleIdx, colIdx, type)
      | none => resolveColumn colName tableQualifier rest

variable {F : Type}

/-- The column name and the qualifier of a reference; other than one or two names are taken as none. -/
def columnName : List String → String × String
  | [colName] => (colName, "")
  | [tableQualifier, colName] => (colName, tableQualifier)
  | _ => ("", "")

/-- `BindColumnRef`, for names. -/
def bindColumnRef (fields : List String) (scopes : List TableScope) : Except String (Expression F) := do
  let column ← resolveColumn (columnName fields).1 (columnName fields).2 scopes
  return .columnValue column.1 column.2.1 column.2.2

/-- `BindConstant`. -/
def bindConstant : PgConst F → Except String (Expression F)
  | .integer ival => .ok (.constantValue (.integer (Int32.ofInt ival)))
  | .float f => .ok (.constantValue (.float f))
  | .string str => .ok (.constantValue (.varchar str))
  | .other => .error "Unsupported constant type"

/-- The operators that `BindAExpr` knows, by their names. -/
def operatorNamed (opName : String) : Option (ComparisonType ⊕ ArithmeticType) :=
  if opName = "=" then some (.inl .equal)
  else if opName = "<>" ∨ opName = "!=" then some (.inl .notEqual)
  else if opName = "<" then some (.inl .lessThan)
  else if opName = "<=" then some (.inl .lessThanOrEqual)
  else if opName = ">" then some (.inl .greaterThan)
  else if opName = ">=" then some (.inl .greaterThanOrEqual)
  else if opName = "+" then some (.inr .plus)
  else if opName = "-" then some (.inr .minus)
  else if opName = "*" then some (.inr .multiply)
  else if opName = "/" then some (.inr .divide)
  else if opName = "%" then some (.inr .modulo)
  else none

/-- `BindAExpr`, once the operands are bound: it reads the first name of the operator, and not the kind. -/
def bindOperator (name : List String) (left right : Expression F) : Except String (Expression F) :=
  match operatorNamed (name.headD "") with
  | some (.inl compType) => .ok (.comparison left right compType)
  | some (.inr arithType) => .ok (.arithmetic left right arithType)
  | none => .error ("Unsupported operator: " ++ name.headD "")

mutual

/-- `BindExpression`. -/
def bindExpression (scopes : List TableScope) : PgNode F → Except String (Expression F)
  | .columnRef fields => bindColumnRef fields scopes
  | .columnStar _ => .ok .null
  | .aConst val => bindConstant val
  | .aExpr _ name lexpr rexpr => do
    let left ← bindExpression scopes lexpr
    let right ← bindExpression scopes rexpr
    bindOperator name left right
  | .unaryExpr name rexpr => do
    let right ← bindExpression scopes rexpr
    bindOperator name .null right
  | .postfixExpr name lexpr => do
    let left ← bindExpression scopes lexpr
    bindOperator name left .null
  | .boolExpr .and first rest => do
    let result ← bindExpression scopes first
    bindArgs scopes .and result rest
  | .boolExpr .or first rest => do
    let result ← bindExpression scopes first
    bindArgs scopes .or result rest
  | .boolExpr .not _ _ => .error "Unsupported BoolExpr type"
  | _ => .error "Unsupported expression node type"

/-- The loop of `BindBoolExpr`, which folds to the left. -/
def bindArgs (scopes : List TableScope) (logicType : LogicType) (result : Expression F) :
    List (PgNode F) → Except String (Expression F)
  | [] => .ok result
  | arg :: rest => do
    let right ← bindExpression scopes arg
    bindArgs scopes logicType (.logic result right logicType) rest

end

/-- A predicate is a pointer that may be null. -/
def toPredicate : Expression F → Option (Expression F)
  | .null => none
  | e => some e

/-- A clause that may be missing. -/
def bindPredicate (scopes : List TableScope) : Option (PgNode F) → Except String (Option (Expression F))
  | none => .ok none
  | some node => do
    let e ← bindExpression scopes node
    return toPredicate e

/-- A table by its name. -/
def lookupTable (getTable : GetTable) (name : String) : Except String TableInfo :=
  (getTable name).elim (.error ("Table not found: " ++ name)) .ok

/-- What the loop over the FROM clause carries along. -/
structure FromState (F : Type) where
  scopes : List TableScope := []
  basePlan : Option (Plan F) := none
  fromPlans : List (Plan F) := []

/-- One round of the loop over the FROM clause. -/
def bindFromItem (getTable : GetTable) (state : FromState F) : FromItem F → Except String (FromState F)
  | .rangeVar rv => do
    let info ← lookupTable getTable rv.relname
    return { state with
      scopes := state.scopes ++ [⟨rv.scopeAlias, info, state.scopes.length⟩]
      fromPlans := state.fromPlans ++ [.seqScan info.oid none] }
  | .joinExpr join => do
    let leftInfo ← lookupTable getTable join.larg.relname
    let rightInfo ← lookupTable getTable join.rarg.relname
    let scopes := state.scopes ++ [⟨join.larg.scopeAlias, leftInfo, 0⟩, ⟨join.rarg.scopeAlias, rightInfo, 1⟩]
    let joinPredicate ← bindPredicate scopes join.quals
    return {
      scopes
      basePlan := some (.nestedLoopJoin (.seqScan leftInfo.oid none) (.seqScan rightInfo.oid none) joinPredicate)
      fromPlans := [] }
  | .other => .ok state

/-- The FROM clause: the scopes and the base plan. -/
def bindFrom (getTable : GetTable) (fromClause : List (FromItem F)) : Except String (List TableScope × Plan F) := do
  if fromClause.isEmpty then throw "SELECT without FROM not supported"
  let state ← fromClause.foldlM (bindFromItem getTable) {}
  match state.fromPlans.head? <|> state.basePlan with
  | some plan => return (state.scopes, plan)
  | none => throw "undefined: no base plan"

/-- The WHERE clause is put into the base plan. -/
def bindWhere (scopes : List TableScope) (basePlan : Plan F) : Option (PgNode F) → Except String (Plan F)
  | none => .ok basePlan
  | some whereClause => do
    let predicate ← bindExpression scopes whereClause
    match basePlan with
    | .seqScan _ _ =>
      -- the scan is made anew, from the first scope
      match scopes.head? with
      | some scope => return .seqScan scope.info.oid (toPredicate predicate)
      | none => throw "undefined: no scope"
    | .nestedLoopJoin left right none => return .nestedLoopJoin left right (toPredicate predicate)
    | .nestedLoopJoin left right (some joinPredicate) =>
      return .nestedLoopJoin left right (some (.logic joinPredicate predicate .and))
    | plan => return plan

/-- `GetFuncName`, compared with a lower-case name. -/
def isNamed (funcname name : String) : Bool := funcname.toList.map Char.toLower = name.toList

/-- The kind of an aggregate call; `none` for other functions. -/
def aggregateType (funcname : String) (aggStar : Bool) (args : List (PgNode F)) : Option AggregationType :=
  let firstIsStar := match args.head? with
    | some .aStar => true
    | _ => false
  if isNamed funcname "count" then
    some (if aggStar || firstIsStar then .countStarAggregate else .countAggregate)
  else if isNamed funcname "sum" then some .sumAggregate
  else if isNamed funcname "min" then some .minAggregate
  else if isNamed funcname "max" then some .maxAggregate
  else none

/-- What the loop over the target list carries along. -/
structure Targets (F : Type) where
  aggCalls : List (AggregationType × Expression F) := []
  outputExprs : List (Expression F) := []
  isStar : Bool := false

/-- An aggregate call; `COUNT(*)` has a placeholder for its argument. -/
def bindAggregate (scopes : List TableScope) (aggType : AggregationType) (args : List (PgNode F)) :
    Except String (AggregationType × Expression F) :=
  if aggType = .countStarAggregate then .ok (.countStarAggregate, .columnValue 0 0 .integer)
  else
    match args with
    | [] => .error "undefined: no argument"
    | arg :: _ => do
      let e ← bindExpression scopes arg
      return (aggType, e)

/-- One round of the loop over the target list. -/
def bindTarget (scopes : List TableScope) (targets : Targets F) (val : PgNode F) : Except String (Targets F) :=
  match val with
  | .aStar | .columnStar none => .ok { targets with isStar := true }
  | .funcCall funcname aggStar args =>
    match aggregateType funcname aggStar args with
    | some aggType => do
      let call ← bindAggregate scopes aggType args
      return { targets with aggCalls := targets.aggCalls ++ [call] }
    | none => do
      let e ← bindExpression scopes val
      return { targets with outputExprs := targets.outputExprs ++ [e] }
  | val => do
    let e ← bindExpression scopes val
    return { targets with outputExprs := targets.outputExprs ++ [e] }

/-- The ORDER BY clause, a list of directions and expressions. -/
def bindSortBy (scopes : List TableScope) (sortby : SortBy F) : Except String (Bool × Expression F) := do
  let e ← bindExpression scopes sortby.node
  return (!sortby.descending, e)

/-- `BindQuery` of a SELECT: base plan, aggregation, sort, limit, projection. -/
def bindSelect (getTable : GetTable) (select : SelectStmt F) : Except String (Plan F) := do
  let (scopes, basePlan) ← bindFrom getTable select.fromClause
  let filtered ← bindWhere scopes basePlan select.whereClause
  let targets ← select.targetList.foldlM (bindTarget scopes) {}
  let grouped ← if targets.aggCalls.isEmpty then pure filtered
    else do
      let groupBys ← select.groupClause.mapM (bindExpression scopes)
      pure (.aggregation filtered groupBys targets.aggCalls)
  let sorted ← if select.sortClause.isEmpty then pure grouped
    else do
      let orderBys ← select.sortClause.mapM (bindSortBy scopes)
      pure (.sort grouped orderBys)
  let limited := match select.limitCount with
    | some ival => .limit sorted (ival % 2 ^ 64).toNat
    | none => sorted
  if !targets.isStar && targets.aggCalls.isEmpty && !targets.outputExprs.isEmpty then
    -- the output schema asks every expression for its type
    if targets.outputExprs.any fun e => (toPredicate e).isNone then throw "undefined: null expression"
    else return .projection limited targets.outputExprs
  else return limited

/-- One round of the FROM loop of the SELECT inside an INSERT. -/
def bindInsertFromItem (getTable : GetTable) (whereClause : Option (PgNode F))
    (state : List TableScope × Option (Plan F)) : FromItem F → Except String (List TableScope × Option (Plan F))
  | .rangeVar rv => do
    let info ← lookupTable getTable rv.relname
    let subScopes := state.1 ++ [⟨rv.relname, info, 0⟩]
    let subPredicate ← bindPredicate subScopes whereClause
    return (subScopes, some (.seqScan info.oid subPredicate))
  | _ => .ok state

/-- `BindQuery` of an INSERT: the child of the insert node, and the table it inserts into. -/
def bindInsert (getTable : GetTable) (relname : String) (subSelect : SelectStmt F) :
    Except String (Plan F × TableOid) := do
  let info ← lookupTable getTable relname
  if subSelect.fromClause.isEmpty && subSelect.valuesLists then throw "INSERT ... VALUES not supported yet"
  let (_, subPlan) ← subSelect.fromClause.foldlM (bindInsertFromItem getTable subSelect.whereClause) ([], none)
  match subPlan with
  | some plan => return (plan, info.oid)
  | none => throw "undefined: no child plan"

/-- What the SET clause has for a column: `set_exprs` is a map that is filled in the order of the clause. -/
def setItem (setExprs : List (String × Expression F)) (colName : String) : Option (Expression F) :=
  (setExprs.reverse.find? fun item => item.1 = colName).map Prod.snd

/-- The expressions that `BindQuery` makes of an UPDATE, one per column: that of the SET clause, or the column. -/
def updateExpressions (schema : Schema) (setExprs : List (String × Expression F)) : List (Expression F) :=
  schema.columns.zipIdx.map fun (column, i) => (setItem setExprs column.name).getD (.columnValue 0 i column.typeId)

end Binder

end OneBase
