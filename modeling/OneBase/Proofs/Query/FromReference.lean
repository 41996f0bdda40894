import OneBase.Proofs.Query.Executors
import OneBase.Proofs.Query.Reference

/-! # The meaning of a FROM clause

The meaning of `SELECT * FROM ... WHERE ...`: every item of the FROM clause stands for the rows of a table or of an
inner, left, right or full join; the items are multiplied and the WHERE clause selects. USING and NATURAL equate
columns of the two tables and show each of them once. A list of column names after an alias gives the first columns
new names.

A condition may be evaluated on any combination of rows of the tables, so the statement may fail when one of them
raises an error, and otherwise it has to deliver the selected rows. -/

namespace OneBase

open ExceptLoops Binder

/-- A row as `Value::DeserializeFrom` reads it: of the types of the columns, and without a NULL. -/
def RowFits {F : Type} (schema : Schema) (row : Row F) : Prop :=
  row.map Value.typeId = schema.columns.map Column.typeId ∧ ∀ value ∈ row, value.isNull = false

namespace Reference

variable {F : Type} [Field F] [LinearOrder F]

section Tables

variable (getTable : GetTable) (db : Database F)

/-- The table that a FROM item names. -/
def infoOf (rv : RangeVar) : TableInfo := (getTable rv.relname).getD ⟨⟨[], 0⟩, rv.relname, 0⟩

def rowsOf (rv : RangeVar) : List (Row F) := db (infoOf getTable rv).oid

/-- The names of columns after an alias. -/
def renamed (aliasClause : Option PgAlias) (names : List String) : List String :=
  let colnames := aliasClause.elim [] PgAlias.colnames
  (colnames ++ names.drop colnames.length).take names.length

/-- The names of a table's columns. -/
def columnsOf (rv : RangeVar) : List String :=
    renamed rv.aliasClause ((infoOf getTable rv).schema.columns.map Column.name)

/-- The row that an outer join adds for a missing partner. -/
def nullRow (rv : RangeVar) : Row F := (infoOf getTable rv).schema.columns.map fun column => .null column.typeId

end Tables

section Conditions

/-- A condition; a missing one holds. -/
def test (layout : Layout) (values : Row F) (condition : Option (PgNode F)) : Except String Bool :=
  condition.elim (.ok true) fun node => do (← eval layout values node).getAsBoolean

def Raises (answer : Except String Bool) : Prop := ∃ message, answer = .error message

end Conditions

section Joins

variable (getTable : GetTable) (join : JoinExpr F)

/-- The columns that are equated: those of the USING clause, or those that both tables of a NATURAL join have. -/
def keys : List String :=
  match join.joinreftype with
  | .regular => join.usingClause.dedup
  | .natural => ((columnsOf getTable join.larg).filter (· ∈ columnsOf getTable join.rarg)).dedup

/-- A key in one of the tables. -/
def keyValue (rv : RangeVar) (row : Row F) (key : String) : Except String (Value F) :=
  if key ∈ columnsOf getTable rv then row.getValue ((columnsOf getTable rv).idxOf key) else .error "no such column"

/-- The keys of two rows are equal. -/
def keysEqual (l r : Row F) : Except String Bool := do
  let equal ← (keys getTable join).mapM fun key => do
    let a ← keyValue getTable join.larg l key
    let b ← keyValue getTable join.rarg r key
    (← Expression.performComparison a b .equal).getAsBoolean
  return equal.all id

/-- The names that the ON clause can use. -/
def sides : Layout :=
  [(join.larg.scopeAlias, columnsOf getTable join.larg), (join.rarg.scopeAlias, columnsOf getTable join.rarg)]

/-- Two rows are partners. -/
def joinTest (l r : Row F) : Except String Bool := do
  let equal ← keysEqual getTable join l r
  let holds ← test (sides getTable join) (l ++ r) join.quals
  return equal && holds

/-- Columns or values that do not belong to keys. -/
def besideKeys {α : Type} (keys names : List String) (row : List α) : List α :=
  (row.zipIdx.filter fun v => names[v.2]?.all fun name => name ∉ keys).map Prod.fst

/-- A key of a combination: that of the row that has it. -/
def mergedKey (l r : Row F) (key : String) : Value F :=
  let side (rv : RangeVar) (row : Row F) := (keyValue getTable rv row key).toOption.getD (.null .invalid)
  if (side join.larg l).isNull then side join.rarg r else side join.larg l

/-- What a star shows of a combination of rows: the keys first. -/
def joinedRow (l r : Row F) : Row F :=
  (keys getTable join).map (mergedKey getTable join l r) ++
    besideKeys (keys getTable join) (columnsOf getTable join.larg) l ++
    besideKeys (keys getTable join) (columnsOf getTable join.rarg) r

/-- The names of what it shows. -/
def joinedNames : List String :=
  keys getTable join ++ besideKeys (keys getTable join) (columnsOf getTable join.larg) (columnsOf getTable join.larg) ++
    besideKeys (keys getTable join) (columnsOf getTable join.rarg) (columnsOf getTable join.rarg)

end Joins

section Items

/-- A combination of rows: what names can stand for, and what a star shows. -/
structure Combination (F : Type) where
  values : Row F
  shown : Row F

variable (getTable : GetTable) (db : Database F)

/-- Two rows in a join. An alias of the join hides its tables. -/
def combination (join : JoinExpr F) (l r : Row F) : Combination F :=
  let shown := joinedRow getTable join l r
  match join.aliasClause with
  | none => ⟨(keys getTable join).map (mergedKey getTable join l r) ++ (l ++ r), shown⟩
  | some _ => ⟨shown, shown⟩

/-- The names that an item gives to the rest of the statement; keys have no qualifier. -/
def layoutOf : FromItem F → Layout
  | .rangeVar rv => [(rv.scopeAlias, columnsOf getTable rv)]
  | .joinExpr join =>
    match join.aliasClause with
    | none => ("", keys getTable join) :: sides getTable join
    | some aliasClause => [(aliasClause.aliasname.getD "", renamed aliasClause (joinedNames getTable join))]
  | .other => []

/-- All combinations of rows of an item's tables. -/
def candidates : FromItem F → List (Combination F)
  | .rangeVar rv => (rowsOf getTable db rv).map fun row => ⟨row, row⟩
  | .joinExpr join => (rowsOf getTable db join.larg).flatMap fun l =>
      (rowsOf getTable db join.rarg).map fun r => combination getTable join l r
  | .other => [⟨[], []⟩]

/-- Two rows are partners in a join. -/
def partners (join : JoinExpr F) (l r : Row F) : Bool := passes (joinTest getTable join l r)

/-- The combinations that an item contributes. -/
def joined : FromItem F → List (Combination F)
  | .rangeVar rv => (rowsOf getTable db rv).map fun row => ⟨row, row⟩
  | .joinExpr join =>
    let lefts := rowsOf getTable db join.larg
    let rights := rowsOf getTable db join.rarg
    let matched := lefts.flatMap fun l =>
      (rights.filter (partners getTable join l)).map fun r => combination getTable join l r
    let leftOnly := (lefts.filter fun l => !rights.any (partners getTable join l)).map fun l =>
      combination getTable join l (nullRow getTable join.rarg)
    let rightOnly := (rights.filter fun r => !lefts.any fun l => partners getTable join l r).map fun r =>
      combination getTable join (nullRow getTable join.larg) r
    match join.jointype with
    | .inner => matched
    | .left => matched ++ leftOnly
    | .right => matched ++ rightOnly
    | .full => matched ++ leftOnly ++ rightOnly
  | .other => [⟨[], []⟩]

/-- The product of the items. -/
def product : List (List (Combination F)) → List (Combination F)
  | [] => [⟨[], []⟩]
  | item :: rest => item.flatMap fun first => (product rest).map fun others =>
      ⟨first.values ++ others.values, first.shown ++ others.shown⟩

/-- The names that the WHERE clause can use. -/
def whereLayout (fromClause : List (FromItem F)) : Layout := fromClause.flatMap (layoutOf getTable)

/-- The rows of the statement, where a condition that raises an error does not hold. -/
def selectRows (fromClause : List (FromItem F)) (whereClause : Option (PgNode F)) : List (Row F) :=
  ((product (fromClause.map (joined getTable db))).filter fun c =>
    passes (test (whereLayout getTable fromClause) c.values whereClause)).map Combination.shown

/-- A condition raises an error on some rows of the tables. -/
def MayRaise (fromClause : List (FromItem F)) (whereClause : Option (PgNode F)) : Prop :=
  (∃ join, .joinExpr join ∈ fromClause ∧
    ∃ l ∈ rowsOf getTable db join.larg, ∃ r ∈ rowsOf getTable db join.rarg,
      Raises (joinTest getTable join l r)) ∨
    ∃ c ∈ product (fromClause.map fun item => candidates getTable db item ++ joined getTable db item),
      Raises (test (whereLayout getTable fromClause) c.values whereClause)

/-- What executing the statement may give. -/
def Agrees (fromClause : List (FromItem F)) (whereClause : Option (PgNode F)) : Except String (List (Row F)) → Prop
  | .ok rows => ¬ MayRaise getTable db fromClause whereClause ∧
      rows.Perm (selectRows getTable db fromClause whereClause)
  | .error _ => MayRaise getTable db fromClause whereClause

end Items

section Lemmas

variable {getTable : GetTable} {db : Database F} {fromClause : List (FromItem F)} {whereClause : Option (PgNode F)}

omit [Field F] [LinearOrder F] in
theorem not_raises_iff {answer : Except String Bool} : ¬ Raises answer ↔ ∃ a, answer = .ok a := by
  cases answer with
  | error message => simp [Raises]
  | ok a => simp [Raises]

omit [Field F] [LinearOrder F] in
theorem infoOf_eq {rv : RangeVar} {info : TableInfo} (found : getTable rv.relname = some info) :
    infoOf getTable rv = info := by
  rw [infoOf, found, Option.getD_some]

end Lemmas

section Tests

variable {γ : Type}

/-- The rows that pass a test. -/
def kept (tested : List γ) (answer : γ → Except String Bool) (row : γ → Row F) : List (Row F) :=
  (tested.filter fun c => passes (answer c)).map row

/-- The statement selects the rows that pass a test. -/
structure Selects (getTable : GetTable) (db : Database F) (fromClause : List (FromItem F))
    (whereClause : Option (PgNode F))
    (tested : List γ) (answer : γ → Except String Bool) (row : γ → Row F) : Prop where
  mayRaise_iff : MayRaise getTable db fromClause whereClause ↔ ∃ c ∈ tested, Raises (answer c)
  selectRows_eq : selectRows getTable db fromClause whereClause = kept tested answer row

/-- An execution tests everything and delivers what passes. -/
def Runs (out : Except String (List (Row F))) (tested : List γ) (answer : γ → Except String Bool)
    (row : γ → Row F) :
    Prop :=
  ∀ rows, out = .ok rows ↔ (∀ c ∈ tested, ∃ a, answer c = .ok a) ∧ rows = kept tested answer row

variable {getTable : GetTable} {db : Database F} {fromClause : List (FromItem F)} {whereClause : Option (PgNode F)}
  {tested : List γ} {answer answer' : γ → Except String Bool} {row : γ → Row F}
  {out : Except String (List (Row F))}

/-- A statement and an execution with tests of their own. -/
theorem agrees_iff (selects : Selects getTable db fromClause whereClause tested answer row)
    (runs : Runs out tested answer' row) : Agrees getTable db fromClause whereClause out ↔
      ((∃ c ∈ tested, Raises (answer' c)) ↔ ∃ c ∈ tested, Raises (answer c)) ∧
        ((∀ c ∈ tested, ∃ a, answer' c = .ok a) → (kept tested answer' row).Perm (kept tested answer row)) := by
  have answered : (¬ ∃ c ∈ tested, Raises (answer' c)) ↔ ∀ c ∈ tested, ∃ a, answer' c = .ok a := by
    simp only [not_exists, not_and, not_raises_iff]
  by_cases fails : ∃ c ∈ tested, Raises (answer' c)
  · have failed : ∃ message, out = .error message := by
      cases result : out with
      | ok rows => exact absurd fails (answered.mpr ((runs rows).mp result).1)
      | error message => exact ⟨message, rfl⟩
    obtain ⟨message, rfl⟩ := failed
    rw [Agrees, selects.mayRaise_iff, ← answered]
    simp only [fails, true_iff, not_true_eq_false, false_implies, and_true]
  · obtain rfl := (runs _).mpr ⟨answered.mp fails, rfl⟩
    rw [Agrees, selects.mayRaise_iff, selects.selectRows_eq, ← answered]
    simp only [fails, false_iff, not_false_eq_true, true_implies]

end Tests

end Reference

end OneBase
