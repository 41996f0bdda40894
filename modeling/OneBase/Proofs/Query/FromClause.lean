import OneBase.Proofs.Query.FromReference
import OneBase.Proofs.Query.JoinColumns

/-! # FROM clauses that are compiled right

The binder keeps one item of a FROM clause. It reads a join as an inner one under its ON clause, and the names of
columns as those of the tables. So the plan of a single table, or of a single inner join that equates no columns,
gives the rows of the statement when no list of column names moves a name, and the conditions are plain. -/

namespace OneBase

open ExceptLoops Binder

namespace Reference

variable {F : Type} [Field F] [LinearOrder F]

section Shapes

/-- The tables that an item names. -/
def tablesOf : FromItem F → List RangeVar
  | .rangeVar rv => [rv]
  | .joinExpr join => [join.larg, join.rarg]
  | .other => []

variable (getTable : GetTable)

/-- The rows of every table have the types of its columns. -/
def Fits (db : Database F) : Prop :=
  ∀ name info, getTable name = some info → ∀ row ∈ db info.oid, RowFits info.schema row

/-- The scopes of an item that stands alone. -/
def scopesOf (item : FromItem F) : List TableScope :=
  (tablesOf item).zipIdx.map fun v => ⟨v.1.scopeAlias, infoOf getTable v.1, v.2⟩

/-- The position of a column among those of an item's tables. -/
def columnAt (item : FromItem F) (tupleIdx colIdx : ℕ) : ℕ :=
  (((tablesOf item).take tupleIdx).map fun rv => (infoOf getTable rv).schema.columns.length).sum + colIdx

/-- A name that stands for a column stands for the one that the binder takes. -/
def NamesKept (item : FromItem F) (layout : Layout) : Prop :=
  ∀ fields tupleIdx colIdx type k,
    resolveColumn (columnName fields).1 (columnName fields).2 (scopesOf getTable item) =
      .ok (tupleIdx, colIdx, type) →
      position layout fields = some k → k = columnAt getTable item tupleIdx colIdx

/-- A join without keys that adds no NULLs: an inner one, or a NATURAL one of a table with itself. -/
def AddsNothing (join : JoinExpr F) : Prop :=
  join.jointype = .inner ∨ join.joinreftype = .natural ∧ infoOf getTable join.larg = infoOf getTable join.rarg

/-- A single table, or a single join without keys that adds no NULLs, whose names are those of the tables. -/
def IsSimple : List (FromItem F) → Prop
  | [.rangeVar rv] => NamesKept getTable (.rangeVar rv : FromItem F) (layoutOf getTable (.rangeVar rv : FromItem F))
  | [.joinExpr join] => keys getTable join = [] ∧ AddsNothing getTable join ∧
      NamesKept getTable (.joinExpr join) (layoutOf getTable (.joinExpr join)) ∧
        (join.joinreftype = .regular → NamesKept getTable (.joinExpr join) (sides getTable join))
  | _ => False

variable [PrintsFloat F]

end Shapes

section Binding

variable {getTable : GetTable} {fromClause items : List (FromItem F)} {whereClause : Option (PgNode F)}

omit [Field F] [LinearOrder F] in
theorem lookupTable_eq_ok_iff {name : String} {info : TableInfo} :
    lookupTable getTable name = .ok info ↔ getTable name = some info := by
  cases found : getTable name <;> simp [lookupTable, found]

omit [Field F] [LinearOrder F] in
theorem bindFrom_rangeVar {rv : RangeVar} {info : TableInfo} (found : getTable rv.relname = some info) :
    bindFrom (F := F) getTable [.rangeVar rv] = .ok ([⟨rv.scopeAlias, info, 0⟩], .seqScan info.oid none) := by
  simp [bindFrom, bindFromItem, lookupTable, found, bind, Except.bind, List.foldlM, pure, Except.pure]

variable {join : JoinExpr F} {leftInfo rightInfo : TableInfo}

end Binding

section OwnNames

variable {getTable : GetTable}

variable {F : Type} {item : FromItem F}

end OwnNames

section Meaning

variable {getTable : GetTable} {db : Database F} {whereClause : Option (PgNode F)} {join : JoinExpr F}

/-- Two tests, both of which are made. -/
def both (first second : Except String Bool) : Except String Bool := do return (← first) && (← second)

end Meaning

section Execution

variable [PrintsFloat F] {runtime : Runtime F} {db : Database F} {predicate : Option (Expression F)}

end Execution

section Conditions

variable {getTable : GetTable} {db : Database F} {whereClause : Option (PgNode F)} {scopes : List TableScope}
  {layout : Layout} {values : Row F} {reading : ℕ → ℕ → Except String (Value F)}

omit [Field F] [LinearOrder F] in
theorem length_of_rowFits {schema : Schema} {row : Row F} (fits : RowFits schema row) :
    row.length = schema.columns.length := by
  simpa using congrArg List.length fits.1

section SingleTable

variable {rv : RangeVar} {info : TableInfo}

variable [PrintsFloat F] {runtime : Runtime F}

end SingleTable

section SingleJoin

variable {join : JoinExpr F} {leftInfo rightInfo : TableInfo}

variable [PrintsFloat F] {runtime : Runtime F}

end SingleJoin

end Conditions

section Simple

variable {getTable : GetTable} {fromClause : List (FromItem F)} [PrintsFloat F]

omit [Field F] [LinearOrder F] [PrintsFloat F] in
theorem IsSimple.shape {items : List (FromItem F)} (simple : IsSimple getTable items) :
    (∃ rv, items = [.rangeVar rv]) ∨ ∃ join, items = [.joinExpr join] := by
  match items with
  | [] | [.other] => exact simple.elim
  | [.rangeVar rv] => exact .inl ⟨rv, rfl⟩
  | [.joinExpr join] => exact .inr ⟨join, rfl⟩
  | .rangeVar _ :: _ :: _ | .joinExpr _ :: _ :: _ | .other :: _ :: _ => exact simple.elim

end Simple

end Reference

end OneBase
