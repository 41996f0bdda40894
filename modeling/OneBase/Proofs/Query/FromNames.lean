import OneBase.Proofs.Query.FromShapes

/-! # Names and conditions that are compiled wrong

A simple FROM clause has contents of the tables, and a condition with a name that stands for another column than the
binder takes, or a condition of an odd form, for which the plan gives something else than the statement. With the
wrong shapes this says exactly which FROM clauses are compiled right. -/

namespace OneBase

open ExceptLoops Binder

namespace Reference

variable {F : Type} [Field F] [LinearOrder F]

section Names

variable {getTable : GetTable} {odd : OddForm → Prop} {layout : Layout} {row : Row F} {type : TypeId}
    {fields : List String}
  {k colIdx : ℕ}

variable [PrintsFloat F]

section JoinNames

variable {join : JoinExpr F} {leftInfo rightInfo : TableInfo} {tupleIdx : ℕ} {e : Expression F}

end JoinNames

end Names

section OddForms

variable {getTable : GetTable} {odd : OddForm → Prop} {layout : Layout} {row : Row F}

variable {γ : Type} {db : Database F} {fromClause : List (FromItem F)} {whereClause : Option (PgNode F)}
    {tested : List γ}
  {reference : Row F → Except String Bool} {toRow : γ → Row F} {answer : γ → Except String Bool}
  {out : Except String (List (Row F))} {node : PgNode F} {predicate : Option (Expression F)}

variable [PrintsFloat F]

end OddForms

section Exactness

variable [PrintsFloat F] {getTable : GetTable} {odd : OddForm → Prop} {fromClause : List (FromItem F)}

end Exactness

section Instances

/-- A catalog of two tables. -/
def baseAndProbe : GetTable := fun name =>
  if name = "base" then some baseTable else if name = "probe" then some probeTable else none

def fromBase (F : Type) : FromItem F := .rangeVar ⟨"base", none⟩

/-- `base` holds (1, 7) and (3, 8), `probe` holds (1, 9). -/
def smallDb : Database ℚ := fun oid =>
  if oid = 0 then [[.integer 1, .integer 7], [.integer 3, .integer 8]] else if oid =
    1 then [[.integer 1, .integer 9]] else []

end Instances

end Reference

end OneBase
