import OneBase.Model.Binder
import OneBase.ToMathlib.ExceptLoops

/-! # What the binder makes of expressions

Every column of a bound expression is a column of one of the scopes, under the tuple index of that
scope. An expression depends on its columns only.
-/

namespace OneBase

open ExceptLoops

namespace Expression

variable {F : Type}

/-- All columns of an expression have a property. -/
def Columns (P : ℕ → ℕ → Prop) : Expression F → Prop
  | null => True
  | columnValue tupleIdx colIdx _ => P tupleIdx colIdx
  | constantValue _ => True
  | comparison left right _ => left.Columns P ∧ right.Columns P
  | arithmetic left right _ => left.Columns P ∧ right.Columns P
  | logic left right _ => left.Columns P ∧ right.Columns P

theorem Columns.mono {P Q : ℕ → ℕ → Prop} (implies : ∀ t c, P t c → Q t c) {e : Expression F}
    (columns : e.Columns P) :
    e.Columns Q := by
  induction e with
  | null => trivial
  | columnValue tupleIdx colIdx _ => exact implies _ _ columns
  | constantValue _ => trivial
  | comparison left right _ ihLeft ihRight => exact ⟨ihLeft columns.1, ihRight columns.2⟩
  | arithmetic left right _ ihLeft ihRight => exact ⟨ihLeft columns.1, ihRight columns.2⟩
  | logic left right _ ihLeft ihRight => exact ⟨ihLeft columns.1, ihRight columns.2⟩

theorem Columns.and {P Q : ℕ → ℕ → Prop} {e : Expression F} (first : e.Columns P) (second : e.Columns Q) :
    e.Columns fun t c => P t c ∧ Q t c := by
  induction e with
  | null => trivial
  | columnValue tupleIdx colIdx _ => exact ⟨first, second⟩
  | constantValue _ => trivial
  | comparison left right _ ihLeft ihRight => exact ⟨ihLeft first.1 second.1, ihRight first.2 second.2⟩
  | arithmetic left right _ ihLeft ihRight => exact ⟨ihLeft first.1 second.1, ihRight first.2 second.2⟩
  | logic left right _ ihLeft ihRight => exact ⟨ihLeft first.1 second.1, ihRight first.2 second.2⟩

variable [Field F] [LinearOrder F]

/-- Two readings of the columns that agree on the columns of an expression give it the same value. -/
theorem evaluateWith_congr {column column' : ℕ → ℕ → Except String (Value F)} {e : Expression F}
    (same : e.Columns fun t c => column t c = column' t c) : e.evaluateWith column = e.evaluateWith column' := by
  induction e with
  | null => rfl
  | columnValue tupleIdx colIdx _ => exact same
  | constantValue _ => rfl
  | comparison left right _ ihLeft ihRight => simp only [evaluateWith, ihLeft same.1, ihRight same.2]
  | arithmetic left right _ ihLeft ihRight => simp only [evaluateWith, ihLeft same.1, ihRight same.2]
  | logic left right _ ihLeft ihRight => simp only [evaluateWith, ihLeft same.1, ihRight same.2]

end Expression

namespace Binder

variable {F : Type} {scopes : List TableScope}

/-- A column of one of the scopes. -/
def InScope (scopes : List TableScope) (tupleIdx colIdx : ℕ) : Prop :=
  ∃ scope ∈ scopes, scope.tupleIdx = tupleIdx ∧ colIdx < scope.info.schema.columns.length

theorem findColumn_eq_some {schema : Schema} {colName : String} {colIdx : ℕ} {type : TypeId}
    (found : findColumn schema colName = some (colIdx, type)) :
    ∃ column, schema.columns[colIdx]? = some column ∧ column.typeId = type := by
  simp only [findColumn, bind, Option.bind_eq_some_iff] at found
  obtain ⟨_, -, column, listed, pair⟩ := found
  cases pair
  exact ⟨column, listed, rfl⟩

/-- A name is resolved to a column of a scope, with the type of the column. -/
theorem resolveColumn_eq_ok {colName tableQualifier : String} {tupleIdx colIdx : ℕ} {type : TypeId}
    (resolved : resolveColumn colName tableQualifier scopes = .ok (tupleIdx, colIdx, type)) :
    ∃ scope ∈ scopes, scope.tupleIdx = tupleIdx ∧
      ∃ column, scope.info.schema.columns[colIdx]? = some column ∧ column.typeId = type := by
  induction scopes with
  | nil => cases resolved
  | cons scope rest ih =>
    have later (resolved : resolveColumn colName tableQualifier rest = .ok (tupleIdx, colIdx, type)) :
        ∃ other ∈ scope :: rest, other.tupleIdx = tupleIdx ∧
          ∃ column, other.info.schema.columns[colIdx]? = some column ∧ column.typeId = type := by
      obtain ⟨other, member, inside⟩ := ih resolved
      exact ⟨other, List.mem_cons_of_mem _ member, inside⟩
    unfold resolveColumn at resolved
    split_ifs at resolved with skipped
    · exact later resolved
    · split at resolved
      · rename_i found
        cases resolved
        exact ⟨scope, List.mem_cons_self, rfl, findColumn_eq_some found⟩
      · exact later resolved

theorem resolveColumn_inScope {colName tableQualifier : String} {tupleIdx colIdx : ℕ} {type : TypeId}
    (resolved : resolveColumn colName tableQualifier scopes = .ok (tupleIdx, colIdx, type)) :
    InScope scopes tupleIdx colIdx := by
  obtain ⟨scope, member, side, column, listed, -⟩ := resolveColumn_eq_ok resolved
  exact ⟨scope, member, side, (List.getElem?_eq_some_iff.mp listed).1⟩

/-- A column that some reference stands for. -/
def Named (scopes : List TableScope) (tupleIdx colIdx : ℕ) : Prop :=
  ∃ fields type, resolveColumn (columnName fields).1 (columnName fields).2 scopes = .ok (tupleIdx, colIdx, type)

theorem Named.inScope {tupleIdx colIdx : ℕ} (named : Named scopes tupleIdx colIdx) :
    InScope scopes tupleIdx colIdx := by
  obtain ⟨fields, type, resolved⟩ := named
  exact resolveColumn_inScope resolved

theorem bindColumnRef_named {fields : List String} {e : Expression F} (bound : bindColumnRef fields scopes = .ok e) :
    e.Columns (Named scopes) := by
  obtain ⟨⟨tupleIdx, colIdx, type⟩, resolved, made⟩ := bind_eq_ok_iff.mp bound
  cases made
  exact ⟨fields, type, resolved⟩

theorem bindOperator_columns {P : ℕ → ℕ → Prop} {name : List String} {left right e : Expression F}
    (leftColumns : left.Columns P) (rightColumns : right.Columns P) (bound : bindOperator name left right = .ok e) :
    e.Columns P := by
  unfold bindOperator at bound
  split at bound
  · cases bound
    exact ⟨leftColumns, rightColumns⟩
  · cases bound
    exact ⟨leftColumns, rightColumns⟩
  · cases bound

mutual

/-- Every column of a bound expression was named in it. -/
theorem bindExpression_named : ∀ (node : PgNode F) {e : Expression F}, bindExpression scopes node = .ok e →
    e.Columns (Named scopes)
  | .columnRef fields, e, bound => bindColumnRef_named (by simpa only [bindExpression] using bound)
  | .columnStar _, e, bound => by
    simp only [bindExpression] at bound
    cases bound
    trivial
  | .aConst val, e, bound => by
    simp only [bindExpression] at bound
    cases val <;> cases bound <;> trivial
  | .aExpr _ name lexpr rexpr, e, bound => by
    simp only [bindExpression, bind_eq_ok_iff] at bound
    obtain ⟨left, leftBound, right, rightBound, made⟩ := bound
    exact bindOperator_columns (bindExpression_named lexpr leftBound) (bindExpression_named rexpr rightBound) made
  | .unaryExpr name rexpr, e, bound => by
    simp only [bindExpression, bind_eq_ok_iff] at bound
    obtain ⟨right, rightBound, made⟩ := bound
    have noColumns : (Expression.null : Expression F).Columns (Named scopes) := trivial
    exact bindOperator_columns noColumns (bindExpression_named rexpr rightBound) made
  | .postfixExpr name lexpr, e, bound => by
    simp only [bindExpression, bind_eq_ok_iff] at bound
    obtain ⟨left, leftBound, made⟩ := bound
    have noColumns : (Expression.null : Expression F).Columns (Named scopes) := trivial
    exact bindOperator_columns (bindExpression_named lexpr leftBound) noColumns made
  | .boolExpr .and first rest, e, bound => by
    simp only [bindExpression, bind_eq_ok_iff] at bound
    obtain ⟨result, firstBound, made⟩ := bound
    exact bindArgs_named rest (bindExpression_named first firstBound) made
  | .boolExpr .or first rest, e, bound => by
    simp only [bindExpression, bind_eq_ok_iff] at bound
    obtain ⟨result, firstBound, made⟩ := bound
    exact bindArgs_named rest (bindExpression_named first firstBound) made
  | .boolExpr .not first rest, e, bound => by
    simp only [bindExpression, reduceCtorEq] at bound
  | .aStar, e, bound => by
    simp only [bindExpression, reduceCtorEq] at bound
  | .funcCall _ _ _, e, bound => by
    simp only [bindExpression, reduceCtorEq] at bound
  | .other _, e, bound => by
    simp only [bindExpression, reduceCtorEq] at bound

theorem bindArgs_named : ∀ (args : List (PgNode F)) {logicType : LogicType} {result e : Expression F},
    result.Columns (Named scopes) → bindArgs scopes logicType result args = .ok e → e.Columns (Named scopes)
  | [], logicType, result, e, columns, bound => by
    simp only [bindArgs, Except.ok.injEq] at bound
    exact bound ▸ columns
  | arg :: rest, logicType, result, e, columns, bound => by
    simp only [bindArgs, bind_eq_ok_iff] at bound
    obtain ⟨right, argBound, made⟩ := bound
    have grown : (Expression.logic result right logicType).Columns (Named scopes) :=
      ⟨columns, bindExpression_named arg argBound⟩
    exact bindArgs_named rest grown made

end

end Binder

end OneBase
