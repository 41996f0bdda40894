import OneBase.Proofs.Query.BoundExpressions
import Mathlib.Algebra.Order.Field.Rat

/-! # Columns above a join

A join evaluates its predicate with `EvaluateJoin`, where a column is a side and a position. The
nodes above it evaluate the same expressions with `Evaluate` on the joined row, where the position
alone counts: a column of the right side is read among the left side's columns. The two agree for the
expressions over some columns exactly when each of the right ones among them finds its own value
there.
-/

namespace OneBase

open ExceptLoops Binder

variable {F : Type} [Field F] [LinearOrder F]

/-- The scopes of a join. -/
def joinScopes (leftAlias rightAlias : String) (left right : TableInfo) : List TableScope :=
  [⟨leftAlias, left, 0⟩, ⟨rightAlias, right, 1⟩]

/-- The joined row shows a right column at the position that `Evaluate` reads. -/
def ShowsRight (left right : Row F) (colIdx : ℕ) : Prop := (left ++ right)[colIdx]? = right[colIdx]?

variable {leftAlias rightAlias : String} {left right : TableInfo} {l r : Row F}

/-- A bound expression agrees when its right columns show. -/
theorem evaluate_eq_evaluateJoin {node : PgNode F} {e : Expression F}
    (bound : bindExpression (joinScopes leftAlias rightAlias left right) node = .ok e)
    (leftWidth : l.length = left.schema.columns.length)
    (shown : e.Columns fun tupleIdx colIdx => tupleIdx = 1 → ShowsRight l r colIdx) :
    e.evaluate (l ++ r) = e.evaluateJoin l r := by
  refine Expression.evaluateWith_congr (((bindExpression_named node bound).and shown).mono ?_)
  rintro tupleIdx colIdx ⟨named, shown⟩
  obtain ⟨scope, member, rfl, inside⟩ := named.inScope
  rcases List.mem_cons.mp member with rfl | member
  · have inLeft : colIdx < l.length := leftWidth ▸ inside
    simp only [↓reduceIte, Row.getValue, List.getElem?_append_left inLeft]
  · obtain rfl := List.mem_singleton.mp member
    simp only [one_ne_zero, ↓reduceIte, Row.getValue]
    rw [shown rfl]

/-- Above a join, every expression over the right columns `used` (and any left ones) has the value that the join's
own evaluation gives it, exactly when each of these columns that a name can reach shows in the joined row. -/
theorem evaluate_above_join_iff (leftAlias rightAlias : String) (left right : TableInfo) (l r : Row F)
    (leftWidth : l.length = left.schema.columns.length) (rightWidth : r.length = right.schema.columns.length)
    (used : ℕ → Prop) :
    (∀ (node : PgNode F) (e : Expression F),
        bindExpression (joinScopes leftAlias rightAlias left right) node = .ok e →
        e.Columns (fun tupleIdx colIdx => tupleIdx = 1 → used colIdx) →
        e.evaluate (l ++ r) = e.evaluateJoin l r) ↔
      ∀ colIdx, Named (joinScopes leftAlias rightAlias left right) 1 colIdx → used colIdx →
        ShowsRight l r colIdx := by
  constructor
  · rintro agree colIdx ⟨fields, type, resolved⟩ isUsed
    have bound : bindExpression (joinScopes leftAlias rightAlias left right) (.columnRef fields : PgNode F) =
        .ok (.columnValue 1 colIdx type) := by
      simp [bindExpression, bindColumnRef, resolved, bind, Except.bind, pure, Except.pure]
    have same := agree _ _ bound fun _ => isUsed
    have inRight : colIdx < r.length := by
      obtain ⟨scope, member, side, inside⟩ := resolveColumn_inScope resolved
      rcases List.mem_cons.mp member with rfl | member
      · cases side
      · obtain rfl := List.mem_singleton.mp member
        exact rightWidth ▸ inside
    simp only [Expression.evaluate, Expression.evaluateJoin, Expression.evaluateWith, Row.getValue,
      List.getElem?_eq_getElem inRight, one_ne_zero, ↓reduceIte, Option.elim_some] at same
    rw [ShowsRight, List.getElem?_eq_getElem inRight]
    cases found : (l ++ r)[colIdx]? with
    | none => simp [found] at same
    | some value =>
      simp only [found, Option.elim_some, Except.ok.injEq] at same
      rw [same]
  · intro shows node e bound columns
    refine evaluate_eq_evaluateJoin bound leftWidth (((bindExpression_named node bound).and columns).mono ?_)
    rintro tupleIdx colIdx ⟨named, isUsed⟩ rfl
    exact shows colIdx named (isUsed rfl)

section Instances

/-- Two tables of two INTEGER columns. -/
def baseTable : TableInfo := ⟨.new [.new "id" .integer 0, .new "val" .integer 0], "base", 0⟩

def probeTable : TableInfo := ⟨.new [.new "id" .integer 0, .new "tag" .integer 0], "probe", 1⟩

/-- `base.id < tag`. -/
def idBelowTag : PgNode ℚ := .aExpr .op ["<"] (.columnRef ["base", "id"]) (.columnRef ["tag"])

/-- A row of the left table whose second column equals that of the row of the right table. -/
theorem idBelowTag_above_join :
    Expression.evaluate (.comparison (.columnValue 0 0 .integer) (.columnValue 1 1 .integer) .lessThan)
        ([.integer 1, .integer 7] ++ [.integer 2, .integer 7] : Row ℚ) =
      Expression.evaluateJoin (.comparison (.columnValue 0 0 .integer) (.columnValue 1 1 .integer) .lessThan)
        [.integer 1, .integer 7] [.integer 2, .integer 7] := by
  have bound : bindExpression (joinScopes "base" "probe" baseTable probeTable) idBelowTag =
      .ok (.comparison (.columnValue 0 0 .integer) (.columnValue 1 1 .integer) .lessThan) := by decide +kernel
  refine (evaluate_above_join_iff "base" "probe" baseTable probeTable _ _ rfl rfl (· = 1)).mpr ?_ idBelowTag _ bound
    ⟨by simp [Expression.Columns], by simp [Expression.Columns]⟩
  rintro colIdx - rfl
  rfl

/-- `SELECT tag` above the join of the rows (1, 7) and (2, 9) reads `val`. -/
theorem tag_misread_above_join :
    ∃ e : Expression ℚ, bindExpression (joinScopes "base" "probe" baseTable probeTable)
      (.columnRef ["tag"]) = .ok e ∧
      e.evaluate ([.integer 1, .integer 7] ++ [.integer 2, .integer 9]) ≠
        e.evaluateJoin [.integer 1, .integer 7] [.integer 2, .integer 9] :=
  ⟨.columnValue 1 1 .integer, by decide +kernel, by decide +kernel⟩

end Instances

end OneBase
