import OneBase.Model.Binder
import OneBase.ToMathlib.ExceptLoops
import Mathlib.Algebra.Order.Field.Rat

/-! # Null operands

The binder gives a null expression for a star and leaves the missing operand of a prefix or a postfix operator null. An
expression it has bound is complete exactly when its parse tree has none of these; evaluation follows no null operand of
a complete one.
-/

namespace OneBase

open ExceptLoops

variable {F : Type}

namespace Expression

/-- No operand is null, at any depth. -/
def Complete : Expression F → Prop
  | null => False
  | columnValue _ _ _ => True
  | constantValue _ => True
  | comparison left right _ => left.Complete ∧ right.Complete
  | arithmetic left right _ => left.Complete ∧ right.Complete
  | logic left right _ => left.Complete ∧ right.Complete

/-- How following a null operand shows in the model. -/
def followsNull : String := "undefined: null operand"

section Evaluation

variable [Field F] [LinearOrder F] {left right : Value F}

theorem performComparison_ne_followsNull (compType : ComparisonType) :
    performComparison left right compType ≠ .error followsNull := by
  have order (onInteger : Int32 → Int32 → Bool) (onFloat : F → F → Bool) (onText : Text → Text → Bool) :
      Value.compareOrder onInteger onFloat onText left right ≠ .error followsNull := by
    unfold Value.compareOrder
    split_ifs
    · split <;> simp [followsNull]
    · simp [followsNull]
  cases compType with
  | equal =>
    simp only [performComparison, Value.compareEquals]
    split_ifs
    · split <;> simp [followsNull]
    · simp [followsNull]
  | notEqual =>
    simp only [performComparison, Value.compareNotEquals]
    split_ifs
    · split <;> simp [followsNull]
    · simp [followsNull]
  | lessThan => exact order (· < ·) (· < ·) (· < ·)
  | lessThanOrEqual => exact order (· ≤ ·) (· ≤ ·) (· ≤ ·)
  | greaterThan => exact order (· > ·) (· > ·) (· > ·)
  | greaterThanOrEqual => exact order (· ≥ ·) (· ≥ ·) (· ≥ ·)

theorem performComputation_ne_followsNull (arithType : ArithmeticType) :
    performComputation left right arithType ≠ .error followsNull := by
  have computes (onInteger : Int32 → Int32 → Int32) (onFloat : F → F → F) (unsupported : String)
      (other : unsupported ≠ followsNull) : Value.compute onInteger onFloat unsupported left right ≠
        .error followsNull := by
    unfold Value.compute
    split_ifs
    · split <;> simp [other]
    · simp [followsNull]
  cases arithType with
  | plus => exact computes (· + ·) (· + ·) "Unsupported type for addition" (by decide)
  | minus => exact computes (· - ·) (· - ·) "Unsupported type for subtraction" (by decide)
  | multiply => exact computes (· * ·) (· * ·) "Unsupported type for multiplication" (by decide)
  | divide =>
    simp only [performComputation, Value.divide]
    split
    · split
      · split_ifs <;> simp [followsNull]
      · split_ifs <;> simp [followsNull]
      · simp [followsNull]
    · simp [followsNull]
  | modulo =>
    simp only [performComputation, Value.modulo]
    split
    · split
      · split_ifs <;> simp [followsNull]
      · simp [followsNull]
    · simp [followsNull]

omit [Field F] [LinearOrder F] in
theorem performLogic_ne_followsNull (logicType : LogicType) :
    performLogic left right logicType ≠ .error followsNull := by
  cases logicType with
  | and =>
    simp only [performLogic, Value.and]
    split_ifs <;> simp [followsNull]
  | or =>
    simp only [performLogic, Value.or]
    split_ifs <;> simp [followsNull]

/-- Evaluation of a complete expression follows a null operand only where reading a column does. -/
theorem Complete.evaluateWith_ne {column : ℕ → ℕ → Except String (Value F)} {e : Expression F}
    (complete : e.Complete)
    (columns : ∀ t c, column t c ≠ .error followsNull) : e.evaluateWith column ≠ .error followsNull := by
  -- a failure of an operator is a failure of an operand or of the operation
  have operands {left right : Except String (Value F)} {perform : Value F → Value F → Except String (Value F)}
      (leftFine : left ≠ .error followsNull) (rightFine : right ≠ .error followsNull)
      (performs : ∀ a b, perform a b ≠ .error followsNull) :
      (do perform (← left) (← right)) ≠ Except.error followsNull := by
    cases left with
    | error message => simpa [bind, Except.bind] using leftFine
    | ok a =>
      cases right with
      | error message => simpa [bind, Except.bind] using rightFine
      | ok b => exact performs a b
  induction e with
  | null => exact complete.elim
  | columnValue tupleIdx colIdx retType => exact columns tupleIdx colIdx
  | constantValue value => simp [evaluateWith]
  | comparison left right compType ihLeft ihRight =>
    exact operands (ihLeft complete.1) (ihRight complete.2) fun _ _ => performComparison_ne_followsNull compType
  | arithmetic left right arithType ihLeft ihRight =>
    exact operands (ihLeft complete.1) (ihRight complete.2) fun _ _ => performComputation_ne_followsNull arithType
  | logic left right logicType ihLeft ihRight =>
    exact operands (ihLeft complete.1) (ihRight complete.2) fun _ _ => performLogic_ne_followsNull logicType

end Evaluation

end Expression

namespace PgNode

mutual

/-- No star stands for an expression and no operator lacks an operand. -/
def Whole : PgNode F → Prop
  | columnStar _ => False
  | unaryExpr _ _ => False
  | postfixExpr _ _ => False
  | aExpr _ _ lexpr rexpr => lexpr.Whole ∧ rexpr.Whole
  | boolExpr _ first rest => first.Whole ∧ AllWhole rest
  | _ => True

def AllWhole : List (PgNode F) → Prop
  | [] => True
  | node :: rest => node.Whole ∧ AllWhole rest

end

end PgNode

namespace Binder

variable {scopes : List TableScope} {e : Expression F}

theorem bindColumnRef_complete {fields : List String} (bound : bindColumnRef fields scopes = .ok e) : e.Complete := by
  obtain ⟨column, -, made⟩ := bind_eq_ok_iff.mp bound
  cases made
  trivial

theorem bindOperator_complete_iff {name : List String} {left right : Expression F}
    (bound : bindOperator name left right = .ok e) : e.Complete ↔ left.Complete ∧ right.Complete := by
  unfold bindOperator at bound
  split at bound
  · cases bound
    rfl
  · cases bound
    rfl
  · cases bound

mutual

/-- What the binder makes of a parse tree is complete exactly when the tree is whole. -/
theorem bindExpression_complete_iff : ∀ (node : PgNode F) {e : Expression F}, bindExpression scopes node = .ok e →
    (e.Complete ↔ node.Whole)
  | .columnRef fields, e, bound => by
    simp only [bindExpression] at bound
    simp [bindColumnRef_complete bound, PgNode.Whole]
  | .columnStar _, e, bound => by
    simp only [bindExpression] at bound
    cases bound
    rfl
  | .aConst val, e, bound => by
    simp only [bindExpression] at bound
    cases val <;> cases bound <;> simp [Expression.Complete, PgNode.Whole]
  | .aExpr _ name lexpr rexpr, e, bound => by
    simp only [bindExpression, bind_eq_ok_iff] at bound
    obtain ⟨left, leftBound, right, rightBound, made⟩ := bound
    rw [bindOperator_complete_iff made, bindExpression_complete_iff lexpr leftBound,
      bindExpression_complete_iff rexpr rightBound, PgNode.Whole]
  | .unaryExpr name rexpr, e, bound => by
    simp only [bindExpression, bind_eq_ok_iff] at bound
    obtain ⟨right, -, made⟩ := bound
    simp [bindOperator_complete_iff made, Expression.Complete, PgNode.Whole]
  | .postfixExpr name lexpr, e, bound => by
    simp only [bindExpression, bind_eq_ok_iff] at bound
    obtain ⟨left, -, made⟩ := bound
    simp [bindOperator_complete_iff made, Expression.Complete, PgNode.Whole]
  | .boolExpr .and first rest, e, bound => by
    simp only [bindExpression, bind_eq_ok_iff] at bound
    obtain ⟨result, firstBound, made⟩ := bound
    rw [bindArgs_complete_iff rest made, bindExpression_complete_iff first firstBound, PgNode.Whole]
  | .boolExpr .or first rest, e, bound => by
    simp only [bindExpression, bind_eq_ok_iff] at bound
    obtain ⟨result, firstBound, made⟩ := bound
    rw [bindArgs_complete_iff rest made, bindExpression_complete_iff first firstBound, PgNode.Whole]
  | .boolExpr .not first rest, e, bound => by
    simp only [bindExpression, reduceCtorEq] at bound
  | .aStar, e, bound => by
    simp only [bindExpression, reduceCtorEq] at bound
  | .funcCall _ _ _, e, bound => by
    simp only [bindExpression, reduceCtorEq] at bound
  | .other _, e, bound => by
    simp only [bindExpression, reduceCtorEq] at bound

theorem bindArgs_complete_iff : ∀ (args : List (PgNode F)) {logicType : LogicType} {result e : Expression F},
    bindArgs scopes logicType result args = .ok e → (e.Complete ↔ result.Complete ∧ PgNode.AllWhole args)
  | [], logicType, result, e, bound => by
    simp only [bindArgs, Except.ok.injEq] at bound
    simp [bound, PgNode.AllWhole]
  | arg :: rest, logicType, result, e, bound => by
    simp only [bindArgs, bind_eq_ok_iff] at bound
    obtain ⟨right, argBound, made⟩ := bound
    rw [bindArgs_complete_iff rest made, Expression.Complete, bindExpression_complete_iff arg argBound, PgNode.AllWhole,
      and_assoc]

end

/-- A bound expression has no null in it exactly when its parse tree has no star and no operator that lacks an operand,
and then evaluation never follows a null operand. -/
theorem bound_complete_iff [Field F] [LinearOrder F] {node : PgNode F} (bound : bindExpression scopes node = .ok e) :
    (e.Complete ↔ node.Whole) ∧ (node.Whole → ∀ column : ℕ → ℕ → Except String (Value F),
      (∀ t c, column t c ≠ .error Expression.followsNull) →
      e.evaluateWith column ≠ .error Expression.followsNull) := by
  have complete := bindExpression_complete_iff node bound
  exact ⟨complete, fun whole _ columns => (complete.mpr whole).evaluateWith_ne columns⟩

section Users

/-- The scopes of a query over a table with a column `id`. -/
def users : List TableScope := [⟨"users", ⟨Schema.new [Column.new "id" .integer 0], "users", 1⟩, 0⟩]

/-- `id + 1`. -/
def nextId : PgNode ℚ := .aExpr .op ["+"] (.columnRef ["id"]) (.aConst (.integer 1))

/-- `-id`. -/
def negatedId : PgNode ℚ := .unaryExpr ["-"] (.columnRef ["id"])

theorem bound_complete_iff_nextId :
    (Expression.arithmetic (.columnValue 0 0 .integer) (.constantValue (.integer 1)) .plus : Expression
      ℚ).Complete ↔
      nextId.Whole := by
  have bound : bindExpression users nextId =
      .ok (.arithmetic (.columnValue 0 0 .integer) (.constantValue (.integer 1)) .plus) := by
    simp [nextId, bindExpression, bindColumnRef, columnName, resolveColumn, users, findColumn, Schema.new,
      Schema.setOffsets, Column.new, bindConstant, bindOperator, operatorNamed, bind, Except.bind, pure, Except.pure]
  exact (bound_complete_iff bound).1

/-- A prefix operator leaves a null operand. -/
theorem negatedId_incomplete : ¬ ∀ (scopes : List TableScope) (node : PgNode ℚ) (e : Expression ℚ),
    bindExpression scopes node = .ok e → e.Complete := by
  intro complete
  have bound : bindExpression users negatedId = .ok (.arithmetic .null (.columnValue 0 0 .integer) .minus) := by
    simp [negatedId, bindExpression, bindColumnRef, columnName, resolveColumn, users, findColumn, Schema.new,
      Schema.setOffsets, Column.new, bindOperator, operatorNamed, bind, Except.bind, pure, Except.pure]
  exact (complete _ _ _ bound).1

end Users

end Binder

end OneBase
