import OneBase.Model.Expression
import OneBase.Model.Tuple
import OneBase.ToMathlib.ExceptLoops
import Mathlib.Algebra.Order.Field.Rat
import Mathlib.Tactic.NormNum

/-! # The types that expressions declare

A value has the type that its expression declares, where the type of an arithmetic expression has been read from the
left operand before the child list took that operand away. Read afterwards it is INTEGER, and a sum of floats is not.
-/

namespace OneBase

open ExceptLoops

/-- A row whose values have the types of the schema. -/
def Row.Fits {F : Type} (row : Row F) (schema : Schema) : Prop :=
  row.map Value.typeId = schema.columns.map Column.typeId

namespace Expression

variable {F : Type}

/-- Columns have the types of the schema. -/
def ColumnsTyped (schema : Schema) : Expression F → Prop
  | null => True
  | columnValue _ colIdx retType => ∃ column, schema.columns[colIdx]? = some column ∧ column.typeId = retType
  | constantValue _ => True
  | comparison left right _ => left.ColumnsTyped schema ∧ right.ColumnsTyped schema
  | arithmetic left right _ => left.ColumnsTyped schema ∧ right.ColumnsTyped schema
  | logic left right _ => left.ColumnsTyped schema ∧ right.ColumnsTyped schema

/-- An arithmetic expression with a FLOAT on its left. -/
def IsFloatArithmetic : Expression F → Prop
  | arithmetic left _ _ => left.getReturnType .typeFirst = .float
  | _ => False

section Results

variable [Field F] [LinearOrder F] {left right value : Value F}

theorem performComparison_typeId {compType : ComparisonType}
    (performed : performComparison left right compType = .ok value) : value.typeId = .boolean := by
  have equals (same : left.compareEquals right = .ok value) : value.typeId = .boolean := by
    unfold Value.compareEquals at same
    split_ifs at same
    split at same <;> cases same <;> rfl
  have notEquals (different : left.compareNotEquals right = .ok value) : value.typeId = .boolean := by
    unfold Value.compareNotEquals at different
    split_ifs at different
    split at different <;> cases different <;> rfl
  have order (onInteger : Int32 → Int32 → Bool) (onFloat : F → F → Bool) (onText : Text → Text → Bool)
      (ordered : Value.compareOrder onInteger onFloat onText left right = .ok value) : value.typeId = .boolean := by
    unfold Value.compareOrder at ordered
    split_ifs at ordered
    split at ordered <;> cases ordered <;> rfl
  cases compType with
  | equal => exact equals performed
  | notEqual => exact notEquals performed
  | lessThan => exact order (· < ·) (· < ·) (· < ·) performed
  | lessThanOrEqual => exact order (· ≤ ·) (· ≤ ·) (· ≤ ·) performed
  | greaterThan => exact order (· > ·) (· > ·) (· > ·) performed
  | greaterThanOrEqual => exact order (· ≥ ·) (· ≥ ·) (· ≥ ·) performed

omit [Field F] [LinearOrder F] in
theorem performLogic_typeId {logicType : LogicType} (performed : performLogic left right logicType = .ok value) :
    value.typeId = .boolean := by
  cases logicType with
  | and =>
    simp only [performLogic, Value.and] at performed
    split_ifs at performed
    cases performed
    rfl
  | or =>
    simp only [performLogic, Value.or] at performed
    split_ifs at performed
    cases performed
    rfl

/-- Arithmetic is on integers or on floats, and stays there. -/
theorem performComputation_typeId {arithType : ArithmeticType}
    (performed : performComputation left right arithType = .ok value) :
    value.typeId = left.typeId ∧ (left.typeId = .integer ∨ left.typeId = .float) := by
  have computes (onInteger : Int32 → Int32 → Int32) (onFloat : F → F → F) (unsupported : String)
      (computed : Value.compute onInteger onFloat unsupported left right = .ok value) :
      value.typeId = left.typeId ∧ (left.typeId = .integer ∨ left.typeId = .float) := by
    unfold Value.compute at computed
    split_ifs at computed
    split at computed
    · rename_i type
      cases computed
      exact ⟨type.symm, .inl type⟩
    · rename_i type
      cases computed
      exact ⟨type.symm, .inr type⟩
    · cases computed
  cases arithType with
  | plus => exact computes (· + ·) (· + ·) "Unsupported type for addition" performed
  | minus => exact computes (· - ·) (· - ·) "Unsupported type for subtraction" performed
  | multiply => exact computes (· * ·) (· * ·) "Unsupported type for multiplication" performed
  | divide =>
    simp only [performComputation, Value.divide] at performed
    split at performed
    · cases type : left.typeId with
      | integer =>
        simp only [type] at performed
        split_ifs at performed
        cases performed
        exact ⟨rfl, .inl rfl⟩
      | float =>
        simp only [type] at performed
        split_ifs at performed
        cases performed
        exact ⟨rfl, .inr rfl⟩
      | _ => simp [type] at performed
    · cases performed
  | modulo =>
    simp only [performComputation, Value.modulo] at performed
    split at performed
    · cases type : left.typeId with
      | integer =>
        simp only [type] at performed
        split_ifs at performed
        cases performed
        exact ⟨rfl, .inl rfl⟩
      | _ => simp [type] at performed
    · cases performed

end Results

section Types

variable [Field F] [LinearOrder F] {schema : Schema} {row : Row F} {e : Expression F} {value : Value F}

/-- Read before the move, the type of an expression is the type of its values. -/
theorem typeId_eq_typeFirst (fits : row.Fits schema) (typed : e.ColumnsTyped schema)
    (evaluated : e.evaluate row = .ok value) : value.typeId = e.getReturnType .typeFirst := by
  induction e generalizing value with
  | null => cases evaluated
  | columnValue tupleIdx colIdx retType =>
    obtain ⟨column, listed, rfl⟩ := typed
    have types : (row.map Value.typeId)[colIdx]? = some column.typeId := by rw [fits, List.getElem?_map, listed]; rfl
    rw [List.getElem?_map] at types
    obtain ⟨stored, here, type⟩ := Option.map_eq_some_iff.mp types
    change Row.getValue row colIdx = .ok value at evaluated
    rw [Row.getValue, here] at evaluated
    cases evaluated
    exact type
  | constantValue constant =>
    cases evaluated
    rfl
  | comparison left right compType =>
    simp only [evaluate, evaluateWith, bind_eq_ok_iff] at evaluated
    obtain ⟨_, -, _, -, performed⟩ := evaluated
    exact performComparison_typeId performed
  | arithmetic left right arithType ihLeft ihRight =>
    simp only [evaluate, evaluateWith, bind_eq_ok_iff] at evaluated
    obtain ⟨valLeft, evalLeft, valRight, -, performed⟩ := evaluated
    exact (performComputation_typeId performed).1.trans (ihLeft typed.1 evalLeft)
  | logic left right logicType =>
    simp only [evaluate, evaluateWith, bind_eq_ok_iff] at evaluated
    obtain ⟨_, -, _, -, performed⟩ := evaluated
    exact performLogic_typeId performed

/-- A value has the declared type unless it is a float from arithmetic and the type was read after the move. -/
theorem typeId_eq_iff (order : ArgumentOrder) (fits : row.Fits schema) (typed : e.ColumnsTyped schema)
    (evaluated : e.evaluate row = .ok value) :
    value.typeId = e.getReturnType order ↔ order = .typeFirst ∨ ¬ e.IsFloatArithmetic := by
  have sound := typeId_eq_typeFirst fits typed evaluated
  cases order with
  | typeFirst => simp [sound]
  | childrenFirst =>
    rw [sound]
    cases e with
    | arithmetic left right arithType =>
      simp only [evaluate, evaluateWith, bind_eq_ok_iff] at evaluated
      obtain ⟨valLeft, evalLeft, valRight, -, performed⟩ := evaluated
      have leftSound := typeId_eq_typeFirst fits typed.1 evalLeft
      have numeric := (performComputation_typeId performed).2
      rw [leftSound] at numeric
      simp only [getReturnType, IsFloatArithmetic]
      rcases numeric with integer | float
      · simp [integer]
      · simp [float]
    | _ => simp [getReturnType, IsFloatArithmetic]

end Types

section Prices

/-- A table with a FLOAT column. -/
def prices : Schema := Schema.new [Column.new "price" .float 0]

def price : Expression ℚ := .columnValue 0 0 .float

def doubledPrice : Expression ℚ := .arithmetic price price .plus

theorem price_fits : Row.Fits [(.float (3 / 2) : Value ℚ)] prices := rfl

theorem doubledPrice_typed : doubledPrice.ColumnsTyped prices := by
  have column : price.ColumnsTyped prices := ⟨{ Column.new "price" .float 0 with offset := 0 }, rfl, rfl⟩
  exact ⟨column, column⟩

theorem doubledPrice_evaluate : doubledPrice.evaluate [.float (3 / 2)] = .ok (.float 3) := by
  norm_num [doubledPrice, price, evaluate, evaluateWith, Row.getValue, performComputation, Value.add, Value.compute,
    Value.typeId, Value.floatPart, bind, Except.bind]

theorem typeId_eq_iff_doubledPrice : (.float 3 : Value ℚ).typeId = doubledPrice.getReturnType .typeFirst ↔
    ArgumentOrder.typeFirst = .typeFirst ∨ ¬ doubledPrice.IsFloatArithmetic :=
  typeId_eq_iff .typeFirst price_fits doubledPrice_typed doubledPrice_evaluate

/-- With the children first a sum of floats declares itself INTEGER. -/
theorem doubledPrice_misdeclared : ¬ ∀ (order : ArgumentOrder) (schema : Schema) (row : Row ℚ) (e : Expression ℚ)
    (value : Value ℚ), row.Fits schema → e.ColumnsTyped schema → e.evaluate row = .ok value →
      value.typeId = e.getReturnType order := by
  intro sound
  have declared := sound .childrenFirst prices _ doubledPrice _ price_fits doubledPrice_typed doubledPrice_evaluate
  cases declared

end Prices

end Expression

end OneBase
