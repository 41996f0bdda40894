import OneBase.Model.Value

/-! # Expressions over rows

`execution/expressions`. A row is the list of the values that `GetValue` reads from a tuple, one per
column of its schema. Both operands of an operator are evaluated before the operator is applied, so
`AND` and `OR` do not cut evaluation short. The binder can leave an operand null; evaluating a null
operand or reading outside a row has no defined behaviour in the source and is an error here.
-/

namespace OneBase

/-- The values of a tuple, column by column. -/
abbrev Row (F : Type) := List (Value F)

/-- `GetValue`. -/
def Row.getValue {F : Type} (row : Row F) (colIdx : ℕ) : Except String (Value F) :=
  row[colIdx]?.elim (.error "undefined: no such column") .ok

inductive ComparisonType where
  | equal
  | notEqual
  | lessThan
  | lessThanOrEqual
  | greaterThan
  | greaterThanOrEqual
deriving DecidableEq, Repr

inductive ArithmeticType where
  | plus
  | minus
  | multiply
  | divide
  | modulo
deriving DecidableEq, Repr

inductive LogicType where
  | and
  | or
deriving DecidableEq, Repr

/-- `AbstractExpression` and its subclasses; `null` is the null pointer. -/
inductive Expression (F : Type) where
  | null
  | columnValue (tupleIdx colIdx : ℕ) (retType : TypeId)
  | constantValue (value : Value F)
  | comparison (left right : Expression F) (compType : ComparisonType)
  | arithmetic (left right : Expression F) (arithType : ArithmeticType)
  | logic (left right : Expression F) (logicType : LogicType)
deriving DecidableEq

/-- Which argument of the base class constructor is evaluated first: the child list, which moves from `left`, or the
type, which is read from `left`. -/
inductive ArgumentOrder where
  | childrenFirst
  | typeFirst
deriving DecidableEq, Repr

/-- `GetReturnType`, as the constructors set it. A null `left` counts as INTEGER there, also one that has just been
moved from. -/
def Expression.getReturnType {F : Type} (order : ArgumentOrder) : Expression F → TypeId
  | null => .integer
  | columnValue _ _ retType => retType
  | constantValue value => value.typeId
  | comparison _ _ _ => .boolean
  | arithmetic left _ _ =>
    match order with
    | .childrenFirst => .integer
    | .typeFirst => left.getReturnType order
  | logic _ _ _ => .boolean

namespace Expression

variable {F : Type} [Field F] [LinearOrder F]

def performComparison (left right : Value F) : ComparisonType → Except String (Value F)
  | .equal => left.compareEquals right
  | .notEqual => left.compareNotEquals right
  | .lessThan => left.compareLessThan right
  | .lessThanOrEqual => left.compareLessThanOrEqual right
  | .greaterThan => left.compareGreaterThan right
  | .greaterThanOrEqual => left.compareGreaterThanOrEqual right

def performComputation (left right : Value F) : ArithmeticType → Except String (Value F)
  | .plus => left.add right
  | .minus => left.subtract right
  | .multiply => left.multiply right
  | .divide => left.divide right
  | .modulo => left.modulo right

def performLogic (left right : Value F) : LogicType → Except String (Value F)
  | .and => left.and right
  | .or => left.or right

/-- Evaluation, with the meaning of a column left open: `Evaluate` and `EvaluateJoin` differ there only. -/
def evaluateWith (column : ℕ → ℕ → Except String (Value F)) : Expression F → Except String (Value F)
  | null => .error "undefined: null operand"
  | columnValue tupleIdx colIdx _ => column tupleIdx colIdx
  | constantValue value => .ok value
  | comparison left right compType => do
    performComparison (← left.evaluateWith column) (← right.evaluateWith column) compType
  | arithmetic left right arithType => do
    performComputation (← left.evaluateWith column) (← right.evaluateWith column) arithType
  | logic left right logicType => do
    performLogic (← left.evaluateWith column) (← right.evaluateWith column) logicType

/-- `Evaluate`; a column ignores its tuple index. -/
def evaluate (e : Expression F) (row : Row F) : Except String (Value F) :=
  e.evaluateWith fun _ colIdx => row.getValue colIdx

/-- `EvaluateJoin`. -/
def evaluateJoin (e : Expression F) (left right : Row F) : Except String (Value F) :=
  e.evaluateWith fun tupleIdx colIdx => if tupleIdx = 0 then left.getValue colIdx else right.getValue colIdx

end Expression

end OneBase
