import OneBase.Proofs.Query.BoundExpressions

/-! # The meaning of parsed expressions

An expression of the parse tree has a value on a combination of rows: a name stands for a position in it, found table by
table, and operators compute what the engine's values compute. Binding an expression and evaluating the result gives
this value where the names find the same columns, but for the parts of an operator that the binder does not read: its
kind, all but the first of its names, and a missing operand.
-/

namespace OneBase

open ExceptLoops Binder

namespace Reference

variable {F : Type} [Field F] [LinearOrder F]

section Meaning

/-- The names of the tables in scope, each with the names of its columns. -/
abbrev Layout := List (String × List String)

/-- The position of a column among all of them, in the first table that has it. -/
def locate (colName tableQualifier : String) : Layout → Option ℕ
  | [] => none
  | (name, columns) :: rest =>
    if (tableQualifier = "" ∨ tableQualifier = name) ∧ colName ∈ columns then some (columns.idxOf colName)
    else (locate colName tableQualifier rest).map (columns.length + ·)

/-- The position that a column reference stands for. -/
def position (layout : Layout) (fields : List String) : Option ℕ :=
    locate (columnName fields).1 (columnName fields).2 layout

/-- The value of a column. -/
def column (layout : Layout) (values : Row F) (fields : List String) : Except String (Value F) :=
  (position layout fields).elim (.error "no such column") values.getValue

/-- The value of a constant. -/
def constant : PgConst F → Except String (Value F)
  | .integer ival => .ok (.integer (Int32.ofInt ival))
  | .float f => .ok (.float f)
  | .string str => .ok (.varchar str)
  | .other => .error "no such constant"

/-- A binary operator by its name. -/
def operate (opName : String) (left right : Value F) : Except String (Value F) :=
  match operatorNamed opName with
  | some (.inl compType) => Expression.performComparison left right compType
  | some (.inr arithType) => Expression.performComputation left right arithType
  | none => .error "no such operator"

/-- Both values are NULL, or neither is and they are equal. -/
def sameValue (left right : Value F) : Except String Bool :=
  if left.isNull || right.isNull then .ok (left.isNull && right.isNull)
  else do (← Expression.performComparison left right .equal).getAsBoolean

/-- A binary operator. There are no operators of a schema, and no arrays for ANY and ALL to range over. -/
def combine (kind : PgAExprKind) (name : List String) (left right : Value F) : Except String (Value F) :=
  match kind, name with
  | .op, [opName] => operate opName left right
  | .distinct, [_] => do return .boolean !(← sameValue left right)
  | .notDistinct, [_] => do return .boolean (← sameValue left right)
  | .nullif, [_] => do return if ← sameValue left right then .null left.typeId else left
  | _, _ => .error "no such operator"

/-- A sign. -/
def sign (name : List String) (value : Value F) : Except String (Value F) :=
  match name, value with
  | ["+"], value => .ok value
  | ["-"], .integer i => .ok (.integer (0 - i))
  | ["-"], .float f => .ok (.float (0 - f))
  | _, _ => .error "no such operator"

mutual

/-- The value of an expression. -/
def eval (layout : Layout) (values : Row F) : PgNode F → Except String (Value F)
  | .columnRef fields => column layout values fields
  | .aConst val => constant val
  | .aExpr kind name lexpr rexpr => do
    let left ← eval layout values lexpr
    let right ← eval layout values rexpr
    combine kind name left right
  | .unaryExpr name rexpr => do
    let right ← eval layout values rexpr
    sign name right
  | .boolExpr .and first rest => do
    let result ← eval layout values first
    evalArgs layout values .and result rest
  | .boolExpr .or first rest => do
    let result ← eval layout values first
    evalArgs layout values .or result rest
  | _ => .error "no value"

def evalArgs (layout : Layout) (values : Row F) (logicType : LogicType) (result : Value F) :
    List (PgNode F) → Except String (Value F)
  | [] => .ok result
  | arg :: rest => do
    let right ← eval layout values arg
    let result ← Expression.performLogic result right logicType
    evalArgs layout values logicType result rest

end

end Meaning

section Forms

/-- What the binder does not tell from a plain operator between two operands, or from a condition that is missing. -/
inductive OddForm where
  | opAny
  | opAll
  | distinct
  | nullif
  | qualified
  | sign
  | star
deriving DecidableEq

/-- The form of a kind of operator. A value that is stored is never NULL, so IS NOT DISTINCT FROM is plain. -/
def oddForm : PgAExprKind → Option OddForm
  | .opAny => some .opAny
  | .opAll => some .opAll
  | .distinct => some .distinct
  | .nullif => some .nullif
  | _ => none

/-- The names that stand for LIKE, ILIKE, GLOB, SIMILAR TO and BETWEEN. -/
def matchNames : List String :=
  ["~~", "!~~", "~~*", "!~~*", "~~~", "!~~~", "~", "!~", "BETWEEN", "NOT BETWEEN", "BETWEEN SYMMETRIC",
    "NOT BETWEEN SYMMETRIC"]

/-- The names and the right operand that the parser gives to an operator of a kind. -/
def Parsed (name : List String) (rexpr : PgNode F) : PgAExprKind → Prop
  | .op | .opAny | .opAll => name ≠ []
  | .distinct | .notDistinct | .nullif => name = ["="]
  | .isOf | .inList => name.length = 1 ∧ ∃ tag, rexpr = .other tag
  | .paren => False
  | _ => ∃ word ∈ matchNames, name = [word]

mutual

/-- An expression over the columns of a layout, as the parser makes them, with odd forms of some sorts only. There
are no postfix operators. -/
def Over (layout : Layout) (odd : OddForm → Prop) : PgNode F → Prop
  | .columnRef fields => (position layout fields).isSome
  | .columnStar _ => odd .star
  | .aExpr kind name lexpr rexpr => Parsed name rexpr kind ∧ (∀ form ∈ oddForm kind, odd form) ∧
      (name.length ≠ 1 → odd .qualified) ∧ Over layout odd lexpr ∧ Over layout odd rexpr
  | .unaryExpr _ rexpr => odd .sign ∧ Over layout odd rexpr
  | .postfixExpr _ _ => False
  | .boolExpr _ first rest => Over layout odd first ∧ OverArgs layout odd rest
  | _ => True

def OverArgs (layout : Layout) (odd : OddForm → Prop) : List (PgNode F) → Prop
  | [] => True
  | arg :: rest => Over layout odd arg ∧ OverArgs layout odd rest

end

end Forms

section Binding

variable {scopes : List TableScope} {layout : Layout} {values : Row F}
    {reading : ℕ → ℕ → Except String (Value F)}

/-- Columns that the binder resolves are read where their names stand. -/
def Reads (reading : ℕ → ℕ → Except String (Value F)) (scopes : List TableScope) (layout : Layout)
    (values : Row F) : Prop :=
  ∀ fields tupleIdx colIdx type,
    resolveColumn (columnName fields).1 (columnName fields).2 scopes = .ok (tupleIdx, colIdx, type) →
      (position layout fields).isSome → reading tupleIdx colIdx = column layout values fields

/-- No column is NULL. -/
def Filled (reading : ℕ → ℕ → Except String (Value F)) : Prop :=
  ∀ tupleIdx colIdx value, reading tupleIdx colIdx = .ok value → value.isNull = false

section Operators

variable {left right value : Value F}

/-- A comparison gives a truth value. -/
theorem performComparison_boolean {compType : ComparisonType}
    (compared : Expression.performComparison left right compType = .ok value) : ∃ b, value = .boolean b := by
  have order (onInteger : Int32 → Int32 → Bool) (onFloat : F → F → Bool) (onText : Text → Text → Bool)
      (compared : Value.compareOrder onInteger onFloat onText left right = .ok value) : ∃ b, value = .boolean b := by
    unfold Value.compareOrder at compared
    split_ifs at compared
    split at compared <;> cases compared <;> exact ⟨_, rfl⟩
  cases compType with
  | equal =>
    simp only [Expression.performComparison, Value.compareEquals] at compared
    split_ifs at compared
    split at compared <;> cases compared <;> exact ⟨_, rfl⟩
  | notEqual =>
    simp only [Expression.performComparison, Value.compareNotEquals] at compared
    split_ifs at compared
    split at compared <;> cases compared <;> exact ⟨_, rfl⟩
  | lessThan => exact order (· < ·) (· < ·) (· < ·) compared
  | lessThanOrEqual => exact order (· ≤ ·) (· ≤ ·) (· ≤ ·) compared
  | greaterThan => exact order (· > ·) (· > ·) (· > ·) compared
  | greaterThanOrEqual => exact order (· ≥ ·) (· ≥ ·) (· ≥ ·) compared

theorem performComputation_filled {arithType : ArithmeticType}
    (computed : Expression.performComputation left right arithType = .ok value) : value.isNull = false := by
  have compute (onInteger : Int32 → Int32 → Int32) (onFloat : F → F → F) (unsupported : String)
      (computed : Value.compute onInteger onFloat unsupported left right = .ok value) : value.isNull = false := by
    unfold Value.compute at computed
    split_ifs at computed
    split at computed <;> cases computed <;> rfl
  cases arithType with
  | plus => exact compute (· + ·) (· + ·) "Unsupported type for addition" computed
  | minus => exact compute (· - ·) (· - ·) "Unsupported type for subtraction" computed
  | multiply => exact compute (· * ·) (· * ·) "Unsupported type for multiplication" computed
  | divide =>
    simp only [Expression.performComputation, Value.divide] at computed
    split at computed
    · split at computed
      · split_ifs at computed
        cases computed
        rfl
      · split_ifs at computed
        cases computed
        rfl
      · cases computed
    · cases computed
  | modulo =>
    simp only [Expression.performComputation, Value.modulo] at computed
    split at computed
    · split at computed
      · split_ifs at computed
        cases computed
        rfl
      · cases computed
    · cases computed

omit [Field F] [LinearOrder F] in
theorem performLogic_filled {logicType : LogicType}
    (computed : Expression.performLogic left right logicType = .ok value) :
    value.isNull = false := by
  cases logicType with
  | and =>
    simp only [Expression.performLogic, Value.and] at computed
    split_ifs at computed
    cases computed
    rfl
  | or =>
    simp only [Expression.performLogic, Value.or] at computed
    split_ifs at computed
    cases computed
    rfl

/-- Without a NULL, two values are the same when they are equal. -/
theorem sameValue_boolean (left right : Value F) (leftFilled : left.isNull = false)
    (rightFilled : right.isNull = false) :
    (do return .boolean (← sameValue left right)) = Expression.performComparison left right .equal := by
  rw [sameValue, leftFilled, rightFilled]
  cases compared : Expression.performComparison left right .equal with
  | error message => rfl
  | ok value =>
    obtain ⟨b, rfl⟩ := performComparison_boolean compared
    rfl

end Operators

theorem operatorNamed_matchNames : ∀ word ∈ matchNames, operatorNamed word = none := by decide

/-- An operator of no odd form that the binder accepts computes what its first name says. -/
theorem combine_eq_operate {kind : PgAExprKind} {name : List String} {rexpr : PgNode F} {left right e : Expression F}
    (parsed : Parsed name rexpr kind) (plain : ∀ form ∈ oddForm kind, False) (single : name.length ≠ 1 → False)
    (rightBound : bindExpression scopes rexpr = .ok right) (bound : bindOperator name left right = .ok e)
    {a b : Value F}
    (leftFilled : a.isNull = false) (rightFilled : b.isNull = false) :
    combine kind name a b = operate (name.headD "") a b := by
  obtain ⟨opName, rfl⟩ := List.length_eq_one_iff.mp (not_not.mp single)
  cases kind with
  | op => rfl
  | opAny => exact (plain .opAny rfl).elim
  | opAll => exact (plain .opAll rfl).elim
  | distinct => exact (plain .distinct rfl).elim
  | nullif => exact (plain .nullif rfl).elim
  | notDistinct =>
    cases parsed
    exact sameValue_boolean a b leftFilled rightFilled
  | isOf | inList =>
    obtain ⟨-, tag, rfl⟩ := parsed
    simp only [bindExpression, reduceCtorEq] at rightBound
  | paren => exact parsed.elim
  | _ =>
    obtain ⟨word, listed, same⟩ := parsed
    cases same
    rw [bindOperator, List.headD_cons, operatorNamed_matchNames opName listed] at bound
    cases bound

theorem bindOperator_evaluateWith {name : List String} {left right e : Expression F}
    (bound : bindOperator name left right = .ok e) : e.evaluateWith reading =
      (do operate (name.headD "") (← left.evaluateWith reading) (← right.evaluateWith reading)) := by
  unfold bindOperator at bound
  split at bound
  · rename_i named
    cases bound
    simp only [operate, named, Expression.evaluateWith]
  · rename_i named
    cases bound
    simp only [operate, named, Expression.evaluateWith]
  · cases bound

theorem operate_filled {opName : String} {left right value : Value F}
    (computed : operate opName left right = .ok value) :
    value.isNull = false := by
  unfold operate at computed
  split at computed
  · obtain ⟨b, rfl⟩ := performComparison_boolean computed
    rfl
  · exact performComputation_filled computed
  · cases computed

mutual

/-- The value of a bound expression is never NULL. -/
theorem evaluateWith_filled (filled : Filled reading) : ∀ (node : PgNode F) {e : Expression F} {value : Value F},
    bindExpression scopes node = .ok e → e.evaluateWith reading = .ok value → value.isNull = false
  | .columnRef fields, e, value, bound, evaluated => by
    simp only [bindExpression, bindColumnRef, bind_eq_ok_iff, pure_eq_ok_iff] at bound
    obtain ⟨⟨tupleIdx, colIdx, type⟩, -, rfl⟩ := bound
    exact filled tupleIdx colIdx value evaluated
  | .columnStar _, e, value, bound, evaluated => by
    simp only [bindExpression, Except.ok.injEq] at bound
    subst bound
    cases evaluated
  | .aConst val, e, value, bound, evaluated => by
    simp only [bindExpression] at bound
    cases val <;> cases bound <;> cases evaluated <;> rfl
  | .aExpr kind name lexpr rexpr, e, value, bound, evaluated => by
    simp only [bindExpression, bind_eq_ok_iff] at bound
    obtain ⟨left, -, right, -, made⟩ := bound
    simp only [bindOperator_evaluateWith made, bind_eq_ok_iff] at evaluated
    obtain ⟨a, -, b, -, computed⟩ := evaluated
    exact operate_filled computed
  | .unaryExpr name rexpr, e, value, bound, evaluated => by
    simp only [bindExpression, bind_eq_ok_iff] at bound
    obtain ⟨right, -, made⟩ := bound
    simp only [bindOperator_evaluateWith made, bind_eq_ok_iff] at evaluated
    obtain ⟨a, -, b, -, computed⟩ := evaluated
    exact operate_filled computed
  | .postfixExpr name lexpr, e, value, bound, evaluated => by
    simp only [bindExpression, bind_eq_ok_iff] at bound
    obtain ⟨left, -, made⟩ := bound
    simp only [bindOperator_evaluateWith made, bind_eq_ok_iff] at evaluated
    obtain ⟨a, -, b, -, computed⟩ := evaluated
    exact operate_filled computed
  | .boolExpr .and first rest, e, value, bound, evaluated => by
    simp only [bindExpression, bind_eq_ok_iff] at bound
    obtain ⟨result, firstBound, made⟩ := bound
    exact evaluateWith_filledArgs filled rest (fun _ => evaluateWith_filled filled first firstBound) made evaluated
  | .boolExpr .or first rest, e, value, bound, evaluated => by
    simp only [bindExpression, bind_eq_ok_iff] at bound
    obtain ⟨result, firstBound, made⟩ := bound
    exact evaluateWith_filledArgs filled rest (fun _ => evaluateWith_filled filled first firstBound) made evaluated
  | .boolExpr .not first rest, e, value, bound, evaluated => by
    simp only [bindExpression, reduceCtorEq] at bound
  | .aStar, e, value, bound, evaluated => by
    simp only [bindExpression, reduceCtorEq] at bound
  | .funcCall _ _ _, e, value, bound, evaluated => by
    simp only [bindExpression, reduceCtorEq] at bound
  | .other _, e, value, bound, evaluated => by
    simp only [bindExpression, reduceCtorEq] at bound

theorem evaluateWith_filledArgs (filled : Filled reading) : ∀ (args : List (PgNode F)) {logicType : LogicType}
    {result e : Expression F} {value : Value F},
      (∀ value, result.evaluateWith reading = .ok value → value.isNull = false) →
        bindArgs scopes logicType result args = .ok e → e.evaluateWith reading = .ok value → value.isNull = false
  | [], logicType, result, e, value, first, bound, evaluated => by
    simp only [bindArgs, Except.ok.injEq] at bound
    exact first value (bound ▸ evaluated)
  | arg :: rest, logicType, result, e, value, first, bound, evaluated => by
    simp only [bindArgs, bind_eq_ok_iff] at bound
    obtain ⟨right, -, made⟩ := bound
    refine evaluateWith_filledArgs filled rest (fun value evaluated => ?_) made evaluated
    simp only [Expression.evaluateWith, bind_eq_ok_iff] at evaluated
    obtain ⟨a, -, b, -, computed⟩ := evaluated
    exact performLogic_filled computed

end

/-- An operator of no odd form, evaluated after binding. -/
theorem evaluateWith_eq_combine (filled : Filled reading) {kind : PgAExprKind} {name : List String}
    {lexpr rexpr : PgNode F}
    {left right e : Expression F} (parsed : Parsed name rexpr kind) (plain : ∀ form ∈ oddForm kind, False)
    (single : name.length ≠ 1 → False) (leftBound : bindExpression scopes lexpr = .ok left)
    (rightBound : bindExpression scopes rexpr = .ok right) (made : bindOperator name left right = .ok e) :
    e.evaluateWith reading =
      (do combine kind name (← left.evaluateWith reading) (← right.evaluateWith reading)) := by
  rw [bindOperator_evaluateWith made]
  cases evaluatedLeft : left.evaluateWith reading with
  | error message => rfl
  | ok a =>
    cases evaluatedRight : right.evaluateWith reading with
    | error message => rfl
    | ok b =>
      exact (combine_eq_operate parsed plain single rightBound made
        (evaluateWith_filled filled lexpr leftBound evaluatedLeft)
        (evaluateWith_filled filled rexpr rightBound evaluatedRight)).symm

mutual

/-- Evaluating a bound expression without odd forms gives its value. -/
theorem evaluateWith_eq_eval (reads : Reads reading scopes layout values) (filled : Filled reading) :
    ∀ (node : PgNode F) {e : Expression F}, Over layout (fun _ => False) node →
      bindExpression scopes node = .ok e →
      e.evaluateWith reading = eval layout values node
  | .columnRef fields, e, plain, bound => by
    simp only [bindExpression, bindColumnRef, bind_eq_ok_iff, pure_eq_ok_iff] at bound
    obtain ⟨⟨tupleIdx, colIdx, type⟩, resolved, rfl⟩ := bound
    simp only [Over] at plain
    simp only [eval, Expression.evaluateWith, reads fields tupleIdx colIdx type resolved plain]
  | .aConst val, e, plain, bound => by
    simp only [bindExpression] at bound
    cases val <;> cases bound <;> simp only [eval, constant, Expression.evaluateWith]
  | .aExpr kind name lexpr rexpr, e, plain, bound => by
    simp only [bindExpression, bind_eq_ok_iff] at bound
    obtain ⟨left, leftBound, right, rightBound, made⟩ := bound
    simp only [Over] at plain
    obtain ⟨parsed, even, single, plainLeft, plainRight⟩ := plain
    rw [evaluateWith_eq_combine filled parsed even single leftBound rightBound made,
      evaluateWith_eq_eval reads filled lexpr plainLeft leftBound,
      evaluateWith_eq_eval reads filled rexpr plainRight rightBound, eval]
  | .unaryExpr name rexpr, e, plain, bound => by
    simp only [Over, false_and] at plain
  | .postfixExpr name lexpr, e, plain, bound => by
    simp only [Over] at plain
  | .columnStar _, e, plain, bound => by
    simp only [Over] at plain
  | .boolExpr .and first rest, e, plain, bound => by
    simp only [bindExpression, bind_eq_ok_iff] at bound
    obtain ⟨result, firstBound, made⟩ := bound
    simp only [Over] at plain
    rw [evaluateWith_eq_evalArgs reads filled rest plain.2 made,
      evaluateWith_eq_eval reads filled first plain.1 firstBound, eval]
  | .boolExpr .or first rest, e, plain, bound => by
    simp only [bindExpression, bind_eq_ok_iff] at bound
    obtain ⟨result, firstBound, made⟩ := bound
    simp only [Over] at plain
    rw [evaluateWith_eq_evalArgs reads filled rest plain.2 made,
      evaluateWith_eq_eval reads filled first plain.1 firstBound, eval]
  | .boolExpr .not first rest, e, plain, bound => by
    simp only [bindExpression, reduceCtorEq] at bound
  | .aStar, e, plain, bound => by
    simp only [bindExpression, reduceCtorEq] at bound
  | .funcCall _ _ _, e, plain, bound => by
    simp only [bindExpression, reduceCtorEq] at bound
  | .other _, e, plain, bound => by
    simp only [bindExpression, reduceCtorEq] at bound

theorem evaluateWith_eq_evalArgs (reads : Reads reading scopes layout values) (filled : Filled reading) :
    ∀ (args : List (PgNode F)) {logicType : LogicType} {result e : Expression F},
      OverArgs layout (fun _ => False) args →
      bindArgs scopes logicType result args = .ok e →
        e.evaluateWith reading = (do evalArgs layout values logicType (← result.evaluateWith reading) args)
  | [], logicType, result, e, plain, bound => by
    simp only [bindArgs, Except.ok.injEq] at bound
    subst bound
    cases result.evaluateWith reading <;> simp only [evalArgs, bind, Except.bind]
  | arg :: rest, logicType, result, e, plain, bound => by
    simp only [bindArgs, bind_eq_ok_iff] at bound
    obtain ⟨right, argBound, made⟩ := bound
    simp only [OverArgs] at plain
    rw [evaluateWith_eq_evalArgs reads filled rest plain.2 made]
    simp only [Expression.evaluateWith, evalArgs, evaluateWith_eq_eval reads filled arg plain.1 argBound, bind_assoc]

end

end Binding

end Reference

end OneBase
