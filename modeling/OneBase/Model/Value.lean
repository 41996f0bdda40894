import OneBase.Model.Types
import Mathlib.Algebra.Order.Field.Rat
import Mathlib.Data.Nat.Digits.Defs

/-! # SQL values

`type/value.cpp`. A value is a type id with a payload of that type, or NULL under a type id. A NULL
still has a payload, the zeroed union and the empty string, and the comparisons read it without
looking at the NULL flag. Text is a byte string; floats are left open, with the operations the code
needs as classes, so that they can be bit patterns for storage and exact numbers for comparison.
-/

namespace OneBase

/-- `std::string`: bytes, any of which may be zero. -/
abbrev Text := List UInt8

/-- The bytes of an ASCII literal. -/
def ascii (literal : String) : Text := literal.toList.map fun c => UInt8.ofNat c.toNat

/-- `Value`, with floats in `F`. -/
inductive Value (F : Type) where
  | null (typeId : TypeId)
  | boolean (b : Bool)
  | integer (i : Int32)
  | float (f : F)
  | varchar (s : Text)
deriving DecidableEq

/-- How a float is printed, to two decimals. -/
class PrintsFloat (F : Type) where
  print : F → Text

namespace Value

variable {F : Type}

def typeId : Value F → TypeId
  | null typeId => typeId
  | boolean _ => .boolean
  | integer _ => .integer
  | float _ => .float
  | varchar _ => .varchar

def isNull : Value F → Bool
  | null _ => true
  | _ => false

section Payload

/-- `boolean_`. -/
def booleanPart : Value F → Bool
  | boolean b => b
  | _ => false

/-- `integer_`. -/
def integerPart : Value F → Int32
  | integer i => i
  | _ => 0

/-- `float_`. -/
def floatPart [Zero F] : Value F → F
  | float f => f
  | _ => 0

/-- `varchar_`. -/
def varcharPart : Value F → Text
  | varchar s => s
  | _ => []

end Payload

def getAsInteger (value : Value F) : Except String Int32 :=
  if value.typeId = .integer then .ok value.integerPart else .error "Value is not an integer"

def getAsBoolean (value : Value F) : Except String Bool :=
  if value.typeId = .boolean then .ok value.booleanPart else .error "Value is not a boolean"

/-- `CompareEquals`. -/
def compareEquals [Zero F] [DecidableEq F] (value other : Value F) : Except String (Value F) :=
  if value.typeId = other.typeId then
    match value.typeId with
    | .integer => .ok (boolean (value.integerPart = other.integerPart))
    | .float => .ok (boolean (value.floatPart = other.floatPart))
    | .boolean => .ok (boolean (value.booleanPart = other.booleanPart))
    | .varchar => .ok (boolean (value.varcharPart = other.varcharPart))
    | .invalid => .error "Unsupported type for comparison"
  else .error "Type mismatch in comparison"

/-- `CompareNotEquals`. -/
def compareNotEquals [Zero F] [DecidableEq F] (value other : Value F) : Except String (Value F) :=
  if value.typeId = other.typeId then
    match value.typeId with
    | .integer => .ok (boolean (value.integerPart ≠ other.integerPart))
    | .float => .ok (boolean (value.floatPart ≠ other.floatPart))
    | .boolean => .ok (boolean (value.booleanPart ≠ other.booleanPart))
    | .varchar => .ok (boolean (value.varcharPart ≠ other.varcharPart))
    | .invalid => .error "Unsupported type for comparison"
  else .error "Type mismatch in comparison"

/-- What the four order comparisons share; they know no booleans. -/
def compareOrder [Zero F] (onInteger : Int32 → Int32 → Bool) (onFloat : F → F → Bool)
    (onText : Text → Text → Bool) (value other : Value F) : Except String (Value F) :=
  if value.typeId = other.typeId then
    match value.typeId with
    | .integer => .ok (boolean (onInteger value.integerPart other.integerPart))
    | .float => .ok (boolean (onFloat value.floatPart other.floatPart))
    | .varchar => .ok (boolean (onText value.varcharPart other.varcharPart))
    | _ => .error "Unsupported type for comparison"
  else .error "Type mismatch in comparison"

section Numeric

variable [Field F] [LinearOrder F]

def compareLessThan : Value F → Value F → Except String (Value F) :=
  compareOrder (· < ·) (· < ·) (· < ·)

def compareGreaterThan : Value F → Value F → Except String (Value F) :=
  compareOrder (· > ·) (· > ·) (· > ·)

def compareLessThanOrEqual : Value F → Value F → Except String (Value F) :=
  compareOrder (· ≤ ·) (· ≤ ·) (· ≤ ·)

def compareGreaterThanOrEqual : Value F → Value F → Except String (Value F) :=
  compareOrder (· ≥ ·) (· ≥ ·) (· ≥ ·)

/-- What addition, subtraction and multiplication share. Integers wrap around at 32 bits. -/
def compute (onInteger : Int32 → Int32 → Int32) (onFloat : F → F → F) (unsupported : String)
    (value other : Value F) : Except String (Value F) :=
  if value.typeId = other.typeId then
    match value.typeId with
    | .integer => .ok (integer (onInteger value.integerPart other.integerPart))
    | .float => .ok (float (onFloat value.floatPart other.floatPart))
    | _ => .error unsupported
  else .error "Type mismatch in arithmetic"

def add : Value F → Value F → Except String (Value F) :=
  compute (· + ·) (· + ·) "Unsupported type for addition"

def subtract : Value F → Value F → Except String (Value F) :=
  compute (· - ·) (· - ·) "Unsupported type for subtraction"

def multiply : Value F → Value F → Except String (Value F) :=
  compute (· * ·) (· * ·) "Unsupported type for multiplication"

/-- `Divide`; integer division truncates. -/
def divide (value other : Value F) : Except String (Value F) :=
  if value.typeId = other.typeId then
    match value.typeId with
    | .integer =>
      if other.integerPart ≠ 0 then .ok (integer (value.integerPart / other.integerPart))
      else .error "Division by zero"
    | .float =>
      if other.floatPart ≠ 0 then .ok (float (value.floatPart / other.floatPart)) else .error "Division by zero"
    | _ => .error "Unsupported type for division"
  else .error "Type mismatch in arithmetic"

/-- `Modulo`; the result has the sign of the dividend. -/
def modulo (value other : Value F) : Except String (Value F) :=
  if value.typeId = other.typeId then
    match value.typeId with
    | .integer =>
      if other.integerPart ≠ 0 then .ok (integer (value.integerPart % other.integerPart))
      else .error "Modulo by zero"
    | _ => .error "Unsupported type for modulo"
  else .error "Type mismatch in arithmetic"

end Numeric

/-- `And`; both operands have been computed by then. -/
def and (value other : Value F) : Except String (Value F) :=
  if value.typeId = .boolean ∧ other.typeId = .boolean then
    .ok (boolean (value.booleanPart && other.booleanPart))
  else .error "AND requires boolean"

def or (value other : Value F) : Except String (Value F) :=
  if value.typeId = .boolean ∧ other.typeId = .boolean then
    .ok (boolean (value.booleanPart || other.booleanPart))
  else .error "OR requires boolean"

/-- The digits of a natural number. -/
def decimal (n : ℕ) : Text :=
  if n = 0 then ascii "0" else (Nat.digits 10 n).reverse.map fun digit => UInt8.ofNat (48 + digit)

/-- `std::to_string` of an integer. -/
def printInteger (i : ℤ) : Text := if i < 0 then ascii "-" ++ decimal i.natAbs else decimal i.natAbs

/-- `ToString`. -/
def toString [PrintsFloat F] : Value F → Text
  | null _ => ascii "NULL"
  | boolean b => if b then ascii "true" else ascii "false"
  | integer i => printInteger i.toInt
  | float f => PrintsFloat.print f
  | varchar s => s

end Value

/-- `{:.2f}` of an exact number: hundredths rounded to the nearest, ties to even. -/
def hundredths (q : ℚ) : ℕ :=
  let scaled := 100 * q.num.natAbs
  let below := scaled / q.den
  let rest := scaled % q.den
  if q.den < 2 * rest ∨ (q.den = 2 * rest ∧ below % 2 = 1) then below + 1 else below

instance : PrintsFloat ℚ where
  print q :=
    (if q < 0 then ascii "-" else []) ++ Value.decimal (hundredths q / 100) ++ ascii "." ++
      Value.decimal (hundredths q / 10 % 10) ++ Value.decimal (hundredths q % 10)

end OneBase
