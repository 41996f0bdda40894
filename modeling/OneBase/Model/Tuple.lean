import OneBase.Model.Value
import Mathlib.Data.UInt
import OneBase.ToMathlib.Bytes

/-! # Tuples and their layout

`catalog/column.h`, `catalog/schema.h`, `storage/table/tuple.cpp` and the serialization half of
`type/value.cpp`. The writer packs the values back to back; the reader goes by the offsets that
`Schema` computes from the columns. A float is stored as its bit pattern.

Sizes and offsets are `uint32_t` where the source has them so. A read or write outside the bytes a
tuple owns has no result here.
-/

namespace OneBase

open Bytes

/-- `Column`; the two lengths its constructor derives are functions of the rest. -/
structure Column where
  name : String
  typeId : TypeId
  length : ℕ
  offset : ℕ
deriving DecidableEq, Repr

namespace Column

/-- The constructor. -/
def new (name : String) (typeId : TypeId) (length : ℕ) : Column where
  name := name
  typeId := typeId
  length := if typeId = .varchar ∧ length = 0 then 256 else length
  offset := 0

/-- `GetFixedLengthFor`. -/
def getFixedLengthFor : TypeId → ℕ
  | .boolean => 1
  | .integer => 4
  | .float => 8
  | _ => 0

/-- `fixed_length_`. -/
def getFixedLength (column : Column) : ℕ :=
  if column.typeId = .varchar then 4 else getFixedLengthFor column.typeId

def isInlined (column : Column) : Bool := column.typeId ≠ .varchar

/-- What a column adds to the offset of the next one. -/
def width (column : Column) : ℕ := if column.isInlined then column.getFixedLength else 4

end Column

structure Schema where
  columns : List Column
  tupleLength : ℕ
deriving DecidableEq, Repr

namespace Schema

/-- The loop of the constructor, from a running offset on; the offset is a `uint32_t`. -/
def setOffsets : ℕ → List Column → List Column × ℕ
  | offset, [] => ([], offset)
  | offset, column :: rest =>
    let (placed, last) := setOffsets ((offset + column.width) % 2 ^ 32) rest
    ({ column with offset } :: placed, last)

/-- The constructor. -/
def new (columns : List Column) : Schema where
  columns := (setOffsets 0 columns).1
  tupleLength := (setOffsets 0 columns).2

end Schema

namespace Value

/-- `GetSerializedSize`, a `uint32_t`; `none` is the exception for values without a type. -/
def getSerializedSize (value : Value UInt32) : Option ℕ :=
  match value.typeId with
  | .boolean => some 1
  | .integer => some 4
  | .float => some 4
  | .varchar => some ((4 + value.varcharPart.length % 2 ^ 32) % 2 ^ 32)
  | .invalid => none

/-- The bytes that `SerializeTo` writes. -/
def serialized (value : Value UInt32) : List UInt8 :=
  match value.typeId with
  | .boolean => encode 1 value.booleanPart.toNat
  | .integer => encode 4 value.integerPart.toBitVec.toNat
  | .float => encode 4 value.floatPart.toNat
  | .varchar =>
    let len := value.varcharPart.length % 2 ^ 32
    encode 4 len ++ value.varcharPart.take len
  | .invalid => []

/-- `SerializeTo(data + offset)`. -/
def serializeTo (value : Value UInt32) (data : List UInt8) (offset : ℕ) : Option (List UInt8) :=
  writeAt data offset value.serialized

/-- `DeserializeFrom(data + offset, type)`. -/
def deserializeFrom (data : List UInt8) (offset : ℕ) : TypeId → Option (Value UInt32)
  | .boolean => do
    let bytes ← readAt data offset 1
    return boolean (decode bytes ≠ 0)
  | .integer => do
    let bytes ← readAt data offset 4
    return integer (Int32.ofBitVec (BitVec.ofNat 32 (decode bytes)))
  | .float => do
    let bytes ← readAt data offset 4
    return float (UInt32.ofNat (decode bytes))
  | .varchar => do
    let len ← readAt data offset 4
    let text ← readAt data (offset + 4) (decode len)
    return varchar text
  | .invalid => none

end Value

/-- `Tuple`. -/
structure Tuple where
  rid : Rid
  data : List UInt8
  values : List (Value UInt32)
deriving DecidableEq

namespace Tuple

/-- One round of the constructor's loop: grow the buffer, write the value at its old end. -/
def append (data : List UInt8) (value : Value UInt32) : Option (List UInt8) := do
  let size ← value.getSerializedSize
  value.serializeTo (data ++ List.replicate size 0) data.length

/-- The constructor from values. -/
def new (values : List (Value UInt32)) : Option Tuple := do
  let data ← values.foldlM append []
  return { rid := default, data, values }

/-- `Tuple::DeserializeFrom` of `size` bytes: the bytes are replaced and nothing else is. -/
def deserializeFrom (tuple : Tuple) (src : List UInt8) (size : ℕ) : Tuple :=
  { tuple with data := src.take size }

/-- `GetValue(schema, column_idx)`. -/
def getValue (tuple : Tuple) (schema : Schema) (columnIdx : ℕ) : Option (Value UInt32) :=
  if ¬ tuple.values.isEmpty ∧ columnIdx < tuple.values.length then tuple.values[columnIdx]?
  else do
    let column ← schema.columns[columnIdx]?
    Value.deserializeFrom tuple.data column.offset column.typeId

/-- `GetLength`, a `uint32_t`. -/
def getLength (tuple : Tuple) : ℕ := tuple.data.length % 2 ^ 32

end Tuple

end OneBase
