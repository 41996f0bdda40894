import OneBase.Model.Tuple
import Mathlib.Algebra.BigOperators.Group.List.Basic
import Mathlib.Data.List.Forall2

/-! # When a stored tuple reads back

The writer gives a value the bytes it needs, the reader moves on by the column's width. The two
layouts agree behind BOOLEAN and INTEGER columns only: a FLOAT takes four bytes but moves the reader
by eight, and a VARCHAR takes its text on top of the four bytes the reader moves by. Besides,
`DeserializeFrom` leaves the values a tuple object already holds in place, and `GetValue` prefers them.
-/

namespace OneBase

open Bytes

namespace Value

/-- The bytes a value needs. -/
def packedSize : Value UInt32 → ℕ
  | null _ => 0
  | boolean _ => 1
  | integer _ => 4
  | float _ => 4
  | varchar s => 4 + s.length

variable {value : Value UInt32}

theorem serialized_length (present : value.isNull = false) (small : value.packedSize < 2 ^ 32) :
    value.getSerializedSize = some value.packedSize ∧ value.serialized.length = value.packedSize := by
  cases value with
  | null typeId => simp [isNull] at present
  | boolean b => exact ⟨rfl, rfl⟩
  | integer i => exact ⟨rfl, rfl⟩
  | float f => exact ⟨rfl, rfl⟩
  | varchar s =>
    have fits : 4 + s.length < 2 ^ 32 := small
    have length : s.length % 2 ^ 32 = s.length := Nat.mod_eq_of_lt (by omega)
    simp only [getSerializedSize, serialized, typeId, varcharPart, packedSize, length]
    refine ⟨?_, by simp⟩
    rw [Nat.mod_eq_of_lt fits]

/-- A value is read back from the bytes it was written to. -/
theorem deserializeFrom_serialized (before after : List UInt8) (present : value.isNull = false)
    (small : value.packedSize < 2 ^ 32) :
    deserializeFrom (before ++ (value.serialized ++ after)) before.length value.typeId = some value := by
  have block := readAt_block before value.serialized after
  cases value with
  | null typeId => simp [isNull] at present
  | boolean b =>
    have read : readAt _ _ 1 = some (encode 1 b.toNat) := block
    have number := decode_encode_of_lt (show b.toNat < 256 ^ 1 by cases b <;> decide)
    simp only [deserializeFrom, typeId, read, Option.bind_eq_bind, Option.bind_some, number]
    cases b <;> rfl
  | integer i =>
    have read : readAt _ _ 4 = some (encode 4 i.toBitVec.toNat) := block
    have number := decode_encode_of_lt (show i.toBitVec.toNat < 256 ^ 4 from i.toBitVec.isLt)
    simp only [deserializeFrom, typeId, read, Option.bind_eq_bind, Option.bind_some, number,
      BitVec.ofNat_toNat, BitVec.setWidth_eq]
    rfl
  | float f =>
    have read : readAt _ _ 4 = some (encode 4 f.toNat) := block
    have number := decode_encode_of_lt (show f.toNat < 256 ^ 4 from f.toNat_lt)
    simp only [deserializeFrom, typeId, read, Option.bind_eq_bind, Option.bind_some, number,
      UInt32.ofNat_toNat]
    rfl
  | varchar s =>
    have fits : 4 + s.length < 2 ^ 32 := small
    have length : s.length % 2 ^ 32 = s.length := Nat.mod_eq_of_lt (by omega)
    have whole : serialized (varchar s) = encode 4 s.length ++ s := by
      simp only [serialized, typeId, varcharPart, length, List.take_length]
    have number := decode_encode_of_lt (show s.length < 256 ^ 4 by omega)
    have header := readAt_block before (encode 4 s.length) (s ++ after)
    have text := readAt_block (before ++ encode 4 s.length) s after
    simp only [encode_length, List.length_append, List.append_assoc] at header text
    simp only [deserializeFrom, typeId, whole, List.append_assoc, header, Option.bind_eq_bind, Option.bind_some,
      number, text]
    rfl

end Value

/-- The bytes a row of values needs. -/
def packedLength (values : List (Value UInt32)) : ℕ := (values.map Value.packedSize).sum

@[simp] theorem packedLength_append (a b : List (Value UInt32)) :
    packedLength (a ++ b) = packedLength a + packedLength b := by simp [packedLength]

@[simp] theorem packedLength_cons (value : Value UInt32) (rest : List (Value UInt32)) :
    packedLength (value :: rest) = value.packedSize + packedLength rest := by simp [packedLength]

@[simp] theorem packedLength_nil : packedLength [] = 0 := rfl

/-- Non-NULL values of the column types, column by column. -/
def Matches (columns : List Column) (values : List (Value UInt32)) : Prop :=
  List.Forall₂ (fun column value => value.typeId = column.typeId ∧ value.isNull = false) columns values

namespace Matches

variable {columns : List Column} {values : List (Value UInt32)}

theorem present (row : Matches columns values) : ∀ value ∈ values, value.isNull = false := by
  intro value member
  induction row with
  | nil => simp at member
  | cons head _ ih =>
    rcases List.mem_cons.mp member with rfl | member
    · exact head.2
    · exact ih member

/-- The columns left of a value. -/
theorem split {front back : List (Value UInt32)} {value : Value UInt32}
    (row : Matches columns (front ++ value :: back)) :
    ∃ before column after, columns = before ++ column :: after ∧ Matches before front ∧
      value.typeId = column.typeId ∧ value.isNull = false := by
  have left := List.forall₂_take_append columns front (value :: back) row
  have right := List.forall₂_drop_append columns front (value :: back) row
  obtain ⟨column, after, head, -, cut⟩ := List.forall₂_cons_right_iff.mp right
  refine ⟨columns.take front.length, column, after, ?_, left, head⟩
  rw [← cut, List.take_append_drop]

end Matches

namespace Tuple

/-- One round of the constructor appends the value's bytes. -/
theorem append_eq {value : Value UInt32} (data : List UInt8) (present : value.isNull = false)
    (small : value.packedSize < 2 ^ 32) : append data value = some (data ++ value.serialized) := by
  obtain ⟨size, length⟩ := value.serialized_length present small
  rw [append, size, ← length]
  exact writeAt_grown data value.serialized 0

/-- The constructor packs the values back to back. -/
theorem new_eq {values : List (Value UInt32)} (present : ∀ value ∈ values, value.isNull = false)
    (small : packedLength values < 2 ^ 32) :
    new values = some ⟨default, values.flatMap Value.serialized, values⟩ ∧
      (values.flatMap Value.serialized).length = packedLength values := by
  have run (data : List UInt8) : values.foldlM append data = some (data ++ values.flatMap Value.serialized) ∧
      (values.flatMap Value.serialized).length = packedLength values := by
    induction values generalizing data with
    | nil => simp [packedLength]
    | cons value rest ih =>
      rw [packedLength, List.map_cons, List.sum_cons] at small
      have presentValue := present value List.mem_cons_self
      have smallValue : value.packedSize < 2 ^ 32 := by omega
      obtain ⟨tail, length⟩ := ih (fun other member => present other (List.mem_cons_of_mem _ member))
        (by rw [packedLength]; omega) (data ++ value.serialized)
      rw [List.foldlM_cons, append_eq data presentValue smallValue, List.flatMap_cons, packedLength, List.map_cons,
        List.sum_cons, List.length_append, length, (value.serialized_length presentValue smallValue).2]
      exact ⟨by simpa using tail, rfl⟩
  refine ⟨?_, (run []).2⟩
  rw [new, (run []).1]
  rfl

end Tuple

namespace Schema

/-- Where the constructor places a column, as long as no offset wraps around. -/
theorem setOffsets_getElem? (base : ℕ) (before after : List Column) (column : Column)
    (fits : base + (before.map Column.width).sum < 2 ^ 32) :
    (setOffsets base (before ++ column :: after)).1[before.length]? =
      some { column with offset := base + (before.map Column.width).sum } := by
  induction before generalizing base with
  | nil => simp [setOffsets]
  | cons first rest ih =>
    rw [List.map_cons, List.sum_cons] at fits ⊢
    have inside : (base + first.width) % 2 ^ 32 = base + first.width := Nat.mod_eq_of_lt (by omega)
    simp only [List.cons_append, setOffsets, inside, List.length_cons, List.getElem?_cons_succ]
    rw [ih _ (by omega), add_assoc]

end Schema

namespace Tuple

/-- A tuple without values reads a column at the offset of its schema. -/
theorem getValue_of_empty {tuple : Tuple} (empty : tuple.values = []) (before after : List Column) (column : Column)
    (fits : (before.map Column.width).sum < 2 ^ 32) :
    tuple.getValue (Schema.new (before ++ column :: after)) before.length =
      Value.deserializeFrom tuple.data (before.map Column.width).sum column.typeId := by
  have placed := Schema.setOffsets_getElem? 0 before after column (by omega)
  rw [getValue, if_neg (by simp [empty]), Schema.new, placed]
  simp

end Tuple

/-- Storing the values and reading them into `before` gives each of them back, from inside the stored
bytes. -/
def RoundTrips (schema : Schema) (before : Tuple) (values : List (Value UInt32)) : Prop :=
  ∃ stored, Tuple.new values = some stored ∧
    ∀ i < values.length, (before.deserializeFrom stored.data stored.getLength).getValue schema i = values[i]?

/-- The columns whose width is what their values take. -/
def Packed (column : Column) : Prop := column.typeId = .boolean ∨ column.typeId = .integer

section Agree

variable {columns before : List Column} {front : List (Value UInt32)}

/-- Behind packed columns writer and reader are at the same place. -/
theorem Matches.sum_width (row : Matches before front) (packed : ∀ column ∈ before, Packed column) :
    (before.map Column.width).sum = packedLength front := by
  induction row with
  | nil => rfl
  | cons head _ ih =>
    rename_i column value columns values matched
    have here : column.width = value.packedSize := by
      obtain ⟨sameType, present⟩ := head
      rcases packed column List.mem_cons_self with isType | isType <;> rw [isType] at sameType <;>
        cases value <;> simp_all [Value.typeId, Value.isNull, Column.width, Column.isInlined, Column.getFixedLength,
          Column.getFixedLengthFor, Value.packedSize]
    rw [packedLength, List.map_cons, List.sum_cons, List.map_cons, List.sum_cons, here,
      ih fun other member => packed other (List.mem_cons_of_mem _ member)]
    rfl

/-- What a fresh tuple reads for a column of a stored row. -/
theorem Matches.getValue_stored {values : List (Value UInt32)} {tuple : Tuple} {after : List Column} {column : Column}
    (row : Matches columns values) (small : packedLength values < 2 ^ 32) (empty : tuple.values = [])
    (cut : columns = before ++ column :: after) (fits : (before.map Column.width).sum < 2 ^ 32) :
    ∃ stored, Tuple.new values = some stored ∧
      (tuple.deserializeFrom stored.data stored.getLength).getValue (Schema.new columns) before.length =
        Value.deserializeFrom (values.flatMap Value.serialized) (before.map Column.width).sum column.typeId := by
  obtain ⟨made, length⟩ := Tuple.new_eq row.present small
  refine ⟨_, made, ?_⟩
  rw [cut, Tuple.getValue_of_empty (show (tuple.deserializeFrom _ _).values = [] from empty) _ _ _ fits,
    Tuple.deserializeFrom, Tuple.getLength]
  dsimp only
  rw [length, Nat.mod_eq_of_lt small, ← length, List.take_length]

/-- Rows whose columns are packed up to the last read back into a fresh tuple. -/
theorem roundTrips_of_packed {values : List (Value UInt32)} {tuple : Tuple} (empty : tuple.values = [])
    (packed : ∀ column ∈ columns.dropLast, Packed column) (row : Matches columns values)
    (small : packedLength values < 2 ^ 32) : RoundTrips (Schema.new columns) tuple values := by
  obtain ⟨made, -⟩ := Tuple.new_eq row.present small
  refine ⟨_, made, fun i bound => ?_⟩
  obtain ⟨front, value, back, rfl, rfl⟩ : ∃ front value back, values = front ++ value :: back ∧
      front.length = i :=
    ⟨values.take i, values[i], values.drop (i + 1), by simp, List.length_take_of_le bound.le⟩
  obtain ⟨before, column, after, cut, matched, sameType, present⟩ := row.split
  have packedBefore : ∀ other ∈ before, Packed other := fun other member =>
    packed other (by rw [cut, List.dropLast_append_cons]; exact List.mem_append_left _ member)
  have place := matched.sum_width packedBefore
  have parts := small
  simp only [packedLength, List.map_append, List.map_cons, List.sum_append, List.sum_cons] at parts
  have smallFront : packedLength front < 2 ^ 32 := by
    rw [packedLength]
    omega
  have lengthFront := (Tuple.new_eq (fun other member => row.present other (List.mem_append_left _ member))
    smallFront).2
  obtain ⟨stored, made', read⟩ := row.getValue_stored small empty cut (place ▸ smallFront)
  rw [made] at made'
  obtain rfl := Option.some.inj made'
  rw [← matched.length_eq, read, place, ← lengthFront, ← sameType, List.flatMap_append, List.flatMap_cons,
    Value.deserializeFrom_serialized _ _ present (by omega), matched.length_eq, List.getElem?_append_right le_rfl,
    Nat.sub_self]
  rfl

end Agree

namespace Value

/-- The zero of a type. -/
def zeroOf : TypeId → Value UInt32
  | .boolean => boolean false
  | .integer => integer 0
  | .float => float 0
  | .varchar => varchar []
  | .invalid => null .invalid

/-- Another value of the type, one byte longer at most. -/
def oneOf : TypeId → Value UInt32
  | .boolean => boolean true
  | .integer => integer 1
  | .float => float 1
  | .varchar => varchar [1]
  | .invalid => null .invalid

variable {t : TypeId}

theorem zeroOf_matches (typed : t ≠ .invalid) : (zeroOf t).typeId = t ∧ (zeroOf t).isNull = false := by
  cases t <;> simp_all [zeroOf, typeId, isNull]

theorem oneOf_matches (typed : t ≠ .invalid) :
    (oneOf t).typeId = t ∧ (oneOf t).isNull = false ∧ oneOf t ≠ zeroOf t ∧
      (oneOf t).packedSize ≤ (zeroOf t).packedSize + 1 := by
  cases t <;> simp_all [oneOf, zeroOf, typeId, isNull, packedSize]

/-- A read takes at least the bytes of the zero of its type. -/
theorem inside_of_deserializeFrom {data : List UInt8} {offset : ℕ} {value : Value UInt32}
    (read : deserializeFrom data offset t = some value) : offset + (zeroOf t).packedSize ≤ data.length := by
  by_contra outside
  cases t <;> simp_all [deserializeFrom, zeroOf, packedSize, readAt_eq_none]

/-- A zero read one byte early, from behind a one, is something else. -/
theorem deserializeFrom_shifted (typed : t ≠ .invalid) (before after : List UInt8) :
    deserializeFrom (before ++ (1 :: ((zeroOf t).serialized ++ after))) before.length t ≠ some (zeroOf t) := by
  cases t with
  | invalid => exact absurd rfl typed
  | boolean =>
    have read : readAt (before ++ (1 :: ((zeroOf .boolean).serialized ++ after))) before.length 1 = some [1] :=
      readAt_block before [1] ((zeroOf .boolean).serialized ++ after)
    rw [deserializeFrom, read]
    decide
  | integer =>
    have read : readAt (before ++ (1 :: ((zeroOf .integer).serialized ++ after))) before.length 4 = some [1, 0, 0, 0] :=
      readAt_block before [1, 0, 0, 0] (0 :: after)
    rw [deserializeFrom, read]
    decide
  | float =>
    have read : readAt (before ++ (1 :: ((zeroOf .float).serialized ++ after))) before.length 4 = some [1, 0, 0, 0] :=
      readAt_block before [1, 0, 0, 0] (0 :: after)
    rw [deserializeFrom, read]
    decide
  | varchar =>
    have header : readAt (before ++ (1 :: ((zeroOf .varchar).serialized ++ after))) before.length 4 =
        some [1, 0, 0, 0] := readAt_block before [1, 0, 0, 0] (0 :: after)
    have text : readAt (before ++ (1 :: ((zeroOf .varchar).serialized ++ after))) (before.length + 4) 1 = some [0] := by
      have block := readAt_block (before ++ [1, 0, 0, 0]) [0] after
      rwa [List.append_assoc, List.length_append] at block
    rw [deserializeFrom, header, Option.bind_eq_bind, Option.bind_some, show decode [1, 0, 0, 0] = 1 from rfl, text]
    decide

end Value

/-- The row of zeros. -/
def zeroRow (columns : List Column) : List (Value UInt32) := columns.map fun column => Value.zeroOf column.typeId

@[simp] theorem zeroRow_append (a b : List Column) : zeroRow (a ++ b) = zeroRow a ++ zeroRow b := by simp [zeroRow]

@[simp] theorem zeroRow_cons (column : Column) (rest : List Column) :
    zeroRow (column :: rest) = Value.zeroOf column.typeId :: zeroRow rest := rfl

@[simp] theorem zeroRow_nil : zeroRow [] = [] := rfl

@[simp] theorem zeroRow_length_eq (columns : List Column) : (zeroRow columns).length = columns.length := by
  simp [zeroRow]

section Zeros

variable {columns : List Column} (typed : ∀ column ∈ columns, column.typeId ≠ .invalid)

include typed

theorem zeroRow_matches : Matches columns (zeroRow columns) := by
  induction columns with
  | nil => exact .nil
  | cons column rest ih =>
    exact .cons (Value.zeroOf_matches (typed column List.mem_cons_self))
      (ih fun other member => typed other (List.mem_cons_of_mem _ member))

/-- A row of zeros stays behind the reader, by four bytes for every FLOAT. -/
theorem zeroRow_length :
    packedLength (zeroRow columns) + 4 * (columns.countP fun column => column.typeId = .float) =
      (columns.map Column.width).sum := by
  induction columns with
  | nil => rfl
  | cons column rest ih =>
    have tail := ih fun other member => typed other (List.mem_cons_of_mem _ member)
    have here := typed column List.mem_cons_self
    rw [zeroRow, packedLength] at tail
    rw [zeroRow, List.map_cons, packedLength, List.map_cons, List.sum_cons, List.map_cons, List.sum_cons,
      List.countP_cons, ← tail]
    cases isType : column.typeId <;>
      simp_all [Value.zeroOf, Value.packedSize, Column.width, Column.isInlined, Column.getFixedLength,
        Column.getFixedLengthFor] <;> omega

variable {tuple : Tuple} (fits : (columns.map Column.width).sum + 1 < 2 ^ 32)
  (all : ∀ values, Matches columns values → packedLength values < 2 ^ 32 →
    RoundTrips (Schema.new columns) tuple values)

include fits all

/-- A tuple object that holds values answers with those. -/
theorem empty_of_roundTrips (notEmpty : columns ≠ []) : tuple.values = [] := by
  by_contra held
  obtain ⟨old, others, values⟩ := List.exists_cons_of_ne_nil held
  obtain ⟨column, rest, rfl⟩ := List.exists_cons_of_ne_nil notEmpty
  have here := typed column List.mem_cons_self
  have length := zeroRow_length typed
  obtain ⟨zeroType, zeroPresent⟩ := Value.zeroOf_matches here
  obtain ⟨oneType, onePresent, different, longer⟩ := Value.oneOf_matches here
  -- a first value that differs from the one held
  obtain ⟨first, sameType, present, other, size⟩ : ∃ first : Value UInt32, first.typeId = column.typeId ∧
      first.isNull = false ∧ first ≠ old ∧ first.packedSize ≤ (Value.zeroOf column.typeId).packedSize + 1 := by
    by_cases same : Value.zeroOf column.typeId = old
    · exact ⟨_, oneType, onePresent, same ▸ different, longer⟩
    · exact ⟨_, zeroType, zeroPresent, same, Nat.le_succ _⟩
  have row : Matches (column :: rest) (first :: zeroRow rest) :=
    .cons ⟨sameType, present⟩ (zeroRow_matches fun other member => typed other (List.mem_cons_of_mem _ member))
  obtain ⟨stored, -, reads⟩ := all _ row (by
    simp only [zeroRow, packedLength, List.map_cons, List.sum_cons] at length ⊢
    simp only [List.map_cons, List.sum_cons] at fits
    omega)
  have answer := reads 0 (by simp)
  rw [Tuple.getValue, if_pos (by simp [Tuple.deserializeFrom, values])] at answer
  simp only [Tuple.deserializeFrom, values, List.getElem?_cons_zero, Option.some.injEq] at answer
  exact other answer.symm

omit typed fits all in
/-- A row that reads back into a fresh tuple gives the value of a column at the place of the column. -/
theorem RoundTrips.read {values : List (Value UInt32)} {before after : List Column} {column : Column}
    (trip : RoundTrips (Schema.new columns) tuple values) (row : Matches columns values)
    (small : packedLength values < 2 ^ 32) (empty : tuple.values = []) (cut : columns = before ++ column :: after)
    (fits : (before.map Column.width).sum < 2 ^ 32) :
    Value.deserializeFrom (values.flatMap Value.serialized) (before.map Column.width).sum column.typeId =
      values[before.length]? := by
  obtain ⟨stored, made, reads⟩ := trip
  obtain ⟨stored', made', read⟩ := row.getValue_stored small empty cut fits
  rw [made] at made'
  obtain rfl := Option.some.inj made'
  rw [← read]
  refine reads _ ?_
  rw [← row.length_eq, cut]
  simp

/-- Behind a FLOAT the last column of a row of zeros is read past the end. -/
theorem no_float_of_roundTrips (empty : tuple.values = []) :
    ∀ column ∈ columns.dropLast, column.typeId ≠ .float := by
  intro column member isFloat
  obtain ⟨init, last, rfl⟩ : ∃ init last, columns = init ++ [last] := by
    refine ⟨_, _, (List.dropLast_append_getLast (l := columns) ?_).symm⟩
    rintro rfl
    simp at member
  rw [List.dropLast_concat] at member
  have lengthInit := zeroRow_length fun other inside => typed other (List.mem_append_left [last] inside)
  have length := zeroRow_length typed
  have floats : 0 < init.countP fun column => column.typeId = .float :=
    List.countP_pos_iff.mpr ⟨column, member, by simpa using isFloat⟩
  have row := zeroRow_matches typed
  have small : packedLength (zeroRow (init ++ [last])) < 2 ^ 32 := by omega
  simp only [List.map_append, List.sum_append] at fits
  have answer := (all _ row small).read row small empty rfl (by omega)
  have target : (zeroRow (init ++ [last]))[init.length]? = some (Value.zeroOf last.typeId) := by
    rw [zeroRow_append, List.getElem?_append_right (by simp)]
    simp
  have inside := Value.inside_of_deserializeFrom (answer.trans target)
  rw [(Tuple.new_eq row.present small).2, zeroRow_append, packedLength_append, zeroRow_cons, packedLength_cons,
    zeroRow_nil, packedLength_nil] at inside
  omega

/-- Behind a VARCHAR of one byte the next column is read one byte early. -/
theorem no_varchar_of_roundTrips (empty : tuple.values = [])
    (noFloat : ∀ column ∈ columns.dropLast, column.typeId ≠ .float) :
    ∀ column ∈ columns.dropLast, column.typeId ≠ .varchar := by
  intro column member isVarchar
  obtain ⟨before, next, after, rfl, early⟩ : ∃ before next after, columns = before ++ column :: next :: after ∧
      ∀ other ∈ before, other ∈ columns.dropLast := by
    obtain ⟨before, rest, split⟩ := List.append_of_mem member
    have notEmpty : columns ≠ [] := by
      rintro rfl
      simp at member
    have whole := List.dropLast_append_getLast notEmpty
    rw [split, List.append_assoc, List.cons_append] at whole
    obtain ⟨next, after, tail⟩ :=
      List.exists_cons_of_ne_nil (show rest ++ [columns.getLast notEmpty] ≠ [] by simp)
    rw [tail] at whole
    exact ⟨before, next, after, whole.symm, fun other inside => by simp [split, inside]⟩
  have typedBefore : ∀ other ∈ before, other.typeId ≠ .invalid := fun other inside =>
    typed other (List.mem_append_left _ inside)
  have typedNext := typed next (by simp)
  have typedAfter : ∀ other ∈ next :: after, other.typeId ≠ .invalid := fun other inside =>
    typed other (List.mem_append_right _ (List.mem_cons_of_mem _ inside))
  have place : packedLength (zeroRow before) = (before.map Column.width).sum := by
    have length := zeroRow_length typedBefore
    rw [List.countP_eq_zero.mpr fun other inside => by simpa using noFloat other (early other inside)] at length
    omega
  have width : column.width = 4 := by simp [Column.width, Column.isInlined, isVarchar]
  have row : Matches (before ++ column :: next :: after)
      (zeroRow before ++ Value.varchar [1] :: zeroRow (next :: after)) :=
    List.rel_append (zeroRow_matches typedBefore) (.cons ⟨isVarchar.symm, rfl⟩ (zeroRow_matches typedAfter))
  have small : packedLength (zeroRow before ++ Value.varchar [1] :: zeroRow (next :: after)) < 2 ^ 32 := by
    have length := zeroRow_length typedAfter
    simp only [packedLength_append, packedLength_cons, Value.packedSize, List.length_cons, List.length_nil]
    simp only [List.map_append, List.sum_append, List.map_cons, List.sum_cons, width] at fits length
    omega
  have cut : before ++ column :: next :: after = (before ++ [column]) ++ next :: after := by simp
  have answer := (all _ row small).read row small empty cut (by
    simp only [List.map_append, List.sum_append, List.map_cons, List.sum_cons, List.map_nil, List.sum_nil] at fits ⊢
    omega)
  have lengthBefore := (Tuple.new_eq (zeroRow_matches typedBefore).present (by
    rw [packedLength_append] at small
    omega)).2
  have data : (zeroRow before ++ Value.varchar [1] :: zeroRow (next :: after)).flatMap Value.serialized =
      ((zeroRow before).flatMap Value.serialized ++ [1, 0, 0, 0]) ++
        (1 :: ((Value.zeroOf next.typeId).serialized ++ (zeroRow after).flatMap Value.serialized)) := by
    rw [List.flatMap_append, List.flatMap_cons, zeroRow_cons, List.flatMap_cons,
      show (Value.varchar [1]).serialized = [1, 0, 0, 0, 1] by decide]
    simp
  have offset : ((before ++ [column]).map Column.width).sum =
      ((zeroRow before).flatMap Value.serialized ++ [1, 0, 0, 0]).length := by
    simp [lengthBefore, place, width]
  have target : (zeroRow before ++ Value.varchar [1] :: zeroRow (next :: after))[(before ++ [column]).length]? =
      some (Value.zeroOf next.typeId) := by
    rw [List.getElem?_append_right (by simp)]
    simp
  rw [target, data, offset] at answer
  exact Value.deserializeFrom_shifted typedNext _ _ answer

end Zeros

/-- For every schema and every tuple object: all rows of the schema read back from inside their stored
bytes exactly when there is no column, or the object held no values and every column but the last is a
BOOLEAN or an INTEGER. -/
theorem roundTrips_iff (columns : List Column) (tuple : Tuple)
    (typed : ∀ column ∈ columns, column.typeId ≠ .invalid)
    (fits : (columns.map Column.width).sum + 1 < 2 ^ 32) :
    (∀ values, Matches columns values → packedLength values < 2 ^ 32 →
        RoundTrips (Schema.new columns) tuple values) ↔
      columns = [] ∨ (tuple.values = [] ∧ ∀ column ∈ columns.dropLast, Packed column) := by
  constructor
  · intro all
    by_cases notEmpty : columns = []
    · exact .inl notEmpty
    have empty := empty_of_roundTrips typed fits all notEmpty
    have noFloat := no_float_of_roundTrips typed fits all empty
    have noVarchar := no_varchar_of_roundTrips typed fits all empty noFloat
    refine .inr ⟨empty, fun column member => ?_⟩
    have here := typed column (List.dropLast_subset _ member)
    have notFloat := noFloat column member
    have notVarchar := noVarchar column member
    rw [Packed]
    cases isType : column.typeId <;> simp_all
  · rintro (rfl | ⟨empty, packed⟩) values row small
    · obtain rfl := List.forall₂_nil_left_iff.mp row
      exact ⟨_, rfl, by simp⟩
    · exact roundTrips_of_packed empty packed row small

/-- The columns of `CREATE TABLE t (a VARCHAR, b INTEGER)`. -/
def textAndNumber : List Column := [Column.new "a" .varchar 0, Column.new "b" .integer 0]

theorem roundTrips_iff_textAndNumber :
    (∀ column ∈ textAndNumber, column.typeId ≠ .invalid) ∧ (textAndNumber.map Column.width).sum + 1 < 2 ^ 32 ∧
      ((∀ values, Matches textAndNumber values → packedLength values < 2 ^ 32 →
          RoundTrips (Schema.new textAndNumber) ⟨default, [], []⟩ values) ↔
        textAndNumber = [] ∨
        (([] : List (Value UInt32)) = [] ∧ ∀ column ∈ textAndNumber.dropLast, Packed column)) :=
  ⟨by decide, by decide, roundTrips_iff textAndNumber ⟨default, [], []⟩ (by decide) (by decide)⟩

/-- The row `("x", 0)` reads back as `("x", 120)`. -/
theorem textAndNumber_misread :
    Matches textAndNumber [.varchar [120], .integer 0] ∧ packedLength [.varchar [120], .integer 0] < 2 ^ 32 ∧
      ¬ RoundTrips (Schema.new textAndNumber) ⟨default, [], []⟩ [.varchar [120], .integer 0] := by
  refine ⟨.cons ⟨rfl, rfl⟩ (.cons ⟨rfl, rfl⟩ .nil), by decide, ?_⟩
  rintro ⟨stored, made, reads⟩
  have bytes : Tuple.new [.varchar [120], .integer 0] =
      some ⟨default, [1, 0, 0, 0, 120, 0, 0, 0, 0], [.varchar [120], .integer 0]⟩ := by decide
  rw [bytes] at made
  obtain rfl := Option.some.inj made
  exact absurd (reads 1 (by decide)) (by decide)

end OneBase
