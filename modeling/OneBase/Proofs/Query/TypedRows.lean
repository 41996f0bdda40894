import OneBase.Proofs.Query.ScanRows

/-! # Tables of INTEGER and BOOLEAN columns

Where only the last column may be a VARCHAR, a scan reads from a stored tuple the values that it was made of, and the
SET expressions of an `UPDATE` make the tuple of their values. -/

namespace OneBase

open Binder ExceptLoops ExceptRuns TableHeap

/-- INTEGER and BOOLEAN columns, of which the last may be a VARCHAR instead. -/
structure Plain (columns : List Column) : Prop where
  packed : ∀ column ∈ columns.dropLast, Packed column
  typed : ∀ column ∈ columns, Packed column ∨ column.typeId = .varchar

/-- Under a RID, the tuple that was made of a row of values. -/
structure Holds (columns : List Column) (row : Rid × List UInt8) (values : List (Value UInt32)) : Prop where
  typed : Matches columns values
  small : packedLength values < 2 ^ 32
  bytes : row.2 = values.flatMap Value.serialized

/-- The offsets do not touch what else a column is. -/
theorem Schema.map_setOffsets {α : Type} {f : Column → α}
    (blind : ∀ column offset, f { column with offset } = f column) (offset : ℕ) (columns : List Column) :
    (setOffsets offset columns).1.map f = columns.map f := by
  induction columns generalizing offset with
  | nil => rfl
  | cons column rest ih =>
    rw [setOffsets]
    simp only [List.map_cons, blind, ih]

theorem Schema.length_new (columns : List Column) : (Schema.new columns).columns.length = columns.length := by
  have same := congrArg List.length (map_setOffsets (f := fun _ => ()) (fun _ _ => rfl) 0 columns)
  rwa [List.length_map, List.length_map] at same

/-- Every value takes at least one byte. -/
theorem Matches.length_le {columns : List Column} {values : List (Value UInt32)} (typed : Matches columns values) :
    columns.length ≤ packedLength values := by
  induction typed with
  | nil => exact le_rfl
  | @cons column value columns values head _ ih =>
    have taken : 1 ≤ value.packedSize := by
      cases value with
      | null typeId => exact absurd head.2 (by simp [Value.isNull])
      | boolean b => exact le_rfl
      | integer i => exact Nat.le_of_ble_eq_true rfl
      | float f => exact Nat.le_of_ble_eq_true rfl
      | varchar s => exact Nat.le_add_right_of_le (Nat.le_of_ble_eq_true rfl)
    rw [List.length_cons, packedLength_cons]
    omega

section Holds

variable {columns : List Column} {row : Rid × List UInt8} {values : List (Value UInt32)}

theorem Holds.columnCount (holds : Holds columns row values) :
    (Schema.new columns).getColumnCount = columns.length := by
  rw [Schema.getColumnCount, Schema.length_new]
  exact Nat.mod_eq_of_lt (holds.typed.length_le.trans_lt holds.small)

theorem Holds.length (holds : Holds columns row values) : row.2.length = packedLength values := by
  rw [holds.bytes, (Tuple.new_eq holds.typed.present holds.small).2]

/-- The columns of the stored tuple read its values. -/
theorem Holds.column (holds : Holds columns row values) (plain : Plain columns) {i : ℕ} (inside : i < values.length) :
    (stored row).column (Schema.new columns) i = .ok values[i] := by
  obtain ⟨made, -⟩ := Tuple.new_eq holds.typed.present holds.small
  have roundTrips : RoundTrips (Schema.new columns) ⟨row.1, [], []⟩ values :=
    roundTrips_of_packed rfl plain.packed holds.typed holds.small
  obtain ⟨tuple, made', read⟩ := roundTrips
  rw [made] at made'
  obtain rfl := Option.some.inj made'
  have length := (Tuple.new_eq holds.typed.present holds.small).2
  have whole : (Tuple.deserializeFrom ⟨row.1, [], []⟩ (values.flatMap Value.serialized)
      (Tuple.getLength ⟨default, values.flatMap Value.serialized, values⟩)) = stored row := by
    rw [Tuple.deserializeFrom, Tuple.getLength]
    dsimp only
    rw [length, Nat.mod_eq_of_lt holds.small, ← length, List.take_length, stored, holds.bytes]
  have here := read i inside
  rw [whole] at here
  rw [Tuple.column, here, List.getElem?_eq_getElem inside]
  rfl

/-- The tuple that the scan hands out. -/
theorem Holds.populated (holds : Holds columns row values) (plain : Plain columns) :
    (stored row).populated (Schema.new columns) =
      .ok { rid := row.1, data := values.flatMap Value.serialized, values } := by
  have collected : (List.range (Schema.new columns).getColumnCount).mapM
      ((stored row).column (Schema.new columns)) = .ok values := by
    rw [mapM_eq_ok_iff, holds.columnCount, holds.typed.length_eq, List.forall₂_iff_get]
    refine ⟨List.length_range, fun i bound bound' => ?_⟩
    simpa using holds.column plain bound'
  obtain ⟨made, -⟩ := Tuple.new_eq holds.typed.present holds.small
  rw [Tuple.populated, collected]
  change (Tuple.ofValues values >>= fun populated => pure { populated with rid := row.1 }) = _
  rw [Tuple.ofValues, made]
  rfl

variable {F : Type} [StoresFloat F]

/-- Stored values as a row. -/
def rowOf (values : List (Value UInt32)) : Row F := values.map Value.ofStored

theorem Holds.standsFor (holds : Holds columns row values) (plain : Plain columns) :
    StandsFor (Schema.new columns) row (rowOf (F := F) values) := ⟨_, holds.populated plain, rfl⟩

variable [Field F] [LinearOrder F]

omit [Field F] [LinearOrder F] in
theorem rowOf_getValue {i : ℕ} (inside : i < values.length) :
    (rowOf (F := F) values).getValue i = .ok (values[i].ofStored) := by
  rw [Row.getValue, rowOf, List.getElem?_map, List.getElem?_eq_getElem inside]
  rfl

/-- On the tuple that the scan hands out, expressions have the values that they have on the row. -/
theorem evaluateOn_populated {e : Expression F} {schema : Schema} {rid : Rid} {data : List UInt8}
    (reads : e.Columns fun _ colIdx => colIdx < values.length) :
    e.evaluateOn schema ⟨rid, data, values⟩ = e.evaluate (rowOf values) := by
  refine Expression.evaluateWith_congr (reads.mono fun _ colIdx inside => ?_)
  have full : values.isEmpty = false := by
    rw [List.isEmpty_eq_false_iff]
    exact List.ne_nil_of_length_pos (Nat.zero_lt_of_lt inside)
  rw [rowOf_getValue inside, Tuple.column, Tuple.getValue, if_pos ⟨by simp [full], inside⟩,
    List.getElem?_eq_getElem inside]
  rfl

end Holds

section Update

variable {F : Type} [StoresFloat F] [Field F] [LinearOrder F] {columns : List Column}
  {setExprs : List (String × Expression F)} {row : Rid × List UInt8} {old new : List (Value UInt32)}

/-- The values of the SET expressions on a row, with all other columns as they were. -/
structure Sets (columns : List Column) (setExprs : List (String × Expression F)) (old new : List (Value UInt32)) :
    Prop where
  set : ∀ (i : ℕ) (column : Column) (e : Expression F), columns[i]? = some column →
    setItem setExprs column.name = some e →
    ∃ value, e.evaluate (rowOf old) = .ok value ∧ new[i]? = some value.toStored
  kept : ∀ (i : ℕ) (column : Column), columns[i]? = some column → setItem setExprs column.name = none →
    new[i]? = old[i]?

/-- The SET expressions read columns of the table; on the row they raise no error and have the types of their
columns. -/
def SetsTyped (columns : List Column) (setExprs : List (String × Expression F)) (old : List (Value UInt32)) : Prop :=
  ∀ column ∈ columns, ∀ e, setItem setExprs column.name = some e →
    e.Columns (fun _ colIdx => colIdx < columns.length) ∧
      ∃ value, e.evaluate (rowOf old) = .ok value ∧ value.typeId = column.typeId ∧ value.isNull = false

omit [Field F] [LinearOrder F] in
/-- Without floats, what is read from a tuple is stored as it was. -/
theorem Value.toStored_ofStored {value : Value UInt32} (noFloat : value.typeId ≠ .float) :
    (value.ofStored : Value F).toStored = value := by
  cases value with
  | float f => exact absurd rfl noFloat
  | _ => rfl

omit [StoresFloat F] [Field F] [LinearOrder F] in
/-- The expressions depend on the names and types of the columns only. -/
theorem updateExpressions_new (columns : List Column) (setExprs : List (String × Expression F)) :
    updateExpressions (Schema.new columns) setExprs = columns.zipIdx.map fun (column, i) =>
      (setItem setExprs column.name).getD (.columnValue 0 i column.typeId) := by
  have byNames (columns : List Column) : (columns.zipIdx.map fun (column, i) =>
      (setItem setExprs column.name).getD (.columnValue 0 i column.typeId)) =
      (columns.map fun column => (column.name, column.typeId)).zipIdx.map fun (named, i) =>
        (setItem setExprs named.1).getD (.columnValue 0 i named.2) := by
    rw [List.zipIdx_map, List.map_map]
    rfl
  rw [updateExpressions, byNames, byNames, Schema.new, Schema.map_setOffsets fun _ _ => rfl]

/-- What the expression for a column gives on the tuple that the scan hands out. -/
theorem exists_newValue (plain : Plain columns) (holds : Holds columns row old)
    (typed : SetsTyped columns setExprs old) {i : ℕ} {column : Column} (listed : columns[i]? = some column) :
    ∃ value : Value F,
      ((setItem setExprs column.name).getD (.columnValue 0 i column.typeId)).evaluateOn (Schema.new columns)
        ⟨row.1, old.flatMap Value.serialized, old⟩ = .ok value ∧
      (value.typeId = column.typeId ∧ value.isNull = false) ∧
      (∀ e, setItem setExprs column.name = some e → e.evaluate (rowOf old) = .ok value) ∧
      (setItem setExprs column.name = none → old[i]? = some value.toStored) := by
  obtain ⟨inside, rfl⟩ := List.getElem?_eq_some_iff.mp listed
  have same := holds.typed.length_eq
  cases item : setItem setExprs columns[i].name with
  | some e =>
    obtain ⟨reads, value, computed, typeId, present⟩ := typed _ (List.getElem_mem inside) e item
    rw [same] at reads
    refine ⟨value, ?_, ⟨typeId, present⟩, ?_, nofun⟩
    · rw [Option.getD_some, evaluateOn_populated reads, computed]
    · rintro _ ⟨⟩
      exact computed
  | none =>
    have inside' : i < old.length := same ▸ inside
    obtain ⟨typeId, present⟩ : old[i].typeId = columns[i].typeId ∧ old[i].isNull = false :=
      (List.forall₂_iff_get.mp holds.typed).2 i inside inside'
    have noFloat : old[i].typeId ≠ .float := by
      rw [typeId]
      rcases plain.typed _ (List.getElem_mem inside) with (isType | isType) | isType
      · simp [isType]
      · simp [isType]
      · simp [isType]
    refine ⟨old[i].ofStored, ?_, ?_, nofun, fun _ => ?_⟩
    · rw [Option.getD_none,
        evaluateOn_populated (show Expression.Columns _ (Expression.columnValue _ _ _) from inside')]
      exact rowOf_getValue inside'
    · rw [← typeId, ← present]
      cases old[i] <;> exact ⟨rfl, rfl⟩
    · rw [List.getElem?_eq_getElem inside', Value.toStored_ofStored noFloat]

/-- The new tuple of a row holds the values of the SET expressions, and the old ones in the other columns. -/
theorem exists_newTuple (plain : Plain columns) (holds : Holds columns row old)
    (typed : SetsTyped columns setExprs old) :
    ∃ new, Matches columns new ∧ Sets columns setExprs old new ∧ (packedLength new < 2 ^ 32 →
      UpdateExecutor.newTuple (Schema.new columns) (updateExpressions (Schema.new columns) setExprs)
        ⟨row.1, old.flatMap Value.serialized, old⟩ = .ok ⟨default, new.flatMap Value.serialized, new⟩) := by
  obtain ⟨out, collected⟩ : ∃ out, (updateExpressions (Schema.new columns) setExprs).mapM (fun e =>
      e.evaluateOn (Schema.new columns) ⟨row.1, old.flatMap Value.serialized, old⟩) = .ok out := by
    refine exists_mapM_eq_ok fun e mem => ?_
    rw [updateExpressions_new] at mem
    obtain ⟨⟨column, i⟩, listed, rfl⟩ := List.mem_map.mp mem
    obtain ⟨value, computed, -⟩ := exists_newValue plain holds typed (List.mem_zipIdx_iff_getElem?.mp listed)
    exact ⟨value, computed⟩
  have read := mapM_eq_ok_iff.mp collected
  rw [updateExpressions_new, List.forall₂_map_left_iff, List.forall₂_iff_get] at read
  obtain ⟨count, read⟩ := read
  rw [List.length_zipIdx] at count
  have value (i : ℕ) (column : Column) (listed : columns[i]? = some column) : ∃ value,
      out[i]? = some value ∧ (value.typeId = column.typeId ∧ value.isNull = false) ∧
      (∀ e, setItem setExprs column.name = some e → e.evaluate (rowOf old) = .ok value) ∧
      (setItem setExprs column.name = none → old[i]? = some value.toStored) := by
    obtain ⟨value, computed, facts⟩ := exists_newValue plain holds typed listed
    obtain ⟨inside, rfl⟩ := List.getElem?_eq_some_iff.mp listed
    have here := read i (by rwa [List.length_zipIdx]) (count ▸ inside)
    simp only [List.get_eq_getElem, List.getElem_zipIdx, Nat.zero_add] at here
    rw [computed] at here
    refine ⟨value, ?_, facts⟩
    rw [List.getElem?_eq_getElem (count ▸ inside), Except.ok.inj here]
  have matched : Matches columns (out.map Value.toStored) := by
    rw [Matches, List.forall₂_map_right_iff, List.forall₂_iff_get]
    refine ⟨count, fun i inside inside' => ?_⟩
    obtain ⟨value, found, ⟨typeId, present⟩, -⟩ := value i _ (List.getElem?_eq_getElem inside)
    rw [List.getElem?_eq_getElem inside'] at found
    obtain rfl := Option.some.inj found
    rw [List.get_eq_getElem, List.get_eq_getElem, ← typeId, ← present]
    cases out[i] <;> exact ⟨rfl, rfl⟩
  refine ⟨out.map Value.toStored, matched, ⟨?_, ?_⟩, fun small => ?_⟩
  · intro i column e listed item
    obtain ⟨value, found, -, set, -⟩ := value i column listed
    exact ⟨value, set e item, by rw [List.getElem?_map, found, Option.map_some]⟩
  · intro i column listed item
    obtain ⟨value, found, -, -, kept⟩ := value i column listed
    rw [List.getElem?_map, found, Option.map_some, kept item]
  · obtain ⟨made, -⟩ := Tuple.new_eq matched.present small
    rw [UpdateExecutor.newTuple, collected]
    change Tuple.ofValues (out.map Value.toStored) = _
    rw [Tuple.ofValues, made]
    rfl

end Update

end OneBase
