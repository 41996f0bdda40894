import OneBase.Model.TableExecutors
import OneBase.Proofs.Storage.Tuple
import OneBase.ToMathlib.ExceptLoops

/-! # The tuples that scans hand out

A tuple fresh from the heap has bytes only; what a scan hands out holds the values that its columns read, and so does
every key that is built from it.
-/

namespace OneBase

open ExceptLoops Bytes

/-- The bytes that a column is read from lie inside a row. -/
def Column.LiesIn (column : Column) (data : List UInt8) : Prop :=
  match column.typeId with
  | .boolean => column.offset + 1 ≤ data.length
  | .integer | .float => column.offset + 4 ≤ data.length
  | .varchar => column.offset + 4 ≤ data.length ∧
    column.offset + 4 + decode ((data.drop column.offset).take 4) ≤ data.length
  | .invalid => False

namespace Value

/-- A read has a result when its bytes lie inside the row. -/
theorem exists_readAt_bind_iff {α : Type} {data : List UInt8} {offset width : ℕ} {made : List UInt8 → Option α} :
    (∃ value, (readAt data offset width).bind made = some value) ↔
      offset + width ≤ data.length ∧ ∃ value, made ((data.drop offset).take width) = some value := by
  rw [readAt]
  split_ifs with inside
  · simp [inside]
  · simp [inside]

theorem exists_deserializeFrom_iff {data : List UInt8} {column : Column} :
    (∃ value, deserializeFrom data column.offset column.typeId = some value) ↔ column.LiesIn data := by
  rw [Column.LiesIn]
  cases column.typeId with
  | invalid => simp [deserializeFrom]
  | boolean => simp [deserializeFrom, bind, exists_readAt_bind_iff]
  | integer => simp [deserializeFrom, bind, exists_readAt_bind_iff]
  | float => simp [deserializeFrom, bind, exists_readAt_bind_iff]
  | varchar => simp [deserializeFrom, bind, exists_readAt_bind_iff]

/-- A value read from bytes is not NULL and not longer than they are. -/
theorem deserializeFrom_bound {data : List UInt8} {offset : ℕ} {typeId : TypeId} {value : Value UInt32}
    (read : deserializeFrom data offset typeId = some value) :
    value.isNull = false ∧ value.packedSize ≤ data.length + 4 := by
  cases typeId with
  | invalid => cases read
  | boolean =>
    obtain ⟨bytes, -, made⟩ := Option.bind_eq_some_iff.mp read
    obtain rfl := Option.some.inj made
    exact ⟨rfl, by simp only [packedSize]; omega⟩
  | integer =>
    obtain ⟨bytes, -, made⟩ := Option.bind_eq_some_iff.mp read
    obtain rfl := Option.some.inj made
    exact ⟨rfl, by simp only [packedSize]; omega⟩
  | float =>
    obtain ⟨bytes, -, made⟩ := Option.bind_eq_some_iff.mp read
    obtain rfl := Option.some.inj made
    exact ⟨rfl, by simp only [packedSize]; omega⟩
  | varchar =>
    obtain ⟨length, -, made⟩ := Option.bind_eq_some_iff.mp read
    obtain ⟨text, taken, made⟩ := Option.bind_eq_some_iff.mp made
    obtain rfl := Option.some.inj made
    rw [readAt] at taken
    split_ifs at taken with inside
    obtain rfl := Option.some.inj taken
    refine ⟨rfl, ?_⟩
    simp only [packedSize, List.length_take, List.length_drop]
    omega

end Value

namespace Tuple

/-- Values that are not NULL make a tuple. -/
theorem ofValues_ok {values : List (Value UInt32)}
    (sized : ∀ value ∈ values, value.isNull = false ∧ value.packedSize < 2 ^ 32) :
    ∃ data, ofValues values = .ok { rid := default, data, values } := by
  have run (data : List UInt8) : ∃ data', values.foldlM append data = some data' := by
    induction values generalizing data with
    | nil => exact ⟨data, rfl⟩
    | cons value rest ih =>
      obtain ⟨present, small⟩ := sized value List.mem_cons_self
      rw [List.foldlM_cons, append_eq data present small]
      exact ih (fun other member => sized other (List.mem_cons_of_mem _ member)) _
  obtain ⟨data, made⟩ := run []
  refine ⟨data, ?_⟩
  rw [ofValues, new, made]
  rfl

theorem ofValues_values {values : List (Value UInt32)} {tuple : Tuple} (made : ofValues values = .ok tuple) :
    tuple.values = values := by
  rw [ofValues, new] at made
  cases packed : values.foldlM append [] with
  | none =>
    rw [packed] at made
    cases made
  | some data =>
    rw [packed] at made
    obtain rfl := Except.ok.inj made
    rfl

variable {schema : Schema} {tuple read : Tuple} {colIdx : ℕ}

/-- What a tuple from the heap gives for a column. -/
theorem column_stored (empty : tuple.values = []) {value : Value UInt32}
    (got : tuple.column schema colIdx = .ok value) :
    value.isNull = false ∧ value.packedSize ≤ tuple.data.length + 4 := by
  rw [column, getValue, if_neg (by simp [empty])] at got
  cases found : (do
      let column ← schema.columns[colIdx]?
      Value.deserializeFrom tuple.data column.offset column.typeId) with
  | none =>
    rw [found] at got
    cases got
  | some value' =>
    rw [found] at got
    obtain rfl := Except.ok.inj got
    obtain ⟨column, -, bytes⟩ := Option.bind_eq_some_iff.mp found
    exact Value.deserializeFrom_bound bytes

/-- The tuple that a scan hands out holds what the columns read, under the same RID. -/
theorem populated_spec (made : tuple.populated schema = .ok read) : read.rid = tuple.rid ∧
    List.Forall₂ (fun colIdx value => tuple.column schema colIdx = .ok value) (List.range schema.getColumnCount)
      read.values := by
  obtain ⟨values, collected, made⟩ := bind_eq_ok_iff.mp made
  obtain ⟨packed, fromValues, made⟩ := bind_eq_ok_iff.mp made
  obtain rfl := pure_eq_ok_iff.mp made
  refine ⟨rfl, ?_⟩
  dsimp only
  rw [ofValues_values fromValues]
  exact mapM_eq_ok_iff.mp collected

/-- The columns of a tuple that a scan hands out are its values. -/
theorem column_populated (made : tuple.populated schema = .ok read) (inside : colIdx < schema.getColumnCount) :
    ∃ value, read.column schema colIdx = .ok value ∧ tuple.column schema colIdx = .ok value := by
  obtain ⟨-, values⟩ := populated_spec made
  have count := values.length_eq
  rw [List.length_range] at count
  have bound : colIdx < read.values.length := count ▸ inside
  have same := values.get (by rw [List.length_range]; exact inside) bound
  simp only [List.get_eq_getElem, List.getElem_range] at same
  have full : read.values.isEmpty = false := by
    rw [List.isEmpty_eq_false_iff]
    rintro empty
    rw [empty] at bound
    cases bound
  refine ⟨read.values[colIdx], ?_, same⟩
  rw [column, getValue, if_pos ⟨by simp [full], bound⟩, List.getElem?_eq_getElem bound]
  rfl

/-- A column of a tuple from the heap has a value when its bytes lie inside the tuple. -/
theorem exists_column_iff (empty : tuple.values = []) : (∃ value, tuple.column schema colIdx = .ok value) ↔
    ∃ column, schema.columns[colIdx]? = some column ∧ column.LiesIn tuple.data := by
  rw [column, getValue, if_neg (by simp [empty])]
  cases found : schema.columns[colIdx]? with
  | none => simp [bind]
  | some column =>
    simp only [bind, Option.bind_some, Option.some.injEq, exists_eq_left', ← Value.exists_deserializeFrom_iff]
    cases Value.deserializeFrom tuple.data column.offset column.typeId <;> simp

/-- A scan can hand out a tuple from the heap when the bytes of every column lie inside it. -/
theorem exists_populated_iff (empty : tuple.values = []) (short : tuple.data.length ≤ pageSize) :
    (∃ read, tuple.populated schema = .ok read) ↔
      ∀ column ∈ schema.columns.take schema.getColumnCount, column.LiesIn tuple.data := by
  have few : schema.getColumnCount ≤ schema.columns.length := Nat.mod_le _ _
  have columns : (∀ colIdx ∈ List.range schema.getColumnCount, ∃ value,
      tuple.column schema colIdx = .ok value) ↔
      ∀ column ∈ schema.columns.take schema.getColumnCount, column.LiesIn tuple.data := by
    constructor
    · intro all column mem
      obtain ⟨colIdx, inside, rfl⟩ := List.mem_take_iff_getElem.mp mem
      obtain ⟨column, found, lies⟩ := (exists_column_iff empty).mp (all colIdx (List.mem_range.mpr (by omega)))
      rw [List.getElem?_eq_getElem (by omega)] at found
      exact Option.some.inj found ▸ lies
    · intro all colIdx mem
      have inside := List.mem_range.mp mem
      have bound : colIdx < schema.columns.length := by omega
      exact (exists_column_iff empty).mpr ⟨_, List.getElem?_eq_getElem bound,
        all _ (List.mem_take_iff_getElem.mpr ⟨colIdx, by omega, rfl⟩)⟩
  rw [← columns]
  constructor
  · rintro ⟨read, made⟩ colIdx mem
    obtain ⟨value, -, got⟩ := column_populated made (List.mem_range.mp mem)
    exact ⟨value, got⟩
  · intro all
    obtain ⟨values, collected⟩ := exists_mapM_eq_ok all
    obtain ⟨data, packed⟩ : ∃ data, ofValues values = .ok { rid := default, data, values } := by
      apply ofValues_ok
      intro value mem
      obtain ⟨colIdx, -, got⟩ := exists_of_mem_mapM collected mem
      obtain ⟨present, small⟩ := column_stored empty got
      refine ⟨present, ?_⟩
      simp only [pageSize] at short
      omega
    exact ⟨_, bind_eq_ok_iff.mpr ⟨values, collected, bind_eq_ok_iff.mpr ⟨_, packed, rfl⟩⟩⟩

/-- The keys that `Next` builds for the indexes can be built. -/
theorem keyTuple_ok (empty : tuple.values = []) (short : tuple.data.length ≤ pageSize)
    (made : tuple.populated schema = .ok read) {info : IndexInfo}
    (attrs : ∀ attr ∈ info.keyAttrs, attr < schema.getColumnCount) : info.keyTuple schema read = .ok () := by
  obtain ⟨keys, collected⟩ := exists_mapM_eq_ok fun attr mem =>
    (column_populated made (attrs attr mem)).imp fun _ => And.left
  obtain ⟨data, packed⟩ : ∃ data, ofValues keys = .ok { rid := default, data, values := keys } := by
    apply ofValues_ok
    intro value mem
    obtain ⟨attr, inside, got⟩ := exists_of_mem_mapM collected mem
    obtain ⟨value', here, there⟩ := column_populated made (attrs attr inside)
    rw [got] at here
    obtain rfl := Except.ok.inj here
    obtain ⟨present, small⟩ := column_stored empty there
    refine ⟨present, ?_⟩
    simp only [pageSize] at short
    omega
  exact bind_eq_ok_iff.mpr ⟨keys, collected, bind_eq_ok_iff.mpr ⟨_, packed, rfl⟩⟩

end Tuple

end OneBase
