import OneBase.Proofs.Query.StoredRows
import OneBase.Proofs.Query.TableScan
import OneBase.Proofs.Storage.HeapChanges

/-! # Modifications of a table

What `INSERT`, `DELETE` and `UPDATE` share: `Init` sets the flag back, and the first `Next` runs the whole loop and
returns the count. -/

namespace OneBase

open ExceptRuns TableHeap TablePage

/-- The heap of a scan, as the table of a modification. -/
def TableScan.target (schema : Schema) (indexes : List IndexInfo) : TargetTable TableScan :=
    ⟨schema, indexes, TableScan.onHeap⟩

/-- The keys of the indexes are built and dropped. -/
theorem keyTuples_run {σ : Type} {schema : Schema} {indexes : List IndexInfo} {tuple : Tuple}
    (built : ∀ info ∈ indexes, info.keyTuple schema tuple = .ok ()) (s : σ) :
    (indexes.forM fun info => (Code.lift (info.keyTuple schema tuple) : Code String σ Unit)) s = some (.ok (), s) := by
  induction indexes with
  | nil => rfl
  | cons info rest ih =>
    obtain ⟨first, others⟩ := List.forall_mem_cons.mp built
    have ran : (Code.lift (info.keyTuple schema tuple) : Code String σ Unit) s = some (.ok (), s) := by
      rw [first]
      rfl
    exact (Code.bind_ok ran _).trans (ih others)

section Count

variable {σ : Type} {child : TableExecutor σ}
    {modifyRow : Int32 → Tuple → Code String (OneChild σ Bool) Int32} {rounds : ℕ}
  {s s' : OneChild σ Bool} {count : Int32}

theorem countTuple_run (count : Int32) :
    ∃ tuple, countTuple count = .ok tuple ∧ tuple.values = [.integer count] := by
  obtain ⟨data, made⟩ := @Tuple.ofValues_ok [.integer count] (by simp [Value.isNull, Value.packedSize])
  exact ⟨_, made, rfl⟩

/-- One more row is counted. -/
theorem count_next (count : Int32) (number : ℕ) :
    count + 1 + Int32.ofNat number = count + Int32.ofNat (number + 1) := by
  rw [Int32.ofNat_add, Int32.add_assoc, Int32.add_comm 1]
  rfl

/-- The first `Next` returns the count of its loop. -/
theorem nextModify_run (fresh : s.fields = false)
    (loop : whileNext (onChild.on (child.next rounds)) modifyRow rounds 0 { s with fields := true } =
      some (.ok count, s')) :
    ∃ tuple, nextModify child modifyRow rounds s = some (.ok (some tuple), s') ∧
      tuple.values = [.integer count] := by
  obtain ⟨tuple, made, values⟩ := countTuple_run count
  refine ⟨tuple, (Code.bind_ok rfl _).trans ?_, values⟩
  rw [fresh, if_neg Bool.false_ne_true]
  refine (Code.bind_ok rfl _).trans ((Code.bind_ok loop _).trans ?_)
  rw [made]
  rfl

/-- A `Next` that returns a count has come to the end of its loop. -/
theorem nextModify_loop {tuple : Tuple} (fresh : s.fields = false)
    (ran : nextModify child modifyRow rounds s = some (.ok (some tuple), s')) :
    ∃ count, whileNext (onChild.on (child.next rounds)) modifyRow rounds 0 { s with fields := true } =
      some (.ok count, s') := by
  have unfolded : nextModify child modifyRow rounds s = (do
      let count ← whileNext (onChild.on (child.next rounds)) modifyRow rounds 0
      return some (← Code.lift (countTuple count)) : Code String (OneChild σ Bool) (Option Tuple))
        { s with fields := true } := by
    refine (Code.bind_ok rfl _).trans ?_
    rw [fresh, if_neg Bool.false_ne_true]
    exact Code.bind_ok rfl _
  rw [unfolded] at ran
  rcases looped : whileNext (onChild.on (child.next rounds)) modifyRow rounds 0 { s with fields := true } with
    _ | ⟨message | count, s''⟩
  · rw [Code.bind_none looped] at ran
    cases ran
  · rw [Code.bind_error looped] at ran
    cases ran
  · obtain ⟨made, built, -⟩ := countTuple_run count
    rw [Code.bind_ok looped, built] at ran
    obtain ⟨-, rfl⟩ := Prod.mk.inj (Option.some.inj ran)
    exact ⟨count, rfl⟩

/-- Another `Next` returns false and does nothing. -/
theorem nextModify_done (done : s.fields = true) : nextModify child modifyRow rounds s = some (.ok none, s) := by
  refine (Code.bind_ok rfl _).trans ?_
  rw [done, if_pos rfl]
  rfl

end Count

namespace TableScan

variable {F : Type} [StoresFloat F] [Field F] [LinearOrder F]

/-- `Init` puts the iterator before all rows. -/
theorem initModify_run (schema : Schema) (predicate : Option (Expression F)) {s : OneChild TableScan Bool}
    {chain : List PageId} {rounds : ℕ}
    (formed : WellFormed s.child.heap chain) (granted : ∀ call, s.child.heap.grants call = true)
    (enough : Enough rounds chain) : ∃ calls iter, initModify (executor schema predicate) rounds s =
        some (.ok (), ⟨{ s.child with heap := { s.child.heap with calls }, iter }, false⟩) ∧
      Ahead s.child.heap.data chain iter (contents s.child.heap.data chain) := by
  obtain ⟨iter, calls, begun, ahead⟩ := init_begins formed granted enough
  exact ⟨calls, iter, Code.bind_ok (Part.on_run begun) _, ahead⟩

end TableScan

section Flags

/-- Bit patterns as whole numbers. -/
instance : StoresFloat ℚ := ⟨fun bits => bits.toNat, fun f => UInt32.ofNat f.num.toNat⟩

/-- The columns of `CREATE TABLE t (a BOOLEAN)`. -/
def flags : Schema := Schema.new [Column.new "a" .boolean 0]

/-- The predicate of `WHERE a`. -/
def isSet : Option (Expression ℚ) := some (.columnValue 0 0 .boolean)

end Flags

end OneBase
