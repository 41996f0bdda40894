import OneBase.Proofs.Query.Delete
import OneBase.Proofs.Query.Optimize
import OneBase.Proofs.Query.ScanRows

/-! # Lookups in an index of a heap

`IndexScanExecutor` fetches the rows that the index lists for a key, `SeqScanExecutor` walks over all pages and reads
the key of every row. The two hand out the same tuples where the walk can read what it reads.
-/

namespace OneBase

open ExceptRuns TableHeap TablePage

/-- The key that `CreateIndex` reads from a stored tuple. -/
def storedKey (schema : Schema) (attr : ℕ) (row : Rid × List UInt8) : Except String Int32 := do
  (← (stored row).column schema attr).getAsInteger

variable {F : Type} [StoresFloat F] [Field F] [LinearOrder F] {schema : Schema} {attr : ℕ} {value : Value F}
  {predicate : Expression F} {key : Int32}

/-- A column of INTEGERs has an INTEGER for every row that it can be read from. -/
theorem column_integer (integer : (schema.columns[attr]?).map Column.typeId = some .integer)
    (row : Rid × List UInt8) :
    (∃ message, (stored row).column schema attr = .error message) ∨
      ∃ i, (stored row).column schema attr = .ok (.integer i) := by
  obtain ⟨column, found, type⟩ := Option.map_eq_some_iff.mp integer
  cases read : (stored row).column schema attr with
  | error message => exact .inl ⟨message, rfl⟩
  | ok cell =>
    refine .inr ?_
    rw [Tuple.column, Tuple.getValue, if_neg (by simp [stored]), found] at read
    dsimp only [bind, Option.bind] at read
    rw [type] at read
    cases made : Value.deserializeFrom (stored row).data column.offset .integer with
    | none =>
      rw [made] at read
      cases read
    | some value =>
      rw [made] at read
      cases read
      obtain ⟨bytes, -, made⟩ := Option.bind_eq_some_iff.mp made
      exact ⟨_, congrArg Except.ok (Option.some.inj made).symm⟩

/-- The predicate of a lookup compares the key of a row. -/
theorem LooksUp.holdsOn (looksUp : LooksUp attr value predicate) (constant : value.getAsInteger = .ok key)
    (integer : (schema.columns[attr]?).map Column.typeId = some .integer) (row : Rid × List UInt8) :
    Expression.holdsOn (some predicate) schema (stored row) =
      (storedKey schema attr row).map fun i => decide (i = key) := by
  rcases column_integer integer row with ⟨message, read⟩ | ⟨i, read⟩
  · refine (looksUp.evaluateWith constant (fun _ => congrArg (Except.map Value.ofStored) read) ?_).trans ?_
    · rintro v ⟨⟩
    · rw [storedKey, read]
      rfl
  · refine (looksUp.evaluateWith constant (fun _ => congrArg (Except.map Value.ofStored) read) ?_).trans ?_
    · rintro v ⟨⟩
      rfl
    · rw [storedKey, read]
      rfl

namespace IndexScan

variable {s : IndexScan} {rounds : ℕ}

/-- The rows are stored in the heap, and their RIDs are what the scan has not gone through yet. -/
structure Stands (rounds : ℕ) (rows : Rows) (s : IndexScan) : Prop where
  granted : ∀ call, s.heap.grants call = true
  held : ∀ row ∈ rows, (s.heap.data row.1.pageId).live row.1.slotNum = some row.2
  listed : s.rids.drop s.cursor = rows.map Prod.fst
  enough : rows.length < rounds

theorem next_run (schema : Schema) (predicate : Option (Expression F)) (rows : Rows) (s : IndexScan)
    (stands : Stands rounds rows s) :
    ∃ s', next schema predicate rounds s = some ((TableScan.scanRows schema predicate rows).1, s') ∧
      Stands rounds (TableScan.scanRows schema predicate rows).2 s' := by
  suffices ∀ rounds', rows.length < rounds' → ∃ s',
      next schema predicate rounds' s = some ((TableScan.scanRows schema predicate rows).1, s') ∧
        Stands rounds (TableScan.scanRows schema predicate rows).2 s' from this rounds stands.enough
  induction rows generalizing s with
  | nil =>
    rintro (_ | rounds') enough
    · cases enough
    have passed : s.rids[s.cursor]? = none := by
      rw [← List.head?_drop, stands.listed]
      rfl
    refine ⟨s, ?_, stands⟩
    refine (Code.bind_ok rfl _).trans ?_
    rw [passed]
    rfl
  | cons row rest ih =>
    rintro (_ | rounds') enough
    · cases enough
    obtain ⟨here, later⟩ := List.forall_mem_cons.mp stands.held
    have current : s.rids[s.cursor]? = some row.1 := by
      rw [← List.head?_drop, stands.listed]
      rfl
    have onwards : s.rids.drop (s.cursor + 1) = rest.map Prod.fst := by
      rw [← List.drop_drop, stands.listed]
      rfl
    have fetched : onHeap.on (getTuple row.1) { s with cursor := s.cursor + 1 } = some (.ok (stored row),
        { s with heap := { s.heap with calls := s.heap.calls + 1 }, cursor := s.cursor + 1 }) := by
      refine Part.on_run (getTuple_run row.1 s.heap |>.trans ?_)
      rw [stands.granted, if_pos rfl, (live_eq_some_iff.mp here).2.2]
      rfl
    have next' : Stands rounds rest
        { s with heap := { s.heap with calls := s.heap.calls + 1 }, cursor := s.cursor + 1 } :=
      ⟨stands.granted, later, onwards, (Nat.lt_succ_self _).trans stands.enough⟩
    have started : next schema predicate (rounds' + 1) s = (do
        if ← Code.lift (Expression.holdsOn predicate schema (stored row)) then
          return some (← Code.lift ((stored row).populated schema))
        else next schema predicate rounds' : Code String IndexScan (Option Tuple))
          { s with heap := { s.heap with calls := s.heap.calls + 1 }, cursor := s.cursor + 1 } := by
      refine (Code.bind_ok rfl _).trans ?_
      dsimp only
      rw [current]
      exact (Code.bind_ok rfl _).trans (Code.bind_ok fetched _)
    rw [started]
    exact TableScan.passRow_run schema predicate (Stands rounds) next'
      (ih _ next' rounds' (Nat.lt_of_succ_lt_succ enough))

/-- Executing a lookup in an index whose RIDs for the key are those of these rows. -/
theorem execute_collected (schema : Schema) {info : IndexInfo} (supports : info.supportsPointLookup = true)
    (constant : value.getAsInteger = .ok key) {rows : Rows} (listed : info.lookupInteger key = rows.map Prod.fst)
    (granted : ∀ call, s.heap.grants call = true)
    (held : ∀ row ∈ rows, (s.heap.data row.1.pageId).live row.1.slotNum = some row.2)
    (enough : rows.length < rounds)
    (predicate : Option (Expression F)) :
    ∃ s', (executor schema (some info) (some (.constantValue value)) predicate).execute rounds s =
      some (collected schema predicate rows, s') := by
  have started : init (some info) (some (.constantValue value)) rounds s =
      some (.ok (), { s with rids := info.lookupInteger key, cursor := 0 }) := by
    refine (Code.bind_ok rfl _).trans ?_
    dsimp only
    rw [supports]
    exact (Code.bind_ok (congrArg (fun out => some (out, _)) constant) _).trans rfl
  rw [collected, ← elim_thrown]
  exact TableExecutor.execute_run started
    (yields_handOuts (Stands rounds) (next_run schema predicate) rows ⟨granted, held, listed, enough⟩)
    ((length_handOuts_le schema predicate rows).trans_lt enough)

end IndexScan

namespace Optimizer

/-- The scan that the optimizer returns hands out the same tuples, under the same RIDs, in any order: it is the same
scan, or both come to an end. -/
def SameRows (catalog : Catalog) (heaps : TableOid → TableHeap) (rounds : ℕ) (plan plan' : PlanNode F) : Prop :=
  plan' = plan ∨ ∃ tuples tuples', plan.executeScan catalog heaps rounds = some (.ok tuples) ∧
    plan'.executeScan catalog heaps rounds = some (.ok tuples') ∧ tuples'.Perm tuples

section Heap

variable {optimizer : Optimizer} {catalog : Catalog} {heaps : TableOid → TableHeap} {tableOid : TableOid}
  {tableInfo : TableInfo} {infos : List IndexInfo} {chain : List PageId} {rounds : ℕ}

end Heap

section Instances

end Instances

end Optimizer

end OneBase
