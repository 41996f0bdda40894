import OneBase.Proofs.Query.RowChanges

/-! # DELETE

`DeleteExecutor` over a sequential scan of the same heap. The iterator is past a row before the row is deleted, so every
row that the predicate holds of is deleted once, and no other row.
-/

namespace OneBase

open ExceptLoops ExceptRuns TableHeap TablePage

namespace DeleteExecutor

variable {F : Type} [StoresFloat F] [Field F] [LinearOrder F] {schema : Schema} {predicate : Option (Expression F)}
  {indexes : List IndexInfo} {s : OneChild TableScan Bool} {chain : List PageId} {rounds : ℕ}

/-- The heap once the row at a RID is deleted. -/
def without (heap : TableHeap) (rid : Rid) : TableHeap := { heap with
  calls := heap.calls + 1
  data := Function.update heap.data rid.pageId ((heap.data rid.pageId).deleteTuple rid.slotNum) }

/-- Deleting the row that the scan has handed out. -/
theorem deleteRow_run (granted : ∀ call, s.child.heap.grants call = true) {row : Rid × List UInt8} {tuple : Tuple}
    (short : row.2.length ≤ pageSize) (made : (stored row).populated schema = .ok tuple)
    (attrs : ∀ info ∈ indexes, ∀ attr ∈ info.keyAttrs, attr < schema.getColumnCount) (count : Int32) :
    deleteRow (TableScan.target schema indexes) count tuple s = some (.ok (count + 1),
      { s with child := { s.child with heap := without s.child.heap row.1 } }) := by
  have rid : tuple.rid = row.1 := (Tuple.populated_spec made).1
  have deleted := deleteTuple_run row.1 s.child.heap
  rw [granted, if_pos rfl] at deleted
  have onHeap : heapCode (deleteTuple tuple.rid) s.child.heap = some (.ok (), without s.child.heap row.1) := by
    rw [heapCode, rid, deleted]
    rfl
  refine (Code.bind_ok (Part.on_run (Part.on_run onHeap)) _).trans ?_
  have keys (info : IndexInfo) (mem : info ∈ indexes) : info.keyTuple schema tuple = .ok () :=
    Tuple.keyTuple_ok rfl short made (attrs info mem)
  exact (Code.bind_ok (keyTuples_run keys _) _).trans rfl

/-- `DELETE` leaves nothing in the place of a row. -/
def leaves (_tuple : Tuple) : Except String (Option (List UInt8)) := .ok none

theorem deleteRow_changes (predicate : Option (Expression F))
    (attrs : ∀ info ∈ indexes, ∀ attr ∈ info.keyAttrs, attr < schema.getColumnCount) :
    Changes schema predicate leaves (fun _ _ => True) (deleteRow (TableScan.target schema indexes)) where
  throws failed := by cases failed
  passes := id
  changes {s chain row rest tuple bytes} granted formed mem held _ made computed _ count := by
    obtain rfl := Except.ok.inj computed
    have laid := formed.laid _ mem
    exact ⟨_, _, deleteRow_run granted (live_short laid held) made attrs count, rewrites_delete laid held, trivial⟩

/-- `DELETE` with a sequential scan below it. -/
def plan (schema : Schema) (indexes : List IndexInfo) (predicate : Option (Expression F)) :
    TableExecutor (OneChild TableScan Bool) :=
  executor (TableScan.target schema indexes) (TableScan.executor schema predicate)

/-- After `Init` and `Next` the rows that the predicate holds of are gone and the others are as before, the count is
that of the rows removed, and another `Next` returns false and changes nothing. -/
def Deletes (schema : Schema) (indexes : List IndexInfo) (predicate : Option (Expression F))
    (s : OneChild TableScan Bool) (chain : List PageId) (rounds : ℕ) : Prop :=
  ∃ tuple s', ((plan schema indexes predicate).init rounds >>= fun _ =>
    (plan schema indexes predicate).next rounds) s =
      some (.ok (some tuple), s') ∧
    WellFormed s'.child.heap chain ∧
    contents s'.child.heap.data chain = (contents s.child.heap.data chain).filter
      (fun row => !TableScan.selects schema predicate row) ∧
    tuple.values = [.integer (Int32.ofNat
      ((contents s.child.heap.data chain).length - (contents s'.child.heap.data chain).length))] ∧
    (plan schema indexes predicate).next rounds s' = some (.ok none, s')

/-- The columns that the scan reads of a row have their bytes inside it. -/
def Readable (schema : Schema) (row : Rid × List UInt8) : Prop :=
  ∀ column ∈ schema.columns.take schema.getColumnCount, column.LiesIn row.2

/-- A selected row is deleted if it can be read. -/
theorem exists_changeOf_iff {row : Rid × List UInt8} (short : row.2.length ≤ pageSize)
    (selected : Expression.holdsOn predicate schema (stored row) = .ok true) :
    (∃ changed, changeOf schema predicate leaves row = .ok changed) ↔ Readable schema row := by
  have readable : _ ↔ Readable schema row := @Tuple.exists_populated_iff schema (stored row) rfl short
  rw [← readable, changeOf_selected selected]
  simp only [bind_eq_ok_iff, pure_eq_ok_iff, leaves]
  constructor
  · rintro ⟨changed, tuple, made, -⟩
    exact ⟨tuple, made⟩
  · rintro ⟨tuple, made⟩
    exact ⟨some none, tuple, made, none, rfl, rfl⟩

/-- What happens to a row on which nothing throws. -/
theorem changeOf_leaves {row : Rid × List UInt8}
    (total : ∃ verdict, Expression.holdsOn predicate schema (stored row) = .ok verdict)
    (ran : ∃ changed, changeOf schema predicate leaves row = .ok changed) :
    changeOf schema predicate leaves row =
      .ok (if TableScan.selects schema predicate row then some none else none) := by
  obtain ⟨verdict, holds⟩ := total
  rw [TableScan.selects, holds]
  cases verdict with
  | false => exact changeOf_rejected holds
  | true =>
    obtain ⟨changed, ran⟩ := ran
    rw [changeOf_selected holds] at ran ⊢
    obtain ⟨tuple, made, -⟩ := bind_eq_ok_iff.mp ran
    rw [made]
    rfl

/-- Where nothing throws, the selected rows go. -/
theorem changeRows_leaves {rows : Rows} (each : ∀ row ∈ rows, changeOf schema predicate leaves row =
      .ok (if TableScan.selects schema predicate row then some none else none)) :
    changeRows (changeOf schema predicate leaves) rows = (.ok (rows.countP (TableScan.selects schema predicate)),
      rows.filter fun row => !TableScan.selects schema predicate row) := by
  induction rows with
  | nil => rfl
  | cons row rest ih =>
    obtain ⟨first, others⟩ := List.forall_mem_cons.mp each
    rw [changeRows, first, ih others]
    cases selected : TableScan.selects schema predicate row with
    | false => simp [selected]
    | true => simp [selected, Except.map]

/-- On a well-formed heap with frames for every page, a `DELETE` whose predicate raises no error deletes the rows
that it holds of, and no others, if and only if the scan can read those rows. -/
theorem plan_deletes_iff (formed : WellFormed s.child.heap chain) (granted : ∀ call, s.child.heap.grants call = true)
    (total : ∀ row ∈ contents s.child.heap.data chain, ∃ verdict,
      Expression.holdsOn predicate schema (stored row) = .ok verdict)
    (attrs : ∀ info ∈ indexes, ∀ attr ∈ info.keyAttrs, attr < schema.getColumnCount)
    (enough : chain.length + 1020 + (contents s.child.heap.data chain).length < rounds) :
    Deletes schema indexes predicate s chain rounds ↔ ∀ row ∈ contents s.child.heap.data chain,
      TableScan.selects schema predicate row = true → Readable schema row := by
  obtain ⟨result, s', ran, formed', left, outcome, flag⟩ :=
    (deleteRow_changes predicate attrs).statement_run formed granted trivial enough
  have short (row : Rid × List UInt8) (mem : row ∈ contents s.child.heap.data chain) :
      row.2.length ≤ pageSize := by
    obtain ⟨inside, held⟩ := mem_contents_iff.mp mem
    exact live_short (formed.laid _ inside) held
  constructor
  · rintro ⟨tuple, s'', ran', -⟩ row mem selected
    rcases changeRows_cases (changeOf schema predicate leaves) (contents s.child.heap.data chain) with
      ⟨earlier, failing, later, message, -, -, -, stopped⟩ | ⟨all, -⟩
    · rw [stopped] at outcome
      obtain rfl : result = .error message := outcome
      rw [plan, executor, ran] at ran'
      cases ran'
    · exact (exists_changeOf_iff (short row mem) (of_decide_eq_true selected)).mp (all row mem)
  · intro readable
    have all (row : Rid × List UInt8) (mem : row ∈ contents s.child.heap.data chain) :
        ∃ changed, changeOf schema predicate leaves row = .ok changed := by
      obtain ⟨verdict, holds⟩ := total row mem
      cases verdict with
      | false => exact ⟨none, changeOf_rejected holds⟩
      | true => exact (exists_changeOf_iff (short row mem) holds).mpr (readable row mem (decide_eq_true holds))
    rw [changeRows_leaves fun row mem => changeOf_leaves (total row mem) (all row mem)] at left outcome
    obtain ⟨tuple, rfl, counted⟩ := outcome
    refine ⟨tuple, s', ran, formed', left, ?_, nextModify_done flag⟩
    have parts := List.length_eq_countP_add_countP (TableScan.selects schema predicate)
      (l := contents s.child.heap.data chain)
    have removed : (contents s.child.heap.data chain).countP (TableScan.selects schema predicate) =
        (contents s.child.heap.data chain).length - (contents s'.child.heap.data chain).length := by
      rw [left, ← List.countP_eq_length_filter]
      simp only [Bool.not_eq_true, Bool.decide_eq_false] at parts
      omega
    rw [counted, removed]

/-- `DELETE FROM t WHERE a` on the heap with gaps. -/
theorem plan_deletes_iff_gaps :
    Deletes flags [⟨flags, "i", "t", 0, [0], false, ∅⟩] isSet ⟨{ heap := gaps [1] [0] }, false⟩
    [0, 1, 2] 1030 ↔
      ∀ row ∈ contents (gaps [1] [0]).data [0, 1, 2],
        TableScan.selects flags isSet row = true → Readable flags row := by
  have rows := @gaps_contents [1] [0] (by decide) (by decide)
  refine plan_deletes_iff (s := ⟨{ heap := gaps [1] [0] }, false⟩) (gaps_wellFormed (by decide) (by decide))
    (fun _ => rfl)
    ?_ (by decide) (by simp [rows])
  rw [rows]
  simp only [List.forall_mem_cons]
  exact ⟨⟨true, rfl⟩, ⟨false, rfl⟩, ⟨true, rfl⟩, ⟨false, rfl⟩, fun row mem =>
    absurd mem List.not_mem_nil⟩

/-- The columns of `CREATE TABLE t (f FLOAT, s VARCHAR)`. -/
def floatAndText : Schema := Schema.new [Column.new "f" .float 0, Column.new "s" .varchar 0]

/-- `(1.0, 'abc')` as `INSERT` stores it. -/
def oneAbc : List UInt8 := [0, 0, 128, 63, 3, 0, 0, 0, 97, 98, 99]

/-- Without a predicate, rows of a FLOAT and a text: the text is looked for four bytes too far, past the end of the
row. -/
theorem delete_misreads_row : WellFormed (gaps oneAbc oneAbc) [0, 1, 2] ∧
    (∀ row ∈ contents (gaps oneAbc oneAbc).data [0, 1, 2],
      Expression.holdsOn (none : Option (Expression ℚ)) floatAndText (stored row) = .ok true) ∧
    ¬ Deletes floatAndText []
    (none : Option (Expression ℚ)) ⟨{ heap := gaps oneAbc oneAbc }, false⟩ [0, 1, 2] 1030 := by
  have rows := @gaps_contents oneAbc oneAbc (by decide) (by decide)
  have formed := @gaps_wellFormed oneAbc oneAbc (by decide) (by decide)
  refine ⟨formed, fun _ _ => rfl, ?_⟩
  rintro ⟨tuple, s', ran', -⟩
  obtain ⟨result, s'', ran, -, -, outcome, -⟩ := (@deleteRow_changes ℚ _ _ _ floatAndText [] none
    (by simp)).statement_run (s := ⟨{ heap := gaps oneAbc oneAbc }, false⟩) formed (fun _ => rfl) trivial
      (show 3 + 1020 + _ < 1030 by simp [rows])
  rw [rows] at outcome
  obtain rfl : result = .error "undefined: read outside the tuple" := outcome
  rw [plan, executor, ran] at ran'
  cases ran'

end DeleteExecutor

end OneBase
