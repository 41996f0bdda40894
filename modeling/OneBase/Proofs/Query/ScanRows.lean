import OneBase.Proofs.Query.BoundExpressions
import OneBase.Proofs.Query.Modify
import OneBase.Proofs.Query.Restart

/-! # A scan of a heap is a scan of its rows

Queries are over lists of rows, and modifications over the pages of a heap. A sequential scan of a heap hands out
what the scan of the rows does that its tuples stand for, and throws where that throws. -/

namespace OneBase

open ExceptRuns TableHeap

variable {F : Type} [StoresFloat F]

/-- The row of a tuple that holds its values. -/
def Tuple.toRow (tuple : Tuple) : Row F := tuple.values.map Value.ofStored

/-- A stored tuple can be read, and this is the row that it stands for. -/
def StandsFor (schema : Schema) (row : Rid × List UInt8) (values : Row F) : Prop :=
  ∃ tuple, (stored row).populated schema = .ok tuple ∧ tuple.toRow = values

variable [Field F] [LinearOrder F] {schema : Schema} {predicate : Option (Expression F)} {row : Rid × List UInt8}
  {values : Row F}

omit [Field F] [LinearOrder F] in
/-- The columns of a stored tuple are those of its row. -/
theorem StandsFor.column (stands : StandsFor schema row values) {colIdx : ℕ}
    (inside : colIdx < schema.getColumnCount) :
    ((stored row).column schema colIdx).map Value.ofStored = values.getValue colIdx := by
  obtain ⟨tuple, made, rfl⟩ := stands
  obtain ⟨-, read⟩ := Tuple.populated_spec made
  have count := read.length_eq
  rw [List.length_range] at count
  have bound : colIdx < tuple.values.length := count ▸ inside
  have here := read.get (by rwa [List.length_range]) bound
  simp only [List.get_eq_getElem, List.getElem_range] at here
  rw [here, Row.getValue, Tuple.toRow, List.getElem?_map, List.getElem?_eq_getElem bound]
  rfl

/-- The predicate reads columns of the table. -/
def ReadsColumns (schema : Schema) (predicate : Option (Expression F)) : Prop :=
  ∀ e ∈ predicate, e.Columns fun _ colIdx => colIdx < schema.getColumnCount

/-- The predicate says the same of a stored tuple and of its row. -/
theorem StandsFor.holds_eq (stands : StandsFor schema row values) (reads : ReadsColumns schema predicate) :
    Expression.holdsOn predicate schema (stored row) = Expression.holds predicate values := by
  cases predicate with
  | none => rfl
  | some e =>
    have same : e.evaluateOn schema (stored row) = e.evaluate values :=
      Expression.evaluateWith_congr ((reads e rfl).mono fun _ _ inside => stands.column inside)
    rw [Expression.holdsOn, Expression.holds, Option.elim_some, Option.elim_some, same]

/-- What a scan of the stored tuples hands out, and what ends it, are those of the scan of their rows. -/
theorem handOuts_eq_scan {rows : Rows} {table : List (Row F)} (stands : List.Forall₂ (StandsFor schema) rows table)
    (reads : ReadsColumns schema predicate) :
    thrown (handOuts schema predicate rows).1 = (SeqScanExecutor.scan predicate table).error ∧
      (handOuts schema predicate rows).2.map Tuple.toRow = (SeqScanExecutor.scan predicate table).rows := by
  induction stands with
  | nil => exact ⟨rfl, rfl⟩
  | @cons row values rest others here _ ih =>
    have verdict := here.holds_eq reads
    rw [SeqScanExecutor.scan, handOuts]
    cases holds : Expression.holds predicate values with
    | error message =>
      rw [handOut_throws (verdict.trans holds)]
      exact ⟨rfl, rfl⟩
    | ok selected =>
      cases selected with
      | false =>
        rw [handOut_rejected (verdict.trans holds)]
        exact ih
      | true =>
        obtain ⟨tuple, made, rfl⟩ := here
        rw [handOut_selected (verdict.trans holds), made]
        exact ⟨ih.1, congrArg (tuple.toRow :: ·) ih.2⟩

omit [StoresFloat F] [Field F] [LinearOrder F] in
/-- Executing a scan collects what `Next` hands out, or ends with what it throws. -/
theorem TableExecutor.execute_run {σ : Type} {executor : TableExecutor σ} {s t : σ} {tuples : List Tuple}
    {failure : Option String} {rounds : ℕ} (started : executor.init rounds s = some (.ok (), t))
    (yields : Yields (executor.next rounds) tuples failure t) (few : tuples.length < rounds) :
    ∃ s', executor.execute rounds s = some (failure.elim (.ok tuples) .error, s') := by
  have collected : Ends (executor.execute rounds) s
      (throughAll (fun rows tuple => .ok (rows ++ [tuple])) tuples failure []) fun rows rows' _ => rows' = rows := by
    apply Ends.skip started
    rw [← Part.whole_on (executor.next rounds)]
    refine Ends.whileNext ?_ ?_ yields rfl few
    · rintro rows rows' s t same
      exact same
    · rintro rows _ s tuple rfl
      exact ⟨_, s, rfl, rfl, rfl⟩
  rw [throughAll_push, List.nil_append] at collected
  cases failure with
  | none =>
    obtain ⟨rows, s', ran, rfl⟩ := collected
    exact ⟨s', ran⟩
  | some message => exact collected

namespace TableScan

variable {s : TableScan} {chain : List PageId} {rounds : ℕ}

/-- Executing a sequential scan of a well-formed heap with frames for every page. -/
theorem execute_collected (schema : Schema) (predicate : Option (Expression F)) (formed : WellFormed s.heap chain)
    (granted : ∀ call, s.heap.grants call = true)
    (enough : chain.length + 1020 + (contents s.heap.data chain).length < rounds) :
    ∃ s', (executor schema predicate).execute rounds s =
      some (collected schema predicate (contents s.heap.data chain), s') := by
  have everyPage : Enough rounds chain := by
    simp only [Enough]
    omega
  obtain ⟨iter, calls, started, ahead⟩ := init_begins formed granted everyPage
  rw [collected, ← elim_thrown]
  refine TableExecutor.execute_run started (yields_handOuts (fun rows t => WellFormed t.heap chain ∧
    (∀ call, t.heap.grants call = true) ∧ Ahead t.heap.data chain t.iter rows ∧
    chain.length + 1020 + rows.length < rounds) ?_ _ ⟨formed.withCalls calls, granted, ahead, enough⟩) ?_
  · rintro rows t ⟨formed, granted, ahead, enough⟩
    obtain ⟨iter, calls, visited, ran, later⟩ := next_run schema predicate formed granted ahead enough
    exact ⟨_, ran, formed.withCalls calls, granted, later,
      (Nat.add_le_add_left (scanRows_suffix schema predicate rows).length_le _).trans_lt enough⟩
  · have fewer := length_handOuts_le schema predicate (contents s.heap.data chain)
    omega

/-- Executing a sequential scan of a well-formed heap, with frames for every page, whose tuples can be read, ends as
executing the scan of the rows of the table does: with the same rows, or with what was thrown. -/
theorem execute_rows (context : ExecutorContext F) (tableOid : TableOid) (formed : WellFormed s.heap chain)
    (granted : ∀ call, s.heap.grants call = true)
    (stands : List.Forall₂ (StandsFor schema) (contents s.heap.data chain) (context.table tableOid))
    (reads : ReadsColumns schema predicate)
    (enough : chain.length + 1020 + (contents s.heap.data chain).length < rounds) :
    ∃ result s', (executor schema predicate).execute rounds s = some (result, s') ∧
      Gives (SeqScanExecutor.executor context tableOid predicate) (result.map (List.map Tuple.toRow)) := by
  obtain ⟨s', ran⟩ := execute_collected schema predicate formed granted enough
  obtain ⟨failed, same⟩ := handOuts_eq_scan stands reads
  rw [collected, ← elim_thrown] at ran
  refine ⟨_, s', ran, ?_⟩
  have given := (SeqScanExecutor.delivers context tableOid predicate).gives
  change Gives _ (SeqScanExecutor.scan predicate (context.table tableOid)).drain at given
  rw [Stream.drain, ← failed, ← same] at given
  cases ended : thrown (handOuts schema predicate (contents s.heap.data chain)).1 with
  | none =>
    rw [ended] at given
    exact given
  | some message =>
    rw [ended] at given
    exact given

/-- The rows of the heap with gaps. -/
def gapsContext : ExecutorContext ℚ where
  table _ := [[.boolean true], [.boolean false], [.boolean true], [.boolean false]]
  getTuple _ _ := .error "no such row"
  getIndex _ := none

/-- `SELECT * FROM t WHERE a` on the heap with gaps. -/
theorem execute_rows_gaps :
    ∃ result s', (executor flags isSet).execute 1030 { heap := gaps [1] [0] } = some (result, s') ∧
    Gives (SeqScanExecutor.executor gapsContext 0 isSet) (result.map (List.map Tuple.toRow)) := by
  have rows := @gaps_contents [1] [0] (by decide) (by decide)
  refine execute_rows (s := { heap := gaps [1] [0] }) gapsContext 0 (gaps_wellFormed (by decide) (by decide))
    (fun _ => rfl) ?_ ?_
    (show 3 + 1020 + _ < 1030 by simp [rows])
  · rw [rows]
    exact .cons ⟨_, rfl, rfl⟩ (.cons ⟨_, rfl, rfl⟩ (.cons ⟨_, rfl, rfl⟩ (.cons ⟨_, rfl, rfl⟩ .nil)))
  · rintro e ⟨⟩
    exact Nat.zero_lt_one

end TableScan

end OneBase
