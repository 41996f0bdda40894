import OneBase.Model.TableExecutors
import OneBase.Proofs.Storage.HeapScan

/-! # Sequential scans of a table heap

`Next` passes the rows ahead up to the first one that the predicate does not reject. A change to a row that the scan has
passed leaves the rows ahead as they are.
-/

namespace OneBase

open ExceptRuns TableHeap TablePage

variable {F : Type} [StoresFloat F] [Field F] [LinearOrder F]

/-- The tuple that a scan hands out for a row, if any. -/
def handOut (schema : Schema) (predicate : Option (Expression F)) (row : Rid × List UInt8) :
    Except String (Option Tuple) := do
  if ← Expression.holdsOn predicate schema (stored row) then
    return some (← (stored row).populated schema)
  else return none

/-- The tuples that a scan hands out up to a row that an expression throws on. -/
def handOuts (schema : Schema) (predicate : Option (Expression F)) : Rows → Except String Unit × List Tuple
  | [] => (.ok (), [])
  | row :: rest =>
    match handOut schema predicate row with
    | .error message => (.error message, [])
    | .ok none => handOuts schema predicate rest
    | .ok (some tuple) => ((handOuts schema predicate rest).1, tuple :: (handOuts schema predicate rest).2)

/-- What ended the scan, if anything did. -/
def thrown : Except String Unit → Option String
  | .error message => some message
  | .ok () => none

/-- What executing the scan of these rows gives. -/
def collected (schema : Schema) (predicate : Option (Expression F)) (rows : Rows) : Except String (List Tuple) :=
  (handOuts schema predicate rows).1.map fun _ => (handOuts schema predicate rows).2

section HandOuts

variable {schema : Schema} {predicate : Option (Expression F)} {row : Rid × List UInt8} {skipped rest : Rows}

theorem handOut_rejected (rejected : Expression.holdsOn predicate schema (stored row) = .ok false) :
    handOut schema predicate row = .ok none := by
  rw [handOut, rejected]
  rfl

theorem handOut_throws {message : String} (failed : Expression.holdsOn predicate schema (stored row) = .error message) :
    handOut schema predicate row = .error message := by
  rw [handOut, failed]
  rfl

theorem handOut_selected (selected : Expression.holdsOn predicate schema (stored row) = .ok true) :
    handOut schema predicate row = ((stored row).populated schema).map some := by
  rw [handOut, selected]
  rfl

theorem handOuts_skip (skips : ∀ row ∈ skipped, Expression.holdsOn predicate schema (stored row) = .ok false) :
    handOuts schema predicate (skipped ++ rest) = handOuts schema predicate rest := by
  induction skipped with
  | nil => rfl
  | cons row skipped ih =>
    obtain ⟨first, others⟩ := List.forall_mem_cons.mp skips
    rw [List.cons_append, handOuts, handOut_rejected first]
    exact ih others

theorem length_handOuts_le (schema : Schema) (predicate : Option (Expression F)) (rows : Rows) :
    (handOuts schema predicate rows).2.length ≤ rows.length := by
  induction rows with
  | nil => exact le_rfl
  | cons row rest ih =>
    rw [handOuts]
    rcases handOut schema predicate row with message | none | tuple
    · exact Nat.zero_le _
    · exact ih.trans (Nat.le_succ _)
    · exact Nat.succ_le_succ ih

theorem elim_thrown (outcome : Except String Unit) (tuples : List Tuple) :
    (thrown outcome).elim (.ok tuples) .error = outcome.map fun _ => tuples := by
  cases outcome <;> rfl

end HandOuts

namespace TableScan

/-- What `Next` gives with these rows ahead, and the rows that are ahead then. -/
def scanRows (schema : Schema) (predicate : Option (Expression F)) : Rows → Except String (Option Tuple) × Rows
  | [] => (.ok none, [])
  | row :: rest =>
    match Expression.holdsOn predicate schema (stored row) with
    | .error message => (.error message, rest)
    | .ok true => (((stored row).populated schema).map some, rest)
    | .ok false => scanRows schema predicate rest

/-- Rows are passed from the front. -/
theorem scanRows_suffix (schema : Schema) (predicate : Option (Expression F)) (rows : Rows) :
    (scanRows schema predicate rows).2 <:+ rows := by
  induction rows with
  | nil => exact List.suffix_rfl
  | cons row rest ih =>
    rw [scanRows]
    cases Expression.holdsOn predicate schema (stored row) with
    | error message => exact List.suffix_cons row rest
    | ok selected =>
      cases selected with
      | false => exact ih.trans (List.suffix_cons row rest)
      | true => exact List.suffix_cons row rest

section Runs

variable (schema : Schema) (predicate : Option (Expression F)) {s : TableScan} {chain : List PageId} {rounds : ℕ}
  {row : Rid × List UInt8} {rest rows : Rows}

/-- What scans do with a row once they have passed it: they hand it out, or go on to the rows after it. -/
theorem passRow_run {σ : Type} {goOn : Code String σ (Option Tuple)} {s : σ} (Stands : Rows → σ → Prop)
    (here : Stands rest s) (later : ∃ s', goOn s = some ((scanRows schema predicate rest).1, s') ∧
      Stands (scanRows schema predicate rest).2 s') :
    ∃ s', (do
        if ← Code.lift (Expression.holdsOn predicate schema (stored row)) then
          return some (← Code.lift ((stored row).populated schema))
        else goOn : Code String σ (Option Tuple)) s = some ((scanRows schema predicate (row :: rest)).1, s') ∧
      Stands (scanRows schema predicate (row :: rest)).2 s' := by
  rw [scanRows]
  cases verdict : Expression.holdsOn predicate schema (stored row) with
  | error message => exact ⟨s, Code.bind_error rfl _, here⟩
  | ok selected =>
    cases selected with
    | false =>
      obtain ⟨s', ran, stands⟩ := later
      refine ⟨s', (Code.bind_ok rfl _).trans ?_, stands⟩
      rw [if_neg Bool.false_ne_true]
      exact ran
    | true =>
      refine ⟨s, (Code.bind_ok rfl _).trans ?_, here⟩
      rw [if_pos rfl]
      cases read : (stored row).populated schema with
      | error message => exact Code.bind_error rfl _
      | ok tuple => exact Code.bind_ok rfl _

omit [StoresFloat F] [Field F] [LinearOrder F] in
/-- Dereferencing reads the slot that the iterator stands at, whatever is in it. -/
theorem dereference_granted {rid : Rid} (granted : s.heap.grants s.heap.calls = true) :
    dereference rid s = some (.ok { rid, data := (s.heap.data rid.pageId).getTuple rid.slotNum, values := [] },
      { s with
        heap := { s.heap with calls := s.heap.calls + 1 }
        visited := s.visited ++ [({ rid, data := (s.heap.data rid.pageId).getTuple rid.slotNum, values := [] },
          s.heap.data rid.pageId)] }) := by
  have read : onHeap.on (getTuple rid) s = some
      (.ok { rid, data := (s.heap.data rid.pageId).getTuple rid.slotNum, values := [] },
        { s with heap := { s.heap with calls := s.heap.calls + 1 } }) := by
    refine Part.on_run ((getTuple_run rid s.heap).trans ?_)
    rw [granted, if_pos rfl]
  exact Code.bind_ok read _

omit [StoresFloat F] [Field F] [LinearOrder F] in
theorem dereference_refused {rid : Rid} (refused : s.heap.grants s.heap.calls = false) :
    dereference rid s = some (.error "Cannot fetch page for GetTuple",
      { s with heap := { s.heap with calls := s.heap.calls + 1 } }) := by
  refine Code.bind_error (Part.on_run ((getTuple_run rid s.heap).trans ?_)) _
  rw [refused]
  rfl

omit [StoresFloat F] [Field F] [LinearOrder F] in
/-- Dereferencing reads the first row ahead. -/
theorem dereference_run (granted : ∀ call, s.heap.grants call = true)
    (ahead : Ahead s.heap.data chain s.iter (row :: rest)) : dereference s.iter s = some (.ok (stored row), { s with
      heap := { s.heap with calls := s.heap.calls + 1 }
      visited := s.visited ++ [(stored row, s.heap.data s.iter.pageId)] }) := by
  obtain ⟨here, -, -, -, live, -⟩ := ahead.cons
  have same : stored row =
      { rid := s.iter, data := (s.heap.data s.iter.pageId).getTuple s.iter.slotNum, values := [] } := by
    rw [(live_eq_some_iff.mp live).2.2, here]
    rfl
  rw [same]
  exact dereference_granted (granted _)

/-- `Next` at the end. -/
theorem next_atEnd (atEnd : s.iter = endRid) (some' : 0 < rounds) :
    next schema predicate rounds s = some (.ok none, s) := by
  obtain ⟨rounds, rfl⟩ := Nat.exists_eq_succ_of_ne_zero some'.ne'
  refine (Code.bind_ok rfl _).trans ?_
  rw [if_pos atEnd]
  rfl

/-- `Next` once the iterator is past the row that it has read. -/
theorem next_passes {tuple : Tuple} {t t' : TableScan} {iter : Rid} (inside : s.iter ≠ endRid)
    (read : dereference s.iter s = some (.ok tuple, t))
    (moved : onHeap.on (heapCode (increment (rounds + 1) s.iter)) t = some (.ok iter, t')) :
    next schema predicate (rounds + 1) s = (do
      if ← Code.lift (Expression.holdsOn predicate schema tuple) then
        return some (← Code.lift (tuple.populated schema))
      else next schema predicate rounds : Code String TableScan (Option Tuple)) { t' with iter } := by
  refine (Code.bind_ok rfl _).trans ?_
  rw [if_neg inside]
  exact (Code.bind_ok read _).trans ((Code.bind_ok moved _).trans (Code.bind_ok rfl _))

/-- `operator++` passes it. -/
theorem increment_scan (formed : WellFormed s.heap chain) (granted : ∀ call, s.heap.grants call = true)
    (enough : Enough rounds chain) (ahead : Ahead s.heap.data chain s.iter (row :: rest)) : ∃ iter calls,
      onHeap.on (heapCode (increment rounds s.iter)) s = some (.ok iter, { s with heap := { s.heap with calls } }) ∧
        Ahead s.heap.data chain iter rest := by
  obtain ⟨iter, calls, run, later⟩ := increment_run formed granted enough ahead
  refine ⟨iter, calls, Part.on_run ?_, later⟩
  change (increment rounds s.iter s.heap).map _ = _
  rw [run]
  rfl

omit [StoresFloat F] [Field F] [LinearOrder F] in
/-- `Init` puts the iterator before all rows. -/
theorem init_begins (formed : WellFormed s.heap chain) (granted : ∀ call, s.heap.grants call = true)
    (enough : Enough rounds chain) : ∃ iter calls,
      init rounds s = some (.ok (), { s with heap := { s.heap with calls }, iter }) ∧
        Ahead s.heap.data chain iter (contents s.heap.data chain) := by
  obtain ⟨iter, calls, begun, ahead⟩ := begin_run formed granted enough
  have scanned : heapCode (begin rounds) s.heap = some (.ok iter, { s.heap with calls }) := by
    rw [heapCode, begun]
    rfl
  exact ⟨iter, calls, Code.bind_ok (Part.on_run scanned) _, ahead⟩

/-- `Next` does what `scanRows` says; it changes nothing in the heap. -/
theorem next_run (formed : WellFormed s.heap chain) (granted : ∀ call, s.heap.grants call = true)
    (ahead : Ahead s.heap.data chain s.iter rows) (enough : chain.length + 1020 + rows.length < rounds) :
    ∃ iter calls visited, next schema predicate rounds s = some ((scanRows schema predicate rows).1,
        { heap := { s.heap with calls }, iter, visited }) ∧
      Ahead s.heap.data chain iter (scanRows schema predicate rows).2 := by
  induction rows generalizing rounds s with
  | nil =>
    exact ⟨s.iter, s.heap.calls, s.visited, next_atEnd schema predicate ahead.nil (Nat.zero_lt_of_lt enough), ahead⟩
  | cons row rest ih =>
    obtain ⟨rounds, rfl⟩ := Nat.exists_eq_succ_of_ne_zero (Nat.ne_of_gt (Nat.zero_lt_of_lt enough))
    rw [List.length_cons] at enough
    have everyPage : Enough (rounds + 1) chain := by
      simp only [Enough]
      omega
    have inside : s.iter ≠ endRid := by
      obtain ⟨-, before, after, split, -, -⟩ := ahead.cons
      exact formed.ne_endRid (by simp [split])
    have read := dereference_run granted ahead
    obtain ⟨iter, calls, step, later⟩ := increment_scan (s := { s with
      heap := { s.heap with calls := s.heap.calls + 1 }
      visited := s.visited ++ [(stored row, s.heap.data s.iter.pageId)] }) (formed.withCalls _) granted everyPage ahead
    have started := next_passes schema predicate inside read step
    obtain ⟨iter', calls', visited, run, last⟩ :=
      ih (s := { heap := { s.heap with calls }, iter, visited := _ })
        (formed.withCalls calls) granted later (Nat.lt_of_succ_lt_succ enough)
    obtain ⟨_, passed, iter'', calls'', visited', rfl, last'⟩ := passRow_run schema predicate
      (fun rows t => ∃ iter calls visited, t = { heap := { s.heap with calls }, iter, visited } ∧
        Ahead s.heap.data chain iter rows)
      ⟨iter, calls, _, rfl, later⟩ ⟨_, run, iter', calls', visited, rfl, last⟩
    exact ⟨iter'', calls'', visited', started.trans passed, last'⟩

end Runs

/-- The predicate holds of the row. -/
def selects (schema : Schema) (predicate : Option (Expression F)) (row : Rid × List UInt8) : Bool :=
  Expression.holdsOn predicate schema (stored row) = .ok true

end TableScan

/-- What a scan that hands out rows one by one hands out in all: from any state in which these rows are ahead, `Next`
passes the rows up to the first one that the predicate does not reject. -/
theorem yields_handOuts {σ : Type} {next : Code String σ (Option Tuple)} {schema : Schema}
    {predicate : Option (Expression F)} (Stands : Rows → σ → Prop)
    (passes : ∀ rows s, Stands rows s → ∃ s', next s = some ((TableScan.scanRows schema predicate rows).1, s') ∧
      Stands (TableScan.scanRows schema predicate rows).2 s') (rows : Rows) {s : σ} (stands : Stands rows s) :
    Yields next (handOuts schema predicate rows).2 (thrown (handOuts schema predicate rows).1) s := by
  have scans := passes rows s stands
  clear stands
  induction rows generalizing s with
  | nil =>
    obtain ⟨s', ran, -⟩ := scans
    exact ⟨s', ran⟩
  | cons row rest ih =>
    rw [TableScan.scanRows] at scans
    rw [handOuts]
    cases verdict : Expression.holdsOn predicate schema (stored row) with
    | error message =>
      rw [verdict] at scans
      obtain ⟨s', ran, -⟩ := scans
      rw [handOut_throws verdict]
      exact ⟨s', ran⟩
    | ok selected =>
      rw [verdict] at scans
      cases selected with
      | false =>
        rw [handOut_rejected verdict]
        exact ih scans
      | true =>
        rw [handOut_selected verdict]
        obtain ⟨s', ran, later⟩ := scans
        cases made : (stored row).populated schema with
        | error message =>
          rw [made] at ran
          exact ⟨s', ran⟩
        | ok tuple =>
          rw [made] at ran
          exact ⟨s', ran, ih (passes rest s' later)⟩

end OneBase
