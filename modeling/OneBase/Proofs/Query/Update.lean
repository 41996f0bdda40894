import OneBase.Proofs.Query.Delete

/-! # UPDATE, and statements that throw

`UpdateExecutor` over a sequential scan of the same heap replaces each row that the predicate holds of once, in its
slot, if the pages have room for the new tuples beside the old ones. Where an expression throws in the middle of an
`UPDATE` or a `DELETE`, the rows before it stay changed. -/

namespace OneBase

open ExceptLoops ExceptRuns TableHeap TablePage

variable {F : Type} [StoresFloat F] [Field F] [LinearOrder F] {schema : Schema} {predicate : Option (Expression F)}
  {indexes : List IndexInfo} {sets : List (Expression F)} {s : OneChild TableScan Bool}
  {chain : List PageId} {rounds : ℕ}

namespace UpdateExecutor

/-- What `UPDATE` leaves in the place of a row. -/
def leaves (schema : Schema) (sets : List (Expression F)) (tuple : Tuple) : Except String (Option (List UInt8)) :=
  (newTuple schema sets tuple).map fun new => some (new.data.take new.getLength)

/-- How many bytes the new tuple of a row takes. -/
def need (schema : Schema) (predicate : Option (Expression F)) (sets : List (Expression F))
    (row : Rid × List UInt8) : ℕ :=
  match changeOf schema predicate (leaves schema sets) row with
  | .ok (some (some bytes)) => bytes.length
  | _ => 0

/-- New tuples have bytes, and each page has room for those of its rows beside the rows. -/
structure Room (schema : Schema) (predicate : Option (Expression F)) (sets : List (Expression F))
    (data : PageId → TablePage) (rows : Rows) : Prop where
  notEmpty : ∀ row ∈ rows, changeOf schema predicate (leaves schema sets) row ≠ .ok (some (some []))
  enough : ∀ p, ((rows.filter fun row => row.1.pageId = p).map (need schema predicate sets)).sum ≤
    (data p).getFreeSpaceRemaining

theorem Room.tail {data : PageId → TablePage} {row : Rid × List UInt8} {rest : Rows}
    (room : Room schema predicate sets data (row :: rest)) : Room schema predicate sets data rest := by
  refine ⟨fun other mem => room.notEmpty other (List.mem_cons_of_mem _ mem), fun p => le_trans ?_ (room.enough p)⟩
  rw [List.filter_cons]
  split
  · rw [List.map_cons, List.sum_cons]
    exact Nat.le_add_left _ _
  · exact le_rfl

/-- Replacing the row that the scan has handed out. -/
theorem updateRow_changes (schema : Schema) (indexes : List IndexInfo) (predicate : Option (Expression F))
    (sets : List (Expression F)) : Changes schema predicate (leaves schema sets) (Room schema predicate sets)
      (updateRow (fun rid new => (TableScan.target schema indexes).heap.on (heapCode (updateTuple rid new))) schema
        sets) where
  throws {tuple message} failed count s := by
    rw [leaves] at failed
    cases made : newTuple schema sets tuple with
    | error message' =>
      rw [made] at failed
      obtain rfl := Except.error.inj failed
      refine Code.bind_error ?_ _
      change some (newTuple schema sets tuple, s) = _
      rw [made]
    | ok new =>
      rw [made] at failed
      cases failed
  passes := Room.tail
  changes {s chain row rest tuple bytes} granted formed mem held room made computed chosen count := by
    rw [leaves] at computed
    cases built : newTuple schema sets tuple with
    | error message =>
      rw [built] at computed
      cases computed
    | ok new =>
      rw [built] at computed
      obtain rfl := Except.ok.inj computed
      dsimp only at chosen
      have needed : need schema predicate sets row = (new.data.take new.getLength).length := by rw [need, chosen]
      have notEmpty : new.data.take new.getLength ≠ [] := fun empty =>
        room.notEmpty row (List.mem_cons_self ..) (by rw [chosen, empty])
      have enough := room.enough row.1.pageId
      rw [List.filter_cons_of_pos (by simp), List.map_cons, List.sum_cons, needed] at enough
      obtain ⟨page, replaced, laid, live, number, link, free⟩ := (formed.laid _ mem).update held notEmpty
        ((Nat.le_add_right _ _).trans enough)
      have rid : tuple.rid = row.1 := (Tuple.populated_spec made).1
      have run := updateTupleBy_run updateBytes row.1 new s.child.heap
      rw [replaced, granted, if_pos rfl] at run
      have onHeap : heapCode (updateTuple tuple.rid new) s.child.heap =
          some (.ok true, { s.child.heap with
          calls := s.child.heap.calls + 1
          data := Function.update s.child.heap.data row.1.pageId page }) := by
        rw [heapCode, rid, TableHeap.updateTuple, run]
        rfl
      have evaluated : (Code.lift (newTuple schema sets tuple) : Code String (OneChild TableScan Bool) Tuple) s =
          some (.ok new, s) := by
        rw [built]
        rfl
      refine ⟨s.child.heap.calls + 1, Function.update s.child.heap.data row.1.pageId page, ?_, ?_, ?_⟩
      · exact (Code.bind_ok evaluated _).trans ((Code.bind_ok (Part.on_run (Part.on_run onHeap)) _).trans rfl)
      · refine ⟨fun p other => Function.update_of_ne other _ _, ?_, ?_, ?_, ?_⟩
        · rwa [Function.update_self]
        · rwa [Function.update_self]
        · rwa [Function.update_self]
        · rwa [Function.update_self]
      · refine ⟨room.tail.notEmpty, fun p => ?_⟩
        rcases eq_or_ne p row.1.pageId with rfl | other
        · rw [Function.update_self, free]
          exact Nat.le_sub_of_add_le' enough
        · rw [Function.update_of_ne other]
          exact room.tail.enough p

/-- `UPDATE` with a sequential scan below it. -/
def plan (schema : Schema) (indexes : List IndexInfo) (predicate : Option (Expression F)) (sets : List (Expression F)) :
    TableExecutor (OneChild TableScan Bool) :=
  executor (TableScan.target schema indexes) sets (TableScan.executor schema predicate)

/-- The row as `UPDATE` leaves it. -/
def updated (schema : Schema) (predicate : Option (Expression F)) (sets : List (Expression F))
    (row : Rid × List UInt8) :
    Rid × List UInt8 :=
  match changeOf schema predicate (leaves schema sets) row with
  | .ok (some (some bytes)) => (row.1, bytes)
  | _ => row

/-- A row that nothing throws on is passed over or replaced. -/
theorem changeOf_cases {row : Rid × List UInt8} {changed : Option (Option (List UInt8))}
    (ran : changeOf schema predicate (leaves schema sets) row = .ok changed) :
    (TableScan.selects schema predicate row = false ∧ changed = none) ∨
      (TableScan.selects schema predicate row = true ∧ ∃ bytes, changed = some (some bytes)) := by
  cases verdict : Expression.holdsOn predicate schema (stored row) with
  | error message =>
    rw [changeOf_throws verdict] at ran
    cases ran
  | ok selected =>
    cases selected with
    | false =>
      rw [changeOf_rejected verdict] at ran
      exact .inl ⟨by simp [TableScan.selects, verdict], (Except.ok.inj ran).symm⟩
    | true =>
      refine .inr ⟨by simp [TableScan.selects, verdict], ?_⟩
      rw [changeOf_selected verdict] at ran
      obtain ⟨tuple, -, ran⟩ := bind_eq_ok_iff.mp ran
      obtain ⟨bytes, computed, ran⟩ := bind_eq_ok_iff.mp ran
      obtain rfl := pure_eq_ok_iff.mp ran
      rw [leaves] at computed
      cases built : newTuple schema sets tuple with
      | error message =>
        rw [built] at computed
        cases computed
      | ok new =>
        rw [built] at computed
        exact ⟨_, congrArg some (Except.ok.inj computed).symm⟩

/-- On a well-formed heap whose pages have room for the new tuples, with frames for every page and where no
expression throws: every row that the predicate holds of is replaced by the tuple of the SET expressions on the row
as it was, under its RID and in its place, the other rows are as before, and the number of rows replaced is
returned. -/
theorem plan_updates (formed : WellFormed s.child.heap chain) (granted : ∀ call, s.child.heap.grants call = true)
    (room : Room schema predicate sets s.child.heap.data (contents s.child.heap.data chain))
    (total : ∀ row ∈ contents s.child.heap.data chain, ∃ changed,
      changeOf schema predicate (leaves schema sets) row = .ok changed)
    (enough : chain.length + 1020 + (contents s.child.heap.data chain).length < rounds) :
    ∃ tuple s', ((plan schema indexes predicate sets).init rounds >>= fun _ =>
        (plan schema indexes predicate sets).next rounds) s = some (.ok (some tuple), s') ∧
      WellFormed s'.child.heap chain ∧
      contents s'.child.heap.data chain =
        (contents s.child.heap.data chain).map (updated schema predicate sets) ∧
      tuple.values = [.integer (Int32.ofNat ((contents s.child.heap.data chain).countP
        (TableScan.selects schema predicate)))] := by
  obtain ⟨result, s', ran, formed', left, counted, -⟩ :=
    (updateRow_changes schema indexes predicate sets).statement_run formed granted room enough
  rw [changeRows_ok total] at left counted
  obtain ⟨tuple, rfl, values⟩ := counted
  refine ⟨tuple, s', ran, formed', ?_, ?_⟩
  · rw [left, List.map_eq_flatMap]
    apply List.flatMap_congr
    intro row mem
    obtain ⟨changed, done⟩ := total row mem
    rw [updated, done]
    rcases changeOf_cases done with ⟨-, rfl⟩ | ⟨-, bytes, rfl⟩
    · rfl
    · rfl
  · rw [values]
    refine congrArg (fun number => [Value.integer (Int32.ofNat number)]) (List.countP_congr fun row mem => ?_)
    obtain ⟨changed, done⟩ := total row mem
    rw [done]
    rcases changeOf_cases done with ⟨rejected, rfl⟩ | ⟨selected, bytes, rfl⟩
    · simp [rejected]
    · simp [selected]

/-- `SET a = false`. -/
def unset : List (Expression ℚ) := [.constantValue (.boolean false)]

/-- `UPDATE t SET a = false WHERE a` on the heap with gaps. -/
theorem plan_updates_gaps : ∃ tuple s', ((plan flags [] isSet unset).init 1030 >>= fun _ =>
        (plan flags [] isSet unset).next 1030) ⟨{ heap := gaps [1] [0] }, false⟩ = some (.ok (some tuple), s') ∧
      WellFormed s'.child.heap [0, 1, 2] ∧
      contents s'.child.heap.data [0, 1, 2] =
        (contents (gaps [1] [0]).data [0, 1, 2]).map (updated flags isSet unset) ∧
      tuple.values = [.integer (Int32.ofNat ((contents (gaps [1] [0]).data [0, 1, 2]).countP
        (TableScan.selects flags isSet)))] := by
  have rows := @gaps_contents [1] [0] (by decide) (by decide)
  have set (rid : Rid) : changeOf flags isSet (leaves flags unset) (rid, [1]) = .ok (some (some [0])) := rfl
  have clear (rid : Rid) : changeOf flags isSet (leaves flags unset) (rid, [0]) = .ok none := rfl
  refine plan_updates (s := ⟨{ heap := gaps [1] [0] }, false⟩) (gaps_wellFormed (by decide) (by decide))
    (fun _ => rfl)
    ⟨?_, fun p => le_trans ?_ (gaps_freeSpace (by decide) (by decide) p)⟩ ?_ (by simp [rows])
  · rw [rows]
    simp [set, clear]
  · rw [rows]
    simp only [List.filter_cons]
    split_ifs <;> simp [need, set, clear]
  · rw [rows]
    simp [set, clear]

end UpdateExecutor

/-- The statements that change rows in place. -/
inductive RowStatement (F : Type) where
  | delete
  | update (sets : List (Expression F))

namespace RowStatement

/-- The plan over a sequential scan. -/
def plan (schema : Schema) (indexes : List IndexInfo) (predicate : Option (Expression F)) :
    RowStatement F → TableExecutor (OneChild TableScan Bool)
  | delete => DeleteExecutor.plan schema indexes predicate
  | update sets => UpdateExecutor.plan schema indexes predicate sets

/-- What it leaves in the place of a row. -/
def leaves (schema : Schema) : RowStatement F → Tuple → Except String (Option (List UInt8))
  | delete => DeleteExecutor.leaves
  | update sets => UpdateExecutor.leaves schema sets

/-- The room that it needs. -/
def Room (schema : Schema) (predicate : Option (Expression F)) :
    RowStatement F → (PageId → TablePage) → Rows → Prop
  | delete => fun _ _ => True
  | update sets => UpdateExecutor.Room schema predicate sets

/-- `DELETE` and `UPDATE` on a well-formed heap with frames for every page go through the rows in their order. If an
expression throws on a row, the statement ends with what was thrown; the rows before that one are changed, and it
and the rows after it are not. -/
theorem changes_until_throw (statement : RowStatement F) (formed : WellFormed s.child.heap chain)
    (granted : ∀ call, s.child.heap.grants call = true)
    (room : statement.Room schema predicate s.child.heap.data (contents s.child.heap.data chain))
    (attrs : ∀ info ∈ indexes, ∀ attr ∈ info.keyAttrs, attr < schema.getColumnCount)
    (enough : chain.length + 1020 + (contents s.child.heap.data chain).length < rounds) :
    let change := changeOf schema predicate (statement.leaves schema)
    let rows := contents s.child.heap.data chain
    ∃ result s', ((statement.plan schema indexes predicate).init rounds >>= fun _ =>
        (statement.plan schema indexes predicate).next rounds) s = some (result, s') ∧
      WellFormed s'.child.heap chain ∧
      ((∃ earlier row later message, rows = earlier ++ row :: later ∧ change row = .error message ∧
          (∀ before ∈ earlier, ∃ changed, change before = .ok changed) ∧ result = .error message ∧
          contents s'.child.heap.data chain = (changeRows change earlier).2 ++ row :: later) ∨
        ((∀ row ∈ rows, ∃ changed, change row = .ok changed) ∧ (∃ tuple, result = .ok (some tuple)) ∧
          contents s'.child.heap.data chain = (changeRows change rows).2)) := by
  intro change rows
  obtain ⟨result, s', ran, formed', left, outcome⟩ : ∃ result s',
      ((statement.plan schema indexes predicate).init rounds >>= fun _ =>
        (statement.plan schema indexes predicate).next rounds) s = some (result, s') ∧
      WellFormed s'.child.heap chain ∧ contents s'.child.heap.data chain = (changeRows change rows).2 ∧
      Reports result (changeRows change rows).1 := by
    cases statement with
    | delete =>
      obtain ⟨result, s', ran, formed', left, outcome, -⟩ :=
        (DeleteExecutor.deleteRow_changes predicate attrs).statement_run formed granted trivial enough
      exact ⟨result, s', ran, formed', left, outcome⟩
    | update sets =>
      obtain ⟨result, s', ran, formed', left, outcome, -⟩ :=
        (UpdateExecutor.updateRow_changes schema indexes predicate sets).statement_run formed granted room enough
      exact ⟨result, s', ran, formed', left, outcome⟩
  refine ⟨result, s', ran, formed', ?_⟩
  rcases changeRows_cases change rows with ⟨earlier, row, later, message, split, failed, before, done⟩ |
    ⟨all, number, done⟩
  · rw [done] at left outcome
    exact .inl ⟨earlier, row, later, message, split, failed, before, outcome, left⟩
  · rw [done] at outcome
    obtain ⟨tuple, returned, -⟩ := outcome
    exact .inr ⟨all, ⟨tuple, returned⟩, left⟩

/-- `SET a = 1 / 0`. -/
def divides : List (Expression ℚ) := [.arithmetic (.constantValue (.integer 1)) (.constantValue (.integer 0)) .divide]

/-- On the heap with gaps it throws at the first row. -/
theorem changes_until_throw_gaps :
    let change := changeOf flags isSet (leaves flags (.update divides))
    let rows := contents (gaps [0] [1]).data [0, 1, 2]
    ∃ result s', ((plan flags [] isSet (.update divides)).init 1030 >>= fun _ =>
        (plan flags [] isSet (.update divides)).next 1030) ⟨{ heap := gaps [0] [1] }, false⟩ = some (result, s') ∧
      WellFormed s'.child.heap [0, 1, 2] ∧
      ((∃ earlier row later message, rows = earlier ++ row :: later ∧ change row = .error message ∧
          (∀ before ∈ earlier, ∃ changed, change before = .ok changed) ∧ result = .error message ∧
          contents s'.child.heap.data [0, 1, 2] = (changeRows change earlier).2 ++ row :: later) ∨
        ((∀ row ∈ rows, ∃ changed, change row = .ok changed) ∧ (∃ tuple, result = .ok (some tuple)) ∧
          contents s'.child.heap.data [0, 1, 2] = (changeRows change rows).2)) := by
  have rows := @gaps_contents [0] [1] (by decide) (by decide)
  have throws (rid : Rid) : changeOf flags isSet (UpdateExecutor.leaves flags divides) (rid, [1]) =
      .error "Division by zero" := rfl
  have passes (rid : Rid) : changeOf flags isSet (UpdateExecutor.leaves flags divides) (rid, [0]) = .ok none := rfl
  refine changes_until_throw (s := ⟨{ heap := gaps [0] [1] }, false⟩) (.update divides)
    (gaps_wellFormed (by decide) (by decide)) (fun _ => rfl)
    ⟨?_, fun p => le_trans ?_ (gaps_freeSpace (by decide) (by decide) p)⟩ (by simp) (by simp [rows])
  · rw [rows]
    simp [throws, passes]
  · rw [rows]
    simp only [List.filter_cons]
    split_ifs <;> simp [UpdateExecutor.need, throws, passes]

end RowStatement

end OneBase
