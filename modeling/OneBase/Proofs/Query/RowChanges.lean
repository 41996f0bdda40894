import OneBase.Proofs.Query.Modify

/-! # Statements that change rows one by one

A statement that changes the rows of a sequential scan of the same heap goes through the rows in their order: each
row that the predicate holds of is changed once. Where an expression throws, the statement ends: the rows before are
changed, and the others are not. -/

namespace OneBase

open ExceptRuns TableHeap TablePage

/-- What a statement does to the rows ahead, and the number of rows that it changes. `change` gives nothing for a
row that is passed over, else what is stored in the place of the row. -/
def changeRows (change : Rid × List UInt8 → Except String (Option (Option (List UInt8)))) :
    Rows → Except String ℕ × Rows
  | [] => (.ok 0, [])
  | row :: rest =>
    match change row with
    | .error message => (.error message, row :: rest)
    | .ok none => ((changeRows change rest).1, row :: (changeRows change rest).2)
    | .ok (some bytes) => ((changeRows change rest).1.map (· + 1),
      (bytes.map (Prod.mk row.1)).toList ++ (changeRows change rest).2)

section ChangeRows

variable {change : Rid × List UInt8 → Except String (Option (Option (List UInt8)))} {skipped rest : Rows}

/-- Rows that are passed over. -/
theorem changeRows_skip (skips : ∀ row ∈ skipped, change row = .ok none) :
    changeRows change (skipped ++ rest) = ((changeRows change rest).1, skipped ++ (changeRows change rest).2) := by
  induction skipped with
  | nil => rfl
  | cons row skipped ih =>
    obtain ⟨first, others⟩ := List.forall_mem_cons.mp skips
    rw [List.cons_append, changeRows, first, ih others]
    rfl

/-- Where nothing throws, the rows are changed one by one. -/
theorem changeRows_ok {rows : Rows} (total : ∀ row ∈ rows, ∃ changed, change row = .ok changed) :
    changeRows change rows = (.ok (rows.countP fun row => change row ≠ .ok none),
      rows.flatMap fun row => match change row with
        | .ok (some bytes) => (bytes.map (Prod.mk row.1)).toList
        | _ => [row]) := by
  induction rows with
  | nil => rfl
  | cons row rest ih =>
    obtain ⟨⟨changed, first⟩, others⟩ := List.forall_mem_cons.mp total
    rw [changeRows, ih others]
    cases changed with
    | none => simp [first]
    | some bytes =>
      rw [List.countP_cons_of_pos (by simp [first]), List.flatMap_cons, first]
      rfl

/-- A row throws and ends the statement, or none does. -/
theorem changeRows_cases (change : Rid × List UInt8 → Except String (Option (Option (List UInt8)))) (rows : Rows) :
    (∃ earlier row later message, rows = earlier ++ row :: later ∧ change row = .error message ∧
        (∀ before ∈ earlier, ∃ changed, change before = .ok changed) ∧
        changeRows change rows = (.error message, (changeRows change earlier).2 ++ row :: later)) ∨
      (∀ row ∈ rows, ∃ changed, change row = .ok changed) ∧
      ∃ number, (changeRows change rows).1 = .ok number := by
  induction rows with
  | nil => exact .inr ⟨fun row mem => absurd mem List.not_mem_nil, 0, rfl⟩
  | cons row rest ih =>
    cases first : change row with
    | error message =>
      refine .inl ⟨[], row, rest, message, rfl, first, fun row mem => absurd mem List.not_mem_nil, ?_⟩
      simp only [changeRows, first, List.nil_append]
    | ok changed =>
      rcases ih with ⟨earlier, failing, later, message, rfl, failed, before, done⟩ | ⟨all, number, done⟩
      · refine .inl ⟨row :: earlier, failing, later, message, rfl, failed,
          List.forall_mem_cons.mpr ⟨⟨changed, first⟩, before⟩, ?_⟩
        rw [changeRows, changeRows, first, done]
        cases changed with
        | none => rfl
        | some bytes => simp [Except.map]
      · refine .inr ⟨List.forall_mem_cons.mpr ⟨⟨changed, first⟩, all⟩, ?_⟩
        rw [changeRows, first]
        cases changed with
        | none => exact ⟨number, done⟩
        | some bytes =>
          refine ⟨number + 1, ?_⟩
          rw [done]
          rfl

end ChangeRows

variable {F : Type} [StoresFloat F] [Field F] [LinearOrder F]

/-- A statement's change of a row: the predicate is asked first, then the columns of the row are read. -/
def changeOf (schema : Schema) (predicate : Option (Expression F))
    (compute : Tuple → Except String (Option (List UInt8)))
    (row : Rid × List UInt8) : Except String (Option (Option (List UInt8))) := do
  if ← Expression.holdsOn predicate schema (stored row) then
    return some (← compute (← (stored row).populated schema))
  else return none

/-- The body of the loop does to the row that it is given what `compute` says. `room` is what it needs of the pages for
the rows that are still to come. -/
structure Changes (schema : Schema) (predicate : Option (Expression F))
    (compute : Tuple → Except String (Option (List UInt8))) (room : (PageId → TablePage) → Rows → Prop)
    (modifyRow : Int32 → Tuple → Code String (OneChild TableScan Bool) Int32) : Prop where
  throws {tuple : Tuple} {message : String} (failed : compute tuple = .error message) (count : Int32)
    (s : OneChild TableScan Bool) : modifyRow count tuple s = some (.error message, s)
  passes {data : PageId → TablePage} {row : Rid × List UInt8} {rest : Rows} : room data (row :: rest) →
    room data rest
  changes {s : OneChild TableScan Bool} {chain : List PageId} {row : Rid × List UInt8} {rest : Rows} {tuple : Tuple}
    {bytes : Option (List UInt8)} (granted : ∀ call, s.child.heap.grants call = true)
    (formed : WellFormed s.child.heap chain) (mem : row.1.pageId ∈ chain)
    (held : (s.child.heap.data row.1.pageId).live row.1.slotNum = some row.2)
      (enough : room s.child.heap.data (row :: rest))
    (made : (stored row).populated schema = .ok tuple) (computed : compute tuple = .ok bytes)
    (chosen : changeOf schema predicate compute row = .ok (some bytes)) (count : Int32) :
    ∃ calls data, modifyRow count tuple s =
        some (.ok (count + 1), { s with child := { s.child with heap := { s.child.heap with calls, data } } }) ∧
      Rewrites s.child.heap.data data row.1 bytes ∧ room data rest

section Loop

variable {schema : Schema} {predicate : Option (Expression F)} {compute : Tuple → Except String (Option (List UInt8))}
  {room : (PageId → TablePage) → Rows → Prop}
  {modifyRow : Int32 → Tuple → Code String (OneChild TableScan Bool) Int32}
  {rows : Rows} {s : OneChild TableScan Bool} {chain : List PageId} {rounds : ℕ}

/-- `Next` passes over the rows that the predicate rejects, up to a row it fails on or holds of. -/
theorem TableScan.scanRows_split (schema : Schema) (predicate : Option (Expression F)) (rows : Rows) :
    (TableScan.scanRows schema predicate rows = (.ok none, []) ∧
        ∀ row ∈ rows, Expression.holdsOn predicate schema (stored row) = .ok false) ∨
      ∃ skipped row rest, rows = skipped ++ row :: rest ∧
        (∀ row ∈ skipped, Expression.holdsOn predicate schema (stored row) = .ok false) ∧
        ((∃ message, Expression.holdsOn predicate schema (stored row) = .error message ∧
            TableScan.scanRows schema predicate rows = (.error message, rest)) ∨
          Expression.holdsOn predicate schema (stored row) = .ok true ∧
            TableScan.scanRows schema predicate rows = (((stored row).populated schema).map some, rest)) := by
  induction rows with
  | nil => exact .inl ⟨rfl, fun row mem => absurd mem List.not_mem_nil⟩
  | cons row rest ih =>
    cases verdict : Expression.holdsOn predicate schema (stored row) with
    | error message =>
      refine .inr ⟨[], row, rest, rfl, fun row mem => absurd mem List.not_mem_nil, .inl ⟨message, verdict, ?_⟩⟩
      rw [TableScan.scanRows, verdict]
    | ok selected =>
      cases selected with
      | true =>
        refine .inr ⟨[], row, rest, rfl, fun row mem => absurd mem List.not_mem_nil, .inr ⟨verdict, ?_⟩⟩
        rw [TableScan.scanRows, verdict]
      | false =>
        have skips : TableScan.scanRows schema predicate (row :: rest) = TableScan.scanRows schema predicate rest := by
          rw [TableScan.scanRows, verdict]
        rw [skips]
        rcases ih with ⟨ended, none⟩ | ⟨skipped, found, later, rfl, before, outcome⟩
        · exact .inl ⟨ended, List.forall_mem_cons.mpr ⟨verdict, none⟩⟩
        · exact .inr ⟨row :: skipped, found, later, rfl, List.forall_mem_cons.mpr ⟨verdict, before⟩, outcome⟩

/-- What one `Next` does with the rows ahead: it rejects them all, or hands out the first one it does not reject, or
throws on that one. -/
theorem TableScan.next_cases (schema : Schema) (predicate : Option (Expression F)) {s : TableScan}
    (formed : WellFormed s.heap chain) (granted : ∀ call, s.heap.grants call = true)
    (ahead : Ahead s.heap.data chain s.iter rows) (enough : chain.length + 1020 + rows.length < rounds) :
    ∃ iter calls visited, let s' : TableScan := { heap := { s.heap with calls }, iter, visited }
      (TableScan.next schema predicate rounds s = some (.ok none, s') ∧
        ∀ row ∈ rows, Expression.holdsOn predicate schema (stored row) = .ok false) ∨
      ∃ skipped row rest, rows = skipped ++ row :: rest ∧
        (∀ row ∈ skipped, Expression.holdsOn predicate schema (stored row) = .ok false) ∧
        Ahead s.heap.data chain iter rest ∧ Rest s.heap.data chain (row :: rest) ∧
        ((∃ message, handOut schema predicate row = .error message ∧
            TableScan.next schema predicate rounds s = some (.error message, s')) ∨
          ∃ tuple, handOut schema predicate row = .ok (some tuple) ∧
            TableScan.next schema predicate rounds s = some (.ok (some tuple), s')) := by
  obtain ⟨iter, calls, visited, ran, later⟩ := TableScan.next_run schema predicate formed granted ahead enough
  refine ⟨iter, calls, visited, ?_⟩
  rcases TableScan.scanRows_split schema predicate rows with
    ⟨ended, rejected⟩ | ⟨skipped, row, rest, rfl, before, outcome⟩
  · rw [ended] at ran
    exact .inl ⟨ran, rejected⟩
  have behind := ahead.2.drop
  rcases outcome with ⟨message, failed, ended⟩ | ⟨selected, ended⟩
  · rw [ended] at ran later
    exact .inr ⟨skipped, row, rest, rfl, before, later, behind, .inl ⟨message, handOut_throws failed, ran⟩⟩
  · rw [ended] at ran later
    refine .inr ⟨skipped, row, rest, rfl, before, later, behind, ?_⟩
    rw [handOut_selected selected]
    cases made : (stored row).populated schema with
    | error message =>
      rw [made] at ran
      exact .inl ⟨message, rfl, ran⟩
    | ok tuple =>
      rw [made] at ran
      exact .inr ⟨tuple, rfl, ran⟩

/-- A row that is handed out is one that the predicate holds of and that can be read. -/
theorem handOut_eq_some_iff {row : Rid × List UInt8} {tuple : Tuple} :
    handOut schema predicate row = .ok (some tuple) ↔
      Expression.holdsOn predicate schema (stored row) = .ok true ∧ (stored row).populated schema = .ok tuple := by
  cases verdict : Expression.holdsOn predicate schema (stored row) with
  | error message => simp [handOut_throws verdict]
  | ok selected =>
    cases selected with
    | false => simp [handOut_rejected verdict]
    | true =>
      rw [handOut_selected verdict]
      cases (stored row).populated schema <;> simp [Except.map]

theorem changeOf_rejected {row : Rid × List UInt8}
    (rejected : Expression.holdsOn predicate schema (stored row) = .ok false) :
    changeOf schema predicate compute row = .ok none := by
  rw [changeOf, rejected]
  rfl

theorem changeOf_selected {row : Rid × List UInt8}
    (selected : Expression.holdsOn predicate schema (stored row) = .ok true) :
    changeOf schema predicate compute row =
      ((stored row).populated schema >>= fun tuple => compute tuple >>= fun bytes => pure (some bytes)) := by
  rw [changeOf, selected]
  rfl

theorem changeOf_throws {row : Rid × List UInt8} {message : String}
    (failed : Expression.holdsOn predicate schema (stored row) = .error message) :
    changeOf schema predicate compute row = .error message := by
  rw [changeOf, failed]
  rfl

/-- What throws in the scan throws in the statement. -/
theorem changeOf_fails {row : Rid × List UInt8} {message : String}
    (failed : handOut schema predicate row = .error message) :
    changeOf schema predicate compute row = .error message := by
  cases verdict : Expression.holdsOn predicate schema (stored row) with
  | error message' =>
    rw [handOut_throws verdict] at failed
    rw [changeOf_throws verdict, Except.error.inj failed]
  | ok selected =>
    cases selected with
    | false =>
      rw [handOut_rejected verdict] at failed
      cases failed
    | true =>
      rw [handOut_selected verdict] at failed
      rw [changeOf_selected verdict]
      cases made : (stored row).populated schema with
      | error message' =>
        rw [made] at failed
        exact congrArg Except.error (Except.error.inj failed)
      | ok tuple =>
        rw [made] at failed
        cases failed

theorem Changes.passes_append (does : Changes schema predicate compute room modifyRow) {data : PageId → TablePage}
    {skipped rest : Rows} (enough : room data (skipped ++ rest)) : room data rest := by
  induction skipped with
  | nil => exact enough
  | cons row skipped ih => exact ih (does.passes enough)

/-- The loop over the rows ahead. -/
theorem Changes.loop_run (does : Changes schema predicate compute room modifyRow) {rows earlier : Rows} {fuel : ℕ}
    (formed : WellFormed s.child.heap chain) (granted : ∀ call, s.child.heap.grants call = true)
    (ahead : Ahead s.child.heap.data chain s.child.iter rows) (enoughRoom : room s.child.heap.data rows)
    (split : contents s.child.heap.data chain = earlier ++ rows) (everyRow : rows.length < fuel)
    (enough : chain.length + 1020 + rows.length < rounds) (count : Int32) :
    ∃ s', whileNext (onChild.on (TableScan.next schema predicate rounds)) modifyRow fuel count s =
        some ((changeRows (changeOf schema predicate compute) rows).1.map fun changed =>
          count + Int32.ofNat changed, s') ∧
      s'.fields = s.fields ∧ WellFormed s'.child.heap chain ∧
      contents s'.child.heap.data chain = earlier ++ (changeRows (changeOf schema predicate compute) rows).2 := by
  induction fuel generalizing s rows earlier count with
  | zero => omega
  | succ fuel ih =>
    obtain ⟨iter, calls, visited, came⟩ := TableScan.next_cases schema predicate formed granted ahead enough
    rcases came with ⟨ran, rejected⟩ | ⟨skipped, row, rest, rfl, before, later, here, outcome⟩
    · have passed : changeRows (changeOf schema predicate compute) rows = (.ok 0, rows) := by
        have skips : changeRows (changeOf schema predicate compute) (rows ++ []) = _ :=
          changeRows_skip fun row mem => changeOf_rejected (rejected row mem)
        rwa [List.append_nil, changeRows, List.append_nil] at skips
      refine ⟨onChild.write s { heap := { s.child.heap with calls }, iter, visited },
        (Code.bind_ok (Part.on_run ran) _).trans ?_, rfl, formed.withCalls calls, ?_⟩
      · rw [passed]
        exact congrArg (fun total => some (Except.ok total, _)) (Int32.add_zero count).symm
      · rw [passed]
        exact split
    have passed : changeRows (changeOf schema predicate compute) (skipped ++ row :: rest) =
        ((changeRows (changeOf schema predicate compute) (row :: rest)).1,
          skipped ++ (changeRows (changeOf schema predicate compute) (row :: rest)).2) :=
      changeRows_skip fun row mem => changeOf_rejected (before row mem)
    have stops {message : String} (failed : changeOf schema predicate compute row = .error message)
        (stopped : whileNext (onChild.on (TableScan.next schema predicate rounds)) modifyRow (fuel + 1) count s = some
          (.error message, onChild.write s { heap := { s.child.heap with calls }, iter, visited })) :
        ∃ s', whileNext (onChild.on (TableScan.next schema predicate rounds)) modifyRow (fuel + 1) count s =
            some ((changeRows (changeOf schema predicate compute) (skipped ++ row :: rest)).1.map
              fun changed => count + Int32.ofNat changed, s') ∧
          s'.fields = s.fields ∧ WellFormed s'.child.heap chain ∧ contents s'.child.heap.data chain =
            earlier ++ (changeRows (changeOf schema predicate compute) (skipped ++ row :: rest)).2 := by
      refine ⟨onChild.write s { heap := { s.child.heap with calls }, iter, visited }, ?_, rfl,
        formed.withCalls calls, ?_⟩
      · rw [passed, changeRows, failed, stopped]
        rfl
      · rw [passed, changeRows, failed]
        exact split
    rcases outcome with ⟨message, failed, ran⟩ | ⟨tuple, handed, ran⟩
    · exact stops (changeOf_fails failed) (Code.bind_error (Part.on_run ran) _)
    obtain ⟨selected, made⟩ := handOut_eq_some_iff.mp handed
    have pulled : onChild.on (TableScan.next schema predicate rounds) s = some
        (.ok (some tuple), onChild.write s { heap := { s.child.heap with calls }, iter, visited }) := Part.on_run ran
    have asked : changeOf schema predicate compute row = (compute tuple >>= fun bytes => pure (some bytes)) := by
      rw [changeOf_selected selected, made]
      rfl
    cases computed : compute tuple with
    | error message =>
      refine stops ?_ ((Code.bind_ok pulled _).trans (Code.bind_error (does.throws computed count _) _))
      rw [asked, computed]
      rfl
    | ok bytes =>
      obtain ⟨before', after, onChain, held, -⟩ := here.cons
      have mem : row.1.pageId ∈ chain := by simp [onChain]
      have chosen : changeOf schema predicate compute row = .ok (some bytes) := by
        rw [asked, computed]
        rfl
      obtain ⟨calls', data, done, rewrites, roomLeft⟩ := does.changes
        (s := onChild.write s { heap := { s.child.heap with calls }, iter, visited }) granted
          (formed.withCalls calls) mem held
        (does.passes_append enoughRoom) made computed chosen count
      have replaced := contents_rewrite_split rewrites formed.nodup (split.trans (List.append_assoc _ _ _).symm)
      rw [List.length_append, List.length_cons] at everyRow enough
      obtain ⟨s', run, fields, formed', left⟩ := ih
        (s := { s with child := { heap := { s.child.heap with calls := calls', data }, iter, visited } })
        (formed.rewrite rewrites calls') granted ⟨later.1, here.rewrite formed.nodup rewrites⟩ roomLeft
          replaced (by omega)
        (by omega) (count + 1)
      have changed : changeRows (changeOf schema predicate compute) (row :: rest) =
          ((changeRows (changeOf schema predicate compute) rest).1.map (· + 1),
            (bytes.map (Prod.mk row.1)).toList ++ (changeRows (changeOf schema predicate compute) rest).2) := by
        rw [changeRows, chosen]
      refine ⟨s', (Code.bind_ok pulled _).trans ((Code.bind_ok done _).trans (run.trans ?_)), fields, formed', ?_⟩
      · rw [passed, changed]
        cases (changeRows (changeOf schema predicate compute) rest).1 with
        | error message => rfl
        | ok number =>
          exact congrArg (fun total => some (Except.ok total, s')) (count_next count number)
      · rw [left, passed, changed]
        simp only [List.append_assoc]

/-- What the first `Next` returns when that many rows were changed, or when this was thrown. -/
def Reports (result : Except String (Option Tuple)) : Except String ℕ → Prop
  | .error message => result = .error message
  | .ok changed => ∃ tuple, result = .ok (some tuple) ∧ tuple.values = [.integer (Int32.ofNat changed)]

/-- The statement: `Init` and the first `Next`. The rows are changed in their order, and the number of rows that were
changed is returned, unless an expression throws: then the statement ends with what was thrown, and only the rows before
are changed. Either way the flag is set. -/
theorem Changes.statement_run (does : Changes schema predicate compute room modifyRow)
    (formed : WellFormed s.child.heap chain) (granted : ∀ call, s.child.heap.grants call = true)
    (enoughRoom : room s.child.heap.data (contents s.child.heap.data chain))
    (enough : chain.length + 1020 + (contents s.child.heap.data chain).length < rounds) :
    ∃ result s', (initModify (TableScan.executor schema predicate) rounds >>= fun _ =>
        nextModify (TableScan.executor schema predicate) modifyRow rounds) s = some (result, s') ∧
      WellFormed s'.child.heap chain ∧
      contents s'.child.heap.data chain =
        (changeRows (changeOf schema predicate compute) (contents s.child.heap.data chain)).2 ∧
      Reports result (changeRows (changeOf schema predicate compute) (contents s.child.heap.data chain)).1 ∧
      s'.fields = true := by
  have everyPage : Enough rounds chain := by
    simp only [Enough]
    omega
  have everyRow : (contents s.child.heap.data chain).length < rounds := by omega
  obtain ⟨calls, iter, started, ahead⟩ := TableScan.initModify_run schema predicate formed granted everyPage
  obtain ⟨s', loop, flag, formed', left⟩ := does.loop_run
    (s := ⟨{ s.child with heap := { s.child.heap with calls }, iter }, true⟩) (formed.withCalls calls) granted ahead
    enoughRoom (List.nil_append _).symm everyRow enough 0
  cases outcome : (changeRows (changeOf schema predicate compute) (contents s.child.heap.data chain)).1 with
  | error message =>
    refine ⟨.error message, s', (Code.bind_ok started _).trans ?_, formed', left, rfl, flag⟩
    rw [outcome] at loop
    refine (Code.bind_ok rfl _).trans ?_
    dsimp only
    rw [if_neg Bool.false_ne_true]
    exact (Code.bind_ok rfl _).trans (Code.bind_error loop _)
  | ok changed =>
    rw [outcome] at loop
    obtain ⟨tuple, ran, counted⟩ : ∃ tuple, nextModify (TableScan.executor schema predicate) modifyRow rounds
        ⟨{ s.child with heap := { s.child.heap with calls }, iter }, false⟩ = some (.ok (some tuple), s') ∧
          tuple.values = [.integer _] := nextModify_run rfl loop
    dsimp only at counted
    rw [Int32.zero_add] at counted
    exact ⟨.ok (some tuple), s', (Code.bind_ok started _).trans ran, formed', left, ⟨tuple, rfl, counted⟩, flag⟩

end Loop

end OneBase
