import OneBase.Model.ExecutorTree
import OneBase.Proofs.Query.Executors
import OneBase.Proofs.Query.Runtime

/-! # Executors restart cleanly

`Delivers` says what `Init` and the calls of `Next` after it give, from whatever state `Init` is called in. Each
executor delivers a function of what its children deliver, so by induction on the plan the state before `Init` never
shows. The functions are those of the stream model of queries, which the executor trees thereby refine. -/

namespace OneBase

open ExceptRuns

variable {F σ τ : Type}

/-- From every state `Init` ends as the outcome says, and then `Next` gives its rows. -/
def Delivers (executor : AbstractExecutor σ F) (outcome : Executor F) : Prop :=
  ∃ enough, ∀ rounds, enough ≤ rounds → ∀ s,
    Ends (executor.init rounds) s outcome fun stream _ s' => Yields executor.next stream.rows stream.error s'

/-- Collected rows come out one after another. -/
theorem yields_results {part : Part σ (ResultTuples F)} {rows : List (Row F)} {s : σ}
    (ahead : (part.read s).resultTuples.drop (part.read s).cursor = rows) :
    Yields (part.on (stateCode ResultTuples.next)) rows none s := by
  have hands : part.on (stateCode ResultTuples.next) s =
      some (.ok (part.read s).next.1, part.write s (part.read s).next.2) := Part.on_run rfl
  induction rows generalizing s with
  | nil =>
    have nothing : (part.read s).resultTuples[(part.read s).cursor]? = none :=
      List.getElem?_eq_none (List.drop_eq_nil_iff.mp ahead)
    have ended : (part.read s).next.1 = none := by rw [ResultTuples.next, nothing]
    rw [ended] at hands
    exact ⟨_, hands⟩
  | cons row rest ih =>
    have here : (part.read s).resultTuples[(part.read s).cursor]? = some row := by
      rw [← Nat.add_zero (part.read s).cursor, ← List.getElem?_drop, ahead]
      rfl
    have handed : (part.read s).next = (some row, { part.read s with cursor := (part.read s).cursor + 1 }) := by
      rw [ResultTuples.next, here]
    rw [handed] at hands
    refine ⟨_, hands, ih ?_ (Part.on_run rfl)⟩
    rw [part.read_write]
    dsimp only
    rw [← List.tail_drop, ahead]
    rfl

/-- All collected rows, from the first one on. -/
theorem yields_collected {part : Part σ (ResultTuples F)} {rows : List (Row F)} {s : σ}
    (collected : part.read s = ⟨rows, 0⟩) : Yields (part.on (stateCode ResultTuples.next)) rows none s :=
  yields_results (by rw [collected]; rfl)

variable [Field F] [LinearOrder F]

namespace SeqScanExecutor

variable (context : ExecutorContext F) (tableOid : TableOid) (predicate : Option (Expression F))

theorem yields_scan (rows : List (Row F)) :
    Yields (executor context tableOid predicate).next (scan predicate rows).rows (scan predicate rows).error rows := by
  induction rows with
  | nil => exact ⟨[], rfl⟩
  | cons row rest ih =>
    cases test : Expression.holds predicate row with
    | error message =>
      rw [scan, test]
      refine ⟨rest, ?_⟩
      simp only [executor, advance, test]
    | ok answer =>
      cases answer with
      | true =>
        rw [scan, test]
        refine ⟨rest, ?_, ih⟩
        simp only [executor, advance, test]
      | false =>
        rw [scan, test]
        have same : (executor context tableOid predicate).next (row :: rest) =
            (executor context tableOid predicate).next rest := by
          simp only [executor, advance, test]
        exact ih.congr same

theorem delivers : Delivers (executor context tableOid predicate) (.ok (scan predicate (context.table tableOid))) :=
  ⟨0, fun _ _ _ => ⟨(), context.table tableOid, rfl, yields_scan context tableOid predicate _⟩⟩

end SeqScanExecutor

namespace IndexScanExecutor

variable (context : ExecutorContext F) (indexOid : IndexOid) (tableOid : TableOid)
  (lookupKey predicate : Option (Expression F))

/-- What the calls of `Next` give for a list of RIDs. -/
def scan : List Rid → Stream F
  | [] => { rows := [] }
  | rid :: rest =>
    match fetch context tableOid predicate rid with
    | .error message => { rows := [], error := some message }
    | .ok (row, true) => (scan rest).cons row
    | .ok (_, false) => scan rest

/-- What `Init` and the calls of `Next` give. -/
def init : Except String (Stream F) := do
  let rids ← lookup (context.getIndex indexOid) lookupKey
  return scan context tableOid predicate rids

theorem yields_scan {rids : List Rid} {fields : Fields} (ahead : fields.rids.drop fields.cursor = rids) :
    Yields (executor context indexOid tableOid lookupKey predicate).next (scan context tableOid predicate rids).rows
      (scan context tableOid predicate rids).error fields := by
  induction rids generalizing fields with
  | nil =>
    refine ⟨fields, ?_⟩
    simp only [executor, ahead, advance, Nat.add_zero]
  | cons rid rest ih =>
    have later : fields.rids.drop (fields.cursor + 1) = rest := by rw [← List.tail_drop, ahead, List.tail_cons]
    cases test : fetch context tableOid predicate rid with
    | error message =>
      rw [scan, test]
      refine ⟨{ fields with cursor := fields.cursor + 1 }, ?_⟩
      simp only [executor, ahead, advance, test]
    | ok found =>
      obtain ⟨row, answer⟩ := found
      cases answer with
      | true =>
        rw [scan, test]
        refine ⟨{ fields with cursor := fields.cursor + 1 }, ?_, ih later⟩
        simp only [executor, ahead, advance, test]
      | false =>
        rw [scan, test]
        have same : (executor context indexOid tableOid lookupKey predicate).next fields =
            (executor context indexOid tableOid lookupKey predicate).next
              { fields with cursor := fields.cursor + 1 } := by
          simp only [executor, ahead, later, advance, test, Nat.add_assoc, Nat.add_comm 1]
        exact (ih later).congr same

theorem delivers : Delivers (executor context indexOid tableOid lookupKey predicate)
    (init context indexOid tableOid lookupKey predicate) := by
  refine ⟨0, fun _ _ s => ?_⟩
  have cleared : (modify fun _ => {} : Code String Fields PUnit) s = some (.ok ⟨⟩, {}) := rfl
  apply Ends.skip cleared
  have looked : Ends (Code.lift (lookup (context.getIndex indexOid) lookupKey)) ({} : Fields)
      (lookup (context.getIndex indexOid) lookupKey) fun rids rids' s' => rids' = rids ∧ s' = {} :=
    Ends.lift fun _ _ => ⟨rfl, rfl⟩
  apply looked.bind
  rintro rids _ _ - ⟨rfl, rfl⟩
  exact Ends.modify (yields_scan context indexOid tableOid lookupKey predicate rfl)

end IndexScanExecutor

/-! ## Executors over one child -/

/-- How many rows come out. -/
def Executor.size (outcome : Executor F) : ℕ :=
  match outcome with
  | .ok stream => stream.rows.length
  | .error _ => 0

namespace LimitExecutor

variable {child : AbstractExecutor σ F} {limit : ℕ}

omit [Field F] [LinearOrder F] in
theorem next_past {s : OneChild σ ℕ} (past : limit ≤ s.fields) :
    (executor limit child).next s = some (.ok none, s) := by
  apply (Code.bind_ok (a := s) rfl _).trans
  rw [if_pos past]
  rfl

omit [Field F] [LinearOrder F] in
theorem next_below {s : OneChild σ ℕ} (below : ¬ limit ≤ s.fields)
    {found : Except String (Option (Row F))} {t : σ}
    (ran : child.next s.child = some (found, t)) :
    (executor limit child).next s =
      some (found, ⟨t, s.fields + if (found.toOption.join).isSome then 1 else 0⟩) := by
  apply (Code.bind_ok (a := s) rfl _).trans
  rw [if_neg below]
  cases found with
  | error message => exact Code.bind_error (Part.on_run ran) _
  | ok found =>
    apply (Code.bind_ok (Part.on_run ran) _).trans
    cases found <;> rfl

omit [Field F] [LinearOrder F] in
/-- From a count on, `Next` gives what the child gives, up to the limit. -/
theorem yields_take {rows : List (Row F)} {failure : Option String} {s : OneChild σ ℕ}
    (yields : Yields child.next rows failure s.child) :
    Yields (executor limit child).next (rows.take (limit - s.fields))
      (if limit ≤ s.fields + rows.length then none else failure) s := by
  induction rows generalizing s with
  | nil =>
    rw [List.take_nil, List.length_nil, Nat.add_zero]
    by_cases past : limit ≤ s.fields
    · rw [if_pos past]
      exact ⟨s, next_past past⟩
    · rw [if_neg past]
      cases failure with
      | none =>
        obtain ⟨t, ran⟩ := yields
        exact ⟨_, next_below past ran⟩
      | some message =>
        obtain ⟨t, ran⟩ := yields
        exact ⟨_, next_below past ran⟩
  | cons row rest ih =>
    by_cases past : limit ≤ s.fields
    · rw [Nat.sub_eq_zero_of_le past, List.take_zero, if_pos (Nat.le_add_right_of_le past)]
      exact ⟨s, next_past past⟩
    · obtain ⟨t, ran, later⟩ := yields
      have left : limit - s.fields = limit - (s.fields + 1) + 1 := by omega
      rw [left, List.take_succ_cons, List.length_cons, Nat.add_comm rest.length, ← Nat.add_assoc]
      exact ⟨⟨t, s.fields + 1⟩, next_below past ran, ih (s := ⟨t, s.fields + 1⟩) later⟩

omit [Field F] [LinearOrder F] in
theorem delivers {outcome : Executor F} (below : Delivers child outcome) :
    Delivers (executor limit child) (init limit outcome) := by
  obtain ⟨enough, runs⟩ := below
  refine ⟨enough, fun rounds many s => ?_⟩
  apply (runs rounds many _).on.bind
  rintro stream _ s - ⟨t, rfl, yields⟩
  refine ⟨⟨⟩, ⟨t, 0⟩, rfl, ?_⟩
  have limited : Yields (executor limit child).next (stream.rows.take (limit - 0))
      (if limit ≤ 0 + stream.rows.length then none else stream.error) ⟨t, 0⟩ :=
    yields_take (s := OneChild.mk t 0) yields
  rw [Nat.zero_add, Nat.sub_zero] at limited
  by_cases reached : limit ≤ stream.rows.length
  · rw [if_pos reached] at limited ⊢
    exact limited
  · rw [if_neg reached, List.take_of_length_le (by omega)] at limited
    rw [if_neg reached]
    exact limited

end LimitExecutor

namespace ProjectionExecutor

variable {child : AbstractExecutor σ F} {expressions : List (Expression F)}

theorem yields_project {rows : List (Row F)} {failure : Option String} {s : OneChild σ Unit}
    (yields : Yields child.next rows failure s.child) :
    Yields (executor expressions child).next (project expressions failure rows).rows
      (project expressions failure rows).error s := by
  induction rows generalizing s with
  | nil =>
    cases failure with
    | none =>
      obtain ⟨t, ran⟩ := yields
      refine ⟨⟨t, s.fields⟩, ?_⟩
      apply (Code.bind_ok (Part.on_run ran) _).trans
      rfl
    | some message =>
      obtain ⟨t, ran⟩ := yields
      exact ⟨_, Code.bind_error (Part.on_run ran) _⟩
  | cons row rest ih =>
    obtain ⟨t, ran, later⟩ := yields
    have next : (executor expressions child).next s =
        (Code.lift (expressions.mapM fun e => e.evaluate row) >>= fun values => pure (some values) :
          Code String (OneChild σ Unit) (Option (Row F))) ⟨t, s.fields⟩ := by
      apply (Code.bind_ok (Part.on_run ran) _).trans
      rfl
    cases evaluated : expressions.mapM fun e => e.evaluate row with
    | error message =>
      rw [project, evaluated]
      refine ⟨⟨t, s.fields⟩, next.trans ?_⟩
      rw [evaluated]
      exact Code.bind_error rfl _
    | ok values =>
      rw [project, evaluated]
      refine ⟨⟨t, s.fields⟩, next.trans ?_, ih later⟩
      rw [evaluated]
      exact Code.bind_ok rfl _

theorem delivers {outcome : Executor F} (below : Delivers child outcome) :
    Delivers (executor expressions child) (init expressions outcome) := by
  obtain ⟨enough, runs⟩ := below
  refine ⟨enough, fun rounds many s => ?_⟩
  apply (runs rounds many _).on.map
  rintro stream _ s ⟨t, rfl, yields⟩
  exact yields_project yields

end ProjectionExecutor

namespace SortExecutor

variable {child : AbstractExecutor σ F} {orderBys : List (Bool × Expression F)}

theorem delivers (runtime : Runtime F) {outcome : Executor F} (below : Delivers child outcome) :
    Delivers (executor runtime orderBys child) (init runtime orderBys outcome) := by
  obtain ⟨enough, runs⟩ := below
  refine ⟨enough + outcome.size + 1, fun rounds many s => ?_⟩
  apply (runs rounds (by omega) _).on.bind
  rintro stream _ s came ⟨t, rfl, yields⟩
  subst came
  apply Ends.skip (Part.on_run rfl)
  have pulled : Ends (whileNext (onChild.on child.next) (fun _ row =>
        onFields.on (modify fun fields => { fields with resultTuples := fields.resultTuples ++ [row] })) rounds ())
      (OneChild.mk t ({} : ResultTuples F)) stream.drain fun rows _ s' => s'.fields = ⟨rows, 0⟩ := by
    rw [Stream.drain, ← List.nil_append stream.rows, ← throughAll_push]
    refine Ends.whileNext ?_ ?_ yields rfl ?_
    · rintro rows _ s t fields
      exact fields
    · rintro rows _ s row fields
      refine ⟨⟨⟩, _, Part.on_run rfl, rfl, ?_⟩
      change ResultTuples.mk (s.fields.resultTuples ++ [row]) s.fields.cursor = _
      rw [fields]
    · have size : Executor.size (.ok stream) = stream.rows.length := rfl
      omega
  apply pulled.bind
  rintro rows _ s - fields
  apply Ends.skip (b := s) rfl
  rw [fields]
  have sorts : Ends (Code.lift (runtime.sort (less orderBys) rows)) s (runtime.sort (less orderBys) rows)
      fun sorted sorted' s' => sorted' = sorted ∧ s'.fields = ⟨rows, 0⟩ := Ends.lift fun _ _ => ⟨rfl, fields⟩
  apply sorts.bind
  rintro _ sorted s - ⟨rfl, fields⟩
  refine ⟨⟨⟩, _, Part.on_run rfl, ?_⟩
  apply yields_collected
  change ResultTuples.mk sorted s.fields.cursor = _
  rw [fields]

end SortExecutor

/-! ## Executors over two children -/

namespace NestedLoopJoinExecutor

variable {left : AbstractExecutor σ F} {right : AbstractExecutor τ F} {predicate : Option (Expression F)}

/-- One round of the inner loop, as a computation on the rows so far. -/
def joinOne (predicate : Option (Expression F)) (leftRow : Row F) (rows : List (Row F)) (rightRow : Row F) :
    Except String (List (Row F)) := do
  let matched ← Expression.holdsJoin predicate leftRow rightRow
  return if matched then rows ++ [leftRow ++ rightRow] else rows

/-- One round of the outer loop. -/
def joinAll (predicate : Option (Expression F)) (rights : Stream F) (rows : List (Row F)) (leftRow : Row F) :
    Except String (List (Row F)) :=
  throughAll (joinOne predicate leftRow) rights.rows rights.error rows

theorem pushMatch_ends (leftRow rightRow : Row F) (rows : List (Row F)) :
    Ends (pushMatch predicate leftRow rightRow) ⟨rows, 0⟩ (joinOne predicate leftRow rows rightRow)
      fun rows _ fields => fields = ⟨rows, 0⟩ := by
  have tested : Ends (Code.lift (Expression.holdsJoin predicate leftRow rightRow)) (ResultTuples.mk rows 0)
      (Expression.holdsJoin predicate leftRow rightRow) fun matched matched' fields =>
        matched' = matched ∧ fields = ⟨rows, 0⟩ := Ends.lift fun _ _ => ⟨rfl, rfl⟩
  apply tested.bind
  rintro _ matched _ - ⟨rfl, rfl⟩
  cases matched with
  | true => exact Ends.modify rfl
  | false => exact Ends.pure rfl

theorem foldlM_joinOne (leftRow : Row F) (rights rows : List (Row F)) :
    rights.foldlM (joinOne predicate leftRow) rows = do return rows ++ (← matchRight predicate leftRow rights) := by
  induction rights generalizing rows with
  | nil => simp [matchRight, pure, Except.pure, bind, Except.bind]
  | cons rightRow rest ih =>
    rw [List.foldlM_cons, matchRight]
    cases test : Expression.holdsJoin predicate leftRow rightRow with
    | error message => simp [joinOne, test, bind, Except.bind]
    | ok matched =>
      cases found : matchRight predicate leftRow rest with
      | error message => simp [joinOne, test, ih, found, bind, Except.bind, pure, Except.pure]
      | ok others => cases matched <;> simp [joinOne, test, ih, found, bind, Except.bind, pure, Except.pure]

theorem throughAll_joinAll (rights : Stream F) (lefts rows : List (Row F)) (failure : Option String) :
    throughAll (joinAll predicate rights) lefts failure rows = do
      let found ← matchLeft predicate rights lefts
      let _ ← Stream.drain { rows := lefts, error := failure }
      return rows ++ found := by
  induction lefts generalizing rows with
  | nil => cases failure <;> simp [throughAll, matchLeft, Stream.drain, pure, Except.pure, bind, Except.bind]
  | cons leftRow rest ih =>
    have unfolded : throughAll (joinAll predicate rights) (leftRow :: rest) failure rows =
        joinAll predicate rights rows leftRow >>= throughAll (joinAll predicate rights) rest failure := by
      simp only [throughAll, List.foldlM_cons, bind_assoc]
      rfl
    rw [unfolded, matchLeft, joinAll, throughAll, foldlM_joinOne]
    cases found : matchRight predicate leftRow rights.rows with
    | error message => simp [bind, Except.bind]
    | ok found =>
      cases failed : rights.error with
      | some message => simp [Stream.drain, failed, bind, Except.bind, pure, Except.pure]
      | none =>
        simp only [bind, Except.bind, pure, Except.pure, Option.elim_none, Stream.drain, failed]
        rw [ih]
        cases later : matchLeft predicate rights rest with
        | error message => simp [bind, Except.bind]
        | ok others => cases failure <;> simp [Stream.drain, bind, Except.bind, pure, Except.pure]

theorem delivers {leftOutcome rightOutcome : Executor F} (belowLeft : Delivers left leftOutcome)
    (belowRight : Delivers right rightOutcome) :
    Delivers (executor predicate left right) (init predicate leftOutcome rightOutcome) := by
  obtain ⟨enoughLeft, runsLeft⟩ := belowLeft
  obtain ⟨enoughRight, runsRight⟩ := belowRight
  refine ⟨enoughLeft + enoughRight + leftOutcome.size + rightOutcome.size + 1, fun rounds many s => ?_⟩
  apply (runsLeft rounds (by omega) _).on.bind
  rintro lefts _ s cameLeft ⟨t, rfl, yieldsLeft⟩
  apply (runsRight rounds (by omega) _).on.bind
  rintro rights _ s cameRight ⟨u, rfl, yieldsRight⟩
  subst cameLeft cameRight
  apply Ends.skip (Part.on_run rfl)
  have joined : (do
      let rows ← matchLeft predicate rights lefts.rows
      let _ ← lefts.drain
      return ({ rows } : Stream F)) =
      (throughAll (joinAll predicate rights) lefts.rows lefts.error [] >>= fun rows => pure { rows }) := by
    rw [throughAll_joinAll]
    simp only [bind_assoc, pure_bind, List.nil_append]
  have sizes : Executor.size (.ok lefts) = lefts.rows.length ∧ Executor.size (.ok rights) = rights.rows.length :=
    ⟨rfl, rfl⟩
  have loop : Ends (whileNext (onLeft.on left.next) (fun _ leftRow => do
      whileNext (onRight.on right.next) (fun _ rightRow =>
        onFieldsOfTwo.on (pushMatch predicate leftRow rightRow)) rounds ()
      onRight.on (right.init rounds)) rounds ()) (TwoChildren.mk t u ({} : ResultTuples F))
      (throughAll (joinAll predicate rights) lefts.rows lefts.error [])
      fun rows _ s => s.fields = ⟨rows, 0⟩ ∧ Yields right.next rights.rows rights.error s.right := by
    refine Ends.whileNext ?_ ?_ yieldsLeft ⟨rfl, yieldsRight⟩ (by omega)
    · rintro rows _ s t related
      exact related
    · rintro rows _ s leftRow ⟨fields, yields⟩
      -- the inner loop leaves the left child alone
      have inner : Ends (whileNext (onRight.on right.next) (fun _ rightRow =>
          onFieldsOfTwo.on (pushMatch predicate leftRow rightRow)) rounds ()) s (joinAll predicate rights rows leftRow)
          fun rows _ s' => s'.left = s.left ∧ s'.fields = ⟨rows, 0⟩ := by
        refine Ends.whileNext ?_ ?_ yields ⟨rfl, fields⟩ (by omega)
        · rintro rows _ s t related
          exact related
        · rintro rows _ s rightRow ⟨same, fields⟩
          have pushed : Ends (pushMatch predicate leftRow rightRow) (onFieldsOfTwo.read s)
              (joinOne predicate leftRow rows rightRow) fun rows _ fields => fields = ⟨rows, 0⟩ := by
            rw [show onFieldsOfTwo.read s = ⟨rows, 0⟩ from fields]
            exact pushMatch_ends leftRow rightRow rows
          apply pushed.on.mono
          rintro rows _ _ ⟨fields, rfl, collected⟩
          exact ⟨rfl, same, collected⟩
      apply inner.after
      rintro rows _ s' ⟨same, fields⟩
      obtain ⟨_, t, ran, yieldsAgain⟩ := runsRight rounds (by omega) s'.right
      exact ⟨_, _, Part.on_run ran, same, fields, yieldsAgain⟩
  rw [joined]
  apply loop.map
  rintro rows _ s ⟨fields, -⟩
  exact yields_collected fields

end NestedLoopJoinExecutor

variable [PrintsFloat F]

namespace HashJoinExecutor

variable {left : AbstractExecutor σ F} {right : AbstractExecutor τ F} {leftKeyExpr rightKeyExpr : Expression F}

/-- One round of the build loop, as a computation on the table so far. -/
def buildOne (leftKeyExpr : Expression F) (hashTable : HashTable F) (leftRow : Row F) :
    Except String (HashTable F) := do
  let key ← leftKeyExpr.evaluate leftRow
  return hashTable.insert key.toString ((hashTable.lookup key.toString).getD [] ++ [leftRow])

/-- One round of the probe loop, as a computation on the rows so far. -/
def probeOne (rightKeyExpr : Expression F) (hashTable : HashTable F) (rows : List (Row F)) (rightRow : Row F) :
    Except String (List (Row F)) := do
  let key ← rightKeyExpr.evaluate rightRow
  return rows ++ ((hashTable.lookup key.toString).getD []).map fun leftRow => leftRow ++ rightRow

theorem foldlM_buildOne (hashTable : HashTable F) (lefts : List (Row F)) :
    lefts.foldlM (buildOne leftKeyExpr) hashTable = build leftKeyExpr hashTable lefts := by
  induction lefts generalizing hashTable with
  | nil => rfl
  | cons leftRow rest ih =>
    simp only [List.foldlM_cons, build, buildOne, bind_assoc, pure_bind, ih]

theorem foldlM_probeOne (hashTable : HashTable F) (rights rows : List (Row F)) :
    rights.foldlM (probeOne rightKeyExpr hashTable)
    rows = do return rows ++ (← probe rightKeyExpr hashTable rights) := by
  induction rights generalizing rows with
  | nil => simp [probe, pure, Except.pure, bind, Except.bind]
  | cons rightRow rest ih =>
    simp only [List.foldlM_cons, probe, probeOne, bind_assoc, pure_bind, ih, List.append_assoc]

theorem pushLeft_ends (leftRow : Row F) (hashTable : HashTable F) :
    Ends (pushLeft leftKeyExpr leftRow) ⟨hashTable, {}⟩ (buildOne leftKeyExpr hashTable leftRow)
      fun hashTable _ fields => fields = ⟨hashTable, {}⟩ := by
  have evaluated : Ends (Code.lift (leftKeyExpr.evaluate leftRow)) (Fields.mk hashTable {})
      (leftKeyExpr.evaluate leftRow)
      fun key key' fields => key' = key ∧ fields = ⟨hashTable, {}⟩ := Ends.lift fun _ _ => ⟨rfl, rfl⟩
  apply evaluated.bind
  rintro _ key _ - ⟨rfl, rfl⟩
  exact Ends.modify rfl

theorem pushMatches_ends (rightRow : Row F) (hashTable : HashTable F) (rows : List (Row F)) :
    Ends (pushMatches rightKeyExpr rightRow) ⟨hashTable, ⟨rows, 0⟩⟩
    (probeOne rightKeyExpr hashTable rows rightRow)
      fun rows _ fields => fields = ⟨hashTable, ⟨rows, 0⟩⟩ := by
  have evaluated : Ends (Code.lift (rightKeyExpr.evaluate rightRow)) (Fields.mk hashTable ⟨rows, 0⟩)
      (rightKeyExpr.evaluate rightRow) fun key key' fields => key' = key ∧ fields = ⟨hashTable, ⟨rows, 0⟩⟩ :=
    Ends.lift fun _ _ => ⟨rfl, rfl⟩
  apply evaluated.bind
  rintro _ key _ - ⟨rfl, rfl⟩
  exact Ends.modify rfl

theorem delivers {leftOutcome rightOutcome : Executor F} (belowLeft : Delivers left leftOutcome)
    (belowRight : Delivers right rightOutcome) :
    Delivers (executor leftKeyExpr rightKeyExpr left right)
    (init leftKeyExpr rightKeyExpr leftOutcome rightOutcome) := by
  obtain ⟨enoughLeft, runsLeft⟩ := belowLeft
  obtain ⟨enoughRight, runsRight⟩ := belowRight
  refine ⟨enoughLeft + enoughRight + leftOutcome.size + rightOutcome.size + 1, fun rounds many s => ?_⟩
  apply (runsLeft rounds (by omega) _).on.bind
  rintro lefts _ s cameLeft ⟨t, rfl, yieldsLeft⟩
  apply (runsRight rounds (by omega) _).on.bind
  rintro rights _ s cameRight ⟨u, rfl, yieldsRight⟩
  subst cameLeft cameRight
  have sizes : Executor.size (.ok lefts) = lefts.rows.length ∧ Executor.size (.ok rights) = rights.rows.length :=
    ⟨rfl, rfl⟩
  apply Ends.skip (Part.on_run rfl)
  have built : Ends (whileNext (onLeft.on left.next) (fun _ leftRow => onFieldsOfTwo.on (pushLeft leftKeyExpr leftRow))
      rounds ()) (TwoChildren.mk t u ({} : Fields F)) (throughAll (buildOne leftKeyExpr) lefts.rows lefts.error ∅)
      fun hashTable _ s => s.right = u ∧ s.fields = ⟨hashTable, {}⟩ := by
    refine Ends.whileNext ?_ ?_ yieldsLeft ⟨rfl, rfl⟩ (by omega)
    · rintro hashTable _ s t related
      exact related
    · rintro hashTable _ s leftRow ⟨same, fields⟩
      have pushed : Ends (pushLeft leftKeyExpr leftRow) (onFieldsOfTwo.read s) (buildOne leftKeyExpr hashTable leftRow)
          fun hashTable _ fields => fields = ⟨hashTable, {}⟩ := by
        rw [show onFieldsOfTwo.read s = ⟨hashTable, {}⟩ from fields]
        exact pushLeft_ends leftRow hashTable
      apply pushed.on.mono
      rintro hashTable _ _ ⟨fields, rfl, filled⟩
      exact ⟨rfl, same, filled⟩
  have probed (hashTable : HashTable F) (s : TwoChildren σ τ (Fields F))
      (yields : Yields right.next rights.rows rights.error s.right) (fields : s.fields = ⟨hashTable, {}⟩) :
      Ends (whileNext (onRight.on right.next) (fun _ rightRow => onFieldsOfTwo.on (pushMatches rightKeyExpr rightRow))
        rounds ()) s (throughAll (probeOne rightKeyExpr hashTable) rights.rows rights.error [])
        fun rows _ s => s.fields = ⟨hashTable, ⟨rows, 0⟩⟩ := by
    refine Ends.whileNext ?_ ?_ yields fields (by omega)
    · rintro rows _ s t related
      exact related
    · rintro rows _ s rightRow fields
      have pushed : Ends (pushMatches rightKeyExpr rightRow) (onFieldsOfTwo.read s)
          (probeOne rightKeyExpr hashTable rows rightRow) fun rows _ fields =>
            fields = ⟨hashTable, ⟨rows, 0⟩⟩ := by
        rw [show onFieldsOfTwo.read s = ⟨hashTable, ⟨rows, 0⟩⟩ from fields]
        exact pushMatches_ends rightRow hashTable rows
      apply pushed.on.mono
      rintro rows _ _ ⟨fields, rfl, collected⟩
      exact ⟨rfl, collected⟩
  have joined : (do
      let hashTable ← build leftKeyExpr ∅ lefts.rows
      let _ ← lefts.drain
      let rows ← probe rightKeyExpr hashTable rights.rows
      let _ ← rights.drain
      return ({ rows } : Stream F)) = (do
      let hashTable ← throughAll (buildOne leftKeyExpr) lefts.rows lefts.error ∅
      let rows ← throughAll (probeOne rightKeyExpr hashTable) rights.rows rights.error []
      return { rows }) := by
    simp only [throughAll, foldlM_buildOne, foldlM_probeOne, bind_assoc, pure_bind, List.nil_append]
    cases build leftKeyExpr ∅ lefts.rows with
    | error message => rfl
    | ok hashTable =>
      cases probed : probe rightKeyExpr hashTable rights.rows with
      | error message => cases failed : lefts.error <;> simp [Stream.drain, failed, probed, bind, Except.bind]
      | ok rows =>
        cases failed : lefts.error <;> cases failed' : rights.error <;>
          simp [Stream.drain, failed, failed', probed, bind, Except.bind, pure, Except.pure]
  rw [joined]
  apply built.bind
  rintro hashTable _ s - ⟨same, fields⟩
  apply (probed hashTable s (by rw [same]; exact yieldsRight) fields).map
  rintro rows _ s fields
  apply yields_collected
  change s.fields.results = _
  rw [fields]

end HashJoinExecutor

namespace AggregationExecutor

variable {child : AbstractExecutor σ F} {groupBys : List (Expression F)}
  {aggregates : List (AggregationType × Expression F)}

theorem foldlM_locals (rows : List (Row F)) (groups : Groups F) (hasInput : Bool) :
    rows.foldlM (fun (locals : Groups F × Bool) row => do
      return (← addRow groupBys aggregates locals.1 row, true)) (groups, hasInput) = do
      return (← rows.foldlM (addRow groupBys aggregates) groups, hasInput || !rows.isEmpty) := by
  induction rows generalizing groups hasInput with
  | nil => simp
  | cons row rest ih => simp only [List.foldlM_cons, bind_assoc, pure_bind, ih, List.isEmpty_cons, Bool.not_false,
      Bool.or_true, Bool.true_or]

theorem delivers (runtime : Runtime F) {outcome : Executor F} (below : Delivers child outcome) :
    Delivers (executor runtime groupBys aggregates child) (init runtime groupBys aggregates outcome) := by
  obtain ⟨enough, runs⟩ := below
  refine ⟨enough + outcome.size + 1, fun rounds many s => ?_⟩
  apply (runs rounds (by omega) _).on.bind
  rintro stream _ s came ⟨t, rfl, yields⟩
  subst came
  apply Ends.skip (Part.on_run rfl)
  have pulled : Ends (whileNext (onChild.on child.next) (fun locals row => do
        return (← Code.lift (addRow groupBys aggregates locals.1 row), true)) rounds ((∅ : Groups F), false))
      (OneChild.mk t ({} : ResultTuples F))
      (throughAll (fun locals row => do return (← addRow groupBys aggregates locals.1 row, true))
        stream.rows stream.error
        ((∅ : Groups F), false))
      fun locals locals' s' => locals' = locals ∧ s'.fields = ⟨[], 0⟩ := by
    refine Ends.whileNext ?_ ?_ yields ⟨rfl, rfl⟩ ?_
    · rintro locals _ s t related
      exact related
    · rintro _ locals s row ⟨rfl, fields⟩
      have added : Ends (Code.lift (addRow groupBys aggregates locals.1 row)) s
          (addRow groupBys aggregates locals.1 row)
          fun groups groups' s' => groups' = groups ∧ s' = s := Ends.lift fun _ _ => ⟨rfl, rfl⟩
      apply added.bind
      rintro _ groups _ - ⟨rfl, rfl⟩
      exact Ends.pure ⟨rfl, rfl, fields⟩
    · have size : Executor.size (.ok stream) = stream.rows.length := rfl
      omega
  have grouped : (do
      let rows ← aggregate runtime groupBys aggregates stream.rows
      let _ ← stream.drain
      return ({ rows } : Stream F)) = (do
      let locals ← throughAll
          (fun locals row => do return (← addRow groupBys aggregates locals.1 row, true)) stream.rows
        stream.error ((∅ : Groups F), false)
      return { rows := if !locals.2 && groupBys.isEmpty then [aggregates.map fun _ => .integer 0]
        else (runtime.visit locals.1.entries).map fun group => outputRow aggregates group.2 }) := by
    simp only [throughAll, aggregate, foldlM_locals, bind_assoc, pure_bind]
    cases stream.rows.foldlM (addRow groupBys aggregates) ∅ with
    | error message => rfl
    | ok groups =>
      cases failed : stream.error <;> cases stream.rows <;> cases groupBys <;>
        simp [Stream.drain, failed, bind, Except.bind, pure, Except.pure]
  rw [grouped]
  apply pulled.bind
  rintro locals _ s - ⟨rfl, fields⟩
  refine ⟨⟨⟩, _, Part.on_run rfl, ?_⟩
  apply yields_collected
  change ResultTuples.mk _ s.fields.cursor = _
  rw [fields]

end AggregationExecutor

/-! ## Plans -/

namespace PlanNode

/-- What the executor of a plan delivers, by the plan and the database alone. -/
def executor (runtime : Runtime F) (context : ExecutorContext F) : PlanNode F → Executor F
  | seqScan tableOid predicate => .ok (SeqScanExecutor.scan predicate (context.table tableOid))
  | indexScan indexOid tableOid lookupKey predicate =>
      IndexScanExecutor.init context indexOid tableOid lookupKey predicate
  | nestedLoopJoin left right predicate =>
    NestedLoopJoinExecutor.init predicate (left.executor runtime context) (right.executor runtime context)
  | hashJoin left right leftKeyExpr rightKeyExpr =>
    HashJoinExecutor.init leftKeyExpr rightKeyExpr (left.executor runtime context) (right.executor runtime context)
  | aggregation child groupBys aggregates =>
    AggregationExecutor.init runtime groupBys aggregates (child.executor runtime context)
  | sort child orderBys => SortExecutor.init runtime orderBys (child.executor runtime context)
  | limit child count => LimitExecutor.init count (child.executor runtime context)
  | projection child expressions => ProjectionExecutor.init expressions (child.executor runtime context)

variable (runtime : Runtime F) (context : ExecutorContext F)

/-- Whatever state `Init` is called in, a plan delivers the same. -/
theorem delivers (plan : PlanNode F) :
    Delivers (plan.createExecutor runtime context) (plan.executor runtime context) := by
  induction plan with
  | seqScan tableOid predicate => exact SeqScanExecutor.delivers context tableOid predicate
  | indexScan indexOid tableOid lookupKey predicate =>
    exact IndexScanExecutor.delivers context indexOid tableOid lookupKey predicate
  | nestedLoopJoin left right predicate ihLeft ihRight => exact NestedLoopJoinExecutor.delivers ihLeft ihRight
  | hashJoin left right leftKeyExpr rightKeyExpr ihLeft ihRight => exact HashJoinExecutor.delivers ihLeft ihRight
  | aggregation child groupBys aggregates ih => exact AggregationExecutor.delivers runtime ih
  | sort child orderBys ih => exact SortExecutor.delivers runtime ih
  | limit child count ih => exact LimitExecutor.delivers ih
  | projection child expressions ih => exact ProjectionExecutor.delivers ih

end PlanNode

/-- The plans of queries, which have no index scan. -/
def Plan.toNode : Plan F → PlanNode F
  | .seqScan tableOid predicate => .seqScan tableOid predicate
  | .nestedLoopJoin left right predicate => .nestedLoopJoin left.toNode right.toNode predicate
  | .hashJoin left right leftKeyExpr rightKeyExpr => .hashJoin left.toNode right.toNode leftKeyExpr rightKeyExpr
  | .aggregation child groupBys aggregates => .aggregation child.toNode groupBys aggregates
  | .sort child orderBys => .sort child.toNode orderBys
  | .limit child count => .limit child.toNode count
  | .projection child expressions => .projection child.toNode expressions

/-- The executor trees refine the streams that stand for the executors of a query. -/
theorem Plan.toNode_delivers (runtime : Runtime F) (context : ExecutorContext F) (plan : Plan F) :
    Delivers (plan.toNode.createExecutor runtime context) (plan.executor runtime context.table) := by
  have same : plan.toNode.executor runtime context = plan.executor runtime context.table := by
    induction plan with
    | seqScan tableOid predicate => rfl
    | nestedLoopJoin left right predicate ihLeft ihRight =>
      rw [Plan.executor, ← ihLeft, ← ihRight]
      rfl
    | hashJoin left right leftKeyExpr rightKeyExpr ihLeft ihRight =>
      rw [Plan.executor, ← ihLeft, ← ihRight]
      rfl
    | aggregation child groupBys aggregates ih =>
      rw [Plan.executor, ← ih]
      rfl
    | sort child orderBys ih =>
      rw [Plan.executor, ← ih]
      rfl
    | limit child count ih =>
      rw [Plan.executor, ← ih]
      rfl
    | projection child expressions ih =>
      rw [Plan.executor, ← ih]
      rfl
  rw [← same]
  exact plan.toNode.delivers runtime context

/-- From every state and with enough rounds, `Init` and draining end with this outcome. -/
def Gives (executor : AbstractExecutor σ F) (outcome : Except String (List (Row F))) : Prop :=
  ∃ enough, ∀ rounds, enough ≤ rounds → ∀ s, ∃ s', executor.initAndDrain rounds s = some (outcome, s')

omit [Field F] [LinearOrder F] [PrintsFloat F] in
theorem Delivers.gives {executor : AbstractExecutor σ F} {outcome : Executor F}
    (delivers : Delivers executor outcome) :
    Gives executor (outcome >>= Stream.drain) := by
  obtain ⟨enough, runs⟩ := delivers
  refine ⟨enough + outcome.size + 1, fun rounds many s => ?_⟩
  have drained : Ends (executor.initAndDrain rounds) s (outcome >>= Stream.drain) fun rows rows' _ => rows' = rows := by
    apply (runs rounds (by omega) s).bind
    rintro stream _ s came yields
    subst came
    rw [Stream.drain, ← List.nil_append stream.rows, ← throughAll_push, ← Part.whole_on executor.next]
    refine Ends.whileNext ?_ ?_ yields rfl ?_
    · rintro rows rows' s t same
      exact same
    · rintro rows _ s row rfl
      exact ⟨_, s, rfl, rfl, rfl⟩
    · have size : Executor.size (.ok stream) = stream.rows.length := rfl
      omega
  generalize (outcome >>= Stream.drain : Except String (List (Row F))) = final at drained ⊢
  cases final with
  | error message => exact drained
  | ok rows =>
    obtain ⟨_, s', ran, rfl⟩ := drained
    exact ⟨s', ran⟩

omit [Field F] [LinearOrder F] [PrintsFloat F] in
theorem Gives.unique {executor : AbstractExecutor σ F} {outcome outcome' : Except String (List (Row F))}
    (gives : Gives executor outcome) (gives' : Gives executor outcome') (s : σ) : outcome = outcome' := by
  obtain ⟨enough, runs⟩ := gives
  obtain ⟨enough', runs'⟩ := gives'
  obtain ⟨_, ran⟩ := runs (enough + enough') (Nat.le_add_right ..) s
  obtain ⟨_, ran'⟩ := runs' (enough + enough') (Nat.le_add_left ..) s
  exact (Prod.mk.inj (Option.some.inj (ran.symm.trans ran'))).1

/-- `Init` and draining have the same outcome on a fresh executor as after any calls of `Next` in any state. So a nested
loop join, whose right side is started again for every left row, gives the filtered cross product of what its children
give, and fails exactly if the predicate fails on a pair. -/
theorem PlanNode.restarts (runtime : Runtime F) (context : ExecutorContext F) (plan : PlanNode F) :
    (∃ outcome enough, ∀ rounds, enough ≤ rounds →
      (∃ s', (plan.createExecutor runtime context).initAndDrain rounds plan.fresh = some (outcome, s')) ∧
      ∀ s calls, ∃ s', (plan.createExecutor runtime context).initAndDrain rounds
        ((plan.createExecutor runtime context).afterNexts calls s) = some (outcome, s')) ∧
    ∀ left right predicate, plan = .nestedLoopJoin left right predicate → ∀ lefts rights,
      Gives (left.createExecutor runtime context) (.ok lefts) → Gives (right.createExecutor runtime context)
      (.ok rights) →
      ∃ outcome, Gives (plan.createExecutor runtime context) outcome ∧ ∀ rows, outcome = .ok rows ↔
        (∀ leftRow ∈ lefts, ∀ rightRow ∈ rights, ∃ answer, Expression.holdsJoin predicate leftRow rightRow =
          .ok answer) ∧
        rows = lefts.flatMap fun leftRow =>
          (rights.filter fun rightRow => passes (Expression.holdsJoin predicate leftRow rightRow)).map
          (leftRow ++ ·) := by
  constructor
  · obtain ⟨enough, runs⟩ := (plan.delivers runtime context).gives
    exact ⟨_, enough, fun rounds many => ⟨runs rounds many _, fun s calls => runs rounds many _⟩⟩
  · rintro left right predicate rfl lefts rights givesLeft givesRight
    have whole {child : PlanNode F} {rows : List (Row F)}
        (gives : Gives (child.createExecutor runtime context) (.ok rows)) :
        child.executor runtime context = .ok { rows } := by
      have drained := (child.delivers runtime context).gives.unique gives child.fresh
      cases delivered : child.executor runtime context with
      | error message =>
        rw [delivered] at drained
        cases drained
      | ok stream =>
        rw [delivered] at drained
        obtain ⟨ended, rfl⟩ := Stream.drain_eq_ok_iff.mp drained
        obtain ⟨rows, failure⟩ := stream
        cases ended
        rfl
    refine ⟨_, ((PlanNode.nestedLoopJoin left right predicate).delivers runtime context).gives, fun rows => ?_⟩
    rw [executor, whole givesLeft, whole givesRight, NestedLoopJoinExecutor.rows_eq_ok_iff,
      NestedLoopJoinExecutor.matchLeft_eq_ok_iff]
    constructor
    · rintro ⟨-, -, answered, joined⟩
      exact ⟨answered, joined⟩
    · rintro ⟨answered, joined⟩
      exact ⟨rfl, fun _ => rfl, answered, joined⟩

section Instances

/-- Every table has two rows. -/
def twoRows : ExecutorContext ℚ where
  table _ := [[.integer 1], [.integer 2]]
  getTuple _ _ := .error "no index"
  getIndex _ := none

/-- Every row with the first row, for which the limit on the right has to start again. -/
def firstOfEach : PlanNode ℚ := .nestedLoopJoin (.seqScan 0 none) (.limit (.seqScan 0 none) 1) none

theorem restarts_firstOfEach :
    Gives (firstOfEach.createExecutor (Runtime.plain ℚ) twoRows)
    (.ok [[.integer 1, .integer 1], [.integer 2, .integer 1]]) := by
  have lefts : Gives ((PlanNode.seqScan 0 none).createExecutor (Runtime.plain ℚ) twoRows)
      (.ok [[.integer 1], [.integer 2]]) :=
    ((PlanNode.seqScan 0 none).delivers (Runtime.plain ℚ) twoRows).gives
  have rights : Gives ((PlanNode.limit (.seqScan 0 none) 1).createExecutor (Runtime.plain ℚ) twoRows)
      (.ok [[.integer 1]]) :=
    ((PlanNode.limit (.seqScan 0 none) 1).delivers (Runtime.plain ℚ) twoRows).gives
  obtain ⟨outcome, gives, joined⟩ :=
    (PlanNode.restarts (Runtime.plain ℚ) twoRows firstOfEach).2 _ _ _ rfl _ _ lefts rights
  rw [← (joined [[.integer 1, .integer 1], [.integer 2, .integer 1]]).mpr ⟨fun _ _ _ _ => ⟨true, rfl⟩, rfl⟩]
  exact gives

end Instances

end OneBase
