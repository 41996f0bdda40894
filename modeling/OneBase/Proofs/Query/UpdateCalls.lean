import OneBase.Proofs.Query.TypedRows
import OneBase.Proofs.Query.Update

/-! # What UPDATE counts

`UpdateExecutor` calls `UpdateTuple` once for each row that the predicate holds of and counts the call, whether the page
took the new tuple or refused it. -/

namespace OneBase

open Binder ExceptLoops ExceptRuns TableHeap TablePage

namespace UpdateExecutor

variable {F : Type} [StoresFloat F] [Field F] [LinearOrder F] {schema : Schema} {predicate : Option (Expression F)}
  {sets : List (Expression F)} {updatePage : TablePage → ℕ → List UInt8 → TablePage × Bool}
  {s : OneChild UpdateLedger Bool} {chain : List PageId} {rounds : ℕ}

/-- `TablePage::UpdateTuple` replaces the tuple in its slot, or returns false and changes nothing. -/
def ReplacesOrRefuses (updatePage : TablePage → ℕ → List UInt8 → TablePage × Bool) : Prop :=
  ∀ ⦃page slot old new⦄, WellLaid page → page.live slot = some old → new ≠ [] →
    updatePage page slot new = (page, false) ∨ ∃ page', updatePage page slot new = (page', true) ∧
      WellLaid page' ∧
      page'.live = Function.update page.live slot (some new) ∧ page'.getNumTuples = page.getNumTuples ∧
      page'.getNextPageId = page.getNextPageId

/-- The new tuple of a row, if the predicate holds of the row. -/
def replacement (schema : Schema) (predicate : Option (Expression F)) (sets : List (Expression F))
    (row : Rid × List UInt8) : Option (List UInt8) :=
  match changeOf schema predicate (leaves schema sets) row with
  | .ok (some bytes) => bytes
  | _ => none

/-- What the pages answer when the rows get their new tuples one after the other. -/
def answers (updatePage : TablePage → ℕ → List UInt8 → TablePage × Bool)
    (new : Rid × List UInt8 → Option (List UInt8)) :
    (PageId → TablePage) → Rows → List (Rid × Bool)
  | _, [] => []
  | data, row :: rest =>
    match new row with
    | none => answers updatePage new data rest
    | some bytes =>
      let (page, accepted) := updatePage (data row.1.pageId) row.1.slotNum bytes
      (row.1, accepted) :: answers updatePage new (Function.update data row.1.pageId page) rest

/-- How many of the new tuples are refused. -/
def refusals (updatePage : TablePage → ℕ → List UInt8 → TablePage × Bool)
    (new : Rid × List UInt8 → Option (List UInt8)) (data : PageId → TablePage) (rows : Rows) : ℕ :=
  (answers updatePage new data rows).countP fun answer => !answer.2

/-- The row after the answers. -/
def answered (new : Rid × List UInt8 → Option (List UInt8)) (given : List (Rid × Bool)) (row : Rid × List UInt8) :
    Rid × List UInt8 :=
  (row.1, if (row.1, true) ∈ given then (new row).getD row.2 else row.2)

section Answers

variable {new : Rid × List UInt8 → Option (List UInt8)} {data : PageId → TablePage} {rows rest skipped : Rows}

/-- Rows without a new tuple are not asked about. -/
theorem answers_skip (skips : ∀ row ∈ skipped, new row = none) :
    answers updatePage new data (skipped ++ rest) = answers updatePage new data rest := by
  induction skipped with
  | nil => rfl
  | cons row skipped ih =>
    obtain ⟨first, others⟩ := List.forall_mem_cons.mp skips
    rw [List.cons_append, answers, first]
    exact ih others

/-- There is one answer for each row with a new tuple, in their order. -/
theorem answers_rids (data : PageId → TablePage) (rows : Rows) :
    (answers updatePage new data rows).map Prod.fst = (rows.filter fun row => (new row).isSome).map Prod.fst := by
  induction rows generalizing data with
  | nil => rfl
  | cons row rest ih =>
    rw [answers, List.filter_cons]
    cases replaced : new row with
    | none => exact ih data
    | some bytes => exact congrArg (row.1 :: ·) (ih _)

theorem answered_skip (skips : ∀ row ∈ skipped, new row = none) (given : List (Rid × Bool)) :
    skipped.map (answered new given) = skipped := by
  refine (List.map_congr_left fun row mem => ?_).trans (List.map_id _)
  rw [answered, skips row mem]
  simp

/-- The answer for another row does not matter to a row. -/
theorem answered_cons {rid : Rid} {accepted : Bool} {given : List (Rid × Bool)} (other : rid ∉ rows.map Prod.fst) :
    rows.map (answered new ((rid, accepted) :: given)) = rows.map (answered new given) := by
  refine List.map_congr_left fun row mem => ?_
  have differs : row.1 ≠ rid := fun same => other (List.mem_map.mpr ⟨row, mem, same⟩)
  simp [answered, differs]

/-- The answer for a row decides. -/
theorem answered_head {row : Rid × List UInt8} {accepted : Bool} (other : row.1 ∉ rest.map Prod.fst) :
    answered new ((row.1, accepted) :: answers updatePage new data rest) row =
      (row.1, if accepted then (new row).getD row.2 else row.2) := by
  have absent : (row.1, true) ∉ answers updatePage new data rest := by
    intro mem
    have listed := List.mem_map_of_mem (f := Prod.fst) mem
    rw [answers_rids] at listed
    exact other ((List.filter_sublist.map Prod.fst).subset listed)
  cases accepted with
  | false => simp [answered, absent]
  | true => simp [answered]

end Answers

/-- The scan with the heap that a call of `UpdateTuple` leaves, and with the entry of the call. -/
def asked (updatePage : TablePage → ℕ → List UInt8 → TablePage × Bool) (ledger : UpdateLedger) (rid : Rid)
    (new : List UInt8) : UpdateLedger where
  scan := { ledger.scan with heap := { ledger.scan.heap with
    calls := ledger.scan.heap.calls + 1
    data := Function.update ledger.scan.heap.data rid.pageId
      (updatePage (ledger.scan.heap.data rid.pageId) rid.slotNum new).1 } }
  calls := ledger.calls ++ [(rid, (updatePage (ledger.scan.heap.data rid.pageId) rid.slotNum new).2)]

theorem asked_data (ledger : UpdateLedger) (rid : Rid) (new : List UInt8) :
    (asked updatePage ledger rid new).scan.heap.data = Function.update ledger.scan.heap.data rid.pageId
      (updatePage (ledger.scan.heap.data rid.pageId) rid.slotNum new).1 := rfl

theorem answers_asked {new : Rid × List UInt8 → Option (List UInt8)} {row : Rid × List UInt8} {rest : Rows}
    {bytes : List UInt8} (replaced : new row = some bytes) (ledger : UpdateLedger) :
    answers updatePage new ledger.scan.heap.data (row :: rest) =
      (row.1, (updatePage (ledger.scan.heap.data row.1.pageId) row.1.slotNum bytes).2) ::
        answers updatePage new (asked updatePage ledger row.1 bytes).scan.heap.data rest := by
  rw [answers, replaced]
  rfl

/-- One round of the loop: one call, which is counted. -/
theorem updateRow_asks {tuple new : Tuple} (granted : ∀ call, s.child.scan.heap.grants call = true)
    (built : newTuple schema sets tuple = .ok new) (count : Int32) :
    updateRow (UpdateLedger.updateTuple updatePage) schema sets count tuple s = some (.ok (count + 1),
      { s with child := asked updatePage s.child tuple.rid (new.data.take new.getLength) }) := by
  have run := updateTupleBy_run updatePage tuple.rid new s.child.scan.heap
  rw [granted, if_pos rfl] at run
  have onHeap : heapCode (updateTupleBy updatePage tuple.rid new) s.child.scan.heap =
      some (.ok (updatePage (s.child.scan.heap.data tuple.rid.pageId) tuple.rid.slotNum
        (new.data.take new.getLength)).2,
        (asked updatePage s.child tuple.rid (new.data.take new.getLength)).scan.heap) := by
    rw [heapCode, run]
    rfl
  have evaluated : (Code.lift (newTuple schema sets tuple) : Code String (OneChild UpdateLedger Bool) Tuple) s =
      some (.ok new, s) := by
    rw [built]
    rfl
  have logged : UpdateLedger.updateTuple updatePage tuple.rid new s.child =
      some (.ok (updatePage (s.child.scan.heap.data tuple.rid.pageId) tuple.rid.slotNum
        (new.data.take new.getLength)).2, asked updatePage s.child tuple.rid (new.data.take new.getLength)) :=
    Code.bind_ok (Part.on_run (Part.on_run onHeap)) _
  exact (Code.bind_ok evaluated _).trans (Code.bind_ok (Part.on_run logged) _)

/-- A row that is handed out gets the tuple of the SET expressions. -/
theorem replacement_handed {row : Rid × List UInt8} {tuple : Tuple}
    (handed : handOut schema predicate row = .ok (some tuple))
    (total : ∃ changed, changeOf schema predicate (leaves schema sets) row = .ok changed) :
    ∃ new, newTuple schema sets tuple = .ok new ∧
      replacement schema predicate sets row = some (new.data.take new.getLength) := by
  obtain ⟨selected, made⟩ := handOut_eq_some_iff.mp handed
  obtain ⟨changed, ran⟩ := total
  rw [changeOf_selected selected, made] at ran
  change (leaves schema sets tuple >>= _) = _ at ran
  cases built : newTuple schema sets tuple with
  | error message =>
    rw [leaves, built] at ran
    cases ran
  | ok new =>
    have computed : leaves schema sets tuple = .ok (some (new.data.take new.getLength)) := by
      rw [leaves, built]
      rfl
    have chosen : changeOf schema predicate (leaves schema sets) row =
        .ok (some (some (new.data.take new.getLength))) := by
      rw [changeOf_selected selected, made]
      change (leaves schema sets tuple >>= _) = _
      rw [computed]
      rfl
    exact ⟨new, rfl, by rw [replacement, chosen]⟩

/-- A row that is passed over gets none. -/
theorem replacement_rejected {row : Rid × List UInt8}
    (rejected : Expression.holdsOn predicate schema (stored row) = .ok false) :
    replacement schema predicate sets row = none := by
  rw [replacement, changeOf_rejected rejected]

/-- What a call does to the rows of the heap: the page takes the new tuple of the row, or the rows stay as they are. -/
theorem asked_contents (does : ReplacesOrRefuses updatePage) {ledger : UpdateLedger} {row : Rid × List UInt8}
    {earlier rest : Rows} {new : List UInt8} (formed : WellFormed ledger.scan.heap chain)
    (behind : Rest ledger.scan.heap.data chain (row :: rest)) (notEmpty : new ≠ [])
    (split : contents ledger.scan.heap.data chain = earlier ++ row :: rest) :
    WellFormed (asked updatePage ledger row.1 new).scan.heap chain ∧
      Rest (asked updatePage ledger row.1 new).scan.heap.data chain rest ∧
      contents (asked updatePage ledger row.1 new).scan.heap.data chain = earlier ++
        (row.1, if (updatePage (ledger.scan.heap.data row.1.pageId) row.1.slotNum
          new).2 then new else row.2) :: rest := by
  obtain ⟨before, after, onChain, held, left⟩ := behind.cons
  have mem : row.1.pageId ∈ chain := by simp [onChain]
  rcases does (formed.laid _ mem) held notEmpty with refused | ⟨page, replaced, laid, live, number, link⟩
  · have same : (asked updatePage ledger row.1 new).scan.heap.data = ledger.scan.heap.data := by
      rw [asked_data, refused, Function.update_eq_self]
    refine ⟨?_, ?_, ?_⟩
    · have formed' := formed.withCalls (ledger.scan.heap.calls + 1)
      rw [← same] at formed'
      exact formed'
    · rw [same]
      exact ⟨_, _, _, onChain, left⟩
    · rw [same, split, refused]
      rfl
  · have here : (asked updatePage ledger row.1 new).scan.heap.data row.1.pageId = page := by
      rw [asked_data, replaced, Function.update_self]
    have rewrites : Rewrites ledger.scan.heap.data (asked updatePage ledger row.1 new).scan.heap.data row.1
        (some new) := by
      refine ⟨fun p other => Function.update_of_ne other _ _, ?_, ?_, ?_, ?_⟩
      · rwa [here]
      · rwa [here]
      · rwa [here]
      · rwa [here]
    refine ⟨formed.rewrite rewrites _, behind.rewrite formed.nodup rewrites, ?_⟩
    rw [contents_rewrite_split rewrites formed.nodup split, replaced]
    simp

/-- The loop over the rows ahead. -/
theorem loop_asks (does : ReplacesOrRefuses updatePage) {rows earlier : Rows} {fuel : ℕ}
    (formed : WellFormed s.child.scan.heap chain) (granted : ∀ call, s.child.scan.heap.grants call = true)
    (ahead : Ahead s.child.scan.heap.data chain s.child.scan.iter rows)
    (total : ∀ row ∈ rows, ∃ changed, changeOf schema predicate (leaves schema sets) row = .ok changed)
    (notEmpty : ∀ row ∈ rows, replacement schema predicate sets row ≠ some [])
    (split : contents s.child.scan.heap.data chain = earlier ++ rows) (everyRow : rows.length < fuel)
    (enough : chain.length + 1020 + rows.length < rounds) (count : Int32) :
    let given := answers updatePage (replacement schema predicate sets) s.child.scan.heap.data rows
    ∃ s', whileNext (onChild.on ((UpdateLedger.child schema predicate).next rounds))
        (updateRow (UpdateLedger.updateTuple updatePage) schema sets) fuel count s =
          some (.ok (count + Int32.ofNat given.length), s') ∧
      WellFormed s'.child.scan.heap chain ∧ s'.child.calls = s.child.calls ++ given ∧
      contents s'.child.scan.heap.data chain =
        earlier ++ rows.map (answered (replacement schema predicate sets) given) := by
  induction fuel generalizing s rows earlier count with
  | zero => omega
  | succ fuel ih =>
    obtain ⟨iter, calls, visited, outcome⟩ := TableScan.next_cases schema predicate formed granted ahead enough
    let moved : OneChild UpdateLedger Bool := { s with child := { s.child with
      scan := { heap := { s.child.scan.heap with calls }, iter, visited } } }
    have pulls {result : Except String (Option Tuple)} (ran : TableScan.next schema predicate rounds s.child.scan =
        some (result, moved.child.scan)) :
        onChild.on ((UpdateLedger.child schema predicate).next rounds) s = some (result, moved) :=
      Part.on_run (Part.on_run ran)
    rcases outcome with ⟨ended, rejected⟩ | ⟨skipped, row, rest, rfl, before, later, behind, outcome⟩
    · have skips (row : Rid × List UInt8) (mem : row ∈ rows) : replacement schema predicate sets row = none :=
        replacement_rejected (rejected row mem)
      have none' : answers updatePage _ s.child.scan.heap.data (rows ++ []) = _ := answers_skip skips
      rw [List.append_nil] at none'
      dsimp only
      rw [none', answers, answered_skip skips, List.append_nil]
      refine ⟨moved, (Code.bind_ok (pulls ended) _).trans ?_, formed.withCalls calls, rfl, split⟩
      exact congrArg (fun total => some (Except.ok total, _)) (Int32.add_zero count).symm
    have skips (row : Rid × List UInt8) (mem : row ∈ skipped) : replacement schema predicate sets row = none :=
      replacement_rejected (before row mem)
    have totalHere := total row (by simp)
    rcases outcome with ⟨message, failed, -⟩ | ⟨tuple, handed, ran⟩
    · obtain ⟨changed, ran⟩ := totalHere
      rw [changeOf_fails failed] at ran
      cases ran
    obtain ⟨new, built, replaced⟩ := replacement_handed handed totalHere
    have rid : tuple.rid = row.1 := (Tuple.populated_spec (handOut_eq_some_iff.mp handed).2).1
    have nonempty : new.data.take new.getLength ≠ [] := fun empty =>
      notEmpty row (by simp) (by rw [replaced, empty])
    have done : updateRow (UpdateLedger.updateTuple updatePage) schema sets count tuple moved = _ :=
      updateRow_asks (s := moved) granted built count
    rw [rid] at done
    have formedMoved : WellFormed moved.child.scan.heap chain := formed.withCalls calls
    obtain ⟨formed', behind', contents'⟩ := asked_contents does formedMoved behind nonempty
      (split.trans (List.append_assoc _ _ _).symm)
    have rids : ((skipped ++ row :: rest).map Prod.fst).Nodup := by
      have all := nodup_of_ordered (contents_ordered s.child.scan.heap.data formed.nodup)
      rw [split, List.map_append] at all
      exact all.of_append_right
    rw [List.map_append, List.map_cons, List.nodup_append, List.nodup_cons] at rids
    rw [List.length_append, List.length_cons] at everyRow enough
    obtain ⟨s', run, formed'', calls', left⟩ := ih
      (s := { moved with child := asked updatePage moved.child row.1 (new.data.take new.getLength) })
      formed' granted ⟨later.1, behind'⟩ (fun row mem => total row (by simp [mem]))
      (fun row mem => notEmpty row (by simp [mem])) (contents'.trans (List.append_cons _ _ _)) (by omega) (by omega)
      (count + 1)
    have given : answers updatePage _ s.child.scan.heap.data (skipped ++ row :: rest) = _ :=
      (answers_skip skips).trans (answers_asked replaced moved.child)
    dsimp only
    rw [given]
    refine ⟨s', (Code.bind_ok (pulls ran) _).trans ((Code.bind_ok done _).trans (run.trans ?_)), formed'', ?_, ?_⟩
    · rw [List.length_cons, count_next]
    · rw [calls']
      exact List.append_assoc _ _ _
    · rw [left, List.map_append, List.map_cons, answered_skip skips, answered_cons rids.2.1.1,
        answered_head rids.2.1.1,
        replaced]
      simp only [List.append_assoc, List.singleton_append]
      rfl

/-- `UPDATE` over a sequential scan, with the calls of `UpdateTuple`. -/
def loggedPlan (updatePage : TablePage → ℕ → List UInt8 → TablePage × Bool) (schema : Schema)
    (predicate : Option (Expression F)) (sets : List (Expression F)) : TableExecutor (OneChild UpdateLedger Bool) :=
  executorBy (UpdateLedger.updateTuple updatePage) schema sets (UpdateLedger.child schema predicate)

/-- The statement asks the pages one after the other and counts its calls. -/
theorem plan_asks (does : ReplacesOrRefuses updatePage) (formed : WellFormed s.child.scan.heap chain)
    (granted : ∀ call, s.child.scan.heap.grants call = true)
    (total : ∀ row ∈ contents s.child.scan.heap.data chain, ∃ changed,
      changeOf schema predicate (leaves schema sets) row = .ok changed)
    (notEmpty : ∀ row ∈ contents s.child.scan.heap.data chain, replacement schema predicate sets row ≠ some [])
    (enough : chain.length + 1020 + (contents s.child.scan.heap.data chain).length < rounds) :
    let rows := contents s.child.scan.heap.data chain
    let given := answers updatePage (replacement schema predicate sets) s.child.scan.heap.data rows
    ∃ tuple s', ((loggedPlan updatePage schema predicate sets).init rounds >>= fun _ =>
        (loggedPlan updatePage schema predicate sets).next rounds) s = some (.ok (some tuple), s') ∧
      WellFormed s'.child.scan.heap chain ∧ s'.child.calls = s.child.calls ++ given ∧
      contents s'.child.scan.heap.data chain = rows.map (answered (replacement schema predicate sets) given) ∧
      tuple.values = [.integer (Int32.ofNat given.length)] := by
  intro rows given
  have everyPage : Enough rounds chain := by
    simp only [Enough]
    omega
  obtain ⟨iter, calls, begun, ahead⟩ := TableScan.init_begins formed granted everyPage
  let begunScan : UpdateLedger := { s.child with
    scan := { s.child.scan with heap := { s.child.scan.heap with calls }, iter } }
  have childInit : (UpdateLedger.child schema predicate).init rounds s.child = some (.ok (), begunScan) :=
    Part.on_run begun
  have started : (loggedPlan updatePage schema predicate sets).init rounds s = some (.ok (), ⟨begunScan, false⟩) :=
    Code.bind_ok (Part.on_run childInit) _
  obtain ⟨s', loop, formed', calls', left⟩ :=
    loop_asks (s := ⟨begunScan, true⟩) does (formed.withCalls calls) granted
    ahead total notEmpty (List.nil_append _).symm (by omega : _ < rounds) enough 0
  obtain ⟨tuple, ran, counted⟩ := nextModify_run (s := ⟨begunScan, false⟩) rfl loop
  rw [Int32.zero_add] at counted
  exact ⟨tuple, s', (Code.bind_ok started _).trans ran, formed', calls', left, counted⟩

/-- After `Init` and `Next`, `UpdateTuple` was called once for each row that the predicate held of and for no other row.
Each row whose page took the new tuple holds, under its RID, the values of the SET expressions on its old values, the
other columns being as they were; all other rows are as they were. The count is the number of rows replaced. -/
def Updates (updatePage : TablePage → ℕ → List UInt8 → TablePage × Bool) (columns : List Column)
    (predicate : Option (Expression F)) (setExprs : List (String × Expression F)) (table : List (List (Value UInt32)))
    (s : OneChild UpdateLedger Bool) (chain : List PageId) (rounds : ℕ) : Prop :=
  let rows := contents s.child.scan.heap.data chain
  let plan := loggedPlan updatePage (Schema.new columns) predicate (updateExpressions (Schema.new columns) setExprs)
  ∃ tuple s', (plan.init rounds >>= fun _ => plan.next rounds) s = some (.ok (some tuple), s') ∧
    WellFormed s'.child.scan.heap chain ∧
    s'.child.calls.map Prod.fst =
      (rows.filter (TableScan.selects (Schema.new columns) predicate)).map Prod.fst ∧
    List.Forall₂ (fun (row, old) row' => row'.1 = row.1 ∧
        if (row.1, true) ∈ s'.child.calls then ∃ new, Sets columns setExprs old new ∧ Holds columns row' new
        else row' = row)
      (rows.zip table) (contents s'.child.scan.heap.data chain) ∧
    tuple.values = [.integer (Int32.ofNat (s'.child.calls.countP Prod.snd))]

section Statement

variable {columns : List Column} {setExprs : List (String × Expression F)} {table : List (List (Value UInt32))}

/-- What a row of typed values gets. -/
theorem replacement_typed (plain : Plain columns) {row : Rid × List UInt8} {old : List (Value UInt32)}
    (holds : Holds columns row old) (live : row.2 ≠ []) (reads : ReadsColumns (Schema.new columns) predicate)
    (total : ∃ verdict, Expression.holds predicate (rowOf old) = .ok verdict)
    (typed : Expression.holds predicate (rowOf old) = .ok true → SetsTyped columns setExprs old)
    (small : ∀ new, Sets columns setExprs old new → Matches columns new → packedLength new < 2 ^ 32) :
    let sets := updateExpressions (Schema.new columns) setExprs
    (∃ changed, changeOf (Schema.new columns) predicate (leaves (Schema.new columns) sets) row = .ok changed) ∧
      (TableScan.selects (Schema.new columns) predicate row = false ∧
          replacement (Schema.new columns) predicate sets row = none ∨
        TableScan.selects (Schema.new columns) predicate row = true ∧ ∃ bytes new,
          replacement (Schema.new columns) predicate sets row = some bytes ∧ bytes ≠ [] ∧
          Sets columns setExprs old new ∧ Holds columns (row.1, bytes) new) := by
  intro sets
  have same := (holds.standsFor plain).holds_eq reads
  obtain ⟨verdict, decided⟩ := total
  have asked := same.trans decided
  cases verdict with
  | false =>
    exact ⟨⟨none, changeOf_rejected asked⟩,
      .inl ⟨by simp [TableScan.selects, asked], replacement_rejected asked⟩⟩
  | true =>
    obtain ⟨new, matched, set, built⟩ := exists_newTuple plain holds (typed decided)
    have fits := small new set matched
    have length := (Tuple.new_eq matched.present fits).2
    have computed : leaves (Schema.new columns) sets ⟨row.1, old.flatMap Value.serialized, old⟩ =
        .ok (some (new.flatMap Value.serialized)) := by
      rw [leaves, built fits]
      change Except.ok (some ((new.flatMap Value.serialized).take ((new.flatMap Value.serialized).length % 2 ^ 32))) = _
      rw [length, Nat.mod_eq_of_lt fits, ← length, List.take_length]
    have chosen : changeOf (Schema.new columns) predicate (leaves (Schema.new columns) sets) row =
        .ok (some (some (new.flatMap Value.serialized))) := by
      rw [changeOf_selected asked, holds.populated plain]
      change (leaves (Schema.new columns) sets _ >>= _) = _
      rw [computed]
      rfl
    have columnsNonempty : columns ≠ [] := by
      rintro rfl
      have empty := holds.typed.length_eq
      rw [List.length_nil, eq_comm, List.length_eq_zero_iff] at empty
      rw [holds.bytes, empty] at live
      exact live rfl
    refine ⟨⟨_, chosen⟩, .inr ⟨by simp [TableScan.selects, asked], new.flatMap Value.serialized, new,
      by rw [replacement, chosen], ?_, set, matched, fits, rfl⟩⟩
    have positive := List.length_pos_iff.mpr columnsNonempty
    have longer := matched.length_le
    exact List.ne_nil_of_length_pos (by omega)

/-- The counts agree if their difference is a multiple of `2 ^ 32`. -/
theorem ofNat_add_eq_iff (a b : ℕ) : Int32.ofNat (a + b) = Int32.ofNat a ↔ 2 ^ 32 ∣ b := by
  rw [← Int32.toBitVec_inj, Int32.toBitVec_ofNat', Int32.toBitVec_ofNat', BitVec.toNat_eq, BitVec.toNat_ofNat,
    BitVec.toNat_ofNat]
  omega

/-- `UpdateTuple` being taken as replacing the tuple in its slot or refusing: an `UPDATE` does what it should, and
returns the number of rows that it has replaced, if and only if no page refuses a new tuple, up to multiples of
`2 ^ 32`. -/
theorem plan_updates_iff (does : ReplacesOrRefuses updatePage) (plain : Plain columns)
    (formed : WellFormed s.child.scan.heap chain) (granted : ∀ call, s.child.scan.heap.grants call = true)
    (fresh : s.child.calls = []) (holds : List.Forall₂ (Holds columns) (contents s.child.scan.heap.data chain) table)
    (reads : ReadsColumns (Schema.new columns) predicate)
    (total : ∀ old ∈ table, ∃ verdict, Expression.holds predicate (rowOf old) = .ok verdict)
    (typed : ∀ old ∈ table, Expression.holds predicate (rowOf old) = .ok true → SetsTyped columns setExprs old)
    (small : ∀ old ∈ table, ∀ new, Sets columns setExprs old new → Matches columns new →
      packedLength new < 2 ^ 32)
    (enough : chain.length + 1020 + (contents s.child.scan.heap.data chain).length < rounds) :
    Updates updatePage columns predicate setExprs table s chain rounds ↔
      2 ^ 32 ∣ refusals updatePage (replacement (Schema.new columns) predicate
        (updateExpressions (Schema.new columns) setExprs)) s.child.scan.heap.data
        (contents s.child.scan.heap.data chain) := by
  obtain ⟨sameLength, zipped⟩ := List.forall₂_iff_zip.mp holds
  have firsts : ((contents s.child.scan.heap.data chain).zip table).map Prod.fst =
      contents s.child.scan.heap.data chain := List.map_fst_zip sameLength.le
  have facts (row : Rid × List UInt8) (old : List (Value UInt32))
      (mem : (row, old) ∈ (contents s.child.scan.heap.data chain).zip table) := by
    have listed := (List.of_mem_zip mem).2
    have live : row.2 ≠ [] := by
      obtain ⟨-, held⟩ := mem_contents_iff.mp (List.of_mem_zip mem).1
      exact live_ne_nil held
    exact replacement_typed plain (zipped mem) live reads (total old listed) (typed old listed) (small old listed)
  have pair (row : Rid × List UInt8) (mem : row ∈ contents s.child.scan.heap.data chain) :
      ∃ old, (row, old) ∈ (contents s.child.scan.heap.data chain).zip table := by
    rw [← firsts] at mem
    obtain ⟨⟨_, old⟩, listed, rfl⟩ := List.mem_map.mp mem
    exact ⟨old, listed⟩
  have chosen (row : Rid × List UInt8) (mem : row ∈ contents s.child.scan.heap.data chain) :
      (replacement (Schema.new columns) predicate (updateExpressions (Schema.new columns) setExprs) row).isSome =
        TableScan.selects (Schema.new columns) predicate row := by
    obtain ⟨old, listed⟩ := pair row mem
    rcases (facts row old listed).2 with ⟨rejected, none'⟩ | ⟨selected, bytes, new, replaced, -⟩
    · rw [rejected, none']
      rfl
    · rw [selected, replaced]
      rfl
  have notEmpty (row : Rid × List UInt8) (mem : row ∈ contents s.child.scan.heap.data chain) :
      replacement (Schema.new columns) predicate (updateExpressions (Schema.new columns) setExprs) row ≠ some [] := by
    obtain ⟨old, listed⟩ := pair row mem
    rcases (facts row old listed).2 with ⟨-, none'⟩ | ⟨-, bytes, new, replaced, nonempty, -⟩
    · rw [none']
      exact nofun
    · rw [replaced]
      exact fun same => nonempty (Option.some.inj same)
  obtain ⟨tuple, s', ran, formed', calls, left, counted⟩ := plan_asks does formed granted
    (fun row mem => (facts row _ (pair row mem).choose_spec).1) notEmpty enough
  rw [fresh, List.nil_append] at calls
  have parts : s'.child.calls.length = s'.child.calls.countP Prod.snd + refusals updatePage
      (replacement (Schema.new columns) predicate (updateExpressions (Schema.new columns) setExprs))
      s.child.scan.heap.data (contents s.child.scan.heap.data chain) := by
    rw [refusals, ← calls, List.length_eq_countP_add_countP Prod.snd]
    simp only [Bool.not_eq_true, Bool.decide_eq_false]
  rw [← calls] at counted left
  have count : tuple.values = [.integer (Int32.ofNat (s'.child.calls.countP Prod.snd))] ↔
      2 ^ 32 ∣ refusals updatePage
      (replacement (Schema.new columns) predicate (updateExpressions (Schema.new columns) setExprs))
      s.child.scan.heap.data (contents s.child.scan.heap.data chain) := by
    rw [counted, parts, ← ofNat_add_eq_iff (s'.child.calls.countP Prod.snd)]
    simp
  constructor
  · rintro ⟨tuple', s'', ran', -, -, -, same⟩
    rw [ran] at ran'
    cases ran'
    exact count.mp same
  · intro divides
    refine ⟨tuple, s', ran, formed', ?_, ?_, count.mpr divides⟩
    · rw [calls, answers_rids, List.filter_congr chosen]
    · have mapped : contents s'.child.scan.heap.data chain = ((contents s.child.scan.heap.data chain).zip table).map
          (answered (replacement (Schema.new columns) predicate (updateExpressions (Schema.new columns) setExprs))
            s'.child.calls ∘ Prod.fst) := by
        rw [left, ← List.map_map, firsts]
      rw [mapped, List.forall₂_map_right_iff, List.forall₂_same]
      rintro ⟨row, old⟩ listed
      refine ⟨rfl, ?_⟩
      dsimp only [Function.comp]
      rcases (facts row old listed).2 with ⟨-, none'⟩ | ⟨-, bytes, new, replaced, -, set, held⟩
      · have same : answered (replacement (Schema.new columns) predicate
            (updateExpressions (Schema.new columns) setExprs)) s'.child.calls row = row := by
          rw [answered, none', Option.getD_none, ite_self]
        rw [if_neg, same]
        intro mem
        have given := List.mem_map_of_mem (f := Prod.fst) mem
        rw [calls, answers_rids] at given
        obtain ⟨other, kept, sameRid⟩ := List.mem_map.mp given
        obtain ⟨mem', isSome⟩ := List.mem_filter.mp kept
        have rids := nodup_of_ordered (contents_ordered s.child.scan.heap.data formed.nodup)
        obtain rfl := List.inj_on_of_nodup_map rids mem' (List.of_mem_zip listed).1 sameRid
        rw [none'] at isSome
        cases isSome
      · split_ifs with mem
        · refine ⟨new, set, ?_⟩
          rw [answered, if_pos mem, replaced]
          exact held
        · rw [answered, if_neg mem]

end Statement

section Instances

/-- `UpdateTuple`, where the page has room for the whole new tuple. -/
def updateWithRoom (page : TablePage) (slot : ℕ) (new : List UInt8) : TablePage × Bool :=
  if page.getFreeSpaceRemaining < new.length then (page, false) else page.updateBytes slot new

theorem updateWithRoom_replaces : ReplacesOrRefuses updateWithRoom := by
  intro page slot old new laid held notEmpty
  rw [updateWithRoom]
  split_ifs with short
  · exact .inl rfl
  · obtain ⟨page', replaced, laid', live, number, link, -⟩ := laid.update held notEmpty (not_lt.mp short)
    exact .inr ⟨page', replaced, laid', live, number, link⟩

/-- The columns of `CREATE TABLE t (a BOOLEAN)`. -/
def flagColumns : List Column := [Column.new "a" .boolean 0]

/-- `SET a = false`. -/
def setFalse : List (String × Expression ℚ) := [("a", .constantValue (.boolean false))]

theorem setFalse_typed (old : List (Value UInt32)) : SetsTyped flagColumns setFalse old := by
  intro column mem e item
  obtain rfl := List.mem_singleton.mp mem
  obtain rfl : Expression.constantValue (.boolean false) = e := Option.some.inj item
  exact ⟨trivial, _, rfl, rfl, rfl⟩

theorem flagColumns_small {new : List (Value UInt32)} (matched : Matches flagColumns new) :
    packedLength new < 2 ^ 32 := by
  obtain ⟨value, rest, ⟨isType, -⟩, empty, rfl⟩ := List.forall₂_cons_left_iff.mp matched
  obtain rfl := List.forall₂_nil_left_iff.mp empty
  cases value with
  | boolean b => simp [Value.packedSize]
  | null typeId => simp [Value.packedSize]
  | _ => cases isType

/-- `UPDATE t SET a = false WHERE a` on the heap with gaps. -/
theorem plan_updates_iff_gaps :
    Updates updateWithRoom flagColumns isSet setFalse
        [[.boolean true], [.boolean false], [.boolean true], [.boolean false]]
        ⟨⟨{ heap := gaps [1] [0] }, []⟩, false⟩ [0, 1, 2] 1030 ↔
      2 ^ 32 ∣ refusals updateWithRoom (replacement (Schema.new flagColumns) isSet
        (updateExpressions (Schema.new flagColumns) setFalse)) (gaps [1] [0]).data
        (contents (gaps [1] [0]).data [0, 1, 2]) := by
  have rows := @gaps_contents [1] [0] (by decide) (by decide)
  refine plan_updates_iff (s := ⟨⟨{ heap := gaps [1] [0] }, []⟩, false⟩) updateWithRoom_replaces ⟨nofun, ?_⟩
    (gaps_wellFormed (by decide) (by decide)) (fun _ => rfl) rfl ?_ ?_ ?_ (fun old _ _ => setFalse_typed old)
    (fun old _ new _ matched => flagColumns_small matched) (by simp [rows])
  · rintro column mem
    obtain rfl := List.mem_singleton.mp mem
    exact .inl (.inl rfl)
  · rw [rows]
    have held (b : Bool) (rid : Rid) : Holds flagColumns (rid, [if b then 1 else 0]) [.boolean b] := by
      refine ⟨.cons ⟨rfl, rfl⟩ .nil, by simp [Value.packedSize], ?_⟩
      cases b <;> rfl
    exact .cons (held true _) (.cons (held false _) (.cons (held true _) (.cons (held false _) .nil)))
  · rintro e ⟨⟩
    exact Nat.zero_lt_one
  · simp only [List.forall_mem_cons]
    exact ⟨⟨true, rfl⟩, ⟨false, rfl⟩, ⟨true, rfl⟩, ⟨false, rfl⟩, fun old mem =>
      absurd mem List.not_mem_nil⟩

/-- The columns of `CREATE TABLE t (a BOOLEAN, s VARCHAR)`. -/
def flagAndText : List Column := [Column.new "a" .boolean 0, Column.new "s" .varchar 0]

/-- `(true, 'abcd')`. -/
def shortRow : List (Value UInt32) := [.boolean true, .varchar (ascii "abcd")]

/-- A row that fills the rest of a page. -/
def longRow : List (Value UInt32) := [.boolean false, .varchar (List.replicate 4053 98)]

/-- `SET s = 'abcdefghijklmnop'`. -/
def setText : List (String × Expression ℚ) := [("s", .constantValue (.varchar (ascii "abcdefghijklmnop")))]

theorem shortRow_matches : Matches flagAndText shortRow ∧ packedLength shortRow = 9 :=
  ⟨.cons ⟨rfl, rfl⟩ (.cons ⟨rfl, rfl⟩ .nil), by simp [shortRow, Value.packedSize, ascii]⟩

theorem longRow_matches : Matches flagAndText longRow ∧ packedLength longRow = 4058 :=
  ⟨.cons ⟨rfl, rfl⟩ (.cons ⟨rfl, rfl⟩ .nil), by
    rw [longRow, packedLength_cons, packedLength_cons, packedLength_nil, Value.packedSize, Value.packedSize,
      List.length_replicate]⟩

theorem setText_typed (old : List (Value UInt32)) : SetsTyped flagAndText setText old := by
  intro column mem e item
  simp only [flagAndText, List.mem_cons, List.not_mem_nil, or_false] at mem
  rcases mem with rfl | rfl
  · cases item
  · obtain rfl : Expression.constantValue (.varchar (ascii "abcdefghijklmnop")) = e := Option.some.inj item
    exact ⟨trivial, _, rfl, rfl, rfl⟩

theorem setText_small {old new : List (Value UInt32)} (set : Sets flagAndText setText old new)
    (matched : Matches flagAndText new) : packedLength new < 2 ^ 32 := by
  obtain ⟨flag, rest, ⟨isType, present⟩, others, rfl⟩ := List.forall₂_cons_left_iff.mp matched
  obtain ⟨text, rest, -, empty, rfl⟩ := List.forall₂_cons_left_iff.mp others
  obtain rfl := List.forall₂_nil_left_iff.mp empty
  obtain ⟨value, computed, stored⟩ := set.set 1 (Column.new "s" .varchar 0) _ rfl rfl
  obtain rfl := Except.ok.inj computed
  obtain rfl := Option.some.inj stored
  cases flag with
  | boolean b => simp [Value.packedSize, Value.toStored, ascii]
  | null typeId => simp [Value.isNull] at present
  | _ => cases isType

theorem flagAndText_plain : Plain flagAndText := by
  refine ⟨fun column mem => .inl ?_, fun column mem => ?_⟩
  · obtain rfl := List.mem_singleton.mp mem
    rfl
  · simp only [flagAndText, List.mem_cons, List.not_mem_nil, or_false] at mem
    rcases mem with rfl | rfl
    · exact .inl (.inl rfl)
    · exact .inr rfl

/-- The heap with gaps, full of these rows. -/
def fullHeap : TableHeap := gaps (shortRow.flatMap Value.serialized) (longRow.flatMap Value.serialized)

theorem shortRow_holds (rid : Rid) : Holds flagAndText (rid, shortRow.flatMap Value.serialized) shortRow :=
  ⟨shortRow_matches.1, shortRow_matches.2.trans_lt (by decide), rfl⟩

theorem longRow_holds (rid : Rid) : Holds flagAndText (rid, longRow.flatMap Value.serialized) longRow :=
  ⟨longRow_matches.1, longRow_matches.2.trans_lt (by decide), rfl⟩

theorem fullHeap_bounds : (shortRow.flatMap Value.serialized ≠ [] ∧ longRow.flatMap Value.serialized ≠ []) ∧
    (shortRow.flatMap Value.serialized).length + (longRow.flatMap Value.serialized).length = 4067 := by
  have short := (shortRow_holds ⟨0, 0⟩).length.trans shortRow_matches.2
  have long := (longRow_holds ⟨0, 0⟩).length.trans longRow_matches.2
  dsimp only at short long
  refine ⟨⟨List.ne_nil_of_length_pos (by omega), List.ne_nil_of_length_pos (by omega)⟩, by omega⟩

/-- Its first page and its last have no byte left. -/
theorem fullHeap_freeSpace :
    getFreeSpaceRemaining (fullHeap.data 0) = 0 ∧ getFreeSpaceRemaining (fullHeap.data 2) = 0 := by
  obtain ⟨notEmpty, sizes⟩ := fullHeap_bounds
  obtain ⟨-, -, -, free⟩ := gappedPage_spec notEmpty sizes.le
  rw [sizes] at free
  exact ⟨(setNextPageId_freeSpace _ _).trans free, free⟩

/-- `UPDATE t SET s = 'abcdefghijklmnop' WHERE a` on full pages: both new tuples are refused, and both are counted. -/
theorem counts_refusals : ReplacesOrRefuses updateWithRoom ∧ WellFormed fullHeap [0, 1, 2] ∧ Plain flagAndText ∧
    List.Forall₂ (Holds flagAndText) (contents fullHeap.data [0, 1, 2]) [shortRow, longRow, shortRow, longRow] ∧
    (∀ old, SetsTyped flagAndText setText old) ∧
    ¬ Updates updateWithRoom flagAndText isSet setText [shortRow, longRow, shortRow, longRow]
      ⟨⟨{ heap := fullHeap }, []⟩, false⟩ [0, 1, 2] 1030 := by
  obtain ⟨notEmpty, sizes⟩ := fullHeap_bounds
  obtain ⟨free0, free2⟩ := fullHeap_freeSpace
  have rows : contents fullHeap.data [0, 1, 2] = _ := gaps_contents notEmpty sizes.le
  have formed : WellFormed fullHeap [0, 1, 2] := gaps_wellFormed notEmpty sizes.le
  have reads : ReadsColumns (Schema.new flagAndText) isSet := by
    rintro e ⟨⟩
    exact Nat.zero_lt_two
  have short (rid : Rid) : (∃ changed, changeOf (Schema.new flagAndText) isSet (leaves (Schema.new flagAndText)
      (updateExpressions (Schema.new flagAndText) setText)) (rid, shortRow.flatMap Value.serialized) = .ok changed) ∧
      ∃ bytes, bytes ≠ [] ∧ replacement (Schema.new flagAndText) isSet
        (updateExpressions (Schema.new flagAndText) setText) (rid, shortRow.flatMap Value.serialized) = some bytes := by
    obtain ⟨total, outcome⟩ :=
      replacement_typed flagAndText_plain (shortRow_holds rid) notEmpty.1 reads ⟨true, rfl⟩
      (fun _ => setText_typed shortRow) (fun new set matched => setText_small set matched)
    rcases outcome with ⟨rejected, -⟩ | ⟨-, bytes, -, replaced, nonempty, -⟩
    · have holds := ((shortRow_holds rid).standsFor flagAndText_plain).holds_eq reads
      rw [TableScan.selects, holds] at rejected
      cases rejected
    · exact ⟨total, bytes, nonempty, replaced⟩
  have long (rid : Rid) : Expression.holdsOn isSet (Schema.new flagAndText)
      (stored (rid, longRow.flatMap Value.serialized)) = .ok false :=
    ((longRow_holds rid).standsFor flagAndText_plain).holds_eq reads
  refine ⟨updateWithRoom_replaces, formed, flagAndText_plain, ?_, setText_typed, ?_⟩
  · rw [rows]
    exact .cons (shortRow_holds _) (.cons (longRow_holds _) (.cons (shortRow_holds _) (.cons (longRow_holds _) .nil)))
  rintro ⟨tuple, s', ran, -, -, -, counted⟩
  obtain ⟨total0, bytes0, nonempty0, replaced0⟩ := short ⟨0, 0⟩
  obtain ⟨total2, bytes2, nonempty2, replaced2⟩ := short ⟨2, 0⟩
  have refused0 : updateWithRoom (fullHeap.data 0) 0 bytes0 = (fullHeap.data 0, false) := by
    rw [updateWithRoom, free0, if_pos (List.length_pos_iff.mpr nonempty0)]
  have refused2 : updateWithRoom (fullHeap.data 2) 0 bytes2 = (fullHeap.data 2, false) := by
    rw [updateWithRoom, free2, if_pos (List.length_pos_iff.mpr nonempty2)]
  obtain ⟨tuple', s'', ran', -, calls, -, two⟩ := plan_asks (s := ⟨⟨{ heap := fullHeap }, []⟩, false⟩)
    updateWithRoom_replaces formed (fun _ => rfl) (by
      rw [rows]
      simp only [List.forall_mem_cons]
      exact ⟨total0, ⟨none, changeOf_rejected (long _)⟩, total2, ⟨none, changeOf_rejected (long _)⟩,
        fun row mem => absurd mem List.not_mem_nil⟩) (by
      rw [rows]
      simp only [List.forall_mem_cons, replaced0, replaced2, replacement_rejected (long _)]
      simp [nonempty0, nonempty2]) (by rw [rows]; decide : [0, 1, 2].length + 1020 + _ < 1030)
  dsimp only at calls two
  rw [rows] at calls two
  simp only [answers, replaced0, replacement_rejected (long _), replaced2, refused0, Function.update_eq_self,
    refused2] at calls two
  rw [ran] at ran'
  cases ran'
  rw [two, calls] at counted
  exact absurd counted (by decide)

end Instances

end UpdateExecutor

end OneBase
