import OneBase.Proofs.Query.RowChanges

/-! # INSERT … SELECT from another table

`InsertExecutor` over a sequential scan of another table in the same pool inserts the rows that the scan hands out, one
each, and leaves the scanned table alone.
-/

namespace OneBase

open ExceptLoops ExceptRuns TableHeap TablePage

namespace TableHeap

variable {heap heap' : TableHeap} {chain chain' : List PageId} {tuple : List UInt8} {result : Option Rid}
  {data data' : PageId → TablePage} {rid : Rid} {rows : Rows}

/-- An insertion touches the pages of its chain and the page that it allocates. -/
theorem Insertion.frame (insertion : Insertion tuple heap chain result heap') {p : PageId} (off : p ∉ chain)
    (old : p ≠ heap.nextPageId) : heap'.data p = heap.data p := by
  cases insertion with
  | placed before after pageId slot page calls split took =>
    have mem : pageId ∈ chain := by simp [split]
    exact Function.update_of_ne (ne_of_mem_of_not_mem mem off).symm _ _
  | refused calls call early refused => rfl
  | extended before last page slot calls split fresh full granted =>
    have mem : last ∈ chain := by simp [split]
    dsimp only
    rw [Function.update_of_ne (ne_of_mem_of_not_mem mem off).symm, Function.update_of_ne old]

/-- At most one page is allocated. -/
theorem Insertion.allocates (insertion : Insertion tuple heap chain result heap') :
    heap.nextPageId ≤ heap'.nextPageId ∧ heap'.nextPageId ≤ heap.nextPageId + 1 := by
  cases insertion with
  | placed => exact ⟨le_rfl, (Int.lt_succ _).le⟩
  | refused => exact ⟨le_rfl, (Int.lt_succ _).le⟩
  | extended => exact ⟨(Int.lt_succ _).le, le_rfl⟩

theorem remaining_congr (same : ∀ p ∈ chain, data' p = data p) (slot : ℕ) :
    remaining data' slot chain = remaining data slot chain := by
  cases chain with
  | nil => rfl
  | cons p after =>
    rw [remaining, remaining, same p (List.mem_cons_self ..)]
    refine congrArg₂ (· ++ ·) rfl (contents_congr fun q mem => ?_)
    rw [same q (List.mem_cons_of_mem _ mem)]

/-- What lies ahead depends on the pages of the chain. -/
theorem Ahead.congr (ahead : Ahead data chain rid rows) (same : ∀ p ∈ chain, data' p = data p) :
    Ahead data' chain rid rows := by
  obtain ⟨stands, before, suffix, slot, rfl, rows⟩ := ahead
  refine ⟨stands, before, suffix, slot, rfl, ?_⟩
  rw [rows, remaining_congr fun p mem => same p (List.mem_append_right _ mem)]

/-- A heap whose pages are left alone stays well-formed. -/
theorem WellFormed.congr (formed : WellFormed heap chain) (first : heap'.firstPageId = heap.firstPageId)
    (more : heap.nextPageId ≤ heap'.nextPageId) (same : ∀ p ∈ chain, heap'.data p = heap.data p) :
    WellFormed heap' chain := by
  refine ⟨?_, formed.nonempty, formed.nodup, fun p mem => ?_, fun p mem => ?_⟩
  · rw [first]
    exact formed.linked.congr fun p mem => congrArg TablePage.getNextPageId (same p mem)
  · exact ⟨(formed.allocated p mem).1, (formed.allocated p mem).2.trans_le more⟩
  · rw [same p mem]
    exact formed.laid p mem

end TableHeap

variable {F : Type} [StoresFloat F] [Field F] [LinearOrder F]

/-- The values of a tuple that a scan hands out are read under any schema. -/
theorem Tuple.keyTuple_populated {schema tableSchema : Schema} {tuple read : Tuple}
    (made : tuple.populated schema = .ok read) {info : IndexInfo}
    (attrs : ∀ attr ∈ info.keyAttrs, attr < schema.getColumnCount) :
    info.keyTuple tableSchema read = info.keyTuple schema read := by
  have count := (Tuple.populated_spec made).2.length_eq
  rw [List.length_range] at count
  have columns : info.keyAttrs.mapM (read.column tableSchema) = info.keyAttrs.mapM (read.column schema) := by
    apply mapM_congr
    intro attr mem
    have bound : attr < read.values.length := count ▸ attrs attr mem
    have full : read.values ≠ [] := List.ne_nil_of_length_pos (Nat.zero_lt_of_lt bound)
    rw [Tuple.column, Tuple.column, Tuple.getValue, Tuple.getValue, if_pos ⟨by simp [full], bound⟩,
      if_pos ⟨by simp [full], bound⟩]
  rw [IndexInfo.keyTuple, IndexInfo.keyTuple, columns]

/-- The bytes that `InsertTuple` stores. -/
def Tuple.payload (tuple : Tuple) : List UInt8 := tuple.data.take tuple.getLength

namespace ScanBeside

/-- Two tables in one pool that share no page, with frames for every page. -/
structure Apart (s : ScanBeside) (source target : List PageId) : Prop where
  scanned : WellFormed s.scan.heap source
  filled : WellFormed (onTarget.read s) target
  apart : ∀ p ∈ source, p ∉ target
  granted : ∀ call, s.scan.heap.grants call = true

variable {schema tableSchema : Schema} {indexes : List IndexInfo} {s : OneChild ScanBeside Bool}
  {source target : List PageId} {rounds : ℕ} {rows : Rows} {predicate : Option (Expression F)}

/-- `Next` moves the scan only. -/
theorem Apart.next {s : ScanBeside} (apart : Apart s source target) (calls : ℕ) (iter : Rid)
    (visited : List (Tuple × TablePage)) :
    Apart { s with scan := { heap := { s.scan.heap with calls }, iter, visited } } source target :=
  ⟨apart.scanned.withCalls calls, apart.filled.withCalls calls, apart.apart, apart.granted⟩

/-- Inserting a row that the scan of the other table has handed out. -/
theorem Apart.insertRow_run (apart : Apart s.child source target) (inRange : s.child.scan.heap.nextPageId < 2 ^ 31)
    (ahead : Ahead s.child.scan.heap.data source s.child.scan.iter rows) {tuple : Tuple}
    (positive : 1 ≤ tuple.getLength) (small : tuple.getLength ≤ 4076)
    (keys : ∀ info ∈ indexes, info.keyTuple tableSchema tuple = .ok ()) (enough : target.length < rounds)
    (count : Int32) :
    ∃ rid child target' earlier later,
      InsertExecutor.insertRow ⟨tableSchema, indexes, onTarget⟩ rounds count tuple s =
        some (.ok (count + 1), { s with child }) ∧
      Apart child source target' ∧ target'.length ≤ target.length + 1 ∧
      child.scan.heap.nextPageId ≤ s.child.scan.heap.nextPageId + 1 ∧
      Ahead child.scan.heap.data source child.scan.iter rows ∧
      contents child.scan.heap.data source = contents s.child.scan.heap.data source ∧
      contents s.child.scan.heap.data target = earlier ++ later ∧
      contents child.scan.heap.data target' = earlier ++ (rid, tuple.payload) :: later := by
  have formed := apart.filled
  obtain ⟨result, heap', ran, insertion⟩ := insertFrom_run tuple.payload formed.linked formed.nonempty
    (fun p mem => (formed.allocated p mem).2.ne) enough
  obtain ⟨rid, rfl⟩ := insertion.succeeds apart.granted (by rw [Tuple.payload, length_payload]; exact small)
  obtain ⟨target', earlier, later, formed', longer, before, after⟩ := insertion.adds formed inRange
  have notEmpty : tuple.payload ≠ [] := by
    rw [← List.length_pos_iff, Tuple.payload, length_payload]
    exact positive
  have same (p : PageId) (mem : p ∈ source) : heap'.data p = s.child.scan.heap.data p :=
    insertion.frame (apart.apart p mem) (apart.scanned.allocated p mem).2.ne
  have inserted : onTarget.on (heapCode (TableHeap.insertTuple rounds tuple)) s.child =
      some (.ok (some rid), onTarget.write s.child heap') := by
    apply Part.on_run
    rw [heapCode, insertTuple_eq]
    change (insertFrom tuple.payload rounds _ _).map _ = _
    rw [ran]
    rfl
  refine ⟨rid, onTarget.write s.child heap', target', earlier, later, ?_, ⟨?_, ?_, fun p mem => ?_, ?_⟩, ?_, ?_,
    ?_, ?_, before,
    ?_⟩
  · exact (Code.bind_ok (Part.on_run inserted) _).trans ((Code.bind_ok (keyTuples_run keys _) _).trans rfl)
  · exact apart.scanned.congr rfl insertion.allocates.1 same
  · exact formed'
  · rcases longer with rfl | rfl
    · exact apart.apart p mem
    · rw [List.mem_append, List.mem_singleton, not_or]
      exact ⟨apart.apart p mem, (apart.scanned.allocated p mem).2.ne⟩
  · change ∀ call, heap'.grants call = true
    rw [insertion.grants_eq]
    exact apart.granted
  · rcases longer with rfl | rfl
    · exact Nat.le_succ _
    · rw [List.length_append, List.length_singleton]
  · exact insertion.allocates.2
  · exact ahead.congr same
  · exact contents_congr fun p mem => by rw [← same p mem]; rfl
  · change contents heap'.data target' = _
    rw [after, added, Option.bind_some, asRow, if_neg notEmpty]
    simp

/-- The code ends with this result; the scanned table is as before, and the other one has these tuples more. -/
def Fills {β : Type} (m : Code String (OneChild ScanBeside Bool) β) (s : OneChild ScanBeside Bool)
    (source target : List PageId) (result : Except String β) (tuples : List Tuple) : Prop :=
  ∃ (s' : OneChild ScanBeside Bool) (target' : List PageId) (rids : List Rid), m s = some (result, s') ∧
    Apart s'.child source target' ∧
    contents s'.child.scan.heap.data source = contents s.child.scan.heap.data source ∧
    rids.length = tuples.length ∧
    (contents s'.child.scan.heap.data target').Perm
      (contents s.child.scan.heap.data target ++ rids.zip (tuples.map Tuple.payload))

/-- The loop over the rows ahead. -/
theorem Apart.loop_run (attrs : ∀ info ∈ indexes, ∀ attr ∈ info.keyAttrs, attr < schema.getColumnCount)
    {rows : Rows}
    {fuel : ℕ} (apart : Apart s.child source target)
    (ahead : Ahead s.child.scan.heap.data source s.child.scan.iter rows)
    (sized : ∀ row ∈ rows, ∀ tuple, handOut schema predicate row = .ok (some tuple) →
      1 ≤ tuple.getLength ∧ tuple.getLength ≤ 4076)
    (inRange : (s.child.scan.heap.nextPageId : ℤ) + rows.length ≤ 2 ^ 31) (everyRow : rows.length < fuel)
    (enough : source.length + 1020 + rows.length < rounds) (enoughTarget : target.length + rows.length < rounds)
    (count : Int32) :
    Fills (whileNext (onChild.on ((child schema predicate).next rounds))
        (InsertExecutor.insertRow ⟨tableSchema, indexes, onTarget⟩ rounds) fuel count) s source target
      ((handOuts schema predicate rows).1.map fun _ => count + Int32.ofNat (handOuts schema predicate rows).2.length)
      (handOuts schema predicate rows).2 := by
  induction fuel generalizing s rows target count with
  | zero => omega
  | succ fuel ih =>
    obtain ⟨iter, calls, visited, came⟩ :=
      TableScan.next_cases schema predicate apart.scanned apart.granted ahead enough
    have moved := apart.next calls iter visited
    have pulls {result : Except String (Option Tuple)} (ran : TableScan.next schema predicate rounds s.child.scan =
        some (result, { heap := { s.child.scan.heap with calls }, iter, visited })) :
        onChild.on ((child schema predicate).next rounds) s = some (result,
          { s with child := { s.child with scan := { heap := { s.child.scan.heap with calls }, iter, visited } } }) :=
      Part.on_run (Part.on_run ran)
    -- nothing is inserted when the loop ends
    have stops {result : Except String Int32} (stopped : whileNext (onChild.on ((child schema predicate).next rounds))
        (InsertExecutor.insertRow ⟨tableSchema, indexes, onTarget⟩ rounds) (fuel + 1) count s = some (result,
          { s with child := { s.child with scan := { heap := { s.child.scan.heap with calls }, iter, visited } } })) :
        Fills (whileNext (onChild.on ((child schema predicate).next rounds))
          (InsertExecutor.insertRow ⟨tableSchema, indexes, onTarget⟩ rounds) (fuel + 1) count) s source
            target result [] :=
      ⟨_, target, [], stopped, moved, rfl, rfl, by simp⟩
    rcases came with ⟨ran, rejected⟩ | ⟨skipped, row, rest, rfl, before, later, here, outcome⟩
    · have empty : handOuts schema predicate (rows ++ []) = _ := handOuts_skip rejected
      rw [List.append_nil, handOuts] at empty
      rw [empty]
      refine stops ((Code.bind_ok (pulls ran) _).trans ?_)
      exact congrArg (fun total => some (Except.ok total, _)) (Int32.add_zero count).symm
    rw [handOuts_skip before, handOuts]
    rcases outcome with ⟨message, failed, ran⟩ | ⟨tuple, chosen, ran⟩
    · rw [failed]
      exact stops (Code.bind_error (pulls ran) _)
    rw [chosen]
    have made := (handOut_eq_some_iff.mp chosen).2
    obtain ⟨positive, small⟩ := sized row (by simp) tuple chosen
    obtain ⟨before', after, onChain, held, -⟩ := here.cons
    have laid := apart.scanned.laid row.1.pageId (by simp [onChain])
    have keys (info : IndexInfo) (mem : info ∈ indexes) : info.keyTuple tableSchema tuple = .ok () :=
      (Tuple.keyTuple_populated made (attrs info mem)).trans
        (Tuple.keyTuple_ok rfl (live_short laid held) made (attrs info mem))
    rw [List.length_append, List.length_cons] at everyRow enough enoughTarget inRange
    push_cast at inRange
    have left (next next' : ℤ) (room : next + (skipped.length + (rest.length + 1)) ≤ 2 ^ 31)
        (allocated : next' ≤ next + 1) :
        next < 2 ^ 31 ∧ next' + rest.length ≤ 2 ^ 31 := by omega
    have enoughNow : target.length < rounds := by omega
    obtain ⟨rid, child', target', earlier, others, done, apart', longer, ids, ahead', same, split, filled⟩ :=
      moved.insertRow_run (s := { s with child := { s.child with
        scan := { heap := { s.child.scan.heap with calls }, iter, visited } } }) (left _ _ inRange le_rfl).1 later
          positive small keys
        enoughNow count
    obtain ⟨s', target'', rids, run, apart'', same', counted, stored⟩ :=
      ih (s := { s with child := child' }) apart' ahead'
      (fun row mem => sized row (List.mem_append_right _ (List.mem_cons_of_mem _ mem)))
        (left _ _ inRange ids).2 (by omega)
      (by omega) (by omega) (count + 1)
    refine ⟨s', target'', rid :: rids,
      (Code.bind_ok (pulls ran) _).trans ((Code.bind_ok done _).trans (run.trans ?_)), apart'',
      same'.trans same, congrArg (· + 1) counted, ?_⟩
    · rw [count_next]
      rfl
    · refine stored.trans ?_
      rw [filled, split]
      change List.Perm _ (earlier ++ others ++ (rid, tuple.payload) :: rids.zip _)
      simp only [List.append_assoc, List.cons_append]
      refine List.Perm.append_left _ ?_
      exact List.perm_middle.symm

/-- `INSERT INTO t SELECT * FROM s WHERE …`. -/
def plan (schema tableSchema : Schema) (indexes : List IndexInfo) (predicate : Option (Expression F)) :
    TableExecutor (OneChild ScanBeside Bool) :=
  InsertExecutor.executor ⟨tableSchema, indexes, onTarget⟩ (child schema predicate)

/-- With frames for every page, and tuples that fit in a page: `Init` and `Next` of the statement insert the tuples
that the scan hands out, one each under a RID of its own, and return their number; the scanned table and the other
rows are as before. If an expression throws, the statement ends with that, and the tuples handed out before stay
inserted. -/
theorem plan_inserts (apart : Apart s.child source target)
    (attrs : ∀ info ∈ indexes, ∀ attr ∈ info.keyAttrs, attr < schema.getColumnCount)
    (sized : ∀ row ∈ contents s.child.scan.heap.data source, ∀ tuple, handOut schema predicate row =
      .ok (some tuple) →
      1 ≤ tuple.getLength ∧ tuple.getLength ≤ 4076)
    (inRange : s.child.scan.heap.nextPageId + (contents s.child.scan.heap.data source).length ≤ 2 ^ 31)
    (enough : source.length + 1020 + (contents s.child.scan.heap.data source).length < rounds)
    (enoughTarget : target.length + (contents s.child.scan.heap.data source).length < rounds) :
    let read := handOuts schema predicate (contents s.child.scan.heap.data source)
    ∃ result, Fills ((plan schema tableSchema indexes predicate).init rounds >>= fun _ =>
        (plan schema tableSchema indexes predicate).next rounds) s source target result read.2 ∧
      ((∃ message, read.1 = .error message ∧ result = .error message) ∨
        read.1 = .ok () ∧ ∃ tuple, result = .ok (some tuple) ∧
          tuple.values = [.integer (Int32.ofNat read.2.length)]) := by
  intro read
  have everyPage : Enough rounds source := by
    simp only [Enough]
    omega
  have everyRow : (contents s.child.scan.heap.data source).length < rounds := by omega
  obtain ⟨iter, calls, scanInit, ahead⟩ := TableScan.init_begins apart.scanned apart.granted everyPage
  have childInit : (child schema predicate).init rounds s.child = some (.ok (), { s.child with
      scan := { s.child.scan with heap := { s.child.scan.heap with calls }, iter } }) := Part.on_run scanInit
  have started : (plan schema tableSchema indexes predicate).init rounds s = some (.ok (), ⟨{ s.child with
      scan := { s.child.scan with heap := { s.child.scan.heap with calls }, iter } }, false⟩) :=
    Code.bind_ok (Part.on_run childInit) _
  have filled : Fills (whileNext (onChild.on ((child schema predicate).next rounds))
      (InsertExecutor.insertRow ⟨tableSchema, indexes, onTarget⟩ rounds) rounds 0) _ source target _ _ :=
    Apart.loop_run (s :=
      ⟨{ s.child with scan := { s.child.scan with heap := { s.child.scan.heap with calls }, iter } }, true⟩)
      attrs (apart.next calls iter s.child.scan.visited) ahead sized inRange everyRow enough enoughTarget 0
  obtain ⟨s', target', rids, loop, apart', same, counted, stored⟩ := filled
  cases outcome : (handOuts schema predicate (contents s.child.scan.heap.data source)).1 with
  | error message =>
    rw [outcome] at loop
    refine ⟨.error message, ⟨s', target', rids, (Code.bind_ok started _).trans ?_, apart', same, counted, stored⟩,
      .inl ⟨message, rfl, rfl⟩⟩
    refine (Code.bind_ok rfl _).trans ?_
    dsimp only
    rw [if_neg Bool.false_ne_true]
    exact (Code.bind_ok rfl _).trans (Code.bind_error loop _)
  | ok done =>
    rw [outcome] at loop
    obtain ⟨tuple, ran, values⟩ :
        ∃ tuple, (plan schema tableSchema indexes predicate).next rounds ⟨{ s.child with
        scan := { s.child.scan with heap := { s.child.scan.heap with calls }, iter } }, false⟩ =
          some (.ok (some tuple), s') ∧
          tuple.values = [.integer _] := nextModify_run rfl loop
    dsimp only at values
    rw [Int32.zero_add] at values
    refine ⟨.ok (some tuple),
      ⟨s', target', rids, (Code.bind_ok started _).trans ran, apart', same, counted, stored⟩,
      .inr ⟨rfl, tuple, rfl, values⟩⟩

/-- Two tables: the heap with gaps, and one of the page after it. -/
def twoTables : ScanBeside := ⟨{ heap := { gaps [1] [0] with
  nextPageId := 4
  data := Function.update (gaps [1] [0]).data 3 (gappedPage [1] [0]) } }, 3⟩

theorem twoTables_apart : Apart twoTables [0, 1, 2] [3] := by
  obtain ⟨linked, nonempty, nodup, -, laid⟩ := @gaps_wellFormed [1] [0] (by decide) (by decide)
  obtain ⟨laid3, -, ends, -⟩ := @gappedPage_spec [1] [0] (by decide) (by decide)
  have others (p : PageId) (mem : p ∈ [(0 : PageId), 1, 2]) : twoTables.scan.heap.data p = (gaps [1] [0]).data p :=
    Function.update_of_ne (ne_of_mem_of_not_mem mem (by decide)) _ _
  refine ⟨⟨linked.congr
    fun p mem => by rw [others p mem], nonempty, nodup, ?_, fun p mem => by rw [others p mem]; exact laid p mem⟩,
    ⟨⟨rfl, by decide, ends⟩, List.cons_ne_nil _ _, List.nodup_singleton _, ?_, ?_⟩, by decide, fun _ => rfl⟩
  · change ∀ p ∈ [(0 : ℤ), 1, 2], 0 ≤ p ∧ p < 4
    decide
  · change ∀ p ∈ [(3 : ℤ)], 0 ≤ p ∧ p < 4
    decide
  · intro p mem
    rw [List.mem_singleton.mp mem]
    exact laid3

theorem plan_inserts_twoTables :
    let read := handOuts flags isSet (contents twoTables.scan.heap.data [0, 1, 2])
    ∃ result, Fills ((plan flags flags [] isSet).init 1030 >>= fun _ => (plan flags flags [] isSet).next 1030)
        ⟨twoTables, false⟩ [0, 1, 2] [3] result read.2 ∧
      ((∃ message, read.1 = .error message ∧ result = .error message) ∨
        read.1 = .ok () ∧ ∃ tuple, result = .ok (some tuple) ∧
          tuple.values = [.integer (Int32.ofNat read.2.length)]) := by
  have rows := @gaps_contents [1] [0] (by decide) (by decide)
  have taken (rid : Rid) : handOut flags isSet (rid, [1]) =
      .ok (some { rid, data := [1], values := [.boolean true] }) := rfl
  have passed (rid : Rid) : handOut flags isSet (rid, [0]) = .ok none := rfl
  have rows' : contents twoTables.scan.heap.data [0, 1, 2] = _ := (contents_update (by decide)).trans rows
  refine plan_inserts (s := ⟨twoTables, false⟩) twoTables_apart (by simp) ?_ ?_ ?_ ?_
  · intro row mem tuple made
    rw [rows'] at mem
    simp only [List.mem_cons, List.not_mem_nil, or_false] at mem
    have selected : row.2 = [1] := by
      rcases mem with rfl | rfl | rfl | rfl
      · rfl
      · rw [passed] at made
        cases made
      · rfl
      · rw [passed] at made
        cases made
    obtain ⟨rid, bytes⟩ := row
    obtain rfl := selected
    rw [taken] at made
    obtain rfl := Option.some.inj (Except.ok.inj made)
    exact ⟨le_rfl, show 1 ≤ 4076 by decide⟩
  · rw [rows']
    decide
  · rw [rows']
    decide
  · rw [rows']
    decide

end ScanBeside

end OneBase
