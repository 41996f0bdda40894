import OneBase.Proofs.Query.InsertRows
import OneBase.Proofs.Query.Update

/-! # INSERT … SELECT from the same table

The scan meets the rows that the statement itself appends. On a table whose pages but the last are full, with two rows
that the predicate holds of, the statement does not come to an end: there is always a row ahead.
-/

namespace OneBase

open ExceptLoops ExceptRuns TableHeap TablePage

namespace TableHeap

variable {heap heap' : TableHeap} {chain : List PageId} {data : PageId → TablePage} {tuple : List UInt8} {size : ℕ}

theorem rowsFrom_split {page : TablePage} (pageId : PageId) {slot : ℕ} (within : slot ≤ page.getNumTuples) :
    ∃ passed, rowsFrom page pageId 0 = passed ++ rowsFrom page pageId slot := by
  have whole : List.range' 0 slot ++ List.range' (0 + slot) (page.getNumTuples - slot) =
    List.range' 0 (slot + (page.getNumTuples - slot)) := List.range'_append_1
  rw [Nat.zero_add, Nat.add_sub_cancel' within] at whole
  rw [rowsFrom, rowsFrom, Nat.sub_zero, ← whole, List.filterMap_append]
  exact ⟨_, rfl⟩

/-- In a list without repetition the part from an element on is determined. -/
theorem suffix_unique {α : Type} {a : α} {front front' back back' : List α} (nodup : (front ++ a :: back).Nodup)
    (same : front ++ a :: back = front' ++ a :: back') : back = back' := by
  induction front generalizing front' with
  | nil =>
    cases front' with
    | nil => exact (List.cons.inj same).2
    | cons b front' =>
      obtain ⟨rfl, rfl⟩ := List.cons.inj same
      exact absurd (by simp) (List.nodup_cons.mp nodup).1
  | cons b front ih =>
    cases front' with
    | nil =>
      obtain ⟨rfl, rfl⟩ := List.cons.inj same
      exact absurd (by simp) (List.nodup_cons.mp nodup).1
    | cons c front' => exact ih (List.nodup_cons.mp nodup).2 (List.cons.inj same).2

/-- The last rows of the chain are the rows ahead of the first of them. -/
theorem ahead_of_suffix (nodup : chain.Nodup) {row : Rid × List UInt8} {earlier rest : Rows}
    (split : contents data chain = earlier ++ row :: rest) : Ahead data chain row.1 (row :: rest) := by
  refine ⟨rfl, ?_⟩
  obtain ⟨mem, live⟩ := mem_contents_iff.mp (show (row.1, row.2) ∈ contents data chain by simp [split])
  obtain ⟨before, after, rfl⟩ := List.append_of_mem mem
  refine ⟨before, row.1.pageId :: after, row.1.slotNum, rfl, ?_⟩
  have numbered := (live_eq_some_iff.mp live).1
  obtain ⟨passed, page⟩ := rowsFrom_split row.1.pageId numbered.le
  have here : rowsFrom (data row.1.pageId) row.1.pageId row.1.slotNum =
      row :: rowsFrom (data row.1.pageId) row.1.pageId (row.1.slotNum + 1) := by
    rw [rowsFrom_of_lt numbered, live]
    rfl
  have other : contents data (before ++ row.1.pageId :: after) = (contents data before ++ passed) ++
      row :: (rowsFrom (data row.1.pageId) row.1.pageId (row.1.slotNum + 1) ++ contents data after) := by
    rw [contents_append, contents_cons, page, here]
    simp
  have distinct : (contents data (before ++ row.1.pageId :: after)).Nodup :=
    (nodup_of_ordered (contents_ordered data nodup)).of_map _
  rw [split] at other distinct
  rw [remaining, here, suffix_unique distinct other]
  rfl

/-- Pages but the last have no room for a tuple of this size. -/
def PagesFull (data : PageId → TablePage) (chain : List PageId) (size : ℕ) : Prop :=
  ∀ p ∈ chain.dropLast, (data p).getFreeSpaceRemaining < size + sizeTupleSlot

theorem insertBytes_full {page : TablePage} : (page.insertBytes tuple).2 = none ↔
    page.getFreeSpaceRemaining < tuple.length + sizeTupleSlot := by
  rw [insertBytes]
  split_ifs with full
  · simp [full]
  · simp [full]

/-- A tuple on a page fits in a new page. -/
theorem live_fits {page : TablePage} {slot : ℕ} {bytes : List UInt8} (laid : WellLaid page)
    (held : page.live slot = some bytes) : bytes.length ≤ 4076 := by
  have numbered := (live_eq_some_iff.mp held).1
  have low := laid.above
  have length := live_length held
  obtain ⟨below, inside⟩ := laid.inside slot bytes held
  simp only [slotOffset, sizeTablePageHeader, sizeTupleSlot, pageSize] at low inside
  omega

/-- On a packed chain a tuple of the size comes last, and the chain stays packed. -/
theorem Insertion.appends {result : Option Rid} (insertion : Insertion tuple heap chain result heap')
    (formed : WellFormed heap chain) (inRange : heap.nextPageId < 2 ^ 31) (packed : PagesFull heap.data chain size)
    (sized : tuple.length = size) : ∃ chain', WellFormed heap' chain' ∧ chain'.length ≤ chain.length + 1 ∧
      PagesFull heap'.data chain' size ∧ contents heap'.data chain' = contents heap.data chain ++
      added tuple result := by
  cases insertion with
  | placed before after pageId slot page calls split took =>
    obtain rfl : after = [] := by
      cases after with
      | nil => rfl
      | cons next after =>
        have early : pageId ∈ chain.dropLast := by
          rw [split, List.dropLast_append_of_ne_nil (List.cons_ne_nil _ _)]
          simp
        have full := packed pageId early
        rw [← sized, ← insertBytes_full, took] at full
        cases full
    obtain ⟨formed', rows⟩ := formed.place calls split took
    have nodup := formed.nodup
    rw [split] at nodup
    refine ⟨chain, formed', Nat.le_succ _, fun p early => ?_, ?_⟩
    · have other : p ≠ pageId := by
        rintro rfl
        rw [split, List.dropLast_concat] at early
        exact (List.nodup_append.mp nodup).2.2 p early p (List.mem_singleton_self _) rfl
      dsimp only
      rw [Function.update_of_ne other]
      exact packed p early
    · dsimp only
      rw [rows, ← split]
      exact List.append_nil _
  | refused calls call early refused =>
    exact ⟨chain, formed.withCalls calls, Nat.le_succ _, packed, by simp [added]⟩
  | extended before last page slot calls split fresh full _ =>
    obtain ⟨page', slot', took, laid, rows, ends, -⟩ := freshPage_run tuple
    rw [took] at fresh
    obtain ⟨rfl, rfl⟩ := Prod.mk.inj fresh
    obtain ⟨formed', rows'⟩ := formed.extend inRange calls split laid (rows heap.nextPageId) ends
    refine ⟨_, formed', by simp, fun p early => ?_, rows'⟩
    rw [List.dropLast_concat] at early
    have tight := insertBytes_full.mp (full p early)
    rw [sized] at tight
    have other : p ≠ heap.nextPageId := fun same => absurd (formed.allocated p early).2 (same ▸ lt_irrefl _)
    dsimp only
    rcases eq_or_ne p last with rfl | notLast
    · rwa [Function.update_self, setNextPageId_freeSpace]
    · rw [Function.update_of_ne notLast, Function.update_of_ne other]
      exact tight

end TableHeap

namespace InsertExecutor

variable {F : Type} [StoresFloat F] [Field F] [LinearOrder F] {schema : Schema} {predicate : Option (Expression F)}
  {indexes : List IndexInfo} {s : OneChild TableScan Bool} {chain : List PageId} {rounds size : ℕ} {rows rest : Rows}
  {row : Rid × List UInt8}

/-- What a scan makes of a row depends on the bytes of the row only. -/
theorem populated_rid (schema : Schema) (rid rid' : Rid) (bytes : List UInt8) :
    (stored (rid', bytes)).populated schema = ((stored (rid, bytes)).populated schema).map fun tuple =>
      { tuple with rid := rid' } := by
  have columns : (List.range schema.getColumnCount).mapM ((stored (rid', bytes)).column schema) =
      (List.range schema.getColumnCount).mapM ((stored (rid, bytes)).column schema) := rfl
  rw [Tuple.populated, Tuple.populated, columns]
  cases (List.range schema.getColumnCount).mapM ((stored (rid, bytes)).column schema) with
  | error message => rfl
  | ok values =>
    change (Tuple.ofValues values >>= _) = Except.map _ (Tuple.ofValues values >>= _)
    cases Tuple.ofValues values <;> rfl

theorem handOut_rid (schema : Schema) (predicate : Option (Expression F)) (rid rid' : Rid) (bytes : List UInt8) :
    handOut schema predicate (rid', bytes) = (handOut schema predicate (rid, bytes)).map (Option.map fun tuple =>
      { tuple with rid := rid' }) := by
  have verdict : Expression.holdsOn predicate schema (stored (rid', bytes)) =
      Expression.holdsOn predicate schema (stored (rid, bytes)) := rfl
  rw [handOut, handOut, verdict, populated_rid schema rid rid' bytes]
  cases Expression.holdsOn predicate schema (stored (rid, bytes)) with
  | error message => rfl
  | ok selected =>
    cases selected with
    | false => rfl
    | true => cases (stored (rid, bytes)).populated schema <;> rfl

/-- The loop of the statement. -/
def loop (schema : Schema) (predicate : Option (Expression F)) (indexes : List IndexInfo) (rounds fuel : ℕ)
    (count : Int32) : Code String (OneChild TableScan Bool) Int32 :=
  whileNext (onChild.on (TableScan.next schema predicate rounds))
    (insertRow (TableScan.target schema indexes) rounds) fuel
    count

/-- `INSERT INTO t SELECT * FROM t WHERE …`. -/
def selfPlan (schema : Schema) (indexes : List IndexInfo) (predicate : Option (Expression F)) :
    TableExecutor (OneChild TableScan Bool) :=
  executor (TableScan.target schema indexes) (TableScan.executor schema predicate)

/-- `InsertTuple` is called and its result is counted. -/
theorem insertRow_insertion (formed : WellFormed s.child.heap chain) {tuple : Tuple}
    (keys : ∀ info ∈ indexes, info.keyTuple schema tuple = .ok ()) (enough : chain.length < rounds)
    (count : Int32) :
    ∃ result heap', insertRow (TableScan.target schema indexes) rounds count tuple s =
        some (.ok (if result.isSome then count + 1 else count), { s with child := { s.child with heap := heap' } }) ∧
      Insertion tuple.payload s.child.heap chain result heap' := by
  obtain ⟨result, heap', ran, insertion⟩ := insertFrom_run tuple.payload formed.linked formed.nonempty
    (fun p mem => (formed.allocated p mem).2.ne) enough
  have inserted : TableScan.onHeap.on (heapCode (TableHeap.insertTuple rounds tuple)) s.child =
      some (.ok result, { s.child with heap := heap' }) := by
    apply Part.on_run
    rw [heapCode, insertTuple_eq]
    change (insertFrom tuple.payload rounds s.child.heap.firstPageId s.child.heap).map _ = _
    rw [ran]
    rfl
  have called : onChild.on (TableScan.onHeap.on (heapCode (TableHeap.insertTuple rounds tuple))) s =
      some (.ok result, { s with child := { s.child with heap := heap' } }) := Part.on_run inserted
  refine ⟨result, heap', (Code.bind_ok called _).trans ?_, insertion⟩
  cases result with
  | none => rfl
  | some rid => exact (Code.bind_ok (keyTuples_run keys _) _).trans rfl

/-- The statement is in its loop, with these rows behind and ahead of its scan. -/
structure Scanning (s : OneChild TableScan Bool) (chain : List PageId) (behind ahead : Rows) : Prop where
  formed : WellFormed s.child.heap chain
  granted : ∀ call, s.child.heap.grants call = true
  split : contents s.child.heap.data chain = behind ++ ahead
  stands : s.child.iter = standing ahead

theorem Scanning.position (scanning : Scanning s chain behind ahead) :
    Ahead s.child.heap.data chain s.child.iter ahead := by
  cases ahead with
  | nil => exact ⟨scanning.stands, chain, [], 0, (List.append_nil chain).symm, rfl⟩
  | cons row rest =>
    rw [scanning.stands]
    exact ahead_of_suffix scanning.formed.nodup scanning.split

/-- One round of the loop: no row is left, or a row throws, or the next row that the predicate holds of is handed to
`InsertTuple`. -/
theorem Scanning.step (scanning : Scanning s chain behind ahead) (schema : Schema) (predicate : Option (Expression F))
    (attrs : ∀ info ∈ indexes, ∀ attr ∈ info.keyAttrs, attr < schema.getColumnCount)
    (enough : chain.length + 1020 + ahead.length < rounds) (count : Int32) :
    (∃ s', (∀ fuel, loop schema predicate indexes rounds (fuel + 1) count s = some (.ok count, s')) ∧
        WellFormed s'.child.heap chain ∧ s'.child.heap.data = s.child.heap.data ∧
        ∀ row ∈ ahead, Expression.holdsOn predicate schema (stored row) = .ok false) ∨
      ∃ skipped row rest, ahead = skipped ++ row :: rest ∧
        (∀ row ∈ skipped, Expression.holdsOn predicate schema (stored row) = .ok false) ∧
        ((∃ message s', handOut schema predicate row = .error message ∧
            ∀ fuel, loop schema predicate indexes rounds (fuel + 1) count s = some (.error message, s')) ∨
          ∃ tuple result s' calls, handOut schema predicate row = .ok (some tuple) ∧
            (∀ fuel, loop schema predicate indexes rounds (fuel + 1) count s =
              loop schema predicate indexes rounds fuel (if result.isSome then count + 1 else count) s') ∧
            s'.child.iter = standing rest ∧
            Insertion tuple.payload { s.child.heap with calls } chain result s'.child.heap) := by
  obtain ⟨iter, calls, visited, cases'⟩ :=
    TableScan.next_cases schema predicate scanning.formed scanning.granted scanning.position enough
  rcases cases' with ⟨ran, rejected⟩ | ⟨skipped, row, rest, rfl, before, later, here, outcome⟩
  · refine .inl ⟨onChild.write s { heap := { s.child.heap with calls }, iter, visited },
      fun fuel => (Code.bind_ok (Part.on_run ran) _).trans rfl, scanning.formed.withCalls calls, rfl, rejected⟩
  refine .inr ⟨skipped, row, rest, rfl, before, ?_⟩
  rcases outcome with ⟨message, failed, ran⟩ | ⟨tuple, made, ran⟩
  · exact .inl ⟨message, _, failed, fun fuel => Code.bind_error (Part.on_run ran) _⟩
  obtain ⟨before', after, pages, held, -⟩ := here.cons
  have laid := scanning.formed.laid row.1.pageId (by simp [pages])
  have keys (info : IndexInfo) (mem : info ∈ indexes) : info.keyTuple schema tuple = .ok () :=
    Tuple.keyTuple_ok rfl (live_short laid held) (handOut_eq_some_iff.mp made).2 (attrs info mem)
  obtain ⟨result, heap', done, insertion⟩ := insertRow_insertion
    (s := onChild.write s { heap := { s.child.heap with calls }, iter, visited }) (scanning.formed.withCalls calls)
    keys (by omega : chain.length < rounds) count
  exact .inr ⟨tuple, result, { s with child := { heap := heap', iter, visited } }, calls, made,
    fun fuel => (Code.bind_ok (Part.on_run ran) _).trans (Code.bind_ok done _), later.1, insertion⟩

/-- Nothing throws on a row; a row that the predicate holds of is handed out with the bytes it is stored with, and has
this size. -/
structure Copies (schema : Schema) (predicate : Option (Expression F)) (size : ℕ)
    (row : Rid × List UInt8) : Prop where
  total : ∃ handed, handOut schema predicate row = .ok handed
  same : ∀ tuple, handOut schema predicate row = .ok (some tuple) → tuple.payload = row.2 ∧ row.2.length = size

/-- The statement is in its loop: at least two of the rows ahead will be copied. -/
structure Copying (schema : Schema) (predicate : Option (Expression F)) (size : ℕ) (s : OneChild TableScan Bool)
    (chain : List PageId) (earlier ahead : Rows) : Prop extends Scanning s chain earlier ahead where
  packed : PagesFull s.child.heap.data chain size
  copies : ∀ row ∈ ahead, Copies schema predicate size row
  two : 2 ≤ ahead.countP (TableScan.selects schema predicate)

/-- A copy of the row is like the row. -/
theorem Copies.copy {bytes : List UInt8} {rid : Rid} (copies : Copies schema predicate size (rid, bytes)) (rid' : Rid) :
    Copies schema predicate size (rid', bytes) := by
  obtain ⟨handed, outcome⟩ := copies.total
  have handed' := handOut_rid schema predicate rid rid' bytes
  rw [outcome] at handed'
  refine ⟨⟨_, handed'⟩, fun other made => ?_⟩
  rw [handed'] at made
  cases handed with
  | none => cases made
  | some tuple =>
    obtain rfl := Option.some.inj (Except.ok.inj made)
    exact copies.same tuple outcome

/-- One round of the loop: the next row that the predicate holds of is copied, and the copy lies ahead. -/
theorem Copying.step {earlier ahead : Rows} (copying : Copying schema predicate size s chain earlier ahead)
    (attrs : ∀ info ∈ indexes, ∀ attr ∈ info.keyAttrs, attr < schema.getColumnCount)
    (inRange : s.child.heap.nextPageId < 2 ^ 31) (enough : chain.length + 1020 + ahead.length < rounds)
    (count : Int32) :
    ∃ s' chain' earlier' ahead' copy,
      (∀ fuel, loop schema predicate indexes rounds (fuel + 1) count s =
        loop schema predicate indexes rounds fuel (count + 1) s') ∧
      Copying schema predicate size s' chain' earlier' ahead' ∧
      contents s'.child.heap.data chain' = contents s.child.heap.data chain ++ [copy] ∧
      chain'.length ≤ chain.length + 1 ∧ s'.child.heap.nextPageId ≤ s.child.heap.nextPageId + 1 ∧
      ahead'.length ≤ ahead.length := by
  obtain ⟨scanning, full, copies, two⟩ := copying
  rcases scanning.step schema predicate attrs enough count with
    ⟨-, -, -, -, rejected⟩ | ⟨skipped, row, rest, rfl, before, outcome⟩
  · have none : ahead.countP (TableScan.selects schema predicate) = 0 :=
      List.countP_eq_zero.mpr fun row mem => by simp [TableScan.selects, rejected row mem]
    omega
  have copied := copies row (by simp)
  rcases outcome with ⟨message, -, failed, -⟩ | ⟨tuple, result, s', calls, handed, ran, stands, insertion⟩
  · obtain ⟨handed, outcome⟩ := copied.total
    rw [failed] at outcome
    cases outcome
  obtain ⟨same, sized⟩ := copied.same tuple handed
  have formed := scanning.formed.withCalls calls
  obtain ⟨onChain, held⟩ := mem_contents_iff.mp (show (row.1, row.2) ∈ contents s.child.heap.data chain by
    simp [scanning.split])
  have small : tuple.payload.length ≤ 4076 := same ▸ live_fits (scanning.formed.laid _ onChain) held
  obtain ⟨rid, rfl⟩ := insertion.succeeds scanning.granted small
  obtain ⟨chain', formed', longer, full', rows⟩ := insertion.appends formed inRange full (same ▸ sized)
  rw [added, Option.bind_some, asRow, same, if_neg (live_ne_nil held)] at rows
  have alike : TableScan.selects schema predicate (rid, row.2) = TableScan.selects schema predicate row := rfl
  have chosen : TableScan.selects schema predicate row = true := by
    simp [TableScan.selects, (handOut_eq_some_iff.mp handed).1]
  have passed : skipped.countP (TableScan.selects schema predicate) = 0 :=
    List.countP_eq_zero.mpr fun row mem => by simp [TableScan.selects, before row mem]
  rw [List.countP_append, passed, List.countP_cons_of_pos chosen] at two
  cases rest with
  | nil => simp at two
  | cons next rest =>
    refine ⟨s', chain', earlier ++ skipped ++ [row], next :: rest ++ [(rid, row.2)], (rid, row.2), fun fuel =>
      ran fuel, ⟨⟨formed', ?_, ?_, stands⟩, full', ?_, ?_⟩, rows, longer, insertion.allocates.2, ?_⟩
    · rw [insertion.grants_eq]
      exact scanning.granted
    · rw [rows]
      change contents s.child.heap.data chain ++ _ = _
      rw [scanning.split]
      simp
    · intro other inside
      rcases List.mem_append.mp inside with old | new
      · exact copies other (List.mem_append_right _ (List.mem_cons_of_mem _ old))
      · rw [List.mem_singleton.mp new]
        exact copied.copy rid
    · rw [List.countP_append, List.countP_singleton, alike, chosen, if_pos rfl]
      omega
    · simp only [List.length_append, List.length_cons, List.length_nil]
      omega

/-- A number of rounds of the loop. -/
theorem Copying.goesOn {earlier ahead : Rows} (copying : Copying schema predicate size s chain earlier ahead)
    (attrs : ∀ info ∈ indexes, ∀ attr ∈ info.keyAttrs, attr < schema.getColumnCount) (number : ℕ)
    (inRange : s.child.heap.nextPageId + number ≤ 2 ^ 31)
    (enough : chain.length + 1020 + ahead.length + number < rounds)
    (count : Int32) : ∃ s' chain' copies,
      (∀ fuel, loop schema predicate indexes rounds (number + fuel) count s =
        loop schema predicate indexes rounds fuel (count + Int32.ofNat number) s') ∧
      WellFormed s'.child.heap chain' ∧
      contents s'.child.heap.data chain' = contents s.child.heap.data chain ++ copies ∧ copies.length = number := by
  induction number generalizing s chain earlier ahead count with
  | zero =>
    refine ⟨s, chain, [], fun fuel => ?_, copying.formed, (List.append_nil _).symm, rfl⟩
    rw [Nat.zero_add]
    exact congrArg (fun total => loop schema predicate indexes rounds fuel total s) (Int32.add_zero count).symm
  | succ number ih =>
    have left (next next' : ℤ) (room : next + (number + 1) ≤ 2 ^ 31) (allocated : next' ≤ next + 1) :
        next < 2 ^ 31 ∧ next' + number ≤ 2 ^ 31 := by omega
    push_cast at inRange
    have enoughNow : chain.length + 1020 + ahead.length < rounds := by omega
    obtain ⟨middle, chain', earlier', ahead', copy, done, copying', grown, longer, ids, fewer⟩ :=
      copying.step attrs (left _ _ inRange le_rfl).1 enoughNow count
    obtain ⟨s', chain'', copies, run, formed, all, counted⟩ :=
      ih copying' (left _ _ inRange ids).2 (by omega) (count + 1)
    refine ⟨s', chain'', copy :: copies, fun fuel => ?_, formed, ?_, congrArg (· + 1) counted⟩
    · have steps : number + 1 + fuel = number + fuel + 1 := by omega
      rw [steps, done, run, count_next]
    · rw [all, grown, List.append_assoc]
      rfl

/-- `INSERT INTO t SELECT * FROM t WHERE …` on a table whose pages but the last have no room for a copy, when the
predicate holds of two rows at least: however many rows were inserted, as long as there are page ids the statement
goes on. -/
theorem self_insert_goes_on (formed : WellFormed s.child.heap chain)
    (granted : ∀ call, s.child.heap.grants call = true)
    (full : PagesFull s.child.heap.data chain size)
    (attrs : ∀ info ∈ indexes, ∀ attr ∈ info.keyAttrs, attr < schema.getColumnCount)
    (copies : ∀ row ∈ contents s.child.heap.data chain, Copies schema predicate size row)
    (two : 2 ≤ (contents s.child.heap.data chain).countP (TableScan.selects schema predicate)) (number : ℕ)
    (inRange : s.child.heap.nextPageId + number ≤ 2 ^ 31)
    (enough : chain.length + 1020 + (contents s.child.heap.data chain).length + number < rounds) :
    ∃ begun s' chain' copies, (selfPlan schema indexes predicate).init rounds s = some (.ok (), begun) ∧
      begun.fields = false ∧
      (∀ fuel, loop schema predicate indexes rounds (number + fuel) 0 { begun with fields := true } =
        loop schema predicate indexes rounds fuel (Int32.ofNat number) s') ∧
      WellFormed s'.child.heap chain' ∧
      contents s'.child.heap.data chain' = contents s.child.heap.data chain ++ copies ∧ copies.length = number := by
  have everyPage : Enough rounds chain := by
    simp only [Enough]
    omega
  obtain ⟨calls, iter, started, ahead⟩ := TableScan.initModify_run schema predicate formed granted everyPage
  have copying : Copying schema predicate size
      ⟨{ s.child with heap := { s.child.heap with calls }, iter }, true⟩ chain []
        (contents s.child.heap.data chain) :=
    ⟨⟨formed.withCalls calls, granted, (List.nil_append _).symm, ahead.1⟩, full, copies, two⟩
  obtain ⟨s', chain', made, run, formed', rows, counted⟩ := copying.goesOn attrs number inRange enough 0
  rw [Int32.zero_add] at run
  exact ⟨_, s', chain', made, started, rfl, run, formed', rows, counted⟩

/-- A heap whose only page has two rows `(true)`. -/
def twoRows : TableHeap := { onePage with data := fun _ => (filledPage [[1], [1]]).1 }

theorem twoRows_wellFormed : WellFormed twoRows [0] := by
  obtain ⟨laid, -, -, ends, -⟩ := @filledPage_spec [[1], [1]] (by decide) (by decide)
  exact ⟨⟨rfl, by decide, ends⟩, List.cons_ne_nil _ _,
    List.nodup_singleton _, by simp [twoRows, onePage], fun _ _ => laid⟩

theorem twoRows_contents : contents twoRows.data [0] = [(⟨0, 0⟩, [1]), (⟨0, 1⟩, [1])] := by
  obtain ⟨-, live, number, -, -⟩ := @filledPage_spec [[1], [1]] (by decide) (by decide)
  rw [contents_cons, twoRows, rowsFrom, live, number]
  rfl

/-- A hundred rows are inserted, and the loop goes on. -/
theorem self_insert_goes_on_twoRows :
    ∃ begun s' chain' copies, (selfPlan flags [] (none : Option (Expression ℚ))).init 2000
      ⟨{ heap := twoRows }, false⟩ =
        some (.ok (), begun) ∧
      begun.fields = false ∧
      (∀ fuel, loop flags (none : Option (Expression ℚ)) [] 2000 (100 + fuel) 0 { begun with fields := true } =
        loop flags (none : Option (Expression ℚ)) [] 2000 fuel (Int32.ofNat 100) s') ∧
      WellFormed s'.child.heap chain' ∧
      contents s'.child.heap.data chain' = contents twoRows.data [0] ++ copies ∧ copies.length = 100 := by
  have copied (rid : Rid) : Copies flags (none : Option (Expression ℚ)) 1 (rid, [1]) := by
    have handed : handOut flags (none : Option (Expression ℚ)) (rid, [1]) =
        .ok (some { rid, data := [1], values := [.boolean true] }) := rfl
    refine ⟨⟨_, handed⟩, fun tuple made => ?_⟩
    rw [handed] at made
    obtain rfl := Option.some.inj (Except.ok.inj made)
    exact ⟨rfl, rfl⟩
  have full : PagesFull twoRows.data [0] 1 := fun p mem => absurd mem List.not_mem_nil
  refine self_insert_goes_on (s := ⟨{ heap := twoRows }, false⟩) twoRows_wellFormed (fun _ => rfl) full
    (by simp) ?_ ?_ 100
    (by decide) ?_
  · intro row mem
    rw [twoRows_contents] at mem
    simp only [List.mem_cons, List.not_mem_nil, or_false] at mem
    rcases mem with rfl | rfl
    · exact copied _
    · exact copied _
  · rw [twoRows_contents]
    decide
  · rw [twoRows_contents]
    decide

end InsertExecutor

end OneBase
