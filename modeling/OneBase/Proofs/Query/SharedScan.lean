import OneBase.Proofs.Query.Modify
import OneBase.Proofs.Storage.HeapStore

/-! # Scans of a table that other clients change

Between two calls of a scan its iterator stands at a row, which the next call of `Next` reads without a further look at
the slot. The row is there as long as no other client deletes this very row.
-/

namespace OneBase.TableScan

open ExceptRuns TableHeap TablePage Traces

variable {F : Type} [StoresFloat F] [Field F] [LinearOrder F] {schema : Schema} {predicate : Option (Expression F)}
  {s : TableScan} {chain : List PageId} {rounds : ℕ} {rows : Rows}

/-- The slot held a tuple when it was read. -/
def WasLive (read : Tuple × TablePage) : Prop := ∃ bytes, read.2.live read.1.rid.slotNum = some bytes

/-- The iterator is at the end or stands at a row. -/
def Stands (s : TableScan) (chain : List PageId) : Prop := ∃ rows, Ahead s.heap.data chain s.iter rows

theorem stands_iff : s.Stands chain ↔ s.iter = endRid ∨ (stores s.heap.data chain).Live s.iter := by
  constructor
  · rintro ⟨rows, ahead⟩
    cases rows with
    | nil => exact .inl ahead.nil
    | cons row rest =>
      obtain ⟨-, before, after, split, live, -⟩ := ahead.cons
      exact .inr (live_stores_iff.mpr ⟨by simp [split], _, live⟩)
  · rintro (atEnd | live)
    · exact ⟨[], atEnd, chain, [], 0, (List.append_nil chain).symm, rfl⟩
    · obtain ⟨mem, bytes, live⟩ := live_stores_iff.mp live
      obtain ⟨rest, ahead⟩ := exists_ahead mem live
      exact ⟨_, ahead⟩

/-- After a row that was passed, `Next` is done or goes on. -/
theorem passRow_cases {σ : Type} (goOn : Code String σ (Option Tuple)) (schema : Schema)
    (predicate : Option (Expression F)) (tuple : Tuple) (s : σ) :
    (∃ result, (do
      if ← Code.lift (Expression.holdsOn predicate schema tuple) then
        return some (← Code.lift (tuple.populated schema))
      else goOn : Code String σ (Option Tuple)) s = some (result, s)) ∨
    (do
      if ← Code.lift (Expression.holdsOn predicate schema tuple) then
        return some (← Code.lift (tuple.populated schema))
      else goOn : Code String σ (Option Tuple)) s = goOn s := by
  cases verdict : Expression.holdsOn predicate schema tuple with
  | error message => exact .inl ⟨_, Code.bind_error rfl _⟩
  | ok selected =>
    cases selected with
    | false =>
      refine .inr ((Code.bind_ok rfl _).trans ?_)
      rw [if_neg Bool.false_ne_true]
    | true =>
      cases made : tuple.populated schema with
      | error message => exact .inl ⟨_, (Code.bind_ok rfl _).trans (Code.bind_error rfl _)⟩
      | ok tuple => exact .inl ⟨_, (Code.bind_ok rfl _).trans (Code.bind_ok rfl _)⟩

/-- The scan once it has read the slot that its iterator stands at and has gone on to another place. -/
def readOn (s : TableScan) (calls : ℕ) (iter : Rid) : TableScan where
  heap := { s.heap with calls }
  iter := iter
  visited := s.visited ++
    [({ rid := s.iter, data := (s.heap.data s.iter.pageId).getTuple s.iter.slotNum, values := [] },
    s.heap.data s.iter.pageId)]

/-- `Next` reads the slot that the iterator stands at, whatever is in it, and is done or goes on behind it. -/
theorem next_reads_slot (schema : Schema) (predicate : Option (Expression F)) {before after : List PageId}
    (formed : WellFormed s.heap chain) (split : chain = before ++ s.iter.pageId :: after)
    (numbered : s.iter.slotNum < (s.heap.data s.iter.pageId).getNumTuples)
    (granted : s.heap.grants s.heap.calls = true) (enough : Enough (rounds + 1) chain) :
    ∃ calls iter rest, Ahead s.heap.data chain iter rest ∧
      rest.length ≤ (remaining s.heap.data (s.iter.slotNum + 1) (s.iter.pageId :: after)).length ∧
      ((∃ result, next schema predicate (rounds + 1) s = some (result, s.readOn calls iter)) ∨
        next schema predicate (rounds + 1) s = next schema predicate rounds (s.readOn calls iter)) := by
  have inside : s.iter ≠ endRid := formed.ne_endRid (by simp [split])
  obtain ⟨iter, calls, moved, stands⟩ :=
    increment_walk (formed.withCalls (s.heap.calls + 1)) enough split numbered
  have onTable : onHeap.on (heapCode (increment (rounds + 1) s.iter)) (s.readOn (s.heap.calls + 1) s.iter) =
      some (.ok iter, s.readOn calls s.iter) := by
    refine Part.on_run ?_
    change (increment (rounds + 1) s.iter { s.heap with calls := s.heap.calls + 1 }).map _ = _
    rw [moved]
    rfl
  have passed := next_passes schema predicate inside (dereference_granted granted) onTable
  obtain ⟨rest, ahead, fewer⟩ : ∃ rest, Ahead s.heap.data chain iter rest ∧
      rest.length ≤ (remaining s.heap.data (s.iter.slotNum + 1) (s.iter.pageId :: after)).length := by
    rcases stands with ahead | ⟨rfl, -⟩
    · exact ⟨_, ahead, le_rfl⟩
    · exact ⟨[], ⟨rfl, chain, [], 0, (List.append_nil chain).symm, rfl⟩, Nat.zero_le _⟩
  refine ⟨calls, iter, rest, ahead, fewer, ?_⟩
  rw [passed]
  exact passRow_cases _ schema predicate _ _

/-- The scan has gone on in a heap that it has only read, and what it has read meanwhile was there. -/
structure Reads (chain : List PageId) (s s' : TableScan) : Prop where
  heap : ∃ calls, s'.heap = { s.heap with calls }
  stands : s'.Stands chain
  kept : s.visited <+: s'.visited
  visited : ∀ entry ∈ s'.visited, entry ∈ s.visited ∨ WasLive entry

/-- Whatever pages the pool refuses, `Next` returns or throws, and from a row it reads only rows that are there. -/
theorem next_reads (schema : Schema) (predicate : Option (Expression F)) (formed : WellFormed s.heap chain)
    (ahead : Ahead s.heap.data chain s.iter rows) (enough : chain.length + 1020 + rows.length < rounds) :
    ∃ result s', next schema predicate rounds s = some (result, s') ∧ Reads chain s s' := by
  induction number : rows.length using Nat.strong_induction_on generalizing rounds s rows with
  | _ number ih =>
    cases rows with
    | nil =>
      exact ⟨_, s, next_atEnd schema predicate ahead.nil (Nat.zero_lt_of_lt enough),
        ⟨s.heap.calls, rfl⟩, ⟨[], ahead⟩,
        List.prefix_rfl, fun entry mem => .inl mem⟩
    | cons row rest =>
      obtain ⟨rounds, rfl⟩ := Nat.exists_eq_succ_of_ne_zero (Nat.ne_of_gt (Nat.zero_lt_of_lt enough))
      rw [List.length_cons] at enough number
      obtain ⟨here, before, after, split, live, left⟩ := ahead.cons
      cases granted : s.heap.grants s.heap.calls with
      | false =>
        refine ⟨.error "Cannot fetch page for GetTuple",
          { s with heap := { s.heap with calls := s.heap.calls + 1 } }, ?_,
          ⟨s.heap.calls + 1, rfl⟩, ⟨_, ahead⟩, List.prefix_rfl, fun entry mem => .inl mem⟩
        refine (Code.bind_ok rfl _).trans ?_
        rw [if_neg (formed.ne_endRid (by simp [split]))]
        exact Code.bind_error (dereference_refused granted) _
      | true =>
        have everyPage : Enough (rounds + 1) chain := by
          simp only [Enough]
          omega
        obtain ⟨calls, iter, rest', ahead', fewer, went⟩ := next_reads_slot schema predicate formed split
          (live_eq_some_iff.mp live).1 granted everyPage
        rw [← left] at fewer
        have read (entry : Tuple × TablePage) (mem : entry ∈ (s.readOn calls iter).visited) :
            entry ∈ s.visited ∨ WasLive entry := by
          rcases List.mem_append.mp mem with old | new
          · exact .inl old
          · obtain rfl := List.mem_singleton.mp new
            exact .inr ⟨_, live⟩
        rcases went with ⟨result, done⟩ | goesOn
        · exact ⟨result, _, done, ⟨calls, rfl⟩, ⟨rest', ahead'⟩, List.prefix_append _ _, read⟩
        · rw [goesOn]
          obtain ⟨result, s', ran, ⟨calls', same⟩, stands', kept, later⟩ := ih rest'.length (by omega)
            (s := s.readOn calls iter) (formed.withCalls calls) ahead' (by omega : _ < rounds) rfl
          exact ⟨result, s', ran, ⟨calls', same⟩, stands', (List.prefix_append _ _).trans kept,
            fun entry mem => (later entry mem).elim (read entry) .inr⟩

/-! ## Runs of calls -/

/-- A RID that the heap has handed out. -/
def Issued (heap : TableHeap) (rid : Rid) : Prop :=
  ∃ chain, WellFormed heap chain ∧ stores heap.data chain rid ≠ none

/-- Clients insert while page ids are left, and delete under RIDs that the heap has handed out. -/
def Legal (s : TableScan) : SharedCall → Prop
  | .init | .next => True
  | .insertTuple _ => s.heap.nextPageId < 2 ^ 31
  | .deleteTuple rid => Issued s.heap rid

/-- The call does not delete the row that the iterator stands at. -/
def Spares (s : TableScan) (call : SharedCall) : Prop := call ≠ .deleteTuple s.iter

/-- The heap is well-formed, the iterator stands at a row of it, and all that was read was there. -/
structure Shared (s : TableScan) (chain : List PageId) : Prop where
  formed : WellFormed s.heap chain
  stands : s.Stands chain
  visited : ∀ entry ∈ s.visited, WasLive entry

/-- A page has at most 1020 rows. -/
theorem length_contents_le {data : PageId → TablePage} (laid : ∀ p ∈ chain, WellLaid (data p)) :
    (contents data chain).length ≤ 1020 * chain.length := by
  induction chain with
  | nil => exact le_rfl
  | cons p rest ih =>
    obtain ⟨here, others⟩ := List.forall_mem_cons.mp laid
    have onPage : (rowsFrom (data p) p 0).length ≤ (data p).getNumTuples := by
      refine (List.length_filterMap_le _ _).trans ?_
      simp
    have few := here.numTuples_lt
    have later := ih others
    rw [contents_cons, List.length_append, List.length_cons]
    omega

/-- There are rounds for every page and every row. -/
theorem everyRow_enough {heap : TableHeap} (formed : WellFormed heap chain) :
    chain.length + 1020 + (contents heap.data chain).length + 1 < everyRow heap := by
  have pages := formed.length_le
  have rows := length_contents_le formed.laid
  rw [everyRow]
  omega

/-- `Init` finds the first row, unless the pool refuses a page. -/
theorem init_run (formed : WellFormed s.heap chain) (schema : Schema) (predicate : Option (Expression F)) :
    ∃ iter calls, serve schema predicate s .init = some { s with heap := { s.heap with calls }, iter } ∧
      (iter = standing (contents s.heap.data chain) ∨ iter = endRid ∧ ∃ call, s.heap.grants call = false) := by
  have everyPage : Enough (everyRow s.heap) chain := by
    have enough := everyRow_enough formed
    simp only [Enough]
    omega
  obtain ⟨iter, calls, begun, stands⟩ := seek_run 0 formed.linked formed.laid everyPage
  have scanned : heapCode (TableHeap.begin (everyRow s.heap)) s.heap = some (.ok iter, { s.heap with calls }) := by
    change (seek (everyRow s.heap) s.heap.firstPageId 0 s.heap).map _ = _
    rw [begun]
    rfl
  have started : TableScan.init (everyRow s.heap) s = some (.ok (), { s with heap := { s.heap with calls }, iter }) :=
    Code.bind_ok (Part.on_run scanned) _
  rw [remaining_zero] at stands
  exact ⟨iter, calls, congrArg (Option.map Prod.snd) started, stands⟩

theorem Shared.init (shared : s.Shared chain) (schema : Schema) (predicate : Option (Expression F)) :
    ∃ s', serve schema predicate s .init = some s' ∧ s'.Shared chain := by
  obtain ⟨formed, -, visited⟩ := shared
  obtain ⟨iter, calls, served, stands⟩ := init_run formed schema predicate
  refine ⟨_, served, formed.withCalls calls, ?_, visited⟩
  rcases stands with stands | ⟨atEnd, -⟩
  · exact ⟨_, stands, [], chain, 0, rfl, (remaining_zero _ _).symm⟩
  · exact stands_iff.mpr (.inl atEnd)

theorem Shared.next (shared : s.Shared chain) (schema : Schema) (predicate : Option (Expression F)) :
    ∃ s', serve schema predicate s .next = some s' ∧ s'.Shared chain := by
  obtain ⟨formed, ⟨rows, ahead⟩, visited⟩ := shared
  have enough := everyRow_enough formed
  have fewer := ahead.2.sublist.length_le
  obtain ⟨result, s', ran, ⟨calls, heap⟩, stands, -, later⟩ := next_reads schema predicate formed ahead
    (by omega : _ < everyRow s.heap)
  refine ⟨s', ?_, heap ▸ formed.withCalls calls, stands, fun entry mem =>
    (later entry mem).elim (visited entry) id⟩
  rw [serve, ran]
  rfl

theorem Shared.insertTuple (shared : s.Shared chain) (inRange : s.heap.nextPageId < 2 ^ 31) (tuple : Tuple)
    (schema : Schema) (predicate : Option (Expression F)) :
    ∃ heap' chain', serve schema predicate s (.insertTuple tuple) = some { s with heap := heap' } ∧
      ({ s with heap := heap' } : TableScan).Shared chain' ∧ heap'.grants = s.heap.grants := by
  obtain ⟨formed, stands, visited⟩ := shared
  have enough := everyRow_enough formed
  obtain ⟨result, heap', ran, insertion⟩ :=
    insertFrom_run (tuple.data.take tuple.getLength) formed.linked formed.nonempty
      (fun p mem => (formed.allocated p mem).2.ne) (by omega : chain.length < everyRow s.heap)
  obtain ⟨chain', formed', -, effect⟩ := insertion.stores_eq formed inRange
  refine ⟨heap', chain', ?_, ⟨formed', stands_iff.mpr ?_, visited⟩, insertion.grants_eq⟩
  · exact congrArg (Option.map fun out => { s with heap := out.2 }) ran
  · refine (stands_iff.mp stands).imp_right fun live => ?_
    cases result with
    | none =>
      rw [effect.1]
      exact live
    | some rid =>
      have other : s.iter ≠ rid := by
        rintro rfl
        exact live.issued effect.1
      obtain ⟨bytes, held, notEmpty⟩ := live
      refine ⟨bytes, ?_, notEmpty⟩
      rw [effect.2]
      exact (Function.update_of_ne other _ _).trans held

/-- The scan once another client has deleted a row. -/
def without (s : TableScan) (rid : Rid) : TableScan := { s with heap := { s.heap with
  calls := s.heap.calls + 1
  data := if s.heap.grants s.heap.calls then
    Function.update s.heap.data rid.pageId ((s.heap.data rid.pageId).deleteTuple rid.slotNum) else s.heap.data } }

theorem serve_deleteTuple (s : TableScan) (schema : Schema) (predicate : Option (Expression F)) (rid : Rid) :
    serve schema predicate s (.deleteTuple rid) = some (s.without rid) := by
  rw [serve, deleteTuple_run]
  rfl

theorem Shared.without (shared : s.Shared chain) {rid : Rid} (issued : Issued s.heap rid) (other : s.iter ≠ rid) :
    (s.without rid).Shared chain := by
  obtain ⟨formed, stands, visited⟩ := shared
  obtain ⟨chain', formed', issued⟩ := issued
  obtain rfl := formed'.linked.unique formed.linked
  obtain ⟨old, held⟩ := Option.ne_none_iff_exists'.mp issued
  obtain ⟨mem, held⟩ := stores_eq_some_iff.mp held
  rw [TableScan.without]
  cases granted : s.heap.grants s.heap.calls with
  | false => exact ⟨formed.withCalls _, stands, visited⟩
  | true =>
    have numbered := slotBytes_numbered held
    have rewrites := rewrites_deleteNumbered (formed.laid _ mem) numbered
    refine ⟨formed.rewrite rewrites _, stands_iff.mpr ((stands_iff.mp stands).imp_right ?_), visited⟩
    rintro ⟨bytes, live, notEmpty⟩
    refine ⟨bytes, ?_, notEmpty⟩
    rw [if_pos rfl, rewrites.stores_eq mem numbered]
    exact (Function.update_of_ne other _ _).trans live

/-- What one call preserves. -/
theorem Shared.step (shared : s.Shared chain) {call : SharedCall} (legal : s.Legal call) (spares : s.Spares call)
    (schema : Schema) (predicate : Option (Expression F)) :
    ∃ s' chain', serve schema predicate s call = some s' ∧ s'.Shared chain' := by
  cases call with
  | init =>
    obtain ⟨s', served, shared'⟩ := shared.init schema predicate
    exact ⟨s', chain, served, shared'⟩
  | next =>
    obtain ⟨s', served, shared'⟩ := shared.next schema predicate
    exact ⟨s', chain, served, shared'⟩
  | insertTuple tuple =>
    obtain ⟨heap', chain', served, shared', -⟩ := shared.insertTuple legal tuple schema predicate
    exact ⟨_, chain', served, shared'⟩
  | deleteTuple rid =>
    exact ⟨_, chain, serve_deleteTuple s schema predicate rid,
      shared.without legal fun same => spares (congrArg _ same.symm)⟩

/-- If the pool has the frames, a call of `Next` reads the slot that the iterator stands at. -/
theorem next_records (formed : WellFormed s.heap chain) (mem : s.iter.pageId ∈ chain)
    (numbered : s.iter.slotNum < (s.heap.data s.iter.pageId).getNumTuples)
    (granted : ∀ call, s.heap.grants call = true) (schema : Schema) (predicate : Option (Expression F)) :
    (({ rid := s.iter, data := (s.heap.data s.iter.pageId).getTuple s.iter.slotNum, values := [] } : Tuple),
      s.heap.data s.iter.pageId) ∈ (step schema predicate s .next).visited := by
  obtain ⟨before, after, split⟩ := List.append_of_mem mem
  have enough := everyRow_enough formed
  obtain ⟨rounds, positive⟩ := Nat.exists_eq_succ_of_ne_zero (Nat.ne_of_gt (Nat.zero_lt_of_lt enough))
  rw [positive] at enough
  have everyPage : Enough (rounds + 1) chain := by
    simp only [Enough]
    omega
  obtain ⟨calls, iter, rest, ahead, -, went⟩ :=
    next_reads_slot schema predicate formed split numbered (granted _) everyPage
  obtain ⟨result, s', ran, kept⟩ : ∃ result s', next schema predicate (everyRow s.heap) s = some (result, s') ∧
      (s.readOn calls iter).visited <+: s'.visited := by
    rw [positive]
    rcases went with ⟨result, done⟩ | goesOn
    · exact ⟨result, _, done, List.prefix_rfl⟩
    · have fewer := ahead.2.sublist.length_le
      obtain ⟨result, s', ran, reads⟩ :=
        next_reads schema predicate (s := s.readOn calls iter) (formed.withCalls calls)
        ahead (by omega : _ < rounds)
      exact ⟨result, s', goesOn.trans ran, reads.kept⟩
  rw [step, serve, ran]
  exact kept.subset (List.mem_append_right _ (List.mem_singleton_self _))

theorem init_gaps : ∃ calls, step flags isSet { heap := gaps [1] [0] } .init =
    { heap := { gaps [1] [0] with calls }, iter := ⟨0, 0⟩ } := by
  obtain ⟨iter, calls, served, rfl | ⟨-, call, refused⟩⟩ :=
    init_run (s := { heap := gaps [1] [0] }) (gaps_wellFormed (by decide) (by decide)) flags isSet
  · rw [gaps_contents (by decide) (by decide)] at served
    exact ⟨calls, by rw [step, served]; rfl⟩
  · cases refused

/-- In every run of whole calls on a well-formed heap in which no other client deletes the row that the iterator stands
at, the next such call returns or throws, and every tuple that the scan has read was there when it was read, whatever
pages the pool refuses. -/
theorem run_reads_live (formed : WellFormed s.heap chain) (fresh : s.iter = endRid ∧ s.visited = [])
    {calls : List SharedCall}
    (along : Along (fun s call => s.Legal call ∧ s.Spares call) (step schema predicate) s calls) :
    (∀ read ∈ (calls.foldl (step schema predicate) s).visited, WasLive read) ∧
      ∀ call, (calls.foldl (step schema predicate) s).Legal call →
        (calls.foldl (step schema predicate) s).Spares call →
        (serve schema predicate (calls.foldl (step schema predicate) s) call).isSome := by
  have start : s.Shared chain := by
    refine ⟨formed, stands_iff.mpr (.inl fresh.1), ?_⟩
    rw [fresh.2]
    exact List.forall_mem_nil _
  obtain ⟨chain', shared⟩ : ∃ chain', (calls.foldl (step schema predicate) s).Shared chain' := by
    refine along.invariant (I := fun s => ∃ chain, s.Shared chain) ?_ ⟨chain, start⟩
    rintro s call ⟨chain, shared⟩ ⟨legal, spares⟩
    obtain ⟨s', chain', served, shared'⟩ := shared.step legal spares schema predicate
    rw [step, served]
    exact ⟨chain', shared'⟩
  refine ⟨shared.visited, fun call legal spares => ?_⟩
  obtain ⟨s', -, served, -⟩ := shared.step legal spares schema predicate
  rw [served]
  rfl

/-- The heap with gaps, where the row behind the iterator is deleted and a new one goes to its page. -/
theorem run_reads_live_gaps :
    let reached := [.init, .deleteTuple ⟨0, 2⟩, .insertTuple ⟨default, [7], []⟩, .next].foldl
      (step flags isSet) { heap := gaps [1] [0] }
    (∀ read ∈ reached.visited, WasLive read) ∧ (∃ read ∈ reached.visited, read.1.rid = ⟨0, 0⟩) ∧
      (serve flags isSet reached .next).isSome := by
  intro reached
  have formed := @gaps_wellFormed [1] [0] (by decide) (by decide)
  obtain ⟨calls, begun⟩ := init_gaps
  let found : TableScan := { heap := { gaps [1] [0] with calls }, iter := ⟨0, 0⟩ }
  have first := gapsSession_live ⟨0, 0⟩ (by decide)
  have shared : found.Shared [0, 1, 2] :=
    ⟨formed.withCalls calls, stands_iff.mpr (.inr first), List.forall_mem_nil _⟩
  have issued : Issued found.heap ⟨0, 2⟩ :=
    ⟨[0, 1, 2], formed.withCalls calls, (gapsSession_live ⟨0, 2⟩ (by decide)).issued⟩
  have inRange : (found.without ⟨0, 2⟩).heap.nextPageId < 2 ^ 31 := (by decide : (3 : ℤ) < 2 ^ 31)
  have deleted : step flags isSet found (.deleteTuple ⟨0, 2⟩) = found.without ⟨0, 2⟩ := by
    rw [step, serve_deleteTuple, Option.getD_some]
  obtain ⟨heap', chain', served, inserted, granted⟩ :=
    (shared.without issued (by decide : (⟨0, 0⟩ : Rid) ≠ ⟨0, 2⟩)).insertTuple inRange
      ⟨default, [7], []⟩ flags isSet
  have grown : step flags isSet (found.without ⟨0, 2⟩) (.insertTuple ⟨default, [7], []⟩) =
      { found.without ⟨0, 2⟩ with heap := heap' } := by
    rw [step, served, Option.getD_some]
  have along : Along (fun s call => s.Legal call ∧ s.Spares call) (step flags isSet) { heap := gaps [1] [0] }
      [.init, .deleteTuple ⟨0, 2⟩, .insertTuple ⟨default, [7], []⟩, .next] := by
    refine ⟨⟨trivial, nofun⟩, ?_⟩
    rw [begun]
    refine ⟨⟨issued, by simp [Spares]⟩, ?_⟩
    rw [deleted]
    exact ⟨⟨inRange, nofun⟩, ⟨trivial, nofun⟩, trivial⟩
  have holds := run_reads_live formed ⟨rfl, rfl⟩ along
  refine ⟨holds.1, ?_, holds.2 .next trivial nofun⟩
  rcases stands_iff.mp inserted.stands with atEnd | live
  · cases atEnd
  · obtain ⟨mem, bytes, held⟩ := live_stores_iff.mp live
    have read := next_records inserted.formed mem (live_eq_some_iff.mp held).1
      (fun call => congrFun granted call) flags isSet
    have folded : reached = step flags isSet { found.without ⟨0, 2⟩ with heap := heap' } .next := by
      simp only [reached, List.foldl_cons, List.foldl_nil]
      rw [begun, deleted, grown]
    rw [folded]
    exact ⟨_, read, rfl⟩

/-- If the pool has the frames, the call of `Next` after such a deletion reads the deleted slot. -/
theorem reads_deleted (shared : s.Shared chain) (live : (stores s.heap.data chain).Live s.iter)
    (granted : ∀ call, s.heap.grants call = true) (schema : Schema) (predicate : Option (Expression F)) :
    ∃ read ∈ (step schema predicate (step schema predicate s (.deleteTuple s.iter)) .next).visited,
      read.1.data = [] ∧ ¬ WasLive read := by
  obtain ⟨mem, bytes, held⟩ := live_stores_iff.mp live
  have rewrites := rewrites_delete (shared.formed.laid _ mem) held
  let t : TableScan := { s with heap := { s.heap with
    calls := s.heap.calls + 1
    data := Function.update s.heap.data s.iter.pageId ((s.heap.data s.iter.pageId).deleteTuple s.iter.slotNum) } }
  have deleted : step schema predicate s (.deleteTuple s.iter) = t := by
    rw [step, serve_deleteTuple, Option.getD_some, TableScan.without, granted, if_pos rfl]
  have formed : WellFormed t.heap chain := shared.formed.rewrite rewrites _
  have empty : slotBytes (t.heap.data t.iter.pageId) t.iter.slotNum = some [] := by
    have numbered : t.iter.slotNum < (t.heap.data t.iter.pageId).getNumTuples :=
      (live_eq_some_iff.mp held).1.trans_eq rewrites.number.symm
    rw [slotBytes, if_pos numbered, rewrites.live, Function.update_self]
    rfl
  rw [deleted]
  refine ⟨_, next_records formed mem (slotBytes_numbered empty) granted schema predicate,
    getTuple_of_slotBytes empty, ?_⟩
  rintro ⟨bytes', live'⟩
  have same := (slotBytes_of_live live').symm.trans empty
  exact live_ne_nil live' (Option.some.inj same)

/-- The heap with gaps, and a scan that has found its first row. -/
theorem next_reads_deleted : WellFormed (gaps [1] [0]) [0, 1, 2] ∧
    Along Legal (step flags isSet) { heap := gaps [1] [0] } [.init, .deleteTuple ⟨0, 0⟩, .next] ∧
    ∃ read ∈ ([.init, .deleteTuple ⟨0, 0⟩, .next].foldl (step flags isSet) { heap := gaps [1] [0] }).visited,
    read.1.data = [] ∧ ¬ WasLive read := by
  have formed := @gaps_wellFormed [1] [0] (by decide) (by decide)
  obtain ⟨calls, begun⟩ := init_gaps
  have first := gapsSession_live ⟨0, 0⟩ (by decide)
  have read := reads_deleted (s := { heap := { gaps [1] [0] with calls }, iter := ⟨0, 0⟩ })
    ⟨formed.withCalls calls, stands_iff.mpr (.inr first), List.forall_mem_nil _⟩ first (fun _ => rfl) flags isSet
  refine ⟨formed, ⟨trivial, ?_, trivial, trivial⟩, ?_⟩
  · rw [begun]
    exact ⟨[0, 1, 2], formed.withCalls calls, first.issued⟩
  · rw [List.foldl_cons, begun, List.foldl_cons, List.foldl_cons, List.foldl_nil]
    exact read

end OneBase.TableScan
