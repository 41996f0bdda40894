import OneBase.Proofs.Storage.HeapInsert

/-! # Iterators of a table heap

An iterator has a rest of the chain's rows ahead of it and stands at the first of them. A step of `operator++`
passes one row, and a scan from `Begin` to `End` reads them all in order. -/

namespace OneBase.TableHeap

open TablePage

section Positions

variable {data data' : PageId → TablePage} {page : TablePage} {pageId : PageId} {chain : List PageId} {slot : ℕ}
  {row : Rid × List UInt8} {rest : Rows}

theorem rowsFrom_eq_cons (rows : rowsFrom page pageId slot = row :: rest) : row.1.pageId = pageId ∧
    page.live row.1.slotNum = some row.2 ∧ rest = rowsFrom page pageId (row.1.slotNum + 1) := by
  generalize left : page.getNumTuples - slot = steps
  induction steps generalizing slot with
  | zero =>
    rw [rowsFrom_of_le (by omega)] at rows
    cases rows
  | succ steps ih =>
    rw [rowsFrom_of_lt (by omega)] at rows
    cases live : page.live slot with
    | none =>
      rw [live] at rows
      exact ih rows (by omega)
    | some bytes =>
      rw [live] at rows
      obtain ⟨rfl, rfl⟩ := List.cons.inj rows
      exact ⟨rfl, live, rfl⟩

/-- The first row ahead is live on a page of the rest of the chain, and behind it come the rows from its slot on. -/
theorem remaining_eq_cons (rows : remaining data slot chain = row :: rest) : ∃ before after,
    chain = before ++ row.1.pageId :: after ∧ (data row.1.pageId).live row.1.slotNum = some row.2 ∧
      rest = remaining data (row.1.slotNum + 1) (row.1.pageId :: after) := by
  induction chain generalizing slot with
  | nil => cases rows
  | cons p chain ih =>
    rw [remaining] at rows
    cases here : rowsFrom (data p) p slot with
    | nil =>
      rw [here, List.nil_append, ← remaining_zero] at rows
      obtain ⟨before, after, rfl, live, later⟩ := ih rows
      exact ⟨p :: before, after, rfl, live, later⟩
    | cons first others =>
      rw [here, List.cons_append] at rows
      obtain ⟨rfl, rfl⟩ := List.cons.inj rows
      obtain ⟨rfl, live, rfl⟩ := rowsFrom_eq_cons here
      exact ⟨[], chain, rfl, live, rfl⟩

/-- A page chain is determined by its first page. -/
theorem Linked.unique {first : PageId} {chain' : List PageId} (linked : Linked data first chain)
    (linked' : Linked data first chain') : chain = chain' := by
  induction chain generalizing first chain' with
  | nil =>
    cases chain' with
    | nil => rfl
    | cons p rest => exact absurd (linked'.1.symm.trans linked) linked'.2.1
  | cons p rest ih =>
    obtain ⟨rfl, valid, linked⟩ := linked
    cases chain' with
    | nil => exact absurd linked' valid
    | cons q rest' =>
      obtain ⟨rfl, -, linked'⟩ := linked'
      rw [ih linked linked']

theorem Linked.suffix {first : PageId} {before after : List PageId}
    (linked : Linked data first (before ++ pageId :: after)) :
    Linked data pageId (pageId :: after) := by
  induction before generalizing first with
  | nil =>
    obtain ⟨rfl, valid, linked⟩ := linked
    exact ⟨rfl, valid, linked⟩
  | cons p before ih => exact ih linked.2.2

theorem remaining_sublist (data : PageId → TablePage) (slot : ℕ) (chain : List PageId) :
    (remaining data slot chain).Sublist (contents data chain) := by
  cases chain with
  | nil => exact List.nil_sublist _
  | cons p after =>
    refine List.Sublist.append ?_ (List.Sublist.refl _)
    rcases Nat.lt_or_ge (data p).getNumTuples slot with out | within
    · rw [rowsFrom_of_le out.le]
      exact List.nil_sublist _
    · apply List.Sublist.filterMap
      have whole : List.range' 0 slot ++ List.range' (0 + slot) ((data p).getNumTuples - slot) =
        List.range' 0 (slot + ((data p).getNumTuples - slot)) := List.range'_append_1
      rw [Nat.zero_add, Nat.add_sub_cancel' within] at whole
      rw [Nat.sub_zero, ← whole]
      exact List.sublist_append_right _ _

/-- The rows of the chain from some slot on. -/
def Rest (data : PageId → TablePage) (chain : List PageId) (rows : Rows) : Prop :=
  ∃ before suffix slot, chain = before ++ suffix ∧ rows = remaining data slot suffix

/-- An iterator that has a rest of the chain's rows ahead of it. -/
def Ahead (data : PageId → TablePage) (chain : List PageId) (rid : Rid) (rows : Rows) : Prop :=
  rid = standing rows ∧ Rest data chain rows

theorem Rest.cons (ahead : Rest data chain (row :: rest)) :
    ∃ before after, chain = before ++ row.1.pageId :: after ∧
    (data row.1.pageId).live row.1.slotNum = some row.2 ∧
      rest = remaining data (row.1.slotNum + 1) (row.1.pageId :: after) := by
  obtain ⟨before, suffix, slot, rfl, rows⟩ := ahead
  obtain ⟨skipped, after, rfl, live, later⟩ := remaining_eq_cons rows.symm
  exact ⟨before ++ skipped, after, by rw [List.append_assoc], live, later⟩

theorem Rest.drop {skipped rows : Rows} (ahead : Rest data chain (skipped ++ rows)) : Rest data chain rows := by
  induction skipped with
  | nil => exact ahead
  | cons row skipped ih =>
    obtain ⟨before, after, split, -, later⟩ := ahead.cons
    exact ih ⟨before, _, _, split, later⟩

/-- What is ahead are rows of the chain. -/
theorem Rest.sublist {rows : Rows} (ahead : Rest data chain rows) : rows.Sublist (contents data chain) := by
  obtain ⟨before, suffix, slot, rfl, rfl⟩ := ahead
  rw [contents_append]
  exact (remaining_sublist data slot suffix).trans (List.sublist_append_right _ _)

/-- An iterator at a live row has it ahead. -/
theorem exists_ahead {rid : Rid} {bytes : List UInt8} (mem : rid.pageId ∈ chain)
    (live : (data rid.pageId).live rid.slotNum = some bytes) :
    ∃ rest, Ahead data chain rid ((rid, bytes) :: rest) := by
  obtain ⟨before, after, rfl⟩ := List.append_of_mem mem
  refine ⟨rowsFrom (data rid.pageId) rid.pageId (rid.slotNum + 1) ++ contents data after, rfl, before, _, rid.slotNum,
    rfl, ?_⟩
  rw [remaining, rowsFrom_of_lt (live_eq_some_iff.mp live).1, live]
  rfl

theorem Ahead.nil {rid : Rid} (ahead : Ahead data chain rid []) : rid = endRid := ahead.1

/-- The iterator stands at the first row, which is live. -/
theorem Ahead.cons {rid : Rid} (ahead : Ahead data chain rid (row :: rest)) : rid = row.1 ∧
    ∃ before after, chain = before ++ rid.pageId :: after ∧ (data rid.pageId).live rid.slotNum = some row.2 ∧
      rest = remaining data (rid.slotNum + 1) (rid.pageId :: after) := by
  obtain ⟨rfl, ahead⟩ := ahead
  exact ⟨rfl, ahead.cons⟩

end Positions

section Walk

variable {heap : TableHeap} {chain : List PageId} {rounds : ℕ} {rid : Rid} {row : Rid × List UInt8} {rest : Rows}

/-- A page of the chain is not the end. -/
theorem WellFormed.ne_endRid (formed : WellFormed heap chain) (mem : rid.pageId ∈ chain) : rid ≠ endRid := by
  rintro rfl
  exact absurd (formed.allocated _ mem).1 (by decide)

/-- `Begin` has all rows ahead. -/
theorem begin_run (formed : WellFormed heap chain) (granted : ∀ call, heap.grants call = true)
    (enough : Enough rounds chain) : ∃ rid calls, begin rounds heap = some (rid, { heap with calls }) ∧
      Ahead heap.data chain rid (contents heap.data chain) := by
  obtain ⟨rid, calls, run, stands | ⟨-, call, refused⟩⟩ := seek_run 0 formed.linked formed.laid enough
  · rw [remaining_zero] at stands
    exact ⟨rid, calls, run, stands, [], chain, 0, rfl, (remaining_zero _ _).symm⟩
  · rw [granted] at refused
    cases refused

/-- `operator++` goes on behind the slot it stands at, or comes to the end when the pool has no frame. -/
theorem increment_walk {before after : List PageId} (formed : WellFormed heap chain) (enough : Enough rounds chain)
    (split : chain = before ++ rid.pageId :: after) (numbered : rid.slotNum < (heap.data rid.pageId).getNumTuples) :
    ∃ rid' calls, increment rounds rid heap = some (rid', { heap with calls }) ∧
      (Ahead heap.data chain rid' (remaining heap.data (rid.slotNum + 1) (rid.pageId :: after)) ∨
        rid' = endRid ∧ ∃ call, heap.grants call = false) := by
  have mem : rid.pageId ∈ chain := by simp [split]
  have few := (formed.laid rid.pageId mem).numTuples_lt
  have next : (rid.slotNum + 1) % 2 ^ 16 = rid.slotNum + 1 := Nat.mod_eq_of_lt (by omega)
  have laid : ∀ p ∈ rid.pageId :: after, WellLaid (heap.data p) := fun p inside =>
    formed.laid p (split ▸ List.mem_append_right _ inside)
  have shorter : Enough rounds (rid.pageId :: after) := by
    simp only [Enough, split, List.length_append] at enough ⊢
    omega
  obtain ⟨rid', calls, run, stands | ⟨atEnd, call, refused⟩⟩ := seek_run (rid.slotNum + 1)
    (Linked.suffix (split ▸ formed.linked)) laid shorter
  · exact ⟨rid', calls, by rw [increment, next, run], .inl ⟨stands, before, _, _, split, rfl⟩⟩
  · exact ⟨rid', calls, by rw [increment, next, run], .inr ⟨atEnd, call, refused⟩⟩

/-- `operator++` passes the row it stands at. -/
theorem increment_run (formed : WellFormed heap chain) (granted : ∀ call, heap.grants call = true)
    (enough : Enough rounds chain) (ahead : Ahead heap.data chain rid (row :: rest)) :
    ∃ rid' calls, increment rounds rid heap = some (rid', { heap with calls }) ∧
      Ahead heap.data chain rid' rest := by
  obtain ⟨-, before, after, split, live, rfl⟩ := ahead.cons
  obtain ⟨rid', calls, run, stands | ⟨-, call, refused⟩⟩ :=
    increment_walk formed enough split (live_eq_some_iff.mp live).1
  · exact ⟨rid', calls, run, stands⟩
  · rw [granted] at refused
    cases refused

/-- What `GetTuple` makes of a stored tuple. -/
def stored (row : Rid × List UInt8) : Tuple := { rid := row.1, data := row.2, values := [] }

/-- Dereferencing an iterator reads the first row ahead. -/
theorem getTuple_ahead (granted : ∀ call, heap.grants call = true) (ahead : Ahead heap.data chain rid (row :: rest)) :
    getTuple rid heap = some (.ok (stored row), { heap with calls := heap.calls + 1 }) := by
  obtain ⟨rfl, -, -, -, live, -⟩ := ahead.cons
  rw [getTuple_run, granted, if_pos rfl, (live_eq_some_iff.mp live).2.2]
  rfl

theorem WellFormed.withCalls (formed : WellFormed heap chain) (calls : ℕ) : WellFormed { heap with calls } chain :=
  ⟨formed.linked, formed.nonempty, formed.nodup, formed.allocated, formed.laid⟩

/-- A loop of dereferences reads the rows ahead in their order. -/
theorem scan_run (formed : WellFormed heap chain) (granted : ∀ call, heap.grants call = true) {rows : Rows}
    (ahead : Ahead heap.data chain rid rows) (enough : chain.length + 1020 + rows.length < rounds) :
    ∃ calls, scan rounds rid heap = some (.ok (rows.map stored), { heap with calls }) := by
  induction rows generalizing rounds rid heap with
  | nil =>
    obtain ⟨rounds, rfl⟩ := Nat.exists_eq_succ_of_ne_zero (Nat.ne_of_gt (Nat.zero_lt_of_lt enough))
    exact ⟨heap.calls, by rw [scan, if_pos ahead.nil]; rfl⟩
  | cons row rest ih =>
    obtain ⟨rounds, rfl⟩ := Nat.exists_eq_succ_of_ne_zero (Nat.ne_of_gt (Nat.zero_lt_of_lt enough))
    rw [List.length_cons] at enough
    have inside : rid ≠ endRid := by
      obtain ⟨-, before, after, split, -, -⟩ := ahead.cons
      exact formed.ne_endRid (by simp [split])
    have everyPage : Enough (rounds + 1) chain := by
      simp only [Enough]
      omega
    have everyRow : chain.length + 1020 + rest.length < rounds := by omega
    obtain ⟨rid', calls, step, later⟩ := increment_run (formed.withCalls (heap.calls + 1)) granted everyPage ahead
    obtain ⟨calls', run⟩ := ih (formed.withCalls calls) granted later everyRow
    refine ⟨calls', ?_⟩
    rw [scan, if_neg inside, bind_run, getTuple_ahead granted ahead, Option.bind_some]
    dsimp only
    rw [bind_run, step, Option.bind_some, bind_run, run]
    rfl

/-- Iterating from `Begin()` to `End()`. -/
theorem beginScan_run (formed : WellFormed heap chain) (granted : ∀ call, heap.grants call = true)
    (enough : chain.length + 1020 + (contents heap.data chain).length < rounds) :
    ∃ calls, (begin rounds >>= scan rounds) heap =
      some (.ok ((contents heap.data chain).map stored), { heap with calls }) := by
  have everyPage : Enough rounds chain := by
    simp only [Enough]
    omega
  obtain ⟨rid, calls, started, ahead⟩ := begin_run formed granted everyPage
  obtain ⟨calls', run⟩ := scan_run (formed.withCalls calls) granted ahead enough
  exact ⟨calls', by rw [bind_run, started, Option.bind_some, run]⟩

/-- Iterating from `Begin()` to `End()` visits every live RID once, in the order of the chain and of the slots. -/
def Iterates (rounds : ℕ) (heap : TableHeap) (chain : List PageId) : Prop :=
  ∃ (visited : Rows) (heap' : TableHeap), (begin rounds >>= scan rounds) heap =
    some (.ok (visited.map stored), heap') ∧
    (visited.Pairwise fun a b => Before chain a.1 b.1) ∧ (visited.map Prod.fst).Nodup ∧
    ∀ rid bytes, (rid, bytes) ∈ visited ↔ rid.pageId ∈ chain ∧
      (heap.data rid.pageId).live rid.slotNum = some bytes

theorem WellFormed.iterates (formed : WellFormed heap chain) (granted : ∀ call, heap.grants call = true)
    (enough : chain.length + 1020 + (contents heap.data chain).length < rounds) : Iterates rounds heap chain := by
  obtain ⟨calls, run⟩ := beginScan_run formed granted enough
  have ordered := contents_ordered heap.data formed.nodup
  exact ⟨_, _, run, ordered, nodup_of_ordered ordered, fun _ _ => mem_contents_iff⟩

/-- With frames for every page: `InsertTuple` returns a RID that was not live, `GetTuple` returns the bytes, the
other rows stay, the chain stays well-formed, and iteration visits the live rows, before the insertion and after it.
-/
theorem insertTuple_iterates (formed : WellFormed heap chain) (granted : ∀ call, heap.grants call = true)
    (inRange : heap.nextPageId < 2 ^ 31) (tuple : Tuple) (positive : 1 ≤ tuple.getLength)
    (small : tuple.getLength ≤ 4076)
    (enough : chain.length + (contents heap.data chain).length + 1022 < rounds) :
    Iterates rounds heap chain ∧ ∃ rid heap' chain', insertTuple rounds tuple heap = some (some rid, heap') ∧
      (∀ bytes, (rid, bytes) ∉ contents heap.data chain) ∧
      (∃ heap'', getTuple rid heap' = some (.ok (stored (rid, tuple.data.take tuple.getLength)), heap'')) ∧
      (∀ row, row ∈ contents heap'.data chain' ↔
        row = (rid, tuple.data.take tuple.getLength) ∨ row ∈ contents heap.data chain) ∧
      WellFormed heap' chain' ∧ Iterates rounds heap' chain' := by
  have everyPage : chain.length < rounds := by omega
  obtain ⟨rid, heap', chain', earlier, later, run, formed', grants, longer, rows, rows'⟩ :=
    insertFrom_adds (tuple.data.take tuple.getLength) formed granted inRange
      (by rw [length_payload]; exact positive) (by rw [length_payload]; exact small) everyPage
  have granted' : ∀ call, heap'.grants call = true := fun call => by rw [grants, granted]
  have nodup := nodup_of_ordered (contents_ordered heap'.data formed'.nodup)
  rw [rows', List.map_append, List.map_cons, List.nodup_middle, List.nodup_cons, ← List.map_append, ← rows] at nodup
  refine ⟨formed.iterates granted (by omega), rid, heap', chain', run, ?_, ?_, ?_, formed',
    formed'.iterates granted' ?_⟩
  · exact fun bytes mem => nodup.1 (List.mem_map.mpr ⟨_, mem, rfl⟩)
  · have mem : (rid, tuple.data.take tuple.getLength) ∈ contents heap'.data chain' := by simp [rows']
    rw [getTuple_run, granted', if_pos rfl, (live_eq_some_iff.mp (mem_contents_iff.mp mem).2).2.2]
    exact ⟨_, rfl⟩
  · intro row
    simp only [rows, rows', List.mem_append, List.mem_cons]
    tauto
  · have count : (contents heap'.data chain').length = (contents heap.data chain).length + 1 := by
      simp only [rows, rows', List.length_append, List.length_cons]
      omega
    rcases longer with rfl | rfl
    · omega
    · rw [List.length_append, List.length_singleton]
      omega

/-- Into the heap with gaps. -/
theorem insertTuple_iterates_gaps : Iterates 1030 (gaps [1] [0]) [0, 1, 2] ∧ ∃ rid heap' chain',
    insertTuple 1030 ⟨default, [7], []⟩ (gaps [1] [0]) = some (some rid, heap') ∧
      (∀ bytes, (rid, bytes) ∉ contents (gaps [1] [0]).data [0, 1, 2]) ∧
      (∃ heap'', getTuple rid heap' =
        some (.ok (stored (rid, List.take (Tuple.getLength ⟨default, [7], []⟩) [7])), heap'')) ∧
      (∀ row, row ∈ contents heap'.data chain' ↔
        row = (rid, List.take (Tuple.getLength ⟨default, [7], []⟩) [7]) ∨
        row ∈ contents (gaps [1] [0]).data [0, 1, 2]) ∧
      WellFormed heap' chain' ∧ Iterates 1030 heap' chain' := by
  have rows := @gaps_contents [1] [0] (by decide) (by decide)
  exact insertTuple_iterates (gaps_wellFormed (by decide) (by decide)) (fun _ => rfl)
    (by decide) _ (by decide) (by decide)
    (by simp [rows])

end Walk

end OneBase.TableHeap
