import OneBase.Proofs.Storage.HeapRuns

/-! # Insertion into a table heap

A well-formed heap is a chain of well-laid pages. `InsertTuple` keeps it well-formed and adds one row at a RID that was
not live, and a scan visits the live rows in the order of the chain. A tuple that no page can hold still gets a page.
-/

namespace OneBase.TableHeap

open TablePage

/-- The chain of the heap ends, its pages are allocated, and each is laid out as slotted pages are. -/
structure WellFormed (heap : TableHeap) (chain : List PageId) : Prop where
  linked : Linked heap.data heap.firstPageId chain
  nonempty : chain ≠ []
  nodup : chain.Nodup
  allocated : ∀ p ∈ chain, 0 ≤ p ∧ p < heap.nextPageId
  laid : ∀ p ∈ chain, WellLaid (heap.data p)

section Rows

variable {data data' : PageId → TablePage} {page page' : TablePage} {pageId first : PageId} {chain : List PageId}
  {slot : ℕ} {rid : Rid} {bytes : List UInt8}

theorem mem_rowsFrom_iff : (rid, bytes) ∈ rowsFrom page pageId slot ↔
    rid.pageId = pageId ∧ slot ≤ rid.slotNum ∧ page.live rid.slotNum = some bytes := by
  constructor
  · intro mem
    obtain ⟨found, numbered, made⟩ := List.mem_filterMap.mp mem
    obtain ⟨old, live, same⟩ := Option.map_eq_some_iff.mp made
    obtain ⟨rfl, rfl⟩ := Prod.mk.inj same
    exact ⟨rfl, (List.mem_range'_1.mp numbered).1, live⟩
  · rintro ⟨rfl, above, live⟩
    refine List.mem_filterMap.mpr ⟨rid.slotNum, List.mem_range'_1.mpr ⟨above, ?_⟩, by rw [live]; rfl⟩
    have numbered := (live_eq_some_iff.mp live).1
    omega

/-- The rows of a chain are the live slots of its pages. -/
theorem mem_contents_iff : (rid, bytes) ∈ contents data chain ↔
    rid.pageId ∈ chain ∧ (data rid.pageId).live rid.slotNum = some bytes := by
  rw [contents, List.mem_flatMap]
  constructor
  · rintro ⟨p, mem, row⟩
    obtain ⟨rfl, -, live⟩ := mem_rowsFrom_iff.mp row
    exact ⟨mem, live⟩
  · rintro ⟨mem, live⟩
    exact ⟨rid.pageId, mem, mem_rowsFrom_iff.mpr ⟨rfl, Nat.zero_le _, live⟩⟩

theorem rowsFrom_congr (live : page'.live = page.live) (number : page'.getNumTuples = page.getNumTuples) :
    rowsFrom page' pageId slot = rowsFrom page pageId slot := by rw [rowsFrom, rowsFrom, live, number]

/-- What is put in the next slot comes last. -/
theorem rowsFrom_insert {row : Option (List UInt8)} (below : slot ≤ page.getNumTuples)
    (live : page'.live = Function.update page.live page.getNumTuples row)
    (number : page'.getNumTuples = page.getNumTuples + 1) : rowsFrom page' pageId slot =
      rowsFrom page pageId slot ++ (row.map (Prod.mk ⟨pageId, page.getNumTuples⟩)).toList := by
  have steps : page.getNumTuples + 1 - slot = (page.getNumTuples - slot) + 1 := by omega
  have last : slot + (page.getNumTuples - slot) = page.getNumTuples := by omega
  rw [rowsFrom, rowsFrom, number, steps, List.range'_1_concat, List.filterMap_append, last, live]
  refine congrArg₂ (· ++ ·) ?_ ?_
  · apply List.filterMap_congr
    intro other numbered
    have before := (List.mem_range'_1.mp numbered).2
    rw [Function.update_of_ne (by omega)]
  · rw [List.filterMap_cons, Function.update_self, List.filterMap_nil]
    cases row <;> rfl

theorem contents_append (data : PageId → TablePage) (before after : List PageId) :
    contents data (before ++ after) = contents data before ++ contents data after := List.flatMap_append

theorem contents_cons (data : PageId → TablePage) (p : PageId) (chain : List PageId) :
    contents data (p :: chain) = rowsFrom (data p) p 0 ++ contents data chain := rfl

theorem contents_congr (same : ∀ p ∈ chain, rowsFrom (data' p) p 0 = rowsFrom (data p) p 0) :
    contents data' chain = contents data chain := List.flatMap_congr same

theorem contents_update (off : pageId ∉ chain) :
    contents (Function.update data pageId page) chain = contents data chain := by
  apply contents_congr
  intro p mem
  rw [Function.update_of_ne (ne_of_mem_of_not_mem mem off)]

/-- The links of a chain are all that `Linked` reads. -/
theorem Linked.congr (linked : Linked data first chain)
    (same : ∀ p ∈ chain, (data' p).getNextPageId = (data p).getNextPageId) : Linked data' first chain := by
  induction chain generalizing first with
  | nil => exact linked
  | cons p chain ih =>
    obtain ⟨rfl, valid, linked⟩ := linked
    refine ⟨rfl, valid, ?_⟩
    rw [same first (List.mem_cons_self ..)]
    exact ih linked fun p mem => same p (List.mem_cons_of_mem _ mem)

/-- The last page of a chain links to none. -/
theorem Linked.last {before : List PageId} {last : PageId} (linked : Linked data first (before ++ [last])) :
    (data last).getNextPageId = invalidPageId := by
  induction before generalizing first with
  | nil => exact linked.2.2
  | cons p before ih => exact ih linked.2.2

/-- A page linked to the last one lengthens the chain. -/
theorem Linked.extend {before : List PageId} {last fresh : PageId} (linked : Linked data first (before ++ [last]))
    (same : ∀ p ∈ before, (data' p).getNextPageId = (data p).getNextPageId)
    (link : (data' last).getNextPageId = fresh) (valid : fresh ≠ invalidPageId)
    (ends : (data' fresh).getNextPageId = invalidPageId) : Linked data' first (before ++ [last, fresh]) := by
  induction before generalizing first with
  | nil =>
    obtain ⟨rfl, here, -⟩ := linked
    exact ⟨rfl, here, link, valid, ends⟩
  | cons p before ih =>
    obtain ⟨rfl, here, linked⟩ := linked
    refine ⟨rfl, here, ?_⟩
    rw [same first (List.mem_cons_self ..)]
    exact ih linked fun p mem => same p (List.mem_cons_of_mem _ mem)

/-- A RID comes before another one in the order of the chain and of the slots of a page. -/
def Before (chain : List PageId) (a b : Rid) : Prop :=
  chain.idxOf a.pageId < chain.idxOf b.pageId ∨ a.pageId = b.pageId ∧ a.slotNum < b.slotNum

theorem rowsFrom_ordered (page : TablePage) (pageId : PageId) (slot : ℕ) (chain : List PageId) :
    (rowsFrom page pageId slot).Pairwise fun a b => Before chain a.1 b.1 := by
  rw [rowsFrom, List.pairwise_filterMap]
  apply List.Pairwise.imp _ List.pairwise_lt_range'
  intro a b less row made row' made'
  obtain ⟨old, -, rfl⟩ := Option.map_eq_some_iff.mp made
  obtain ⟨old', -, rfl⟩ := Option.map_eq_some_iff.mp made'
  exact .inr ⟨rfl, less⟩

/-- The rows of a chain are in its order. -/
theorem contents_ordered (data : PageId → TablePage) (nodup : chain.Nodup) :
    (contents data chain).Pairwise fun a b => Before chain a.1 b.1 := by
  rw [contents, List.pairwise_flatMap]
  refine ⟨fun p _ => rowsFrom_ordered (data p) p 0 chain, ?_⟩
  apply List.pairwise_iff_getElem.mpr
  intro i j hi hj less row mem row' mem'
  obtain ⟨here, -, -⟩ := mem_rowsFrom_iff.mp mem
  obtain ⟨there, -, -⟩ := mem_rowsFrom_iff.mp mem'
  left
  rw [here, there, nodup.idxOf_getElem, nodup.idxOf_getElem]
  exact less

/-- Nothing comes before itself, so no RID is visited twice. -/
theorem nodup_of_ordered {rows : Rows} (ordered : rows.Pairwise fun a b => Before chain a.1 b.1) :
    (rows.map Prod.fst).Nodup := by
  rw [List.Nodup, List.pairwise_map]
  apply ordered.imp
  rintro a b (less | ⟨-, less⟩) same
  · rw [same] at less
    exact Nat.lt_irrefl _ less
  · rw [same] at less
    exact Nat.lt_irrefl _ less

end Rows

section Room

variable {page : TablePage} {tuple : List UInt8}

/-- The header takes 16 bytes of every page. -/
theorem freeSpace_le (laid : WellLaid page) : page.getFreeSpaceRemaining ≤ 4080 := by
  have high := laid.pointer
  rw [laid.freeSpace]
  simp only [slotOffset, sizeTablePageHeader, sizeTupleSlot, pageSize] at high ⊢
  omega

/-- A tuple that does not fit with its slot between the header and the end of a page fits in no page. -/
theorem insertBytes_oversized (laid : WellLaid page) (big : 4076 < tuple.length) :
    page.insertBytes tuple = (page, none) := by
  have room := freeSpace_le laid
  rw [insertBytes, if_pos (by simp only [sizeTupleSlot]; omega)]

theorem freshPage_freeSpace (page : TablePage) : getFreeSpaceRemaining (page.init invalidPageId) = 4080 := by
  obtain ⟨laid, -, number, -⟩ := wellLaid_init page
  rw [laid.freeSpace, number, (init_header page invalidPageId).2]
  rfl

theorem freshPage_oversized (big : 4076 < tuple.length) : (freshPage tuple).2 = none := by
  rw [freshPage, insertBytes_oversized (wellLaid_init _).1 big]

/-- A new page takes every tuple that fits in a page. -/
theorem freshPage_fits (small : tuple.length ≤ 4076) : (freshPage tuple).2.isSome := by
  rw [freshPage, insertBytes, freshPage_freeSpace, if_neg (by simp only [sizeTupleSlot]; omega)]
  rfl

/-- The rows that an insertion adds. -/
def added (tuple : List UInt8) (result : Option Rid) : Rows :=
  (result.bind fun rid => (asRow tuple).map (Prod.mk rid)).toList

/-- A new page, with the tuple in its first slot if it fits. -/
theorem freshPage_run (tuple : List UInt8) : ∃ page slot, freshPage tuple = (page, slot) ∧ WellLaid page ∧
    (∀ pageId, rowsFrom page pageId 0 = added tuple (slot.map (Rid.mk pageId))) ∧
      page.getNextPageId = invalidPageId ∧ (slot = none ∨ slot = some 0) := by
  obtain ⟨laid, empty, number, next⟩ := wellLaid_init fun _ => 0
  rcases laid.insert tuple with ⟨refused, -⟩ | ⟨page, took, laid', live, count, link⟩
  · refine ⟨_, none, refused, laid, fun pageId => ?_, next, .inl rfl⟩
    rw [rowsFrom_of_le (by rw [number])]
    rfl
  · refine ⟨page, some 0, by rw [freshPage, took, number], laid', fun pageId => ?_, link.trans next, .inr rfl⟩
    rw [rowsFrom_insert (Nat.zero_le _) live count, number, rowsFrom_of_le (by rw [number])]
    rfl

end Room

section Insert

variable {heap heap' : TableHeap} {chain : List PageId} {tuple : List UInt8} {rounds : ℕ}

theorem Insertion.grants_eq {result : Option Rid} (insertion : Insertion tuple heap chain result heap') :
    heap'.grants = heap.grants := by cases insertion <;> rfl

/-- A row in a page of the chain. -/
theorem WellFormed.place {before after : List PageId} {pageId : PageId} {slot : ℕ} {page : TablePage}
    (formed : WellFormed heap chain) (calls : ℕ) (split : chain = before ++ pageId :: after)
    (took : (heap.data pageId).insertBytes tuple = (page, some slot)) :
    WellFormed { heap with calls, data := Function.update heap.data pageId page } chain ∧
      contents (Function.update heap.data pageId page) chain =
        contents heap.data (before ++ [pageId]) ++ added tuple (some ⟨pageId, slot⟩) ++
          contents heap.data after := by
  have mem : pageId ∈ chain := by simp [split]
  rcases (formed.laid pageId mem).insert tuple with ⟨refused, -⟩ | ⟨page', took', laid, live, count, link⟩
  · rw [took] at refused
    cases refused
  rw [took] at took'
  obtain ⟨rfl, same⟩ := Prod.mk.inj took'
  obtain rfl := Option.some.inj same
  have nodup := formed.nodup
  rw [split, List.nodup_middle, List.nodup_cons, List.mem_append, not_or] at nodup
  obtain ⟨⟨offBefore, offAfter⟩, -⟩ := nodup
  constructor
  · refine ⟨formed.linked.congr ?_, formed.nonempty, formed.nodup, formed.allocated, ?_⟩
    · intro p _
      dsimp only
      by_cases here : p = pageId
      · rw [here, Function.update_self, link]
      · rw [Function.update_of_ne here]
    · intro p mem
      by_cases here : p = pageId
      · simpa [here] using laid
      · simpa [here] using formed.laid p mem
  · rw [split, contents_append, contents_cons, contents_append, contents_cons, contents_update offBefore,
      contents_update offAfter, Function.update_self, rowsFrom_insert (Nat.zero_le _) live count]
    simp [contents, added]

/-- A row in a page that is new in the chain. -/
theorem WellFormed.extend {before : List PageId} {last : PageId} {page : TablePage} {rows : Rows}
    (formed : WellFormed heap chain) (inRange : heap.nextPageId < 2 ^ 31) (calls : ℕ)
    (split : chain = before ++ [last])
    (laid : WellLaid page) (holds : rowsFrom page heap.nextPageId 0 = rows)
    (ends : page.getNextPageId = invalidPageId) :
    WellFormed { heap with
        calls
        nextPageId := heap.nextPageId + 1
        pinCount := Function.update heap.pinCount heap.nextPageId 0
        data := Function.update (Function.update heap.data heap.nextPageId page) last
          ((heap.data last).setNextPageId heap.nextPageId) } (chain ++ [heap.nextPageId]) ∧
      contents (Function.update (Function.update heap.data heap.nextPageId page) last
          ((heap.data last).setNextPageId heap.nextPageId)) (chain ++ [heap.nextPageId]) =
        contents heap.data chain ++ rows := by
  have mem : last ∈ chain := by simp [split]
  obtain ⟨low, high⟩ := formed.allocated last mem
  have fresh : heap.nextPageId ∉ chain := fun mem => absurd (formed.allocated _ mem).2 (lt_irrefl _)
  have other : heap.nextPageId ≠ last := fun same => fresh (same ▸ mem)
  obtain ⟨laidLast, live, count, link⟩ := (formed.laid last mem).setNext (low.trans high.le) inRange
  have nodup := formed.nodup
  rw [split] at nodup
  have off : last ∉ before :=
    fun inside => (List.nodup_append.mp nodup).2.2 last inside last (List.mem_singleton.mpr rfl) rfl
  constructor
  · refine ⟨?_, by simp, ?_, ?_, ?_⟩
    · have linked := formed.linked
      rw [split] at linked ⊢
      rw [List.append_assoc]
      apply linked.extend
      · intro p inside
        have notLast : p ≠ last := ne_of_mem_of_not_mem inside off
        have notFresh : p ≠ heap.nextPageId :=
          ne_of_mem_of_not_mem (split ▸ List.mem_append_left _ inside) fresh
        simp [notLast, notFresh]
      · simpa using link
      · exact ne_of_gt (lt_of_lt_of_le neg_one_lt_zero (low.trans high.le))
      · simpa [other] using ends
    · rw [List.nodup_append]
      refine ⟨formed.nodup, List.nodup_singleton _, ?_⟩
      rintro p inside q here rfl
      exact fresh (List.mem_singleton.mp here ▸ inside)
    · intro p inside
      rcases List.mem_append.mp inside with old | new
      · exact ⟨(formed.allocated p old).1, (formed.allocated p old).2.trans (Int.lt_succ _)⟩
      · rw [List.mem_singleton.mp new]
        exact ⟨low.trans high.le, Int.lt_succ _⟩
    · intro p inside
      by_cases isLast : p = last
      · simpa [isLast] using laidLast
      · by_cases isFresh : p = heap.nextPageId
        · simpa [isFresh, other] using laid
        · have old : p ∈ chain := by simpa [isFresh] using inside
          simpa [isLast, isFresh] using formed.laid p old
  · rw [contents_append, contents_cons]
    refine congrArg₂ (· ++ ·) ?_ ?_
    · apply contents_congr
      intro p inside
      by_cases isLast : p = last
      · rw [isLast, Function.update_self, rowsFrom_congr live count]
      · rw [Function.update_of_ne isLast, Function.update_of_ne (ne_of_mem_of_not_mem inside fresh)]
    · rw [Function.update_of_ne other, Function.update_self, holds]
      exact List.append_nil rows

/-- `InsertTuple` keeps the heap well-formed and leaves the rows in their order around the one it adds. -/
theorem Insertion.adds {result : Option Rid} (insertion : Insertion tuple heap chain result heap')
    (formed : WellFormed heap chain) (inRange : heap.nextPageId < 2 ^ 31) : ∃ chain' earlier later,
      WellFormed heap' chain' ∧ (chain' = chain ∨ chain' = chain ++ [heap.nextPageId]) ∧
      contents heap.data chain = earlier ++ later ∧
      contents heap'.data chain' = earlier ++ added tuple result ++ later := by
  cases insertion with
  | placed before after pageId slot page calls split took =>
    obtain ⟨formed', rows⟩ := formed.place calls split took
    refine ⟨chain, contents heap.data (before ++ [pageId]), contents heap.data after, formed', .inl rfl, ?_, rows⟩
    rw [← contents_append, List.append_assoc, List.singleton_append, split]
  | refused calls call early refused =>
    exact ⟨chain, contents heap.data chain, [],
      ⟨formed.linked, formed.nonempty, formed.nodup, formed.allocated, formed.laid⟩,
      .inl rfl, (List.append_nil _).symm, by simp [added]⟩
  | extended before last page slot calls split fresh full _ =>
    obtain ⟨page', slot', took, laid, rows, ends, -⟩ := freshPage_run tuple
    rw [took] at fresh
    obtain ⟨rfl, rfl⟩ := Prod.mk.inj fresh
    obtain ⟨formed', rows'⟩ := formed.extend inRange calls split laid (rows heap.nextPageId) ends
    exact ⟨_, contents heap.data chain, [], formed', .inr rfl, (List.append_nil _).symm,
      rows'.trans (List.append_nil _).symm⟩

/-- With frames for every page, a tuple that fits in a page is inserted. -/
theorem Insertion.succeeds {result : Option Rid} (insertion : Insertion tuple heap chain result heap')
    (granted : ∀ call, heap.grants call = true) (small : tuple.length ≤ 4076) : ∃ rid, result = some rid := by
  cases insertion with
  | placed before after pageId slot page calls split took => exact ⟨_, rfl⟩
  | refused calls call early refused =>
    rw [granted] at refused
    cases refused
  | extended before last page slot calls split fresh full _ =>
    have fits := freshPage_fits small
    rw [fresh] at fits
    obtain ⟨found, rfl⟩ := Option.isSome_iff_exists.mp fits
    exact ⟨_, rfl⟩

/-- With frames for every page, `InsertTuple` adds one row somewhere and leaves the others in their order. -/
theorem insertFrom_adds (tuple : List UInt8) (formed : WellFormed heap chain)
    (granted : ∀ call, heap.grants call = true)
    (inRange : heap.nextPageId < 2 ^ 31) (positive : 1 ≤ tuple.length) (small : tuple.length ≤ 4076)
    (enough : chain.length < rounds) :
    ∃ rid heap' chain' earlier later, insertFrom tuple rounds heap.firstPageId heap = some (some rid, heap') ∧
      WellFormed heap' chain' ∧ heap'.grants = heap.grants ∧
      (chain' = chain ∨ chain' = chain ++ [heap.nextPageId]) ∧
      contents heap.data chain = earlier ++ later ∧
      contents heap'.data chain' = earlier ++ (rid, tuple) :: later := by
  obtain ⟨result, heap', run, insertion⟩ := insertFrom_run tuple formed.linked formed.nonempty
    (fun p mem => ne_of_lt (formed.allocated p mem).2) enough
  obtain ⟨rid, rfl⟩ := insertion.succeeds granted small
  obtain ⟨chain', earlier, later, formed', longer, rows, rows'⟩ := insertion.adds formed inRange
  refine ⟨rid, heap', chain', earlier, later, run, formed', insertion.grants_eq, longer, rows, ?_⟩
  have notEmpty : tuple ≠ [] := List.ne_nil_of_length_pos positive
  rw [rows', added, Option.bind_some, asRow, if_neg notEmpty, Option.map_some, Option.toList_some, List.append_assoc,
    List.singleton_append]

end Insert

section Gaps

variable {rows : List (List UInt8)} {page : TablePage} {pageId : PageId} {first last : List UInt8}

/-- Insertions into a new page, and the slot of the last one. -/
def filledPage (rows : List (List UInt8)) : TablePage × Option ℕ :=
  rows.foldl (fun filled row => filled.1.insertBytes row) (TablePage.init (fun _ => 0) invalidPageId, none)

theorem filledPage_nil : filledPage [] = (TablePage.init (fun _ => 0) invalidPageId, none) := List.foldl_nil

theorem filledPage_concat (rows : List (List UInt8)) (row : List UInt8) :
    filledPage (rows ++ [row]) = (filledPage rows).1.insertBytes row :=
  List.foldl_concat (fun filled row => TablePage.insertBytes filled.1 row) _ row rows

/-- Rows that fit in a page are all there, each in its slot. -/
theorem filledPage_spec (notEmpty : ∀ row ∈ rows, row ≠ [])
    (fits : (rows.map fun row => row.length + sizeTupleSlot).sum ≤ 4080) : WellLaid (filledPage rows).1 ∧
      live (filledPage rows).1 = (fun slot => rows[slot]?) ∧ getNumTuples (filledPage rows).1 = rows.length ∧
      getNextPageId (filledPage rows).1 = invalidPageId ∧ getFreeSpaceRemaining (filledPage rows).1 =
        4080 - (rows.map fun row => row.length + sizeTupleSlot).sum := by
  induction rows using List.reverseRecOn with
  | nil =>
    obtain ⟨laid, live, number, next⟩ := wellLaid_init fun _ => 0
    rw [filledPage_nil, live, number, next, freshPage_freeSpace]
    exact ⟨laid, rfl, rfl, rfl, rfl⟩
  | append_singleton rows row ih =>
    rw [List.map_append, List.sum_append, List.map_singleton, List.sum_singleton] at fits ⊢
    obtain ⟨laid, live, number, next, free⟩ := ih
      (fun row mem => notEmpty row (List.mem_append_left _ mem)) (by omega)
    have here : row ≠ [] := notEmpty row (by simp)
    rcases laid.insert row with ⟨-, full⟩ | ⟨page, took, laid', live', number', next'⟩
    · omega
    have space := laid.insertBytes_freeSpace took
    rw [filledPage_concat, took]
    refine ⟨laid', ?_, ?_, next'.trans next, ?_⟩
    · rw [live', live, number, asRow, if_neg here]
      funext slot
      rcases lt_trichotomy slot rows.length with before | rfl | after
      · rw [Function.update_of_ne (by omega), List.getElem?_append_left before]
      · rw [Function.update_self, List.getElem?_concat_length]
      · rw [Function.update_of_ne (by omega), List.getElem?_eq_none (by omega),
          List.getElem?_eq_none (by rw [List.length_append, List.length_singleton]; omega)]
    · rw [number', number, List.length_append, List.length_singleton]
    · rw [space, free]
      omega

/-- Three insertions, of which the second is deleted. -/
def gappedPage (first last : List UInt8) : TablePage := (filledPage [first, [0], last]).1.deleteTuple 1

theorem gappedPage_spec (notEmpty : first ≠ [] ∧ last ≠ []) (small : first.length + last.length ≤ 4067) :
    WellLaid (gappedPage first last) ∧
      (∀ pageId, rowsFrom (gappedPage first last) pageId 0 = [(⟨pageId, 0⟩, first), (⟨pageId, 2⟩, last)]) ∧
      getNextPageId (gappedPage first last) = invalidPageId ∧
      getFreeSpaceRemaining (gappedPage first last) = 4067 - (first.length + last.length) := by
  obtain ⟨laid, live, number, next, free⟩ := @filledPage_spec [first, [0], last] (by simp [notEmpty])
    (by simp [sizeTupleSlot]; omega)
  have held : TablePage.live (filledPage [first, [0], last]).1 1 = some [0] := by rw [live]; rfl
  obtain ⟨laid', live', number', next'⟩ := laid.delete held
  refine ⟨laid', fun pageId => ?_, next'.trans next, ?_⟩
  · rw [gappedPage, rowsFrom, live', number', live, number]
    rfl
  · rw [gappedPage, laid'.freeSpace, (deleteTuple_frame _ _).1, number', ← laid.freeSpace, free]
    simp [sizeTupleSlot]
    omega

/-- A page whose only tuple is deleted. -/
def emptiedPage : TablePage := (filledPage [[0]]).1.deleteTuple 0

theorem emptiedPage_spec : WellLaid emptiedPage ∧ (∀ pageId, rowsFrom emptiedPage pageId 0 = []) ∧
    getFreeSpaceRemaining emptiedPage = 4075 := by
  obtain ⟨laid, live, number, next, free⟩ := @filledPage_spec [[0]] (by simp) (by decide)
  have held : TablePage.live (filledPage [[0]]).1 0 = some [0] := by rw [live]; rfl
  obtain ⟨laid', live', number', -⟩ := laid.delete held
  refine ⟨laid', fun pageId => ?_, ?_⟩
  · rw [emptiedPage, rowsFrom, live', number', live, number]
    rfl
  · rw [emptiedPage, laid'.freeSpace, (deleteTuple_frame _ _).1, number', ← laid.freeSpace, free]
    rfl

/-- A heap with gaps: rows and deleted slots in its first page and in its last, and no row in the page between. -/
def gaps (first last : List UInt8) : TableHeap where
  data p :=
    if p = 0 then (gappedPage first last).setNextPageId 1
    else if p = 1 then emptiedPage.setNextPageId 2
    else if p = 2 then gappedPage first last
    else fun _ => 0
  pinCount _ := 0
  nextPageId := 3
  grants _ := true
  calls := 0
  firstPageId := 0

theorem gaps_wellFormed (notEmpty : first ≠ [] ∧ last ≠ []) (small : first.length + last.length ≤ 4067) :
    WellFormed (gaps first last) [0, 1, 2] := by
  obtain ⟨laid, -, ends, -⟩ := gappedPage_spec notEmpty small
  obtain ⟨laid0, -, -, next0⟩ := laid.setNext zero_le_one (by decide)
  obtain ⟨laid1, -, -, next1⟩ := emptiedPage_spec.1.setNext zero_le_two (by decide)
  refine ⟨⟨rfl, by decide, next0, by decide, next1, by decide, ends⟩,
    List.cons_ne_nil _ _, by decide, by simp [gaps], ?_⟩
  simp only [List.forall_mem_cons]
  exact ⟨laid0, laid1, laid, fun p mem => absurd mem List.not_mem_nil⟩

theorem gaps_contents (notEmpty : first ≠ [] ∧ last ≠ []) (small : first.length + last.length ≤ 4067) :
    contents (gaps first last).data [0, 1, 2] =
      [(⟨0, 0⟩, first), (⟨0, 2⟩, last), (⟨2, 0⟩, first), (⟨2, 2⟩, last)] := by
  obtain ⟨laid, rows, -, -⟩ := gappedPage_spec notEmpty small
  obtain ⟨-, live, number, -⟩ := laid.setNext zero_le_one (by decide)
  obtain ⟨laid1, rows1, -⟩ := emptiedPage_spec
  obtain ⟨-, live1, number1, -⟩ := laid1.setNext zero_le_two (by decide)
  have page0 : rowsFrom ((gaps first last).data 0) 0 0 = _ := (rowsFrom_congr live number).trans (rows 0)
  have page1 : rowsFrom ((gaps first last).data 1) 1 0 = _ := (rowsFrom_congr live1 number1).trans (rows1 1)
  have page2 : rowsFrom ((gaps first last).data 2) 2 0 = _ := rows 2
  rw [contents_cons, contents_cons, contents_cons, page0, page1, page2]
  rfl

theorem gaps_freeSpace (notEmpty : first ≠ [] ∧ last ≠ []) (small : first.length + last.length ≤ 4067)
    (p : PageId) :
    4067 - (first.length + last.length) ≤ getFreeSpaceRemaining ((gaps first last).data p) := by
  obtain ⟨-, -, -, free⟩ := gappedPage_spec notEmpty small
  obtain ⟨-, -, free1⟩ := emptiedPage_spec
  dsimp only [gaps]
  split_ifs
  · rw [setNextPageId_freeSpace, free]
  · rw [setNextPageId_freeSpace, free1]
    omega
  · rw [free]
  · have blank : getFreeSpaceRemaining (fun _ => 0) = 2 ^ 32 - 16 := rfl
    rw [blank]
    omega

end Gaps

section Failure

variable {heap : TableHeap} {chain : List PageId} {rounds : ℕ}

/-- `InsertTuple` takes the bytes that `GetLength` counts. -/
theorem length_payload (tuple : Tuple) : (tuple.data.take tuple.getLength).length = tuple.getLength := by
  rw [List.length_take]
  exact Nat.min_eq_left (Nat.mod_le _ _)

theorem insertTuple_eq (rounds : ℕ) (tuple : Tuple) (heap : TableHeap) : insertTuple rounds tuple heap =
    insertFrom (tuple.data.take tuple.getLength) rounds heap.firstPageId heap := rfl

/-- The calls to the pool that `InsertTuple` can make on a chain whose pages refuse. -/
def PagesGranted (heap : TableHeap) (chain : List PageId) : Prop :=
  ∀ call ≤ chain.length, heap.grants (heap.calls + call) = true

/-- A tuple that no page can hold: a page is linked to the chain, and the insertion fails. -/
theorem insertTuple_oversized (formed : WellFormed heap chain) (inRange : heap.nextPageId < 2 ^ 31) (tuple : Tuple)
    (big : 4076 < tuple.getLength) (granted : PagesGranted heap chain) (enough : chain.length < rounds) :
    ∃ heap', insertTuple rounds tuple heap = some (none, heap') ∧ heap'.data ≠ heap.data := by
  rw [← length_payload] at big
  obtain ⟨result, heap', run, insertion⟩ :=
    insertFrom_run (tuple.data.take tuple.getLength) formed.linked formed.nonempty
    (fun p mem => ne_of_lt (formed.allocated p mem).2) enough
  cases insertion with
  | placed before after pageId slot page calls split took =>
    rw [insertBytes_oversized (formed.laid pageId (by simp [split])) big] at took
    cases took
  | refused calls call early refused =>
    rw [granted call early] at refused
    cases refused
  | extended before last page slot calls split fresh full _ =>
    obtain rfl : slot = none := by rw [← freshPage_oversized big, fresh]
    refine ⟨_, run, fun same => ?_⟩
    -- the last page linked to none before
    have mem : last ∈ chain := by simp [split]
    obtain ⟨low, high⟩ := formed.allocated last mem
    have ended := Linked.last (split ▸ formed.linked)
    have link := ((formed.laid last mem).setNext (low.trans high.le) inRange).2.2.2
    have page := congrFun same last
    dsimp only at page
    rw [Function.update_self] at page
    rw [page, ended] at link
    exact absurd (link ▸ low.trans high.le) (by decide)

/-- `InsertTuple` leaves no trace of a failure unless the tuple fits in no page and the pool has a frame for every page
of the chain and one more. -/
theorem insertTuple_noTrace_iff (formed : WellFormed heap chain) (inRange : heap.nextPageId < 2 ^ 31) (tuple : Tuple)
    (enough : chain.length < rounds) : ∃ result heap', insertTuple rounds tuple heap = some (result, heap') ∧
      ((result = none → heap'.data = heap.data ∧ Linked heap'.data heap'.firstPageId chain) ↔
        ¬ (4076 < tuple.getLength ∧ PagesGranted heap chain)) := by
  by_cases bad : 4076 < tuple.getLength ∧ PagesGranted heap chain
  · obtain ⟨heap', run, changed⟩ := insertTuple_oversized formed inRange tuple bad.1 bad.2 enough
    refine ⟨none, heap', run, iff_of_false (fun unchanged => changed (unchanged rfl).1) (not_not_intro bad)⟩
  · obtain ⟨result, heap', run, insertion⟩ := insertFrom_run (tuple.data.take tuple.getLength) formed.linked
      formed.nonempty (fun p mem => ne_of_lt (formed.allocated p mem).2) enough
    refine ⟨result, heap', run, iff_of_true (fun failed => ?_) bad⟩
    cases insertion with
    | placed => cases failed
    | refused => exact ⟨rfl, formed.linked⟩
    | extended before last page slot calls split fresh full granted =>
      have small : (tuple.data.take tuple.getLength).length ≤ 4076 := by
        rw [length_payload]
        by_contra big
        exact bad ⟨Nat.lt_of_not_le big, granted⟩
      have fits := freshPage_fits small
      rw [fresh] at fits
      rw [Option.map_eq_none_iff] at failed
      rw [failed] at fits
      cases fits

/-- A heap of one empty page. -/
def onePage : TableHeap where
  data _ := TablePage.init (fun _ => 0) invalidPageId
  pinCount _ := 0
  nextPageId := 1
  grants _ := true
  calls := 0
  firstPageId := 0

theorem onePage_wellFormed : WellFormed onePage [0] := by
  obtain ⟨laid, -, -, next⟩ := wellLaid_init fun _ => 0
  exact ⟨⟨rfl, by decide, next⟩, List.cons_ne_nil _ _, List.nodup_singleton _,
    by simp [onePage], fun _ _ => laid⟩

/-- The heap with gaps while its second page cannot be fetched. -/
def refusing : TableHeap := { gaps [1] [0] with grants := fun call => call ≠ 1 }

theorem refusing_wellFormed : WellFormed refusing [0, 1, 2] := by
  obtain ⟨linked, nonempty, nodup, allocated, laid⟩ := @gaps_wellFormed [1] [0] (by decide) (by decide)
  exact ⟨linked, nonempty, nodup, allocated, laid⟩

/-- A tuple that its first page has no room for. -/
theorem insertTuple_noTrace_iff_refusing : ∃ result heap',
    insertTuple 4 ⟨default, List.replicate 4070 0, []⟩ refusing = some (result, heap') ∧
      ((result = none → heap'.data = refusing.data ∧ Linked heap'.data heap'.firstPageId [0, 1, 2]) ↔
        ¬ (4076 < Tuple.getLength ⟨default, List.replicate 4070 0, []⟩ ∧ PagesGranted refusing [0, 1, 2])) :=
  insertTuple_noTrace_iff refusing_wellFormed (by decide) _ (by decide)

/-- 4077 bytes fail, and the empty page has got a page behind it. -/
theorem insertTuple_traced : ¬ ∀ (heap : TableHeap) (chain : List PageId) (rounds : ℕ) (tuple : Tuple)
    (heap' : TableHeap),
    WellFormed heap chain → heap.nextPageId < 2 ^ 31 → chain.length < rounds →
      insertTuple rounds tuple heap = some (none, heap') → heap'.data = heap.data := by
  intro unchanged
  have long : 4076 < Tuple.getLength ⟨default, List.replicate 4077 0, []⟩ := by
    rw [Tuple.getLength, List.length_replicate]
    decide
  have enough : [(0 : PageId)].length < 2 := by decide
  obtain ⟨heap', run, changed⟩ :=
    insertTuple_oversized onePage_wellFormed (by decide) _ long (fun _ _ => rfl) enough
  exact changed (unchanged onePage [0] 2 _ heap' onePage_wellFormed (by decide) enough run)

end Failure

end OneBase.TableHeap
