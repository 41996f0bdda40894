import OneBase.Model.TableHeap
import OneBase.Proofs.Storage.PageRows

/-! # What the calls of a table heap do

For every pattern in which the pool finds frames or does not: the result of each call and the state after it. A call
that only reads changes nothing but the count of calls to the pool, so the pins it takes are dropped again.
-/

namespace OneBase.TableHeap

open TablePage

section Pool

variable {α β : Type} {heap : TableHeap}

theorem bind_run (m : HeapM α) (f : α → HeapM β) (heap : TableHeap) :
    (m >>= f) heap = (m heap).bind fun result => f result.1 result.2 := (rfl)

@[simp] theorem map_run (f : α → β) (m : HeapM α) (heap : TableHeap) :
    (f <$> m) heap = (m heap).map fun result => (f result.1, result.2) := by
  change (m heap).bind (fun result => some (f result.1, result.2)) = _
  cases m heap <;> rfl

@[simp] theorem pure_run (a : α) (heap : TableHeap) : (pure a : HeapM α) heap = some (a, heap) := (rfl)

@[simp] theorem page_run (pageId : PageId) (heap : TableHeap) :
    page pageId heap = some (heap.data pageId, heap) := (rfl)

@[simp] theorem writePage_run (pageId : PageId) (contents : TablePage) (heap : TableHeap) :
    writePage pageId contents heap = some ((), { heap with data := Function.update heap.data pageId contents }) := (rfl)

@[simp] theorem unpinPage_run (pageId : PageId) (dirty : Bool) (heap : TableHeap) : unpinPage pageId dirty heap =
    some ((), { heap with pinCount := Function.update heap.pinCount pageId (heap.pinCount pageId - 1) }) := (rfl)

theorem fetchPage_granted (pageId : PageId) (granted : heap.grants heap.calls = true) : fetchPage pageId heap =
    some (true, { heap with
      calls := heap.calls + 1
      pinCount := Function.update heap.pinCount pageId (heap.pinCount pageId + 1) }) := by
  change (if heap.grants heap.calls then _ else _ : HeapM Bool) heap = _
  rw [if_pos granted]
  rfl

theorem fetchPage_refused (pageId : PageId) (refused : heap.grants heap.calls = false) :
    fetchPage pageId heap = some (false, { heap with calls := heap.calls + 1 }) := by
  change (if heap.grants heap.calls then _ else _ : HeapM Bool) heap = _
  rw [if_neg (by simp [refused])]
  rfl

theorem newPage_granted (granted : heap.grants heap.calls = true) : newPage heap =
    some (some heap.nextPageId, { heap with
      calls := heap.calls + 1
      nextPageId := heap.nextPageId + 1
      data := Function.update heap.data heap.nextPageId fun _ => 0
      pinCount := Function.update heap.pinCount heap.nextPageId 1 }) := by
  change (if heap.grants heap.calls then _ else _ : HeapM (Option PageId)) heap = _
  rw [if_pos granted]
  rfl

theorem newPage_refused (refused : heap.grants heap.calls = false) :
    newPage heap = some (none, { heap with calls := heap.calls + 1 }) := by
  change (if heap.grants heap.calls then _ else _ : HeapM (Option PageId)) heap = _
  rw [if_neg (by simp [refused])]
  rfl

/-- A pin taken and dropped. -/
theorem update_pin (pinCount : PageId → ℕ) (pageId : PageId) : Function.update (Function.update pinCount pageId
    (pinCount pageId + 1)) pageId (Function.update pinCount pageId (pinCount pageId + 1) pageId - 1) = pinCount := by
  rw [Function.update_idem, Function.update_self, Nat.add_sub_cancel, Function.update_eq_self]

end Pool

section Calls

variable {heap : TableHeap} {rid : Rid}

/-- `GetTuple` changes nothing. -/
theorem getTuple_run (rid : Rid) (heap : TableHeap) : getTuple rid heap = some (
    if heap.grants heap.calls then
      .ok { rid, data := (heap.data rid.pageId).getTuple rid.slotNum, values := [] }
    else .error "Cannot fetch page for GetTuple", { heap with calls := heap.calls + 1 }) := by
  cases granted : heap.grants heap.calls with
  | false => simp [getTuple, bind_run, fetchPage_refused rid.pageId granted]
  | true => simp [getTuple, bind_run, fetchPage_granted rid.pageId granted]

/-- `DeleteTuple` changes the page that it can fetch, and no other. -/
theorem deleteTuple_run (rid : Rid) (heap : TableHeap) : deleteTuple rid heap = some ((), { heap with
    calls := heap.calls + 1
    data := if heap.grants heap.calls then
        Function.update heap.data rid.pageId ((heap.data rid.pageId).deleteTuple rid.slotNum) else heap.data }) := by
  cases granted : heap.grants heap.calls with
  | false => simp [deleteTuple, bind_run, fetchPage_refused rid.pageId granted]
  | true => simp [deleteTuple, bind_run, fetchPage_granted rid.pageId granted]

/-- `UpdateTuple` changes the page that it can fetch, and no other. -/
theorem updateTupleBy_run (updatePage : TablePage → ℕ → List UInt8 → TablePage × Bool) (rid : Rid)
    (tuple : Tuple)
    (heap : TableHeap) : updateTupleBy updatePage rid tuple heap =
      let updated := updatePage (heap.data rid.pageId) rid.slotNum (tuple.data.take tuple.getLength)
      if heap.grants heap.calls then
        some (updated.2, { heap with
          calls := heap.calls + 1
          data := Function.update heap.data rid.pageId updated.1 })
      else some (false, { heap with calls := heap.calls + 1 }) := by
  cases granted : heap.grants heap.calls with
  | false => simp [updateTupleBy, bind_run, fetchPage_refused rid.pageId granted]
  | true => simp [updateTupleBy, bind_run, fetchPage_granted rid.pageId granted]

end Calls

/-- Stored tuples with the RIDs they are stored under. -/
abbrev Rows := List (Rid × List UInt8)

/-- The live tuples of a page from a slot on. -/
def rowsFrom (page : TablePage) (pageId : PageId) (slot : ℕ) : Rows :=
  (List.range' slot (page.getNumTuples - slot)).filterMap fun slot => (page.live slot).map (Prod.mk ⟨pageId, slot⟩)

/-- The live tuples on a chain of pages. -/
def contents (data : PageId → TablePage) (chain : List PageId) : Rows :=
  chain.flatMap fun pageId => rowsFrom (data pageId) pageId 0

/-- The live tuples on a chain from a slot of its first page on. -/
def remaining (data : PageId → TablePage) (slot : ℕ) : List PageId → Rows
  | [] => []
  | pageId :: chain => rowsFrom (data pageId) pageId slot ++ contents data chain

/-- Where an iterator with these tuples before it stands. -/
def standing (rows : Rows) : Rid := (rows.head?.map Prod.fst).getD endRid

/-- The pages from `pageId` on are these, each linked to the next, the last to none. -/
def Linked (data : PageId → TablePage) (pageId : PageId) : List PageId → Prop
  | [] => pageId = invalidPageId
  | first :: chain => pageId = first ∧ first ≠ invalidPageId ∧ Linked data (data first).getNextPageId chain

/-- Rounds for every page and every slot of a page. -/
def Enough (rounds : ℕ) (chain : List PageId) : Prop := chain.length + 1020 < rounds

section Walk

variable {page : TablePage} {heap : TableHeap} {pageId : PageId} {chain : List PageId} {rounds slot : ℕ}

theorem rowsFrom_of_le (full : page.getNumTuples ≤ slot) : rowsFrom page pageId slot = [] := by
  rw [rowsFrom, Nat.sub_eq_zero_of_le full]
  rfl

theorem rowsFrom_of_lt (numbered : slot < page.getNumTuples) : rowsFrom page pageId slot =
    ((page.live slot).map (Prod.mk ⟨pageId, slot⟩)).toList ++ rowsFrom page pageId (slot + 1) := by
  have steps : page.getNumTuples - slot = page.getNumTuples - (slot + 1) + 1 := by omega
  rw [rowsFrom, rowsFrom, steps, List.range'_succ, List.filterMap_cons]
  cases page.live slot <;> rfl

theorem remaining_zero (data : PageId → TablePage) (chain : List PageId) :
    remaining data 0 chain = contents data chain := by
  cases chain with
  | nil => rfl
  | cons => rfl

/-- The loop over the slots of a page finds the first live one. -/
theorem findSlot_run (pageId : PageId) (few : page.getNumTuples ≤ 1020) (enough : page.getNumTuples - slot < rounds)
    (heap : TableHeap) : findSlot page rounds slot heap =
      some ((rowsFrom page pageId slot).head?.map fun row => row.1.slotNum, heap) := by
  induction rounds generalizing slot with
  | zero => omega
  | succ rounds ih =>
    rw [findSlot]
    split_ifs with numbered positive
    · have live : page.live slot = some (page.getTuple slot) := live_eq_some_iff.mpr ⟨numbered, positive, rfl⟩
      rw [rowsFrom_of_lt numbered, live]
      rfl
    · have dead : page.live slot = none := by rw [live, if_neg fun here => positive here.2]
      have next : (slot + 1) % 2 ^ 16 = slot + 1 := Nat.mod_eq_of_lt (by omega)
      rw [rowsFrom_of_lt numbered, dead, next, ih (by omega)]
      rfl
    · rw [rowsFrom_of_le (by omega)]
      rfl

/-- The head of a page's rows is on that page. -/
theorem standing_rowsFrom {found : ℕ} (rest : Rows)
    (head : (rowsFrom page pageId slot).head?.map (fun row => row.1.slotNum) = some found) :
    standing (rowsFrom page pageId slot ++ rest) = ⟨pageId, found⟩ := by
  cases rows : rowsFrom page pageId slot with
  | nil => simp [rows] at head
  | cons row others =>
    have mem : row ∈ rowsFrom page pageId slot := by simp [rows]
    obtain ⟨at_, -, made⟩ := List.mem_filterMap.mp mem
    obtain ⟨bytes, -, rfl⟩ := Option.map_eq_some_iff.mp made
    rw [rows] at head
    obtain rfl : at_ = found := by simpa using head
    rfl

/-- The walk along a chain stops at the first live tuple, or at the end when the pool has no frame for it. -/
theorem seek_run (slot : ℕ) (linked : Linked heap.data pageId chain) (laid : ∀ p ∈ chain, WellLaid (heap.data p))
    (enough : Enough rounds chain) : ∃ rid calls, seek rounds pageId slot heap = some (rid, { heap with calls }) ∧
      (rid = standing (remaining heap.data slot chain) ∨ rid = endRid ∧ ∃ call, heap.grants call = false) := by
  induction chain generalizing rounds pageId slot heap with
  | nil =>
    obtain ⟨rounds, rfl⟩ := Nat.exists_eq_succ_of_ne_zero (Nat.ne_of_gt (Nat.zero_lt_of_lt enough))
    obtain rfl : pageId = invalidPageId := linked
    exact ⟨endRid, heap.calls, by rw [seek, if_pos rfl]; rfl, .inl rfl⟩
  | cons first chain ih =>
    obtain ⟨rounds, rfl⟩ := Nat.exists_eq_succ_of_ne_zero (Nat.ne_of_gt (Nat.zero_lt_of_lt enough))
    obtain ⟨rfl, valid, linked⟩ := linked
    have few := (laid pageId (List.mem_cons_self ..)).numTuples_lt
    have enough' : Enough rounds chain := by
      simp only [Enough, List.length_cons] at enough ⊢
      omega
    rw [seek, if_neg valid]
    cases granted : heap.grants heap.calls with
    | false =>
      refine ⟨endRid, heap.calls + 1, ?_, .inr ⟨rfl, _, granted⟩⟩
      simp [bind_run, fetchPage_refused pageId granted]
    | true =>
      have everySlot : (heap.data pageId).getNumTuples - slot < rounds + 1 := by
        simp only [Enough, List.length_cons] at enough
        omega
      have slots := findSlot_run pageId few everySlot
      cases head : (rowsFrom (heap.data pageId) pageId slot).head?.map fun row => row.1.slotNum with
      | some found =>
        refine ⟨⟨pageId, found⟩, heap.calls + 1, ?_, .inl (standing_rowsFrom _ head).symm⟩
        simp [bind_run, fetchPage_granted pageId granted, slots, head]
      | none =>
        have empty : rowsFrom (heap.data pageId) pageId slot = [] := by simpa using head
        obtain ⟨rid, calls, run, stands⟩ := @ih { heap with calls := heap.calls + 1 } _ _ 0 linked
          (fun p mem => laid p (List.mem_cons_of_mem _ mem)) enough'
        refine ⟨rid, calls, ?_, ?_⟩
        · simp [bind_run, fetchPage_granted pageId granted, slots, head, run]
        · rw [remaining, empty, List.nil_append, ← remaining_zero]
          exact stands

end Walk

section Insert

/-- The page that `InsertTuple` adds to the chain, and the slot in it. -/
def freshPage (tuple : List UInt8) : TablePage × Option ℕ :=
  insertBytes (TablePage.init (fun _ => 0) invalidPageId) tuple

/-- What `InsertTuple` can come to on a chain: the result and the state after it. -/
inductive Insertion (tuple : List UInt8) (heap : TableHeap) (chain : List PageId) : Option Rid → TableHeap → Prop
  /-- A page of the chain takes the tuple; the pages before it have refused. -/
  | placed (before after : List PageId) (pageId : PageId) (slot : ℕ) (page : TablePage) (calls : ℕ)
      (split : chain = before ++ pageId :: after) (took : (heap.data pageId).insertBytes tuple = (page, some slot))
      (full : ∀ p ∈ before, ((heap.data p).insertBytes tuple).2 = none) :
      Insertion tuple heap chain (some ⟨pageId, slot⟩)
        { heap with calls, data := Function.update heap.data pageId page }
  /-- The pool refuses a frame for a page of the chain or for a new one. -/
  | refused (calls call : ℕ) (early : call ≤ chain.length) (refused : heap.grants (heap.calls + call) = false) :
      Insertion tuple heap chain none { heap with calls }
  /-- All pages refuse; a new one is linked to the last. -/
  | extended (before : List PageId) (last : PageId) (page : TablePage) (slot : Option ℕ) (calls : ℕ)
      (split : chain = before ++ [last]) (fresh : freshPage tuple = (page, slot))
      (full : ∀ pageId ∈ chain, ((heap.data pageId).insertBytes tuple).2 = none)
      (granted : ∀ call ≤ chain.length, heap.grants (heap.calls + call) = true) :
      Insertion tuple heap chain (slot.map (Rid.mk heap.nextPageId)) { heap with
        calls
        nextPageId := heap.nextPageId + 1
        pinCount := Function.update heap.pinCount heap.nextPageId 0
        data := Function.update (Function.update heap.data heap.nextPageId page) last
          ((heap.data last).setNextPageId heap.nextPageId) }

variable {heap : TableHeap} {tuple : List UInt8} {pageId : PageId} {chain : List PageId} {rounds : ℕ}

/-- A page that refuses is left as it is. -/
theorem insertBytes_of_full {page : TablePage} (full : (page.insertBytes tuple).2 = none) :
    page.insertBytes tuple = (page, none) := by
  rw [insertBytes] at full ⊢
  split_ifs with room
  · rfl
  · simp [room] at full

/-- What `InsertTuple` comes to behind a page that has refused. -/
theorem Insertion.cons {result : Option Rid} {heap' : TableHeap} {first : PageId}
    (full : ((heap.data first).insertBytes tuple).2 = none) (granted : heap.grants heap.calls = true)
    (rest : Insertion tuple { heap with calls := heap.calls + 1 } chain result heap') :
    Insertion tuple heap (first :: chain) result heap' := by
  cases rest with
  | placed before after pageId slot page calls split took others =>
    exact .placed (first :: before) after pageId slot page calls (by rw [split]; rfl) took
      (List.forall_mem_cons.mpr ⟨full, others⟩)
  | refused calls call early refused =>
    refine .refused calls (call + 1) (Nat.succ_le_succ early) ?_
    rw [Nat.add_comm call, ← Nat.add_assoc]
    exact refused
  | extended before last page slot calls split fresh others grantedAfter =>
    apply Insertion.extended (first :: before) last page slot calls (by rw [split]; rfl) fresh
    · rintro p (_ | ⟨_, mem⟩)
      · exact full
      · exact others p mem
    · rintro (_ | call) early
      · exact granted
      · rw [Nat.add_comm call, ← Nat.add_assoc]
        exact grantedAfter call (Nat.le_of_succ_le_succ early)

/-- The new page behind a last one that is still pinned. -/
theorem extendChain_run {fresh : TablePage} {slot : Option ℕ} (made : freshPage tuple = (fresh, slot))
    (other : pageId ≠ heap.nextPageId) (room : heap.grants heap.calls = true) : extendChain tuple pageId heap =
      some (slot.map (Rid.mk heap.nextPageId), { heap with
        calls := heap.calls + 1
        nextPageId := heap.nextPageId + 1
        pinCount := Function.update (Function.update heap.pinCount pageId (heap.pinCount pageId - 1)) heap.nextPageId 0
        data := Function.update (Function.update heap.data heap.nextPageId fresh) pageId
          ((heap.data pageId).setNextPageId heap.nextPageId) }) := by
  -- the bytes of the fresh page are kept out of reach of evaluation
  obtain ⟨blank, initialized⟩ : ∃ blank, TablePage.init (fun _ => 0) invalidPageId = blank := ⟨_, rfl⟩
  rw [freshPage, initialized] at made
  rw [extendChain, bind_run, newPage_granted room, Option.bind_some]
  dsimp only
  rw [bind_run, page_run, Option.bind_some]
  dsimp only
  rw [Function.update_self, initialized]
  simp only [made, bind_run, page_run, writePage_run, unpinPage_run, pure_run, Option.bind_some, Function.update_idem,
    Function.update_self, ne_eq, other, other.symm, not_false_eq_true, Function.update_of_ne, Nat.sub_self]
  rw [Function.update_comm other, Function.update_idem, Function.update_comm other.symm 1, Function.update_idem]

/-- Without a frame for a new page nothing is linked. -/
theorem extendChain_refused (room : heap.grants heap.calls = false) : extendChain tuple pageId heap =
    some (none, { heap with
      calls := heap.calls + 1
      pinCount := Function.update heap.pinCount pageId (heap.pinCount pageId - 1) }) := by
  rw [extendChain, bind_run, newPage_refused room]
  simp

section Round

variable (next : PageId → HeapM (Option Rid))

/-- Without a frame the walk ends. -/
theorem insertRound_refused (valid : pageId ≠ invalidPageId) (refused : heap.grants heap.calls = false) :
    insertRound tuple next pageId heap = some (none, { heap with calls := heap.calls + 1 }) := by
  rw [insertRound, if_neg valid, bind_run, fetchPage_refused pageId refused]
  rfl

theorem insertRound_granted (valid : pageId ≠ invalidPageId) (granted : heap.grants heap.calls = true) :
    insertRound tuple next pageId heap =
      insertTried tuple next pageId ((heap.data pageId).insertBytes tuple) { heap with
        calls := heap.calls + 1
        pinCount := Function.update heap.pinCount pageId (heap.pinCount pageId + 1) } := by
  rw [insertRound, if_neg valid, bind_run, fetchPage_granted pageId granted, Option.bind_some, if_pos rfl, bind_run,
    page_run, Option.bind_some]

theorem insertTried_placed (page : TablePage) (slot : ℕ) :
    insertTried tuple next pageId (page, some slot) heap = some (some ⟨pageId, slot⟩, { heap with
      data := Function.update heap.data pageId page
      pinCount := Function.update heap.pinCount pageId (heap.pinCount pageId - 1) }) := rfl

/-- A full page is dropped. -/
theorem insertTried_next {page : TablePage} (more : page.getNextPageId ≠ invalidPageId) :
    insertTried tuple next pageId (page, none) heap = next page.getNextPageId { heap with
      data := Function.update heap.data pageId page
      pinCount := Function.update heap.pinCount pageId (heap.pinCount pageId - 1) } := by
  rw [insertTried, bind_run, writePage_run, Option.bind_some]
  dsimp only
  rw [if_neg more, bind_run, unpinPage_run, Option.bind_some]

/-- Behind the last page a new one is tried. -/
theorem insertTried_last {page : TablePage} (last : page.getNextPageId = invalidPageId) :
    insertTried tuple next pageId (page, none) heap =
      extendChain tuple pageId { heap with data := Function.update heap.data pageId page } := by
  rw [insertTried, bind_run, writePage_run, Option.bind_some]
  dsimp only
  rw [if_pos last]

end Round

/-- `InsertTuple` from a page of the chain on comes to one of these. -/
theorem insertFrom_run (tuple : List UInt8) (linked : Linked heap.data pageId chain) (notEmpty : chain ≠ [])
    (allocated : ∀ p ∈ chain, p ≠ heap.nextPageId) (enough : chain.length < rounds) :
    ∃ result heap', insertFrom tuple rounds pageId heap = some (result, heap') ∧
      Insertion tuple heap chain result heap' := by
  induction chain generalizing rounds pageId heap with
  | nil => exact absurd rfl notEmpty
  | cons first chain ih =>
    obtain ⟨rounds, rfl⟩ := Nat.exists_eq_succ_of_ne_zero (Nat.ne_of_gt (Nat.zero_lt_of_lt enough))
    obtain ⟨rfl, valid, linked⟩ := linked
    rw [insertFrom]
    cases granted : heap.grants heap.calls with
    | false => exact ⟨none, _, insertRound_refused _ valid granted,
        .refused (heap.calls + 1) 0 (Nat.zero_le _) granted⟩
    | true =>
      obtain ⟨⟨page, slot⟩, took⟩ : ∃ took, (heap.data pageId).insertBytes tuple = took := ⟨_, rfl⟩
      cases slot with
      | some slot =>
        rw [insertRound_granted _ valid granted, took, insertTried_placed, update_pin]
        exact ⟨_, _, rfl, .placed [] chain pageId slot page (heap.calls + 1) rfl took
          fun p mem => absurd mem List.not_mem_nil⟩
      | none =>
        have full : ((heap.data pageId).insertBytes tuple).2 = none := by rw [took]
        have same := insertBytes_of_full full
        cases chain with
        | nil =>
          have last : (heap.data pageId).getNextPageId = invalidPageId := linked
          rw [insertRound_granted _ valid granted, same, insertTried_last _ last, Function.update_eq_self]
          cases room : heap.grants (heap.calls + 1) with
          | false =>
            refine ⟨none, _, extendChain_refused room, ?_⟩
            rw [update_pin]
            exact .refused (heap.calls + 2) 1 (Nat.le_refl 1) room
          | true =>
            have other : pageId ≠ heap.nextPageId := allocated pageId (List.mem_cons_self ..)
            obtain ⟨⟨fresh, slot⟩, made⟩ : ∃ made, freshPage tuple = made := ⟨_, rfl⟩
            refine ⟨_, _, extendChain_run made other room, ?_⟩
            rw [update_pin]
            refine .extended [] pageId fresh slot (heap.calls + 2) rfl made ?_ ?_
            · simpa using full
            · intro call early
              rcases Nat.le_one_iff_eq_zero_or_eq_one.mp early with rfl | rfl
              · exact granted
              · exact room
        | cons next chain =>
          have more : (heap.data pageId).getNextPageId ≠ invalidPageId := linked.1 ▸ linked.2.1
          rw [insertRound_granted _ valid granted, same, insertTried_next _ more, Function.update_eq_self, update_pin]
          obtain ⟨result, heap', run, insertion⟩ := @ih { heap with calls := heap.calls + 1 } _ _ linked
            (List.cons_ne_nil _ _) (fun p mem => allocated p (List.mem_cons_of_mem _ mem)) (by simpa using enough)
          exact ⟨result, heap', run, insertion.cons full granted⟩

end Insert

end OneBase.TableHeap
