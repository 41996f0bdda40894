import OneBase.Model.TablePage
import OneBase.Model.Tuple

/-! # Table heaps

`storage/table/table_heap.cpp` as state passing: a chain of slotted pages in the buffer pool. As for the tree, the
pool is kept by page id: the bytes of each page, its pin count, the id that `AllocatePage` returns next, and for
every `NewPage` or `FetchPage` call whether a frame was found. The loops over the chain and over the slots of a page
take a number of rounds and give `none` when it is used up.
-/

namespace OneBase

open TablePage

/-- A table heap together with the pool it lives in. -/
structure TableHeap where
  data : PageId → TablePage
  pinCount : PageId → ℕ
  nextPageId : PageId
  grants : ℕ → Bool
  calls : ℕ
  firstPageId : PageId

/-- Heap code: state passing that may run out of rounds. -/
abbrev HeapM := StateT TableHeap Option

namespace TableHeap

section Pool

/-- The bytes behind a page pointer. -/
def page (pageId : PageId) : HeapM TablePage := do
  return (← get).data pageId

/-- Write through a page pointer. -/
def writePage (pageId : PageId) (contents : TablePage) : HeapM Unit :=
  modify fun heap => { heap with data := Function.update heap.data pageId contents }

/-- `BufferPoolManager::FetchPage`; `false` is `nullptr`. -/
def fetchPage (pageId : PageId) : HeapM Bool := do
  let heap ← get
  if heap.grants heap.calls then
    set { heap with
      calls := heap.calls + 1
      pinCount := Function.update heap.pinCount pageId (heap.pinCount pageId + 1) }
    return true
  else
    set { heap with calls := heap.calls + 1 }
    return false

/-- `BufferPoolManager::NewPage`; `none` is `nullptr`. -/
def newPage : HeapM (Option PageId) := do
  let heap ← get
  if heap.grants heap.calls then
    let pageId := heap.nextPageId
    set { heap with
      calls := heap.calls + 1
      nextPageId := pageId + 1
      data := Function.update heap.data pageId fun _ => 0
      pinCount := Function.update heap.pinCount pageId 1 }
    return some pageId
  else
    set { heap with calls := heap.calls + 1 }
    return none

/-- `BufferPoolManager::UnpinPage`. The dirty flag only steers write-back inside the pool. -/
def unpinPage (pageId : PageId) (_isDirty : Bool) : HeapM Unit :=
  modify fun heap => { heap with
    pinCount := Function.update heap.pinCount pageId (heap.pinCount pageId - 1) }

end Pool

/-- The branch of `InsertTuple` for a last page that is full: a new page is linked to it and takes the tuple. -/
def extendChain (tuple : List UInt8) (pageId : PageId) : HeapM (Option Rid) := do
  match ← newPage with
  | none =>
    unpinPage pageId false
    return none
  | some newPageId =>
    let fresh ← page newPageId
    writePage newPageId (fresh.init invalidPageId)
    let linked ← page pageId
    writePage pageId (linked.setNextPageId newPageId)
    unpinPage pageId true
    let inserted := (← page newPageId).insertBytes tuple
    writePage newPageId inserted.1
    unpinPage newPageId true
    return inserted.2.map fun slot => ⟨newPageId, slot⟩

/-- A round of the loop of `InsertTuple` after the page was tried; `next` is the loop from the next page on. -/
def insertTried (tuple : List UInt8) (next : PageId → HeapM (Option Rid)) (pageId : PageId)
    (tried : TablePage × Option ℕ) : HeapM (Option Rid) := do
  writePage pageId tried.1
  match tried.2 with
  | some slot =>
    unpinPage pageId true
    return some ⟨pageId, slot⟩
  | none =>
    let nextPageId := tried.1.getNextPageId
    if nextPageId = invalidPageId then extendChain tuple pageId
    else
      unpinPage pageId false
      next nextPageId

/-- One round of the loop of `InsertTuple`. -/
def insertRound (tuple : List UInt8) (next : PageId → HeapM (Option Rid)) (pageId : PageId) : HeapM (Option Rid) := do
  if pageId = invalidPageId then return none
  else if ← fetchPage pageId then
    let tablePage ← page pageId
    insertTried tuple next pageId (tablePage.insertBytes tuple)
  else return none

/-- The loop of `InsertTuple` over the chain, from a page on. -/
def insertFrom (tuple : List UInt8) : ℕ → PageId → HeapM (Option Rid)
  | 0, _ => fun _ => none
  | rounds + 1, pageId => insertRound tuple (insertFrom tuple rounds) pageId

/-- `InsertTuple`: `GetLength` bytes from `GetData` on. -/
def insertTuple (rounds : ℕ) (tuple : Tuple) : HeapM (Option Rid) := do
  insertFrom (tuple.data.take tuple.getLength) rounds (← get).firstPageId

/-- `GetTuple`. -/
def getTuple (rid : Rid) : HeapM (Except String Tuple) := do
  if ← fetchPage rid.pageId then
    let bytes := (← page rid.pageId).getTuple rid.slotNum
    unpinPage rid.pageId false
    return .ok { rid, data := bytes, values := [] }
  else return .error "Cannot fetch page for GetTuple"

/-- `UpdateTuple`, with what `TablePage::UpdateTuple` does to the page. -/
def updateTupleBy (updatePage : TablePage → ℕ → List UInt8 → TablePage × Bool) (rid : Rid) (newTuple : Tuple) :
    HeapM Bool := do
  if ← fetchPage rid.pageId then
    let (tablePage, success) := updatePage (← page rid.pageId) rid.slotNum (newTuple.data.take newTuple.getLength)
    writePage rid.pageId tablePage
    unpinPage rid.pageId success
    return success
  else return false

def updateTuple (rid : Rid) (newTuple : Tuple) : HeapM Bool := updateTupleBy updateBytes rid newTuple

/-- `DeleteTuple`. -/
def deleteTuple (rid : Rid) : HeapM Unit := do
  if ← fetchPage rid.pageId then
    let tablePage ← page rid.pageId
    writePage rid.pageId (tablePage.deleteTuple rid.slotNum)
    unpinPage rid.pageId true
  else return ()

/-- The RID of `End()`. -/
def endRid : Rid := ⟨invalidPageId, 0⟩

/-- The loop over the slots of a page: the first one from `slot` on that is not empty. Slot numbers are
`uint16_t`. -/
def findSlot (tablePage : TablePage) : ℕ → ℕ → HeapM (Option ℕ)
  | 0, _ => fun _ => none
  | rounds + 1, slot => do
    if slot < tablePage.getNumTuples then
      if 0 < tablePage.getTupleSize slot then return some slot
      else findSlot tablePage rounds ((slot + 1) % 2 ^ 16)
    else return none

/-- The loop over the chain that `Begin` and `operator++` share; the RID of `End()` when nothing is left or a page
cannot be fetched. -/
def seek : ℕ → PageId → ℕ → HeapM Rid
  | 0, _, _ => fun _ => none
  | rounds + 1, pageId, slot => do
    if pageId = invalidPageId then return endRid
    else if ← fetchPage pageId then
      let tablePage ← page pageId
      match ← findSlot tablePage (rounds + 1) slot with
      | some found =>
        unpinPage pageId false
        return ⟨pageId, found⟩
      | none =>
        let nextPageId := tablePage.getNextPageId
        unpinPage pageId false
        seek rounds nextPageId 0
    else return endRid

/-- `Begin`: an iterator is the RID it stands at. -/
def begin (rounds : ℕ) : HeapM Rid := do
  seek rounds (← get).firstPageId 0

/-- `Iterator::operator++`. -/
def increment (rounds : ℕ) (rid : Rid) : HeapM Rid := seek rounds rid.pageId ((rid.slotNum + 1) % 2 ^ 16)

/-- The loop `for (; it != End(); ++it)` that dereferences every iterator it meets. -/
def scan : ℕ → Rid → HeapM (Except String (List Tuple))
  | 0, _ => fun _ => none
  | rounds + 1, rid => do
    if rid = endRid then return .ok []
    else
      match ← getTuple rid with
      | .error message => return .error message
      | .ok tuple =>
        let next ← increment (rounds + 1) rid
        let rest ← scan rounds next
        return rest.map (tuple :: ·)

/-- The constructor, on a pool. -/
def construct : HeapM (Except String Unit) := do
  match ← newPage with
  | none => return .error "Cannot allocate page for table heap"
  | some pageId =>
    modify fun heap => { heap with firstPageId := pageId }
    let fresh ← page pageId
    writePage pageId (fresh.init invalidPageId)
    unpinPage pageId true
    return .ok ()

/-- The calls that executors make on a heap and on its iterators. -/
inductive Request where
  | insertTuple (tuple : Tuple)
  | getTuple (rid : Rid)
  | updateTuple (rid : Rid) (newTuple : Tuple)
  | deleteTuple (rid : Rid)
  | begin
  | increment (rid : Rid)

/-- What they return. -/
inductive Response where
  | inserted (rid : Option Rid)
  | got (result : Except String Tuple)
  | updated (success : Bool)
  | deleted
  | iterator (rid : Rid)

def respond (rounds : ℕ) : Request → HeapM Response
  | .insertTuple tuple => return .inserted (← insertTuple rounds tuple)
  | .getTuple rid => return .got (← getTuple rid)
  | .updateTuple rid newTuple => return .updated (← updateTuple rid newTuple)
  | .deleteTuple rid => do
    deleteTuple rid
    return .deleted
  | .begin => return .iterator (← begin rounds)
  | .increment rid => return .iterator (← increment rounds rid)

end TableHeap

end OneBase
