import OneBase.Model.BPlusTreeInvariant
import OneBase.Model.BufferPoolManager

/-! # Iterating over the leaves

`b_plus_tree_iterator.cpp` and the three functions of `b_plus_tree.cpp` that hand out iterators. All
they do with the pool is fetch a page, read it and unpin it, so they are written over any state that
offers the two calls: the state of the tree code, whose calls may fail by decree, and the buffer
pool itself, whose calls fail when no frame can be had.
-/

namespace OneBase

open BPlusTreePage

variable {σ K V : Type}

/-- `FetchPage` and `UnpinPage` as the index code sees them; a fetch gives the data behind the page
pointer, or `none` for `nullptr`. -/
structure PagePool (σ K V : Type) where
  fetchPage : PageId → StateT σ Option (Option (BPlusTreePage K V))
  unpinPage : PageId → Bool → StateT σ Option Unit

/-- The pool below a tree. -/
def BPlusTree.pagePool : PagePool (BPlusTree K V) K V where
  fetchPage pageId := do
    if ← BPlusTree.fetchPage pageId then return some (← page pageId)
    else return none
  unpinPage := BPlusTree.unpinPage

instance [Inhabited K] [Inhabited V] : Zero (BPlusTreePage K V) := ⟨zeroed⟩

/-- A buffer pool whose pages are pages of the tree. -/
def BufferPoolManager.pagePool {n : ℕ} : PagePool (BufferPoolManager n (BPlusTreePage K V)) K V where
  fetchPage pageId pool :=
    let (pool, frame) := pool.fetchPage pageId
    some (frame.map fun frameId => (pool.pages frameId).data, pool)
  unpinPage pageId isDirty pool := some ((), (pool.unpinPage pageId isDirty).1)

/-- `BPlusTreeIterator`. Whether `bpm_` is set stands for the pointer; `current_` is only there for
`operator*` to return. -/
structure BPlusTreeIterator where
  pageId : PageId := invalidPageId
  index : ℕ := 0
  hasPool : Bool := false
deriving DecidableEq, Repr

namespace BPlusTreeIterator

def isEnd (it : BPlusTreeIterator) : Bool := it.pageId = invalidPageId

/-- `operator==`. -/
def equals (it other : BPlusTreeIterator) : Bool := it.pageId = other.pageId && it.index = other.index

/-- `BPlusTree::End`. -/
def endIterator : BPlusTreeIterator := { pageId := invalidPageId, index := 0 }

variable (pool : PagePool σ K V)

/-- `operator*`. -/
def dereference (it : BPlusTreeIterator) : StateT σ Option (Except String (K × V)) := do
  if it.isEnd || !it.hasPool then
    return .error "BPlusTreeIterator::operator*: invalid iterator"
  else
    match ← pool.fetchPage it.pageId with
    | none => return .error "BPlusTreeIterator::operator*: page fetch failed"
    | some leafPage =>
      let current := leafPage.leafArray it.index
      pool.unpinPage it.pageId false
      return .ok current

/-- `operator++`. At the end of a leaf `page_id_` is that of the next leaf when `UnpinPage` gets it: the leaf that was
fetched keeps its pin, and the next one loses a pin if it has any. -/
def increment (it : BPlusTreeIterator) : StateT σ Option BPlusTreeIterator := do
  if it.isEnd || !it.hasPool then return it
  else
    match ← pool.fetchPage it.pageId with
    | none => return { it with pageId := invalidPageId }
    | some leafPage =>
      let next :=
        if leafPage.size ≤ it.index + 1 then { it with pageId := leafPage.nextPageId, index := 0 }
        else { it with index := it.index + 1 }
      pool.unpinPage next.pageId false
      return next

/-- The loop `while (!tree_page->IsLeafPage())` of both `Begin` functions, which differ in the child
they take. It starts and ends with its page pinned, and gives `none` on a failed fetch. -/
def descend (child : BPlusTreePage K V → PageId) :
    ℕ → PageId → BPlusTreePage K V → StateT σ Option (Option (PageId × BPlusTreePage K V))
  | 0, _, _ => fun _ => none
  | rounds + 1, pageId, treePage => do
    if treePage.isLeafPage then return some (pageId, treePage)
    else
      pool.unpinPage pageId false
      match ← pool.fetchPage (child treePage) with
      | none => return none
      | some childPage => descend child rounds (child treePage) childPage

/-- `BPlusTree::Begin()` of a tree with this `root_page_id_`. -/
def begin (rootPageId : PageId) (rounds : ℕ) : StateT σ Option BPlusTreeIterator := do
  if rootPageId = invalidPageId then return endIterator
  else
    match ← pool.fetchPage rootPageId with
    | none => return endIterator
    | some treePage =>
      match ← descend pool (fun page => InternalPage.valueAt page 0) rounds rootPageId treePage with
      | none => return endIterator
      | some (pageId, _) =>
        pool.unpinPage pageId false
        return { pageId, index := 0, hasPool := true }

/-- `BPlusTree::Begin(key)`. -/
def beginAt [LinearOrder K] (key : K) (rootPageId : PageId) (rounds : ℕ) : StateT σ Option BPlusTreeIterator := do
  if rootPageId = invalidPageId then return endIterator
  else
    match ← pool.fetchPage rootPageId with
    | none => return endIterator
    | some treePage =>
      match ← descend pool (fun page => InternalPage.lookup page key) rounds rootPageId treePage with
      | none => return endIterator
      | some (pageId, leafPage) =>
        let index := LeafPage.keyIndex leafPage key
        pool.unpinPage pageId false
        if leafPage.size ≤ index then return { pageId := leafPage.nextPageId, index := 0, hasPool := true }
        else return { pageId, index, hasPool := true }

/-- The loop `for (; it != End(); ++it)` that dereferences every iterator it meets. -/
def scan : ℕ → BPlusTreeIterator → StateT σ Option (Except String (List (K × V)))
  | 0, _ => fun _ => none
  | rounds + 1, it => do
    if it.equals endIterator then return .ok []
    else
      match ← dereference pool it with
      | .error message => return .error message
      | .ok current =>
        let rest ← scan rounds (← increment pool it)
        return rest.map (current :: ·)

/-- `operator++` a number of times. -/
def advance : ℕ → BPlusTreeIterator → StateT σ Option BPlusTreeIterator
  | 0, it => return it
  | steps + 1, it => do
    let next ← increment pool it
    advance steps next

/-- The loop `for (; it != End(); ++it)` without a body. -/
def loop : ℕ → BPlusTreeIterator → StateT σ Option Unit
  | 0, _ => fun _ => none
  | rounds + 1, it => do
    if it.equals endIterator then return ()
    else
      let next ← increment pool it
      loop rounds next

end BPlusTreeIterator

open BPlusTreeIterator

namespace BPlusTree

/-- `key` is stored with `value` in some leaf of the tree. -/
def Stores (tree : BPlusTree K V) (key : K) (value : V) : Prop :=
  tree.rootPageId ≠ invalidPageId ∧ PageStore.StoredBelow tree.data tree.rootPageId key value

/-- No leaf of the tree is empty. -/
def NoEmptyLeaf (tree : BPlusTree K V) : Prop :=
  tree.rootPageId ≠ invalidPageId → ∀ p, PageStore.Reaches tree.data tree.rootPageId p →
    (tree.data p).pageType = .leafPage → 1 ≤ (tree.data p).size

/-- The loop from the iterator that `start` hands out ends after visiting exactly these pairs. -/
def Visits (tree : BPlusTree K V)
    (start : PageId → ℕ → StateT (BPlusTree K V) Option BPlusTreeIterator) (visited : List (K × V)) : Prop :=
  ∃ enough, ∀ rounds ≥ enough, ∃ after,
    (start tree.rootPageId rounds >>= scan pagePool rounds) tree = some (.ok visited, after)

/-- The loop from the iterator that `start` hands out ends, and every iterator on the way that is at its end by
`IsEnd` compares equal to `End()`. -/
def LoopEnds (tree : BPlusTree K V) (start : PageId → ℕ → StateT (BPlusTree K V) Option BPlusTreeIterator) :
    Prop :=
  ∃ enough, ∀ rounds ≥ enough,
    (∃ after, (start tree.rootPageId rounds >>= loop pagePool rounds) tree = some ((), after)) ∧
    ∀ steps it after, (start tree.rootPageId rounds >>= advance pagePool steps) tree = some (it, after) →
      it.isEnd = true → it.equals endIterator = true

/-- That loop visits exactly the stored pairs with a wanted key, each once and by increasing key. -/
def ScansExactly [LinearOrder K] (tree : BPlusTree K V)
    (start : PageId → ℕ → StateT (BPlusTree K V) Option BPlusTreeIterator) (wanted : K → Prop) : Prop :=
  ∃ visited, tree.Visits start visited ∧ visited.Pairwise (fun a b => a.1 < b.1) ∧
    ∀ key value, (key, value) ∈ visited ↔ tree.Stores key value ∧ wanted key

section Requests

variable [LinearOrder K] [Inhabited K] [Inhabited V]

/-- The calls that clients make on a tree and on its iterators. -/
inductive Request (K V : Type) where
  | call (call : Call K V)
  | getValue (key : K)
  | begin
  | beginAt (key : K)
  | increment (it : BPlusTreeIterator)
  | dereference (it : BPlusTreeIterator)

def serve (rounds : ℕ) : Request K V → TreeM K V Unit
  | .call call => perform rounds call
  | .getValue key => do
    let _ ← getValue rounds key
    return ()
  | .begin => do
    let _ ← BPlusTreeIterator.begin pagePool (← get).rootPageId rounds
    return ()
  | .beginAt key => do
    let _ ← BPlusTreeIterator.beginAt pagePool key (← get).rootPageId rounds
    return ()
  | .increment it => do
    let _ ← BPlusTreeIterator.increment pagePool it
    return ()
  | .dereference it => do
    let _ ← BPlusTreeIterator.dereference pagePool it
    return ()

end Requests

end BPlusTree

end OneBase
