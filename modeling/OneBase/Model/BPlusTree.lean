import OneBase.Model.BPlusTreePage

/-! # The B+ tree over buffered pages

`b_plus_tree.cpp` as state passing. A page pointer is its page id, read and written through the
page contents the pool holds for that id. The pool below the tree is kept at the level the tree
uses it: contents and pin counts by page id, the next id `AllocatePage` returns, and for every
`NewPage` or `FetchPage` call whether a frame was found (`grants`, consulted in call order), so
that each `nullptr` branch of the source is present. `DeletePage` on an unpinned page drops the
contents.

The descents and the walks up the tree are loops and recursions over page ids, which nothing in
the code bounds: they take a number of rounds and give `none` when it is used up.
-/

namespace OneBase

open BPlusTreePage

variable {K V : Type}

/-- The tree object together with the pages it can reach through the pool. -/
structure BPlusTree (K V : Type) where
  data : PageId → BPlusTreePage K V
  pinCount : PageId → ℕ
  nextPageId : PageId
  grants : ℕ → Bool
  calls : ℕ
  deleted : List PageId
  rootPageId : PageId
  leafMaxSize : ℕ
  internalMaxSize : ℕ

/-- Tree code: state passing that may run out of rounds. -/
abbrev TreeM (K V : Type) := StateT (BPlusTree K V) Option

namespace BPlusTree

/-- The contents behind a page pointer. -/
def page (pageId : PageId) : TreeM K V (BPlusTreePage K V) := do
  return (← get).data pageId

/-- Write through a page pointer. -/
def writePage (pageId : PageId) (contents : BPlusTreePage K V) : TreeM K V Unit :=
  modify fun tree => { tree with data := Function.update tree.data pageId contents }

/-- `BufferPoolManager::FetchPage`; `false` is `nullptr`. -/
def fetchPage (pageId : PageId) : TreeM K V Bool := do
  let tree ← get
  if tree.grants tree.calls then
    set { tree with
      calls := tree.calls + 1
      pinCount := Function.update tree.pinCount pageId (tree.pinCount pageId + 1) }
    return true
  else
    set { tree with calls := tree.calls + 1 }
    return false

/-- `BufferPoolManager::NewPage`; `none` is `nullptr`. -/
def newPage [Inhabited K] [Inhabited V] : TreeM K V (Option PageId) := do
  let tree ← get
  if tree.grants tree.calls then
    let pageId := tree.nextPageId
    set { tree with
      calls := tree.calls + 1
      nextPageId := pageId + 1
      data := Function.update tree.data pageId (erased (tree.data pageId))
      pinCount := Function.update tree.pinCount pageId 1 }
    return some pageId
  else
    set { tree with calls := tree.calls + 1 }
    return none

/-- `BufferPoolManager::UnpinPage`. The dirty flag only steers write-back inside the pool. -/
def unpinPage (pageId : PageId) (_isDirty : Bool) : TreeM K V Unit :=
  modify fun tree => { tree with
    pinCount := Function.update tree.pinCount pageId (tree.pinCount pageId - 1) }

/-- `BufferPoolManager::DeletePage`: refused while the page is pinned. `deleted` lists the pages the
tree has passed to it, refused or not. -/
def deletePage [Inhabited K] [Inhabited V] (pageId : PageId) : TreeM K V Unit :=
  modify fun tree => { tree with
    data :=
      if tree.pinCount pageId = 0 then
        Function.update tree.data pageId (erased (tree.data pageId))
      else tree.data
    deleted := pageId :: tree.deleted }

/-- The constructor, for explicit fan-outs. -/
def create [Inhabited K] [Inhabited V] (leafMaxSize internalMaxSize : ℕ) (grants : ℕ → Bool) :
    BPlusTree K V where
  data _ := zeroed
  pinCount _ := 0
  nextPageId := 0
  grants := grants
  calls := 0
  deleted := []
  rootPageId := invalidPageId
  leafMaxSize := leafMaxSize
  internalMaxSize := internalMaxSize

/-- The constructor: a fan-out of 0 stands for what fits on a page. -/
def construct [Inhabited K] [Inhabited V] (leafMaxSize internalMaxSize : ℕ) (grants : ℕ → Bool) : BPlusTree K V :=
  create (if leafMaxSize = 0 then (pageSize - 16 - 4) / (4 + 8) else leafMaxSize)
    (if internalMaxSize = 0 then (pageSize - 16) / (4 + 4) else internalMaxSize) grants

def isEmpty (tree : BPlusTree K V) : Bool := tree.rootPageId = invalidPageId

section Descent

variable [LinearOrder K]

/-- The loop `while (!tree_page->IsLeafPage())` that `GetValue`, `Insert`, `FindLeafPage` and
`Begin(key)` share: it starts and ends with its page pinned, and gives `none` on a failed fetch. -/
def descend (key : K) : ℕ → PageId → TreeM K V (Option PageId)
  | 0, _ => fun _ => none
  | rounds + 1, pageId => do
    let treePage ← page pageId
    if treePage.isLeafPage then
      return some pageId
    else
      let childPageId := InternalPage.lookup treePage key
      unpinPage pageId false
      if ← fetchPage childPageId then descend key rounds childPageId
      else return none

/-- `GetValue`: the value pushed onto `result`, `none` when it returns `false`. -/
def getValue (rounds : ℕ) (key : K) : TreeM K V (Option V) := do
  let tree ← get
  if tree.isEmpty then return none
  else if ← fetchPage tree.rootPageId then
    match ← descend key rounds tree.rootPageId with
    | none => return none
    | some leafPageId =>
      let leaf ← page leafPageId
      unpinPage leafPageId false
      return LeafPage.lookup leaf key
  else return none

/-- `FindLeafPage`. -/
def findLeafPage (rounds : ℕ) (key : K) : TreeM K V PageId := do
  let tree ← get
  if tree.isEmpty then return invalidPageId
  else if ← fetchPage tree.rootPageId then
    match ← descend key rounds tree.rootPageId with
    | none => return invalidPageId
    | some leafPageId =>
      unpinPage leafPageId false
      return leafPageId
  else return invalidPageId

end Descent

/-- The loops that rewrite the parent of `count` children of page `holderId`, the children
standing at positions `start`, `start + 1`, ...; a child that cannot be fetched is skipped. -/
def reparent (holderId newParentId : PageId) : ℕ → ℕ → TreeM K V Unit
  | _, 0 => return ()
  | start, count + 1 => do
    let childId := InternalPage.valueAt (← page holderId) start
    if ← fetchPage childId then
      writePage childId ((← page childId).setParentPageId newParentId)
      unpinPage childId true
    reparent holderId newParentId (start + 1) count

section Insert

variable [Inhabited K] [Inhabited V]

/-- `SplitInternal`, with the recursive call to `InsertIntoParent` as a parameter. The page is
pinned on entry. -/
def splitInternal (insertIntoParent : PageId → PageId → K → PageId → TreeM K V Unit)
    (internalPageId : PageId) : TreeM K V Unit := do
  match ← newPage with
  | none => unpinPage internalPageId true
  | some newPageId =>
    let tree ← get
    writePage newPageId (InternalPage.init (← page newPageId) tree.internalMaxSize)
    let internalPage ← page internalPageId
    let middleKey := InternalPage.keyAt internalPage (internalPage.size / 2)
    let (kept, moved) := InternalPage.moveHalfTo internalPage (← page newPageId) middleKey
    writePage internalPageId kept
    writePage newPageId moved
    reparent newPageId newPageId 0 moved.size
    if (← page internalPageId).isRootPage then
      match ← newPage with
      | none =>
        unpinPage internalPageId true
        unpinPage newPageId true
      | some newRootId =>
        let newRoot := InternalPage.init (← page newRootId) tree.internalMaxSize
        writePage newRootId (InternalPage.populateNewRoot newRoot internalPageId middleKey newPageId)
        writePage internalPageId ((← page internalPageId).setParentPageId newRootId)
        writePage newPageId ((← page newPageId).setParentPageId newRootId)
        modify fun tree => { tree with rootPageId := newRootId }
        unpinPage internalPageId true
        unpinPage newPageId true
        unpinPage newRootId true
    else
      let parentId := (← page internalPageId).parentPageId
      writePage newPageId ((← page newPageId).setParentPageId parentId)
      unpinPage internalPageId true
      unpinPage newPageId true
      insertIntoParent parentId internalPageId middleKey newPageId

/-- `InsertIntoParent`. -/
def insertIntoParent : ℕ → PageId → PageId → K → PageId → TreeM K V Unit
  | 0, _, _, _, _ => fun _ => none
  | rounds + 1, parentId, oldChildId, key, newChildId => do
    if ← fetchPage parentId then
      let parent := (InternalPage.insertNodeAfter (← page parentId) oldChildId key newChildId).1
      writePage parentId parent
      if parent.maxSize < parent.size then splitInternal (insertIntoParent rounds) parentId
      else unpinPage parentId true
    else return ()

/-- `Split` of an overfull leaf, which is pinned on entry. -/
def split (rounds : ℕ) (leafPageId : PageId) : TreeM K V Unit := do
  match ← newPage with
  | none => unpinPage leafPageId true
  | some newPageId =>
    let tree ← get
    writePage newPageId (LeafPage.init (← page newPageId) tree.leafMaxSize)
    let leafPage ← page leafPageId
    let (kept, moved) := LeafPage.moveHalfTo leafPage (← page newPageId)
    writePage newPageId (moved.setNextPageId kept.nextPageId)
    writePage leafPageId (kept.setNextPageId newPageId)
    let middleKey := LeafPage.keyAt moved 0
    if (← page leafPageId).isRootPage then
      match ← newPage with
      | none =>
        unpinPage leafPageId true
        unpinPage newPageId true
      | some newRootId =>
        let newRoot := InternalPage.init (← page newRootId) tree.internalMaxSize
        writePage newRootId (InternalPage.populateNewRoot newRoot leafPageId middleKey newPageId)
        writePage leafPageId ((← page leafPageId).setParentPageId newRootId)
        writePage newPageId ((← page newPageId).setParentPageId newRootId)
        modify fun tree => { tree with rootPageId := newRootId }
        unpinPage leafPageId true
        unpinPage newPageId true
        unpinPage newRootId true
    else
      let parentId := (← page leafPageId).parentPageId
      writePage newPageId ((← page newPageId).setParentPageId parentId)
      unpinPage leafPageId true
      unpinPage newPageId true
      insertIntoParent rounds parentId leafPageId middleKey newPageId

variable [LinearOrder K]

/-- `Insert`. -/
def insert (rounds : ℕ) (key : K) (value : V) : TreeM K V Bool := do
  let tree ← get
  if tree.isEmpty then
    match ← newPage with
    | none => return false
    | some newPageId =>
      let leafPage := LeafPage.init (← page newPageId) tree.leafMaxSize
      writePage newPageId (LeafPage.insert leafPage key value).1
      modify fun tree => { tree with rootPageId := newPageId }
      unpinPage newPageId true
      return true
  else if ← fetchPage tree.rootPageId then
    match ← descend key rounds tree.rootPageId with
    | none => return false
    | some leafPageId =>
      let oldLeaf ← page leafPageId
      let (leafPage, newSize) := LeafPage.insert oldLeaf key value
      writePage leafPageId leafPage
      if newSize = oldLeaf.size then
        unpinPage leafPageId false
        return false
      else if leafPage.maxSize < leafPage.size then
        split rounds leafPageId
        return true
      else
        unpinPage leafPageId true
        return true
  else return false

end Insert

section Remove

variable [Inhabited K] [Inhabited V]

/-- The sibling a page borrows from or merges with: the left one if there is one, else the right
one, else none. -/
def siblingOf (parent : BPlusTreePage K V) (index : ℤ) : PageId × Bool :=
  if 0 < index then (InternalPage.valueAt parent (index - 1).toNat, true)
  else if index < (parent.size : ℤ) - 1 then (InternalPage.valueAt parent (index + 1).toNat, false)
  else (invalidPageId, false)

/-- The end of both `CoalesceOrRedistribute` functions after a merge: pass an underfull parent
on, shrink the root, or stop. The parent is pinned on entry. -/
def finishMerge (coalesceInternal : PageId → TreeM K V Unit) (parentId : PageId) : TreeM K V Unit := do
  let parent ← page parentId
  if parent.size < parent.getMinSize ∧ ¬ parent.isRootPage then
    coalesceInternal parentId
  else if parent.isRootPage ∧ parent.size = 1 then
    let (emptied, newRootId) := InternalPage.removeAndReturnOnlyChild parent
    writePage parentId emptied
    modify fun tree => { tree with rootPageId := newRootId }
    if ← fetchPage newRootId then
      writePage newRootId ((← page newRootId).setParentPageId invalidPageId)
      unpinPage newRootId true
    unpinPage parentId true
    deletePage parentId
  else unpinPage parentId true

/-- `CoalesceOrRedistributeInternal`. The page is pinned on entry. -/
def coalesceOrRedistributeInternal : ℕ → PageId → TreeM K V Unit
  | 0, _ => fun _ => none
  | rounds + 1, internalPageId => do
    let parentId := (← page internalPageId).parentPageId
    if !(← fetchPage parentId) then unpinPage internalPageId true
    else
      let parent ← page parentId
      let index := InternalPage.valueIndex parent internalPageId
      let (siblingId, isLeftSibling) := siblingOf parent index
      if siblingId = invalidPageId then
        unpinPage internalPageId true
        unpinPage parentId false
      else if !(← fetchPage siblingId) then
        unpinPage internalPageId true
        unpinPage parentId false
      else
        let internalPage ← page internalPageId
        let sibling ← page siblingId
        if sibling.getMinSize < sibling.size then
          if isLeftSibling then
            let middleKey := InternalPage.keyAt parent index.toNat
            let (donor, recipient) := InternalPage.moveLastToFrontOf sibling internalPage middleKey
            writePage siblingId donor
            writePage internalPageId recipient
            writePage parentId
              (InternalPage.setKeyAt parent index.toNat (InternalPage.keyAt recipient 0))
            reparent internalPageId internalPageId 0 1
          else
            let middleKey := InternalPage.keyAt parent (index + 1).toNat
            let (donor, recipient) := InternalPage.moveFirstToEndOf sibling internalPage middleKey
            writePage siblingId donor
            writePage internalPageId recipient
            writePage parentId
              (InternalPage.setKeyAt parent (index + 1).toNat (InternalPage.keyAt donor 0))
            reparent internalPageId internalPageId (recipient.size - 1) 1
          unpinPage internalPageId true
          unpinPage siblingId true
          unpinPage parentId true
        else
          if isLeftSibling then
            let middleKey := InternalPage.keyAt parent index.toNat
            let (donor, recipient) := InternalPage.moveAllTo internalPage sibling middleKey
            writePage internalPageId donor
            writePage siblingId recipient
            -- the source bounds this loop by the size of the page it has just emptied
            reparent siblingId siblingId (recipient.size - donor.size) donor.size
            writePage parentId (InternalPage.remove (← page parentId) index.toNat)
            unpinPage internalPageId true
            unpinPage siblingId true
            deletePage internalPageId
          else
            let middleKey := InternalPage.keyAt parent (index + 1).toNat
            let (donor, recipient) := InternalPage.moveAllTo sibling internalPage middleKey
            writePage siblingId donor
            writePage internalPageId recipient
            reparent internalPageId internalPageId (recipient.size - donor.size) donor.size
            writePage parentId (InternalPage.remove (← page parentId) (index + 1).toNat)
            unpinPage internalPageId true
            unpinPage siblingId true
            deletePage siblingId
          finishMerge (coalesceOrRedistributeInternal rounds) parentId

/-- `CoalesceOrRedistribute` of an underfull leaf, which is pinned on entry. -/
def coalesceOrRedistribute (rounds : ℕ) (leafPageId : PageId) : TreeM K V Unit := do
  let parentId := (← page leafPageId).parentPageId
  if !(← fetchPage parentId) then unpinPage leafPageId true
  else
    let parent ← page parentId
    let index := InternalPage.valueIndex parent leafPageId
    let (siblingId, isLeftSibling) := siblingOf parent index
    if siblingId = invalidPageId then
      if parent.isRootPage ∧ parent.size = 1 then
        modify fun tree => { tree with rootPageId := leafPageId }
        writePage leafPageId ((← page leafPageId).setParentPageId invalidPageId)
        unpinPage leafPageId true
        unpinPage parentId true
        deletePage parentId
      else
        unpinPage leafPageId true
        unpinPage parentId false
    else if !(← fetchPage siblingId) then
      unpinPage leafPageId true
      unpinPage parentId false
    else
      let leafPage ← page leafPageId
      let sibling ← page siblingId
      if sibling.getMinSize < sibling.size then
        if isLeftSibling then
          let (donor, recipient) := LeafPage.moveLastToFrontOf sibling leafPage
          writePage siblingId donor
          writePage leafPageId recipient
          writePage parentId (InternalPage.setKeyAt parent index.toNat (LeafPage.keyAt recipient 0))
        else
          let (donor, recipient) := LeafPage.moveFirstToEndOf sibling leafPage
          writePage siblingId donor
          writePage leafPageId recipient
          writePage parentId (InternalPage.setKeyAt parent (index + 1).toNat (LeafPage.keyAt donor 0))
        unpinPage leafPageId true
        unpinPage siblingId true
        unpinPage parentId true
      else
        if isLeftSibling then
          let (donor, recipient) := LeafPage.moveAllTo leafPage sibling
          writePage leafPageId donor
          writePage siblingId (recipient.setNextPageId donor.nextPageId)
          writePage parentId (InternalPage.remove parent index.toNat)
          unpinPage leafPageId true
          unpinPage siblingId true
          deletePage leafPageId
        else
          let (donor, recipient) := LeafPage.moveAllTo sibling leafPage
          writePage siblingId donor
          writePage leafPageId (recipient.setNextPageId donor.nextPageId)
          writePage parentId (InternalPage.remove parent (index + 1).toNat)
          unpinPage leafPageId true
          unpinPage siblingId true
          deletePage siblingId
        finishMerge (coalesceOrRedistributeInternal rounds) parentId

variable [LinearOrder K]

/-- `Remove`. -/
def remove (rounds : ℕ) (key : K) : TreeM K V Unit := do
  let tree ← get
  if tree.isEmpty then return ()
  else
    let leafPageId ← findLeafPage rounds key
    if leafPageId = invalidPageId then return ()
    else if !(← fetchPage leafPageId) then return ()
    else
      let leafPage := (LeafPage.removeAndDeleteRecord (← page leafPageId) key).1
      writePage leafPageId leafPage
      if leafPage.size < leafPage.getMinSize ∧ ¬ leafPage.isRootPage then
        coalesceOrRedistribute rounds leafPageId
      else if leafPage.size = 0 ∧ leafPage.isRootPage then
        modify fun tree => { tree with rootPageId := invalidPageId }
        unpinPage leafPageId true
        deletePage leafPageId
      else unpinPage leafPageId true

/-- The calls that change a tree. -/
inductive Call (K V : Type) where
  | insert (key : K) (value : V)
  | remove (key : K)

def perform (rounds : ℕ) : Call K V → TreeM K V Unit
  | .insert key value => do
    let _ ← insert rounds key value
    return ()
  | .remove key => remove rounds key

def performAll (rounds : ℕ) : List (Call K V) → TreeM K V Unit
  | [] => return ()
  | call :: rest => do
    perform rounds call
    performAll rounds rest

end Remove

end BPlusTree

end OneBase
