import OneBase.Model.Types
import OneBase.ToMathlib.ArrayLoops

/-! # B+ tree pages

The page-local operations of `b_plus_tree_page.h`, `b_plus_tree_leaf_page.cpp` and
`b_plus_tree_internal_page.cpp`. A page is viewed through `reinterpret_cast`, so one record holds
the common header and both element arrays; `Init` fixes which array a page uses and no page ever
changes kind. Cells past `size` keep whatever an earlier operation left there, and so does
the first key of an internal page.

Sizes are never negative in the source either: `IncreaseSize(-1)` only follows a test that the
page holds an element.
-/

namespace OneBase

open ArrayLoops

/-- `IndexPageType`. -/
inductive IndexPageType where
  | invalidIndexPage
  | leafPage
  | internalPage
deriving DecidableEq, Repr

/-- The header of `BPlusTreePage`, the leaf's `next_page_id_`, and `array_` under both casts. The arrays have no end
here, while a page of the source is followed by its own `page_id_` and `pin_count_`. Nothing reads `written`, which
is one past the last byte of the page that was ever written as part of an array slot: a run is that of the source as
long as `written` stays within the page. -/
structure BPlusTreePage (K V : Type) where
  pageType : IndexPageType
  size : ℕ
  maxSize : ℕ
  parentPageId : PageId
  nextPageId : PageId
  leafArray : ℕ → K × V
  internalArray : ℕ → K × PageId
  written : ℕ

namespace BPlusTreePage

variable {K V : Type}

/-- A page as `NewPage` hands it out: every byte is zero. -/
def zeroed [Inhabited K] [Inhabited V] : BPlusTreePage K V where
  pageType := .invalidIndexPage
  size := 0
  maxSize := 0
  parentPageId := 0
  nextPageId := 0
  leafArray _ := (default, default)
  internalArray _ := (default, 0)
  written := 0

/-- The page with every byte zero; where it was written stays known. -/
def erased [Inhabited K] [Inhabited V] (page : BPlusTreePage K V) : BPlusTreePage K V :=
  { (zeroed : BPlusTreePage K V) with written := page.written }

def isLeafPage (page : BPlusTreePage K V) : Bool := page.pageType = .leafPage

def isRootPage (page : BPlusTreePage K V) : Bool := page.parentPageId = invalidPageId

def getMinSize (page : BPlusTreePage K V) : ℕ :=
  if page.isLeafPage then page.maxSize / 2 else (page.maxSize + 1) / 2

def setParentPageId (page : BPlusTreePage K V) (parentPageId : PageId) : BPlusTreePage K V :=
  { page with parentPageId }

def setNextPageId (page : BPlusTreePage K V) (nextPageId : PageId) : BPlusTreePage K V :=
  { page with nextPageId }

/-- The used part of a leaf. -/
def entries (page : BPlusTreePage K V) : List (K × V) := slice page.leafArray page.size

/-- The used part of an internal page; the first key is meaningless. -/
def links (page : BPlusTreePage K V) : List (K × PageId) := slice page.internalArray page.size

/-- The child page ids of an internal page, left to right. -/
def children (page : BPlusTreePage K V) : List PageId := page.links.map Prod.snd

end BPlusTreePage

namespace LeafPage

variable {K V : Type}

/-- Where slot `index` of a leaf starts, for `int` keys and `RID` values. -/
def slotOffset (index : ℕ) : ℕ := 20 + 12 * index

/-- `written` after the slots from `first` on and before `last` were written. -/
def wrote (page : BPlusTreePage K V) (first last : ℕ) : ℕ :=
  if first < last then max page.written (slotOffset last) else page.written

/-- `BPlusTreeLeafPage::Init`. -/
def init (page : BPlusTreePage K V) (maxSize : ℕ) : BPlusTreePage K V :=
  { page with
    pageType := .leafPage, maxSize, size := 0
    parentPageId := invalidPageId, nextPageId := invalidPageId }

def keyAt (page : BPlusTreePage K V) (index : ℕ) : K := (page.leafArray index).1

section

variable [LinearOrder K]

/-- The `while (low < high)` loop of `KeyIndex`; every round shrinks `high - low`, which the
first argument bounds. -/
def keyIndexLoop (page : BPlusTreePage K V) (key : K) : ℕ → ℕ → ℕ → ℕ
  | 0, low, _ => low
  | rounds + 1, low, high =>
    if low < high then
      let mid := low + (high - low) / 2
      if keyAt page mid < key then keyIndexLoop page key rounds (mid + 1) high
      else keyIndexLoop page key rounds low mid
    else low

/-- `KeyIndex`: binary search for the first position whose key is not below `key`. -/
def keyIndex (page : BPlusTreePage K V) (key : K) : ℕ :=
  keyIndexLoop page key page.size 0 page.size

/-- The test shared by `Lookup`, `Insert` and `RemoveAndDeleteRecord`. -/
def matchesAt (page : BPlusTreePage K V) (key : K) (index : ℕ) : Bool :=
  index < page.size && !decide (key < keyAt page index) && !decide (keyAt page index < key)

/-- `Lookup`: the value stored under `key`. -/
def lookup (page : BPlusTreePage K V) (key : K) : Option V :=
  let index := keyIndex page key
  if matchesAt page key index then some (page.leafArray index).2 else none

/-- `Insert`: the page and the size it returns. -/
def insert (page : BPlusTreePage K V) (key : K) (value : V) : BPlusTreePage K V × ℕ :=
  let index := keyIndex page key
  if matchesAt page key index then (page, page.size)
  else
    ({ page with
        leafArray := Function.update (shiftUp index page.size page.leafArray) index (key, value)
        size := page.size + 1
        written := wrote page index (page.size + 1) }, page.size + 1)

/-- `RemoveAndDeleteRecord`: the page and the size it returns. -/
def removeAndDeleteRecord (page : BPlusTreePage K V) (key : K) : BPlusTreePage K V × ℕ :=
  let index := keyIndex page key
  if !matchesAt page key index then (page, page.size)
  else
    ({ page with
        leafArray := shiftDown index (page.size - 1 - index) page.leafArray
        size := page.size - 1
        written := wrote page index (page.size - 1) }, page.size - 1)

end

/-- `MoveHalfTo`: this page and the recipient. -/
def moveHalfTo (page recipient : BPlusTreePage K V) : BPlusTreePage K V × BPlusTreePage K V :=
  let splitIdx := page.size / 2
  let moveCount := page.size - splitIdx
  ({ page with size := splitIdx },
    { recipient with
      leafArray := copyRun page.leafArray splitIdx 0 moveCount recipient.leafArray
      size := moveCount
      written := wrote recipient 0 moveCount })

/-- `MoveAllTo`: this page and the recipient. -/
def moveAllTo (page recipient : BPlusTreePage K V) : BPlusTreePage K V × BPlusTreePage K V :=
  ({ page with size := 0 },
    { recipient with
      leafArray := copyRun page.leafArray 0 recipient.size page.size recipient.leafArray
      size := recipient.size + page.size
      written := wrote recipient recipient.size (recipient.size + page.size) })

/-- `MoveFirstToEndOf`: this page and the recipient. -/
def moveFirstToEndOf (page recipient : BPlusTreePage K V) : BPlusTreePage K V × BPlusTreePage K V :=
  ({ page with
      leafArray := shiftDown 0 (page.size - 1) page.leafArray
      size := page.size - 1
      written := wrote page 0 (page.size - 1) },
    { recipient with
      leafArray := Function.update recipient.leafArray recipient.size (page.leafArray 0)
      size := recipient.size + 1
      written := wrote recipient recipient.size (recipient.size + 1) })

/-- `MoveLastToFrontOf`: this page and the recipient. -/
def moveLastToFrontOf (page recipient : BPlusTreePage K V) : BPlusTreePage K V × BPlusTreePage K V :=
  ({ page with size := page.size - 1 },
    { recipient with
      leafArray := Function.update (shiftUp 0 recipient.size recipient.leafArray) 0
        (page.leafArray (page.size - 1))
      size := recipient.size + 1
      written := wrote recipient 0 (recipient.size + 1) })

end LeafPage

namespace InternalPage

variable {K V : Type}

/-- Where slot `index` of an internal page starts, for `int` keys. -/
def slotOffset (index : ℕ) : ℕ := 16 + 8 * index

/-- `written` after the slots from `first` on and before `last` were written. -/
def wrote (page : BPlusTreePage K V) (first last : ℕ) : ℕ :=
  if first < last then max page.written (slotOffset last) else page.written

/-- `BPlusTreeInternalPage::Init`. -/
def init (page : BPlusTreePage K V) (maxSize : ℕ) : BPlusTreePage K V :=
  { page with pageType := .internalPage, maxSize, size := 0, parentPageId := invalidPageId }

def keyAt (page : BPlusTreePage K V) (index : ℕ) : K := (page.internalArray index).1

def valueAt (page : BPlusTreePage K V) (index : ℕ) : PageId := (page.internalArray index).2

def setKeyAt (page : BPlusTreePage K V) (index : ℕ) (key : K) : BPlusTreePage K V :=
  { page with
    internalArray := Function.update page.internalArray index (key, (page.internalArray index).2)
    written := wrote page index (index + 1) }

/-- The search loop of `ValueIndex` from position `i` on, with the positions left to try. -/
def valueIndexLoop (page : BPlusTreePage K V) (value : PageId) : ℕ → ℕ → ℤ
  | _, 0 => -1
  | i, left + 1 => if valueAt page i = value then i else valueIndexLoop page value (i + 1) left

/-- `ValueIndex`: the position of a child, or `-1`. -/
def valueIndex (page : BPlusTreePage K V) (value : PageId) : ℤ :=
  valueIndexLoop page value 0 page.size

section

variable [LinearOrder K]

/-- The loop of `Lookup` from position `i` on, carrying `result`. -/
def lookupLoop (page : BPlusTreePage K V) (key : K) : ℕ → PageId → ℕ → PageId
  | _, result, 0 => result
  | i, result, left + 1 =>
    if key < keyAt page i then result else lookupLoop page key (i + 1) (valueAt page i) left

/-- `Lookup`: the child that `key` routes to. -/
def lookup (page : BPlusTreePage K V) (key : K) : PageId :=
  lookupLoop page key 1 (valueAt page 0) (page.size - 1)

end

/-- `PopulateNewRoot`; the first key is left as it is. -/
def populateNewRoot (page : BPlusTreePage K V) (oldValue : PageId) (key : K) (newValue : PageId) :
    BPlusTreePage K V :=
  { page with
    internalArray := Function.update
      (Function.update page.internalArray 0 ((page.internalArray 0).1, oldValue)) 1 (key, newValue)
    size := 2
    written := wrote page 0 2 }

/-- `InsertNodeAfter`: the page and the size it returns. -/
def insertNodeAfter (page : BPlusTreePage K V) (oldValue : PageId) (key : K) (newValue : PageId) :
    BPlusTreePage K V × ℕ :=
  let gap := (valueIndex page oldValue + 1).toNat
  ({ page with
      internalArray := Function.update (shiftUp gap page.size page.internalArray) gap (key, newValue)
      size := page.size + 1
      written := wrote page gap (page.size + 1) }, page.size + 1)

/-- `Remove`. -/
def remove (page : BPlusTreePage K V) (index : ℕ) : BPlusTreePage K V :=
  { page with
    internalArray := shiftDown index (page.size - 1 - index) page.internalArray
    size := page.size - 1
    written := wrote page index (page.size - 1) }

/-- `RemoveAndReturnOnlyChild`: the page and the child. -/
def removeAndReturnOnlyChild (page : BPlusTreePage K V) : BPlusTreePage K V × PageId :=
  ({ page with size := 0 }, valueAt page 0)

/-- `MoveAllTo`: this page and the recipient. -/
def moveAllTo (page recipient : BPlusTreePage K V) (middleKey : K) :
    BPlusTreePage K V × BPlusTreePage K V :=
  let page := setKeyAt page 0 middleKey
  ({ page with size := 0 },
    { recipient with
      internalArray := copyRun page.internalArray 0 recipient.size page.size recipient.internalArray
      size := recipient.size + page.size
      written := wrote recipient recipient.size (recipient.size + page.size) })

/-- `MoveHalfTo`: this page and the recipient, whose first key is left as it is. The source
takes the middle key as a parameter and does not use it. -/
def moveHalfTo (page recipient : BPlusTreePage K V) (_middleKey : K) :
    BPlusTreePage K V × BPlusTreePage K V :=
  let splitIdx := page.size / 2
  let moveCount := page.size - splitIdx - 1
  ({ page with size := splitIdx },
    { recipient with
      internalArray := copyRun page.internalArray (splitIdx + 1) 1 moveCount
        (Function.update recipient.internalArray 0
          ((recipient.internalArray 0).1, valueAt page splitIdx))
      size := moveCount + 1
      written := wrote recipient 0 (moveCount + 1) })

/-- `MoveFirstToEndOf`: this page and the recipient. -/
def moveFirstToEndOf (page recipient : BPlusTreePage K V) (middleKey : K) :
    BPlusTreePage K V × BPlusTreePage K V :=
  ({ page with
      internalArray := shiftDown 0 (page.size - 1) page.internalArray
      size := page.size - 1
      written := wrote page 0 (page.size - 1) },
    { recipient with
      internalArray := Function.update recipient.internalArray recipient.size (middleKey, valueAt page 0)
      size := recipient.size + 1
      written := wrote recipient recipient.size (recipient.size + 1) })

/-- `MoveLastToFrontOf`: this page and the recipient. Cell `0` of the recipient gets the moved
child but keeps its old first key. -/
def moveLastToFrontOf (page recipient : BPlusTreePage K V) (middleKey : K) :
    BPlusTreePage K V × BPlusTreePage K V :=
  let shifted := shiftUp 0 recipient.size recipient.internalArray
  let placed := Function.update shifted 0 ((shifted 0).1, valueAt page (page.size - 1))
  ({ page with size := page.size - 1 },
    { recipient with
      internalArray := Function.update placed 1 (middleKey, (placed 1).2)
      size := recipient.size + 1
      written := wrote recipient 0 (max 2 (recipient.size + 1)) })

end InternalPage

end OneBase
