import OneBase.Model.BPlusTree
import Mathlib.Data.List.Chain

/-! # What a well-formed B+ tree is

The invariant a tree of pages is meant to satisfy, read off a page store without running any
code: which pages hang below which, what is stored there, and the bounds that search, splits and
merges rely on. Leaves stand at one depth, so a subtree is read with its height.
-/

namespace OneBase

open BPlusTreePage

variable {K V : Type}

/-- Page contents by page id. -/
abbrev PageStore (K V : Type) := PageId → BPlusTreePage K V

namespace PageStore

/-- `q` is `p` or lies below it. -/
inductive Reaches (d : PageStore K V) (p : PageId) : PageId → Prop
  | refl : Reaches d p p
  | child {q c : PageId} (above : Reaches d p q) (internal : (d q).pageType = .internalPage)
      (link : c ∈ (d q).children) : Reaches d p c

/-- `key` is stored with `value` in some leaf at or below `p`. -/
def StoredBelow (d : PageStore K V) (p : PageId) (key : K) (value : V) : Prop :=
  ∃ leaf, Reaches d p leaf ∧ (d leaf).pageType = .leafPage ∧ (key, value) ∈ (d leaf).entries

/-- For child `i` of an internal page every key of its subtree lies in `[key_i, key_{i+1})`;
the first child has no lower and the last child no upper bound. -/
def SeparatorsBound [LinearOrder K] (d : PageStore K V) (root : PageId) : Prop :=
  ∀ p, Reaches d root p → (d p).pageType = .internalPage →
    ∀ i < (d p).size, ∀ key value, StoredBelow d (InternalPage.valueAt (d p) i) key value →
      (0 < i → InternalPage.keyAt (d p) i ≤ key) ∧
        (i + 1 < (d p).size → key < InternalPage.keyAt (d p) (i + 1))

/-- Every page below the root names the page that links to it as its parent. -/
def ParentsCorrect (d : PageStore K V) (root : PageId) : Prop :=
  (d root).parentPageId = invalidPageId ∧
    ∀ p, Reaches d root p → (d p).pageType = .internalPage →
      ∀ c ∈ (d p).children, (d c).parentPageId = p

/-- All leaves below `p` are `height` levels down. -/
def UniformDepth (d : PageStore K V) : ℕ → PageId → Prop
  | 0, p => (d p).pageType = .leafPage
  | height + 1, p =>
    (d p).pageType = .internalPage ∧ ∀ c ∈ (d p).children, UniformDepth d height c

/-- The pages of a subtree of the given height. -/
def pagesOf (d : PageStore K V) : ℕ → PageId → List PageId
  | 0, p => [p]
  | height + 1, p => p :: (d p).children.flatMap (pagesOf d height)

/-- The leaves of a subtree, left to right. -/
def leavesOf (d : PageStore K V) : ℕ → PageId → List PageId
  | 0, p => [p]
  | height + 1, p => (d p).children.flatMap (leavesOf d height)

/-- What a subtree stores, left to right. -/
def contents (d : PageStore K V) : ℕ → PageId → List (K × V)
  | 0, p => (d p).entries
  | height + 1, p => (d p).children.flatMap (contents d height)

/-- `next_page_id_` leads along the listed leaves and from the last one to `last`. -/
def LeafChain (d : PageStore K V) (leaves : List PageId) (last : PageId) : Prop :=
  (leaves ++ [last]).IsChain (fun a b => (d a).nextPageId = b)

end PageStore

open PageStore

namespace BPlusTree

variable [LinearOrder K]

/-- A well-formed non-empty tree of the given height. -/
structure WellFormedAt (tree : BPlusTree K V) (height : ℕ) : Prop where
  uniform : UniformDepth tree.data height tree.rootPageId
  leafKeys : ∀ p, Reaches tree.data tree.rootPageId p → (tree.data p).pageType = .leafPage →
    (tree.data p).entries.Pairwise (fun a b => a.1 < b.1)
  internalKeys : ∀ p, Reaches tree.data tree.rootPageId p →
    (tree.data p).pageType = .internalPage → ∀ i, 0 < i → i + 1 < (tree.data p).size →
      InternalPage.keyAt (tree.data p) i < InternalPage.keyAt (tree.data p) (i + 1)
  separators : SeparatorsBound tree.data tree.rootPageId
  capacity : ∀ p, Reaches tree.data tree.rootPageId p →
    (tree.data p).maxSize = (if (tree.data p).isLeafPage then tree.leafMaxSize else tree.internalMaxSize)
  notOverfull : ∀ p, Reaches tree.data tree.rootPageId p → (tree.data p).size ≤ (tree.data p).maxSize
  notUnderfull : ∀ p, Reaches tree.data tree.rootPageId p → p ≠ tree.rootPageId →
    (tree.data p).getMinSize ≤ (tree.data p).size
  rootLeaf : (tree.data tree.rootPageId).pageType = .leafPage →
    1 ≤ (tree.data tree.rootPageId).size
  rootInternal : (tree.data tree.rootPageId).pageType = .internalPage →
    2 ≤ (tree.data tree.rootPageId).size
  parents : ParentsCorrect tree.data tree.rootPageId
  leafChain : LeafChain tree.data (leavesOf tree.data height tree.rootPageId) invalidPageId
  distinct : (pagesOf tree.data height tree.rootPageId).Nodup
  allocated : ∀ p ∈ pagesOf tree.data height tree.rootPageId, 0 ≤ p ∧ p < tree.nextPageId

/-- A well-formed tree: `root_page_id_` is invalid when nothing is stored, and otherwise names
the root of a well-formed tree of some height, which stores at least one key. -/
structure WellFormed (tree : BPlusTree K V) : Prop where
  nextPageId : 0 ≤ tree.nextPageId
  rooted : tree.rootPageId ≠ invalidPageId → ∃ height, tree.WellFormedAt height

/-- The proportions of a non-empty tree of the given height, which say nothing of where a key must
stand or of parent pointers: leaves at one depth and chained in order, no page below the root
underfull, none overfull, and a root with something below it. -/
structure Proportioned (tree : BPlusTree K V) (height : ℕ) : Prop where
  uniform : UniformDepth tree.data height tree.rootPageId
  capacity : ∀ p, Reaches tree.data tree.rootPageId p →
    (tree.data p).maxSize = (if (tree.data p).isLeafPage then tree.leafMaxSize else tree.internalMaxSize)
  notOverfull : ∀ p, Reaches tree.data tree.rootPageId p → (tree.data p).size ≤ (tree.data p).maxSize
  notUnderfull : ∀ p, Reaches tree.data tree.rootPageId p → p ≠ tree.rootPageId →
    (tree.data p).getMinSize ≤ (tree.data p).size
  rootInternal : (tree.data tree.rootPageId).pageType = .internalPage →
    2 ≤ (tree.data tree.rootPageId).size
  inhabited : ∃ key value, StoredBelow tree.data tree.rootPageId key value
  leafChain : LeafChain tree.data (leavesOf tree.data height tree.rootPageId) invalidPageId

/-- Every further `NewPage` and `FetchPage` finds a frame. -/
def Granted (tree : BPlusTree K V) : Prop := ∀ call, tree.grants call = true

/-- `GetValue(key)` returns with this result, given enough rounds for its descent. -/
def Returns (tree : BPlusTree K V) (key : K) (result : Option V) : Prop :=
  ∃ enough, ∀ rounds ≥ enough, ∃ after, getValue rounds key tree = some (result, after)

end BPlusTree

end OneBase
