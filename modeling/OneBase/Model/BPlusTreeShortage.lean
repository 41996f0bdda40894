import OneBase.Model.BPlusTreeInvariant

/-! # Inserting while pages are short

An insertion that splits pages asks the pool for new ones on its way up, after entries have moved.
What it is meant to keep when some of these calls are refused, and which of its calls decide that. A page is also split
only after the entry that overfills it was stored, and where that slot lies past the end of the page, what follows the
page in memory is overwritten.
-/

namespace OneBase

open BPlusTreePage

variable {K V : Type} [LinearOrder K]

namespace PageStore

/-- One more entry overfills the page. -/
def isFull (page : BPlusTreePage K V) : Bool := page.maxSize ≤ page.size

/-- An insertion below `p` splits `p` itself: every page the key routes through is full. -/
def spills (d : PageStore K V) (key : K) : ℕ → PageId → Bool
  | 0, p => isFull (d p)
  | height + 1, p => isFull (d p) && spills d key height (InternalPage.lookup (d p) key)

/-- No slot was ever stored past the end of its page. -/
def Inside (d : PageStore K V) : Prop := ∀ p, (d p).written ≤ pageSize

/-- On every page that an insertion below `p` stores an entry in, the slot behind the used ones is still on the page. -/
def fits (d : PageStore K V) (key : K) : ℕ → PageId → Prop
  | 0, p => LeafPage.slotOffset ((d p).size + 1) ≤ pageSize
  | height + 1, p =>
    fits d key height (InternalPage.lookup (d p) key) ∧
      (spills d key height (InternalPage.lookup (d p) key) = true →
      InternalPage.slotOffset ((d p).size + 1) ≤ pageSize)

/-- The call that hangs the right half of a page of this height into the tree, counted from the end of
the descent. A leaf split calls `NewPage` once; a level above it fetches the page, takes a new one and
fetches each child that moves there. -/
def hangCall (internalMaxSize height : ℕ) : ℕ :=
  1 + height * (2 + (internalMaxSize + 1 - (internalMaxSize + 1) / 2))

/-- The calls for which an insertion below `p` has no way out, counted from the end of the descent. -/
def neededCalls (d : PageStore K V) (internalMaxSize : ℕ) (key : K) : ℕ → PageId → List ℕ
  | 0, p => if isFull (d p) then [0] else []
  | height + 1, p =>
    let child := InternalPage.lookup (d p) key
    neededCalls d internalMaxSize key height child ++
      if spills d key height child then
        hangCall internalMaxSize height :: if isFull (d p) then [hangCall internalMaxSize height + 1] else []
      else []

end PageStore

open PageStore

namespace BPlusTree

/-- The calls for which an insertion has no way out: those below the root, and the page of a new root. -/
def neededCalls (tree : BPlusTree K V) (key : K) (height : ℕ) : List ℕ :=
  PageStore.neededCalls tree.data tree.internalMaxSize key height tree.rootPageId ++
    if spills tree.data key height tree.rootPageId then [hangCall tree.internalMaxSize height] else []

/-- An insertion of `key` that gets to the leaf and finds the key absent is granted every call it needs. -/
def Supplied (tree : BPlusTree K V) (key : K) : Prop :=
  ∀ height, tree.WellFormedAt height → (∀ call ≤ height, tree.grants (tree.calls + call) = true) →
    (∀ value, ¬ StoredBelow tree.data tree.rootPageId key value) →
    ∀ call ∈ tree.neededCalls key height, tree.grants (tree.calls + (height + 1) + call) = true

omit [LinearOrder K] in
def InsidePages (tree : BPlusTree K V) : Prop := PageStore.Inside tree.data

/-- An insertion of `key` that gets to the leaf and finds the key absent has room for the slots it stores. -/
def Fits (tree : BPlusTree K V) (key : K) : Prop :=
  ∀ height, tree.WellFormedAt height → (∀ call ≤ height, tree.grants (tree.calls + call) = true) →
    (∀ value, ¬ StoredBelow tree.data tree.rootPageId key value) →
      PageStore.fits tree.data key height tree.rootPageId

omit [LinearOrder K] in
/-- The same tree once pages can be had again. -/
def restored (tree : BPlusTree K V) : BPlusTree K V := { tree with grants := fun _ => true }

/-- What an insertion that gave this answer keeps: other keys read as before, the key reads as the answer
says, and no page is overfull. -/
structure Keeps (tree : BPlusTree K V) (key : K) (value : V) (answer : Bool) (after : BPlusTree K V) : Prop where
  others : ∀ other ≠ key, ∀ result, after.restored.Returns other result ↔ tree.restored.Returns other result
  own : after.restored.Returns key (some value) ↔ answer = true ∨ tree.restored.Returns key (some value)
  sizes : after.rootPageId ≠ invalidPageId → ∀ p, Reaches after.data after.rootPageId p →
    (after.data p).size ≤ (after.data p).maxSize

end BPlusTree

end OneBase
