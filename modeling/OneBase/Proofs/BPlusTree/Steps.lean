import OneBase.Model.BPlusTree
import Mathlib.Tactic.Common

/-! # Tree code step by step

What each primitive of the tree code does to a given state, whether or not the pool finds a frame.
-/

namespace OneBase.BPlusTree

open BPlusTreePage

variable {K V : Type}

variable {α β : Type} (tree : BPlusTree K V)

theorem run_bind (m : TreeM K V α) (f : α → TreeM K V β) :
    (m >>= f) tree = (m tree).bind fun result => f result.1 result.2 := rfl

theorem run_pure (a : α) : (pure a : TreeM K V α) tree = some (a, tree) := rfl

theorem run_get : (get : TreeM K V (BPlusTree K V)) tree = some (tree, tree) := rfl

theorem run_ite (c : Prop) [Decidable c] (first second : TreeM K V α) :
    (if c then first else second) tree = if c then first tree else second tree := by
  split <;> rfl

theorem run_page (p : PageId) : page p tree = some (tree.data p, tree) := rfl

theorem run_writePage (p : PageId) (contents : BPlusTreePage K V) :
    writePage p contents tree = some ((), { tree with data := Function.update tree.data p contents }) := rfl

theorem run_unpinPage (p : PageId) (isDirty : Bool) : unpinPage p isDirty tree =
    some ((), { tree with pinCount := Function.update tree.pinCount p (tree.pinCount p - 1) }) := rfl

theorem run_modify (f : BPlusTree K V → BPlusTree K V) :
    (modify f : TreeM K V PUnit) tree = some (⟨⟩, f tree) := rfl

theorem run_fetchPage (p : PageId) : fetchPage p tree =
    if tree.grants tree.calls then
      some (true, { tree with
        calls := tree.calls + 1
        pinCount := Function.update tree.pinCount p (tree.pinCount p + 1) })
    else some (false, { tree with calls := tree.calls + 1 }) := by
  rw [fetchPage, run_bind, run_get, Option.bind_some, run_ite]
  rfl

theorem run_newPage [Inhabited K] [Inhabited V] : newPage tree =
    if tree.grants tree.calls then
      some (some tree.nextPageId, { tree with
        calls := tree.calls + 1
        nextPageId := tree.nextPageId + 1
        data := Function.update tree.data tree.nextPageId (erased (tree.data tree.nextPageId))
        pinCount := Function.update tree.pinCount tree.nextPageId 1 })
    else some (none, { tree with calls := tree.calls + 1 }) := by
  rw [newPage, run_bind, run_get, Option.bind_some, run_ite]
  rfl

theorem run_deletePage [Inhabited K] [Inhabited V] (p : PageId) : deletePage p tree =
    some ((), { tree with
      data :=
        if tree.pinCount p = 0 then
          Function.update tree.data p (erased (tree.data p))
        else tree.data
      deleted := p :: tree.deleted }) := rfl

section Leaf

variable [LinearOrder K] {tree : BPlusTree K V} {p : PageId}

/-- The shared descent stays at a leaf. -/
theorem run_descend_leaf (leaf : (tree.data p).isLeafPage = true) (key : K) (rounds : ℕ) :
    descend key (rounds + 1) p tree = some (some p, tree) := by
  rw [descend, run_bind, run_page, Option.bind_some, run_ite, if_pos leaf]
  rfl

variable [Inhabited K] [Inhabited V] {key : K} {value : V} {rounds : ℕ}

/-- Without its first page `Insert` gives up. -/
theorem run_insert_refused (refused : tree.grants tree.calls = false) :
    insert rounds key value tree = some (false, { tree with calls := tree.calls + 1 }) := by
  rw [insert, run_bind, run_get, Option.bind_some, run_ite]
  split
  · rw [run_bind, run_newPage, if_neg (by simp [refused]), Option.bind_some]
    rfl
  · rw [run_bind, run_fetchPage, if_neg (by simp [refused]), Option.bind_some]
    rfl

/-- The first `Insert` makes the root. -/
theorem run_insert_empty (empty : tree.isEmpty = true) (granted : tree.grants tree.calls = true) :
    insert rounds key value tree = some (true, { tree with
      calls := tree.calls + 1
      nextPageId := tree.nextPageId + 1
      data := Function.update tree.data tree.nextPageId
        (LeafPage.insert (LeafPage.init (erased (tree.data tree.nextPageId)) tree.leafMaxSize) key value).1
      pinCount := Function.update tree.pinCount tree.nextPageId 0
      rootPageId := tree.nextPageId }) := by
  rw [insert, run_bind, run_get, Option.bind_some, run_ite, if_pos empty, run_bind, run_newPage, if_pos granted]
  simp only [Option.bind_some, run_bind, run_page, run_writePage, run_modify, run_unpinPage, run_pure,
    Function.update_self, Function.update_idem, Nat.sub_self]

/-- `Insert` of a key the root leaf has. -/
theorem run_insert_present (nonempty : tree.isEmpty = false) (granted : tree.grants tree.calls = true)
    (leaf : (tree.data tree.rootPageId).isLeafPage = true)
    (inserted : LeafPage.insert (tree.data tree.rootPageId) key value =
      (tree.data tree.rootPageId, (tree.data tree.rootPageId).size)) :
    insert (rounds + 1) key value tree = some (false, { tree with calls := tree.calls + 1 }) := by
  rw [insert, run_bind, run_get, Option.bind_some, run_ite, if_neg (by simp [nonempty]), run_bind, run_fetchPage,
    if_pos granted]
  simp only [Option.bind_some, if_true, run_bind, run_descend_leaf, leaf, run_page, inserted, run_writePage, run_ite,
    run_unpinPage, run_pure, Function.update_self, Function.update_idem, Nat.add_sub_cancel, Function.update_eq_self]

/-- `Insert` of a new key into a root leaf with room for it. -/
theorem run_insert_room {page : BPlusTreePage K V} (nonempty : tree.isEmpty = false)
    (granted : tree.grants tree.calls = true) (leaf : (tree.data tree.rootPageId).isLeafPage = true)
    (inserted : LeafPage.insert (tree.data tree.rootPageId) key value =
      (page, (tree.data tree.rootPageId).size + 1)) (room : page.size ≤ page.maxSize) :
    insert (rounds + 1) key value tree = some (true, { tree with
      calls := tree.calls + 1
      data := Function.update tree.data tree.rootPageId page }) := by
  rw [insert, run_bind, run_get, Option.bind_some, run_ite, if_neg (by simp [nonempty]), run_bind, run_fetchPage,
    if_pos granted]
  simp only [Option.bind_some, if_true, run_bind, run_descend_leaf, leaf, run_page, inserted, run_writePage, run_ite,
    Nat.succ_ne_self, if_false, room.not_gt, run_unpinPage, run_pure, Function.update_self, Function.update_idem,
    Nat.add_sub_cancel, Function.update_eq_self]

/-- An empty tree has nothing to remove. -/
theorem run_remove_empty (empty : tree.isEmpty = true) : remove rounds key tree = some ((), tree) := by
  rw [remove, run_bind, run_get, Option.bind_some, run_ite, if_pos empty]
  rfl

/-- Without the root page `Remove` gives up. -/
theorem run_remove_refused (nonempty : tree.isEmpty = false) (refused : tree.grants tree.calls = false) :
    remove rounds key tree = some ((), { tree with calls := tree.calls + 1 }) := by
  rw [remove, run_bind, run_get, Option.bind_some, run_ite, if_neg (by simp [nonempty]), run_bind, findLeafPage,
    run_bind, run_get, Option.bind_some, run_ite, if_neg (by simp [nonempty]), run_bind, run_fetchPage,
    if_neg (by simp [refused])]
  simp only [Option.bind_some, Bool.false_eq_true, if_false, run_pure, run_ite, if_true]

omit [Inhabited K] [Inhabited V] in
/-- `findLeafPage` in a tree that is one leaf. -/
theorem run_findLeafPage_leaf (nonempty : tree.isEmpty = false) (granted : tree.grants tree.calls = true)
    (leaf : (tree.data tree.rootPageId).isLeafPage = true) :
    findLeafPage (rounds + 1) key tree = some (tree.rootPageId, { tree with calls := tree.calls + 1 }) := by
  rw [findLeafPage, run_bind, run_get, Option.bind_some, run_ite, if_neg (by simp [nonempty]), run_bind, run_fetchPage,
    if_pos granted]
  simp only [Option.bind_some, if_true, run_bind, run_descend_leaf, leaf, run_unpinPage, run_pure, Function.update_self,
    Function.update_idem, Nat.add_sub_cancel, Function.update_eq_self]

/-- Without the leaf it found `Remove` gives up. -/
theorem run_remove_lost (nonempty : tree.isEmpty = false) (granted : tree.grants tree.calls = true)
    (leaf : (tree.data tree.rootPageId).isLeafPage = true) (refused : tree.grants (tree.calls + 1) = false) :
    remove (rounds + 1) key tree = some ((), { tree with calls := tree.calls + 2 }) := by
  have rooted : tree.rootPageId ≠ invalidPageId := by simpa [isEmpty] using nonempty
  rw [remove, run_bind, run_get, Option.bind_some, run_ite, if_neg (by simp [nonempty]), run_bind,
    run_findLeafPage_leaf nonempty granted leaf, Option.bind_some, run_ite, if_neg rooted, run_bind, run_fetchPage,
    if_neg (by simp [refused])]
  simp only [Option.bind_some, Bool.not_false, if_true, run_ite, run_pure]

/-- `Remove` at a root leaf: the root goes with its last key. -/
theorem run_remove_leaf {page : BPlusTreePage K V} (nonempty : tree.isEmpty = false)
    (granted : tree.grants tree.calls = true) (leaf : (tree.data tree.rootPageId).isLeafPage = true)
    (granted' : tree.grants (tree.calls + 1) = true)
    (removed : (LeafPage.removeAndDeleteRecord (tree.data tree.rootPageId) key).1 = page)
    (isRoot : page.isRootPage = true) :
    remove (rounds + 1) key tree =
      if page.size = 0 then
        deletePage tree.rootPageId { tree with
          calls := tree.calls + 2
          data := Function.update tree.data tree.rootPageId page
          rootPageId := invalidPageId }
      else some ((), { tree with
        calls := tree.calls + 2
        data := Function.update tree.data tree.rootPageId page }) := by
  have rooted : tree.rootPageId ≠ invalidPageId := by simpa [isEmpty] using nonempty
  rw [remove, run_bind, run_get, Option.bind_some, run_ite, if_neg (by simp [nonempty]), run_bind,
    run_findLeafPage_leaf nonempty granted leaf, Option.bind_some, run_ite, if_neg rooted, run_bind, run_fetchPage,
    if_pos granted']
  simp only [Option.bind_some, Bool.not_true, Bool.false_eq_true, if_false, run_bind, run_page, removed, run_writePage,
    run_ite, isRoot, not_true_eq_false, and_false, and_true, run_modify, run_unpinPage, Function.update_self,
    Function.update_idem, Nat.add_sub_cancel, Function.update_eq_self]

end Leaf

end OneBase.BPlusTree
