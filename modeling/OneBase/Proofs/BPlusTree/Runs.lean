import OneBase.Model.BPlusTreeInvariant
import OneBase.ToMathlib.ObservedRuns

/-! # Running tree code when every page can be had

Pins and call counts do not show in what the tree stores, so the code is run against an
observation that leaves them out. One rule per page primitive, each for the head of a `do` block;
`DeletePage` may or may not have dropped the contents, depending on the pins.
-/

namespace OneBase.BPlusTree

open BPlusTreePage ObservedRuns

variable {K V : Type}

/-- What tree code can see of the state, pins and call counts aside. -/
structure View (K V : Type) where
  data : PageStore K V
  rootPageId : PageId
  nextPageId : PageId
  leafMaxSize : ℕ
  internalMaxSize : ℕ
  deleted : List PageId

def view (tree : BPlusTree K V) : View K V :=
  ⟨tree.data, tree.rootPageId, tree.nextPageId, tree.leafMaxSize, tree.internalMaxSize, tree.deleted⟩

@[simp] theorem view_data (tree : BPlusTree K V) : (view tree).data = tree.data := rfl

@[simp] theorem view_rootPageId (tree : BPlusTree K V) : (view tree).rootPageId = tree.rootPageId := rfl

@[simp] theorem view_nextPageId (tree : BPlusTree K V) : (view tree).nextPageId = tree.nextPageId := rfl

@[simp] theorem view_leafMaxSize (tree : BPlusTree K V) : (view tree).leafMaxSize = tree.leafMaxSize := rfl

@[simp] theorem view_internalMaxSize (tree : BPlusTree K V) :
    (view tree).internalMaxSize = tree.internalMaxSize := rfl

@[simp] theorem view_deleted (tree : BPlusTree K V) : (view tree).deleted = tree.deleted := rfl

/-- Runs in which every `NewPage` and `FetchPage` finds a frame. -/
abbrev Runs {α : Type} (m : TreeM K V α) (v : View K V) (Q : α → View K V → Prop) : Prop :=
  RunsTo Granted view m v Q

variable {α β : Type} {v : View K V} {R : β → View K V → Prop}

/-- The head of a block whose outcome is known. -/
theorem runs_of_step {m : TreeM K V α} {f : α → TreeM K V β}
    (step : ∀ tree, Granted tree → view tree = v → ∃ a tree', m tree = some (a, tree') ∧ Granted tree' ∧
      Runs (f a) (view tree') R) : Runs (m >>= f) v R := by
  intro tree granted seen
  obtain ⟨a, tree', run, granted', rest⟩ := step tree granted seen
  have bound : (m >>= f) tree = f a tree' := by
    change (m tree).bind (fun result => f result.1 result.2) = _
    rw [run]
    rfl
  rw [bound]
  exact rest tree' granted' rfl

theorem runs_page {pageId : PageId} {f : BPlusTreePage K V → TreeM K V β}
    (rest : Runs (f (v.data pageId)) v R) : Runs (page pageId >>= f) v R := by
  rintro tree granted rfl
  exact rest tree granted rfl

theorem runs_writePage {pageId : PageId} {contents : BPlusTreePage K V} {f : Unit → TreeM K V β}
    (rest : Runs (f ()) { v with data := Function.update v.data pageId contents } R) :
    Runs (writePage pageId contents >>= f) v R := by
  rintro tree granted rfl
  exact rest { tree with data := Function.update tree.data pageId contents } granted rfl

theorem runs_fetchPage {pageId : PageId} {f : Bool → TreeM K V β} (rest : Runs (f true) v R) :
    Runs (fetchPage pageId >>= f) v R := by
  refine runs_of_step fun tree granted seen => ⟨true, { tree with
    calls := tree.calls + 1
    pinCount := Function.update tree.pinCount pageId (tree.pinCount pageId + 1) }, ?_, granted, ?_⟩
  · change (if tree.grants tree.calls = true then _ else _ : TreeM K V Bool) tree = _
    rw [if_pos (granted tree.calls)]
    rfl
  · subst seen
    exact rest

theorem runs_unpinPage {pageId : PageId} {isDirty : Bool} {f : Unit → TreeM K V β} (rest : Runs (f ()) v R) :
    Runs (unpinPage pageId isDirty >>= f) v R := by
  rintro tree granted rfl
  exact rest { tree with pinCount := Function.update tree.pinCount pageId (tree.pinCount pageId - 1) }
    granted rfl

theorem runs_modify_root {pageId : PageId} {f : PUnit → TreeM K V β}
    (rest : Runs (f ⟨⟩) { v with rootPageId := pageId } R) :
    Runs (modify (fun tree => { tree with rootPageId := pageId }) >>= f) v R := by
  rintro tree granted rfl
  exact rest { tree with rootPageId := pageId } granted rfl

theorem runs_get {f : BPlusTree K V → TreeM K V β} (rest : ∀ tree, view tree = v → Runs (f tree) v R) :
    Runs (get >>= f) v R := by
  rintro tree granted rfl
  exact rest tree rfl tree granted rfl

section

variable [Inhabited K] [Inhabited V]

theorem runs_newPage {f : Option PageId → TreeM K V β}
    (rest : Runs (f (some v.nextPageId)) { v with
      data := Function.update v.data v.nextPageId (erased (v.data v.nextPageId))
      nextPageId := v.nextPageId + 1 } R) : Runs (newPage >>= f) v R := by
  refine runs_of_step fun tree granted seen => ⟨some tree.nextPageId, { tree with
    calls := tree.calls + 1
    nextPageId := tree.nextPageId + 1
    data := Function.update tree.data tree.nextPageId (erased (tree.data tree.nextPageId))
    pinCount := Function.update tree.pinCount tree.nextPageId 1 }, ?_, granted, ?_⟩
  · change (if tree.grants tree.calls = true then _ else _ : TreeM K V (Option PageId)) tree = _
    rw [if_pos (granted tree.calls)]
    rfl
  · subst seen
    exact rest

theorem runs_deletePage {pageId : PageId} {f : Unit → TreeM K V β}
    (rest : ∀ contents, Runs (f ()) { v with
      data := Function.update v.data pageId contents
      deleted := pageId :: v.deleted } R) : Runs (deletePage pageId >>= f) v R := by
  refine runs_of_step fun tree granted seen => ⟨(), _, rfl, granted, ?_⟩
  subst seen
  by_cases unpinned : tree.pinCount pageId = 0
  · simpa only [view, unpinned, if_true] using rest (erased (tree.data pageId))
  · have same := rest (tree.data pageId)
    rw [show (view tree).data = tree.data from rfl, Function.update_eq_self] at same
    simpa only [view, unpinned, if_false] using same

end

/-- Point the listed pages at a new parent. -/
def adopt (ids : List PageId) (parent : PageId) (d : PageStore K V) : PageStore K V := fun q =>
  if q ∈ ids then (d q).setParentPageId parent else d q

section Adopt

variable {ids : List PageId} {parent : PageId} {d : PageStore K V} {q : PageId}

theorem adopt_nil : adopt [] parent d = d := by
  funext q
  simp [adopt]

theorem adopt_of_mem (member : q ∈ ids) : adopt ids parent d q = (d q).setParentPageId parent :=
  if_pos member

theorem adopt_of_not_mem (other : q ∉ ids) : adopt ids parent d q = d q := if_neg other

theorem adopt_cons (child : PageId) :
    adopt ids parent (Function.update d child ((d child).setParentPageId parent)) =
      adopt (child :: ids) parent d := by
  funext q
  by_cases same : q = child
  · subst same
    by_cases member : q ∈ ids <;> simp [adopt, member, setParentPageId]
  · simp [adopt, same, Function.update_of_ne]

/-- Adopting leaves a page that is not adopted, whatever is written there. -/
theorem adopt_update {p : PageId} {contents : BPlusTreePage K V} (other : p ∉ ids) :
    adopt ids parent (Function.update d p contents) = Function.update (adopt ids parent d) p contents := by
  funext q
  by_cases same : q = p
  · subst same
    simp [adopt, other]
  · simp [adopt, same, Function.update_of_ne]

/-- A page whose child gets a new parent keeps its children. -/
theorem valueAt_reparented (d : PageStore K V) (child parent holder : PageId) :
    InternalPage.valueAt (Function.update d child ((d child).setParentPageId parent) holder) =
      InternalPage.valueAt (d holder) := by
  funext i
  rw [Function.update_apply]
  split
  · next same => rw [← same]; rfl
  · rfl

end Adopt

/-- The children a loop over positions visits. -/
theorem runs_reparent {holder parent : PageId} {start count : ℕ} {f : Unit → TreeM K V β}
    (rest : Runs (f ()) { v with
      data := adopt ((List.range' start count).map (InternalPage.valueAt (v.data holder))) parent v.data } R) :
    Runs (reparent holder parent start count >>= f) v R := by
  induction count generalizing start v with
  | zero =>
    rw [reparent]
    simpa [adopt_nil] using rest
  | succ count ih =>
    rw [reparent]
    simp only [bind_assoc]
    refine runs_page (runs_fetchPage ?_)
    simp only [↓reduceIte, bind_assoc]
    refine runs_page (runs_writePage (runs_unpinPage (ih ?_)))
    rw [valueAt_reparented, adopt_cons]
    exact rest

theorem runs_reparent_none {holder parent : PageId} {start count : ℕ} {f : Unit → TreeM K V β}
    (none : count = 0) (rest : Runs (f ()) v R) : Runs (reparent holder parent start count >>= f) v R := by
  subst none
  rw [reparent]
  exact rest

/-- A loop over one position. -/
theorem runs_reparent_one {holder parent : PageId} (child : PageId) {start : ℕ} {f : Unit → TreeM K V β}
    (here : InternalPage.valueAt (v.data holder) start = child)
    (rest : Runs (f ()) { v with data := adopt [child] parent v.data } R) :
    Runs (reparent holder parent start 1 >>= f) v R := by
  refine runs_reparent ?_
  simpa [here] using rest

/-- A last action is run as an action followed by nothing. -/
theorem runs_last {m : TreeM K V Unit} {Q : Unit → View K V → Prop}
    (run : Runs (m >>= fun _ => pure ()) v Q) : Runs m v Q := by
  rwa [bind_pure_unit] at run

end OneBase.BPlusTree
