import OneBase.Proofs.BPlusTree.Insert
import OneBase.Proofs.BPlusTree.Steps

/-! # Running tree code while pages are short

The rules for code whose `NewPage` and `FetchPage` calls may be refused: the observation also holds
which calls are granted and how many were made. Only pins stay hidden.
-/

namespace OneBase.BPlusTree

open BPlusTreePage PageStore ObservedRuns

variable {K V : Type}

/-- What tree code can see of the state, pins aside. -/
structure Supply (K V : Type) where
  view : View K V
  grants : ℕ → Bool
  calls : ℕ

def supply (tree : BPlusTree K V) : Supply K V := ⟨tree.view, tree.grants, tree.calls⟩

namespace Supply

variable (s : Supply K V)

/-- Other pages. -/
def store (d : PageStore K V) : Supply K V := { s with view := { s.view with data := d } }

/-- Some more calls. -/
def passed (count : ℕ) : Supply K V := { s with calls := s.calls + count }

/-- The next page id is in use. -/
def allocated : Supply K V := { s with view := { s.view with nextPageId := s.view.nextPageId + 1 } }

@[simp] theorem store_data (d : PageStore K V) : (s.store d).view.data = d := rfl

@[simp] theorem store_grants (d : PageStore K V) : (s.store d).grants = s.grants := rfl

@[simp] theorem store_calls (d : PageStore K V) : (s.store d).calls = s.calls := rfl

@[simp] theorem store_nextPageId (d : PageStore K V) : (s.store d).view.nextPageId = s.view.nextPageId := rfl

@[simp] theorem passed_grants (count : ℕ) : (s.passed count).grants = s.grants := rfl

@[simp] theorem passed_calls (count : ℕ) : (s.passed count).calls = s.calls + count := rfl

@[simp] theorem store_store (d d' : PageStore K V) : (s.store d).store d' = s.store d' := rfl

@[simp] theorem store_passed (d : PageStore K V) (count : ℕ) :
    (s.store d).passed count = (s.passed count).store d := rfl

@[simp] theorem passed_view (count : ℕ) : (s.passed count).view = s.view := rfl

@[simp] theorem passed_passed (a b : ℕ) : (s.passed a).passed b = s.passed (a + b) := by
  rw [passed, passed, passed, Nat.add_assoc]

@[simp] theorem allocated_passed (count : ℕ) : s.allocated.passed count = (s.passed count).allocated := rfl

@[simp] theorem store_allocated (d : PageStore K V) : (s.store d).allocated = s.allocated.store d := rfl

end Supply

/-- Runs that may be refused pages. -/
abbrev ShortRuns {α : Type} (m : TreeM K V α) (s : Supply K V) (Q : α → Supply K V → Prop) : Prop :=
  RunsTo (fun _ => True) supply m s Q

variable {β : Type} {s : Supply K V} {R : β → Supply K V → Prop}

/-- The head of a block whose outcome is known. -/
theorem short_of_step {α : Type} {m : TreeM K V α} {f : α → TreeM K V β}
    (step : ∀ tree, supply tree = s → ∃ a tree', m tree = some (a, tree') ∧ ShortRuns (f a) (supply tree') R) :
    ShortRuns (m >>= f) s R := by
  intro tree _ seen
  obtain ⟨a, tree', run, rest⟩ := step tree seen
  have bound : (m >>= f) tree = f a tree' := by
    change (m tree).bind (fun result => f result.1 result.2) = _
    rw [run]
    rfl
  rw [bound]
  exact rest tree' trivial rfl

theorem short_page {pageId : PageId} {f : BPlusTreePage K V → TreeM K V β}
    (rest : ShortRuns (f (s.view.data pageId)) s R) : ShortRuns (page pageId >>= f) s R := by
  rintro tree - rfl
  exact rest tree trivial rfl

theorem short_writePage {pageId : PageId} {contents : BPlusTreePage K V} {f : Unit → TreeM K V β}
    (rest : ShortRuns (f ()) (s.store (Function.update s.view.data pageId contents)) R) :
    ShortRuns (writePage pageId contents >>= f) s R := by
  rintro tree - rfl
  exact rest { tree with data := Function.update tree.data pageId contents } trivial rfl

theorem short_unpinPage {pageId : PageId} {isDirty : Bool} {f : Unit → TreeM K V β} (rest : ShortRuns (f ()) s R) :
    ShortRuns (unpinPage pageId isDirty >>= f) s R := by
  rintro tree - rfl
  exact rest { tree with pinCount := Function.update tree.pinCount pageId (tree.pinCount pageId - 1) } trivial rfl

theorem short_modify_root {pageId : PageId} {f : PUnit → TreeM K V β}
    (rest : ShortRuns (f ⟨⟩) { s with view := { s.view with rootPageId := pageId } } R) :
    ShortRuns (modify (fun tree => { tree with rootPageId := pageId }) >>= f) s R := by
  rintro tree - rfl
  exact rest { tree with rootPageId := pageId } trivial rfl

theorem short_get {f : BPlusTree K V → TreeM K V β} (rest : ∀ tree, supply tree = s → ShortRuns (f tree) s R) :
    ShortRuns (get >>= f) s R := by
  rintro tree - rfl
  exact rest tree rfl tree trivial rfl

/-- `FetchPage` answers whether the call is granted. -/
theorem short_fetchPage {pageId : PageId} {f : Bool → TreeM K V β}
    (rest : ShortRuns (f (s.grants s.calls)) (s.passed 1) R) : ShortRuns (fetchPage pageId >>= f) s R := by
  apply short_of_step
  rintro tree rfl
  change ShortRuns (f (tree.grants tree.calls)) _ R at rest
  rw [run_fetchPage]
  cases answer : tree.grants tree.calls with
  | true =>
    rw [answer] at rest
    exact ⟨true, _, rfl, rest⟩
  | false =>
    rw [answer] at rest
    exact ⟨false, _, rfl, rest⟩

/-- `NewPage` gives the next page id, or nothing. -/
theorem short_newPage [Inhabited K] [Inhabited V] {f : Option PageId → TreeM K V β}
    (refused : s.grants s.calls = false → ShortRuns (f none) (s.passed 1) R)
    (granted : s.grants s.calls = true → ShortRuns (f (some s.view.nextPageId))
      ((s.passed 1).allocated.store
        (Function.update s.view.data s.view.nextPageId (erased (s.view.data s.view.nextPageId)))) R) :
    ShortRuns (newPage >>= f) s R := by
  apply short_of_step
  rintro tree rfl
  rw [run_newPage]
  cases answer : tree.grants tree.calls with
  | true => exact ⟨some tree.nextPageId, _, rfl, granted answer⟩
  | false => exact ⟨none, _, rfl, refused answer⟩

/-- A re-parenting loop skips the children it cannot fetch. -/
theorem short_reparent {holder parent : PageId} {start count : ℕ} {f : Unit → TreeM K V β}
    (rest : ∀ ids ⊆ (List.range' start count).map (InternalPage.valueAt (s.view.data holder)),
      ShortRuns (f ()) ((s.passed count).store (adopt ids parent s.view.data)) R) :
    ShortRuns (reparent holder parent start count >>= f) s R := by
  induction count generalizing start s with
  | zero =>
    have unchanged := rest [] (List.nil_subset _)
    rw [adopt_nil] at unchanged
    exact unchanged
  | succ count ih =>
    rw [List.range'_succ, List.map_cons] at rest
    rw [reparent]
    simp only [bind_assoc]
    apply short_page
    apply short_fetchPage
    cases answer : s.grants s.calls with
    | true =>
      simp only [↓reduceIte, bind_assoc]
      apply short_page
      apply short_writePage
      apply short_unpinPage
      apply ih
      intro ids included
      have cells := valueAt_reparented s.view.data (InternalPage.valueAt (s.view.data holder) start) parent holder
      have adopted := rest (InternalPage.valueAt (s.view.data holder) start :: ids)
        (List.cons_subset_cons _ (by simpa [cells, Supply.store, Supply.passed] using included))
      rw [← adopt_cons] at adopted
      rw [Nat.add_comm] at adopted
      simpa using adopted
    | false =>
      simp only [Bool.false_eq_true, ↓reduceIte]
      apply ih
      intro ids included
      have adopted := rest ids (List.subset_cons_of_subset _ included)
      rw [Nat.add_comm] at adopted
      simpa using adopted

section Halves

variable [Inhabited K] [Inhabited V] {p : PageId} {f : Unit → TreeM K V β}

/-- `Split` up to the point where the new leaf is hung into the tree. -/
theorem short_split {rounds : ℕ} (other : s.view.nextPageId ≠ p)
    (refused : s.grants s.calls = false → ShortRuns (f ()) (s.passed 1) R)
    (granted : s.grants s.calls = true → ∀ kept moved,
      LeafPage.moveHalfTo (s.view.data p) (LeafPage.init (erased (s.view.data s.view.nextPageId)) s.view.leafMaxSize) =
        (kept, moved) →
      ShortRuns (hang (insertIntoParent rounds) s.view.internalMaxSize p (LeafPage.keyAt moved 0)
          s.view.nextPageId >>= f)
        ((s.passed 1).allocated.store (Function.update (Function.update s.view.data p
          (kept.setNextPageId s.view.nextPageId)) s.view.nextPageId (moved.setNextPageId kept.nextPageId))) R) :
    ShortRuns (split rounds p >>= f) s R := by
  rw [split_eq_hang, bind_assoc]
  apply short_newPage
  · intro answer
    exact short_unpinPage (refused answer)
  · intro answer
    simp only [bind_assoc]
    apply short_get
    intro tree seen
    have leafMax : tree.leafMaxSize = s.view.leafMaxSize := congrArg (fun s => s.view.leafMaxSize) seen
    have internalMax : tree.internalMaxSize = s.view.internalMaxSize := congrArg (fun s => s.view.internalMaxSize) seen
    rw [leafMax, internalMax]
    apply short_page
    apply short_writePage
    apply short_page
    apply short_page
    apply short_writePage
    apply short_writePage
    simp only [Supply.store_data, Supply.store_store, Function.update_self, Function.update_of_ne other.symm,
      Function.update_idem]
    rw [Function.update_comm other]
    exact granted answer _ _ rfl

/-- `SplitInternal` up to the point where the new page is hung into the tree. -/
theorem short_splitInternal {next : PageId → PageId → K → PageId → TreeM K V Unit}
    (other : s.view.nextPageId ≠ p)
    (refused : s.grants s.calls = false → ShortRuns (f ()) (s.passed 1) R)
    (granted : s.grants s.calls = true → ∀ kept moved,
      InternalPage.moveHalfTo (s.view.data p)
      (InternalPage.init (erased (s.view.data s.view.nextPageId)) s.view.internalMaxSize)
        (InternalPage.keyAt (s.view.data p) ((s.view.data p).size / 2)) = (kept, moved) →
      ∀ ids ⊆ moved.children,
      ShortRuns (hang next s.view.internalMaxSize p (InternalPage.keyAt (s.view.data p) ((s.view.data p).size / 2))
          s.view.nextPageId >>= f)
        ((s.passed (1 + moved.size)).allocated.store (adopt ids s.view.nextPageId
          (Function.update (Function.update s.view.data p kept) s.view.nextPageId moved))) R) :
    ShortRuns (splitInternal next p >>= f) s R := by
  rw [splitInternal_eq_hang, bind_assoc]
  apply short_newPage
  · intro answer
    exact short_unpinPage (refused answer)
  · intro answer
    simp only [bind_assoc]
    apply short_get
    intro tree seen
    have internalMax : tree.internalMaxSize = s.view.internalMaxSize := congrArg (fun s => s.view.internalMaxSize) seen
    rw [internalMax]
    apply short_page
    apply short_writePage
    apply short_page
    apply short_page
    apply short_writePage
    apply short_writePage
    apply short_reparent
    intro ids included
    simp only [Supply.store_data, Supply.store_store, Function.update_self, Function.update_of_ne other.symm,
      Function.update_idem] at included ⊢
    rw [map_valueAt] at included
    rw [Function.update_comm other, Function.update_idem]
    simp only [Supply.store_passed, Supply.allocated_passed, Supply.passed_passed, Supply.store_store]
    exact granted answer _ _ rfl ids included

end Halves

end OneBase.BPlusTree
