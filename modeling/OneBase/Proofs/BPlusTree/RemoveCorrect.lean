import OneBase.Proofs.BPlusTree.Remove
import OneBase.Proofs.BPlusTree.WellFormed

/-! # When `Remove` is correct

`Remove` always returns and always takes the right entry out of the right leaf. Two slips on the
way up decide the rest. A left borrow between internal pages writes the borrowing page's first key,
which is stale, into the parent; and a merge of internal pages bounds the loop that fixes parent
pointers by the size of the page it has just emptied. Both are met exactly when the tree before the
call says so.
-/

namespace OneBase

open BPlusTreePage Separators PageStore ListEdits

variable {K V : Type} [LinearOrder K]

namespace BPlusTree

/-- Removing `key` borrows to the right between two internal pages under a first key that does not
separate the moved child from its left neighbours. -/
def BorrowsUnderStaleKey (tree : BPlusTree K V) (key : K) : Prop :=
  ∃ height, tree.WellFormedAt height ∧ BorrowsStale tree.data key height tree.rootPageId

/-- Removing `key` merges two internal pages. -/
def MergesInternalPages (tree : BPlusTree K V) (key : K) : Prop :=
  ∃ height, tree.WellFormedAt height ∧ MergesInternal tree.data key height tree.rootPageId

variable {tree : BPlusTree K V}

/-- The entries after taking out what the search for `key` finds. -/
theorem mem_removed {leafMax internalMax : ℕ} (leafSize : 2 ≤ leafMax) (internalSize : 3 ≤ internalMax)
    {d : PageStore K V} {height : ℕ} {root : PageId} (rooted : Rooted leafMax internalMax d height root)
    (separated : Separated d height root) {key : K} {rest : List (K × V)}
    (edit : Edits (removedEntry d key height root) [] (contents d height root) rest) (e : K × V) :
    e ∈ rest ↔ e ∈ contents d height root ∧ e.1 ≠ key := by
  have found (value : V) := (mem_contents_iff_route leafSize internalSize rooted.shaped separated rooted.positive
    key value).trans (LeafPage.lookup_eq_some_iff key value
      (route_leaf leafSize internalSize rooted.shaped rooted.positive key).2.2.2).symm
  rw [removedEntry] at edit
  split at edit
  · exact edit.mem_erase (contents_sorted leafSize internalSize rooted.shaped separated) e
  · next missing =>
    rw [edits_nil_iff.mp edit]
    refine ⟨fun member => ⟨member, ?_⟩, And.left⟩
    rintro rfl
    have := (found e.2).mp member
    rw [missing] at this
    cases this

section Runs

variable [Inhabited K] [Inhabited V]

/-- `Remove` on a well-formed tree returns with the outcome foretold. -/
theorem WellFormedAt.remove_outcome (leafSize : 2 ≤ tree.leafMaxSize) (internalSize : 3 ≤ tree.internalMaxSize)
    {height : ℕ} (wellFormed : tree.WellFormedAt height) (granted : tree.Granted) (key : K) (rounds : ℕ)
    (enough : height < rounds) :
    ∃ after, remove rounds key tree = some ((), after) ∧ after.Granted ∧ SameObject tree.view after.view ∧
      DropsUnreachable tree.view after.view ∧
      RemoveOutcome tree.leafMaxSize tree.internalMaxSize key tree.data height tree.rootPageId after.view := by
  obtain ⟨rooted, sub⟩ := wellFormed.rooted
  have run : Runs (remove rounds key) tree.view _ := runs_remove leafSize internalSize rooted sub enough
  obtain ⟨_, after, ran, granted', same, drops, outcome⟩ := run tree granted rfl
  exact ⟨after, ran, granted', same, drops, outcome⟩

/-- `Remove` on an empty tree does nothing. -/
theorem remove_empty (empty : tree.rootPageId = invalidPageId) (rounds : ℕ) (key : K) :
    remove rounds key tree = some ((), tree) := by
  change (if tree.isEmpty then _ else _ : TreeM K V Unit) tree = _
  rw [if_pos (by simpa [isEmpty] using empty)]
  rfl

/-- After `Remove(key)` the key is gone, every other key reads as before, and the separators bound
their subtrees, exactly when no internal page borrows under a stale first key. -/
theorem remove_contents_iff (leafSize : 2 ≤ tree.leafMaxSize) (internalSize : 3 ≤ tree.internalMaxSize)
    (wellFormed : tree.WellFormed) (granted : tree.Granted) (key : K) :
    ∃ enough, ∀ rounds ≥ enough, ∃ after, remove rounds key tree = some ((), after) ∧
      ((after.Returns key none ∧
          (∀ other ≠ key, ∀ result, after.Returns other result ↔ tree.Returns other result) ∧
          (after.rootPageId ≠ invalidPageId → SeparatorsBound after.data after.rootPageId)) ↔
        ¬ tree.BorrowsUnderStaleKey key) := by
  by_cases empty : tree.rootPageId = invalidPageId
  · refine ⟨0, fun rounds _ => ⟨tree, remove_empty empty rounds key, ?_⟩⟩
    refine iff_of_true ⟨(returns_empty_iff empty key none).mpr rfl, fun _ _ _ => Iff.rfl,
      fun rooted => absurd empty rooted⟩ ?_
    rintro ⟨height, wellFormedAt, -⟩
    exact wellFormedAt.rootPageId_ne empty
  obtain ⟨height, wellFormedAt⟩ := wellFormed.rooted empty
  obtain ⟨rooted, sub⟩ := wellFormedAt.rooted
  have before := wellFormedAt.returns_iff leafSize internalSize granted
  have stale : tree.BorrowsUnderStaleKey key ↔ BorrowsStale tree.data key height tree.rootPageId := by
    refine ⟨?_, fun borrows => ⟨height, wellFormedAt, borrows⟩⟩
    rintro ⟨other, wellFormedOther, borrows⟩
    rwa [wellFormedAt.height_unique leafSize internalSize wellFormedOther]
  refine ⟨height + 1, fun rounds enough => ?_⟩
  obtain ⟨after, ran, granted', -, -, outcome⟩ :=
    wellFormedAt.remove_outcome leafSize internalSize granted key rounds (by omega)
  refine ⟨after, ran, ?_⟩
  rw [stale]
  rcases outcome with ⟨gone, edit, fine, -⟩ | ⟨height', rooted', pages, edit, separated, -⟩
  · -- the last key was removed
    have members := mem_removed leafSize internalSize rooted sub.separated edit
    refine iff_of_true ⟨(returns_empty_iff gone key none).mpr rfl, fun other different result => ?_,
      fun valid => absurd gone valid⟩ fine
    rw [returns_empty_iff gone, before]
    constructor
    · rintro rfl value
      refine iff_of_false (by simp) fun stored => ?_
      have := (members (other, value)).mpr ⟨stored, different⟩
      simp at this
    · intro answer
      refine Option.eq_none_iff_forall_ne_some.mpr fun value found => ?_
      have := (members (other, value)).mpr ⟨(answer value).mp found, different⟩
      simp at this
  · have uniform := rooted'.shaped.uniform
    have valid : after.rootPageId ≠ invalidPageId := sub.valid _ (pages _ (mem_pagesOf_self _ _ _))
    constructor
    · rintro ⟨-, -, bound⟩
      exact separated.mp ((separatorsBound_iff uniform).mp (bound valid))
    · intro fine
      have members := mem_removed leafSize internalSize rooted sub.separated edit
      have answers := returns_iff leafSize internalSize granted' valid rooted'.shaped (separated.mpr fine)
        rooted'.positive
      refine ⟨?_, fun other different result => ?_, fun _ => (separatorsBound_iff uniform).mpr (separated.mpr fine)⟩
      · rw [answers]
        exact fun value => iff_of_false (by simp) fun stored => ((members _).mp stored).2 rfl
      · rw [answers, before]
        refine forall_congr' fun value => iff_congr Iff.rfl ?_
        exact (members (other, value)).trans (and_iff_left different)

end Runs

section Samples

theorem remove_contents_unevenTree :
    unevenTree.WellFormed ∧ unevenTree.Granted ∧
      ∃ enough, ∀ rounds ≥ enough, ∃ after, remove rounds 3 unevenTree = some ((), after) ∧
        ((after.Returns 3 none ∧
            (∀ other ≠ 3, ∀ result, after.Returns other result ↔ unevenTree.Returns other result) ∧
            (after.rootPageId ≠ invalidPageId → SeparatorsBound after.data after.rootPageId)) ↔
          ¬ unevenTree.BorrowsUnderStaleKey 3) :=
  ⟨unevenTree_wellFormed, fun _ => rfl,
    remove_contents_iff (by decide) (by decide) unevenTree_wellFormed (fun _ => rfl) 3⟩

/-- Removing 5 makes the right internal page borrow the leaf of 3 under its first key 0, so the root
sends every key to the right and 1 is no longer found. -/
theorem remove_loses_key :
    2 ≤ unevenTree.leafMaxSize ∧ 3 ≤ unevenTree.internalMaxSize ∧ unevenTree.WellFormed ∧
    unevenTree.Granted ∧
      ∃ after, remove 3 5 unevenTree = some ((), after) ∧
        unevenTree.Returns 1 (some 10) ∧ ¬ after.Returns 1 (some 10) := by
  have granted : unevenTree.Granted := fun _ => rfl
  obtain ⟨after, ran, granted', -⟩ :=
    unevenTree_wellFormedAt.remove_outcome (by decide) (by decide) granted 5 3 (by decide)
  refine ⟨by decide, by decide, unevenTree_wellFormed, granted, after, ran, ?_, ?_⟩
  · rw [unevenTree_wellFormedAt.returns_iff (by decide) (by decide) granted]
    intro value
    have stored : contents unevenTree.data 2 unevenTree.rootPageId =
        [(1, 10), (2, 20), (3, 30), (4, 40), (5, 50)] := by decide
    simp [stored, eq_comm]
  · have facts : ((remove 3 5 unevenTree).map fun run =>
        (decide (Shaped 2 3 run.2.data 2 run.2.rootPageId), run.2.rootPageId, (run.2.data run.2.rootPageId).size,
          LeafPage.lookup (run.2.data (route run.2.data 1 2 run.2.rootPageId)) 1)) =
        some (true, 0, 2, none) := by decide +kernel
    simp only [ran, Option.map_some, Option.some.injEq, Prod.mk.injEq, decide_eq_true_eq] at facts
    obtain ⟨shaped, root, size, missing⟩ := facts
    rw [returns_iff_lookup (by decide) (by decide) granted' (by rw [root]; decide) shaped (by omega), missing]
    simp

end Samples

section Parents

variable [Inhabited K] [Inhabited V]

/-- After `Remove(key)` every page names its parent, exactly when no internal pages merge. -/
theorem remove_parents_iff (leafSize : 2 ≤ tree.leafMaxSize) (internalSize : 3 ≤ tree.internalMaxSize)
    (wellFormed : tree.WellFormed) (granted : tree.Granted) (key : K) :
    ∃ enough, ∀ rounds ≥ enough, ∃ after, remove rounds key tree = some ((), after) ∧
      ((after.rootPageId ≠ invalidPageId → ParentsCorrect after.data after.rootPageId) ↔
        ¬ tree.MergesInternalPages key) := by
  by_cases empty : tree.rootPageId = invalidPageId
  · refine ⟨0, fun rounds _ => ⟨tree, remove_empty empty rounds key, ?_⟩⟩
    refine iff_of_true (fun rooted => absurd empty rooted) ?_
    rintro ⟨height, wellFormedAt, -⟩
    exact wellFormedAt.rootPageId_ne empty
  obtain ⟨height, wellFormedAt⟩ := wellFormed.rooted empty
  have sub := wellFormedAt.rooted.2
  have merges : tree.MergesInternalPages key ↔ MergesInternal tree.data key height tree.rootPageId := by
    refine ⟨?_, fun merge => ⟨height, wellFormedAt, merge⟩⟩
    rintro ⟨other, wellFormedOther, merge⟩
    rwa [wellFormedAt.height_unique leafSize internalSize wellFormedOther]
  refine ⟨height + 1, fun rounds enough => ?_⟩
  obtain ⟨after, ran, -, -, -, outcome⟩ :=
    wellFormedAt.remove_outcome leafSize internalSize granted key rounds (by omega)
  refine ⟨after, ran, ?_⟩
  rw [merges]
  rcases outcome with ⟨gone, -, -, fine⟩ | ⟨height', rooted', pages, -, -, parented⟩
  · exact iff_of_true (fun valid => absurd gone valid) fine
  · have valid : after.rootPageId ≠ invalidPageId := sub.valid _ (pages _ (mem_pagesOf_self _ _ _))
    rw [← parented, imp_iff_right valid]
    exact (parentsCorrect_iff rooted'.shaped.uniform).trans (and_iff_right rooted'.parent)

end Parents

section Samples

/-- Two leaves under each child of the root. -/
def evenTree : BPlusTree ℕ ℕ := sampleTree
  [sampleInternal (-1) [(0, 1), (3, 2)], sampleInternal 0 [(0, 3), (2, 4)], sampleInternal 0 [(0, 5), (4, 6)],
    sampleLeaf 1 4 [(1, 10)], sampleLeaf 1 5 [(2, 20)], sampleLeaf 2 6 [(3, 30)], sampleLeaf 2 (-1) [(4, 40)]]

theorem evenTree_wellFormedAt : evenTree.WellFormedAt 2 :=
  wellFormedAt_of_rooted (by decide) (by decide)
    ⟨by decide, by decide, by decide, by decide, by decide, by unfold LeafChain; decide⟩ (by decide) (by decide)
    (by decide)

theorem evenTree_wellFormed : evenTree.WellFormed := ⟨by decide, fun _ => ⟨2, evenTree_wellFormedAt⟩⟩

theorem remove_parents_evenTree :
    evenTree.WellFormed ∧ evenTree.Granted ∧
      ∃ enough, ∀ rounds ≥ enough, ∃ after, remove rounds 4 evenTree = some ((), after) ∧
        ((after.rootPageId ≠ invalidPageId → ParentsCorrect after.data after.rootPageId) ↔
          ¬ evenTree.MergesInternalPages 4) :=
  ⟨evenTree_wellFormed, fun _ => rfl,
    remove_parents_iff (by decide) (by decide) evenTree_wellFormed (fun _ => rfl) 4⟩

/-- Removing 4 merges both internal pages into page 1, which becomes the root; the leaf of 3 still
names the dropped page 2 as its parent. -/
theorem remove_leaves_stale_parent :
    2 ≤ evenTree.leafMaxSize ∧ 3 ≤ evenTree.internalMaxSize ∧ evenTree.WellFormed ∧ evenTree.Granted ∧
      ∃ after, remove 3 4 evenTree = some ((), after) ∧ after.rootPageId ≠ invalidPageId ∧
        ¬ ParentsCorrect after.data after.rootPageId := by
  have granted : evenTree.Granted := fun _ => rfl
  obtain ⟨after, ran, -⟩ :=
    evenTree_wellFormedAt.remove_outcome (by decide) (by decide) granted 4 3 (by decide)
  have facts : ((remove 3 4 evenTree).map fun run =>
      (run.2.rootPageId, (run.2.data 1).pageType, (run.2.data 1).children, (run.2.data 5).parentPageId)) =
      some (1, .internalPage, [3, 4, 5], 2) := by decide +kernel
  simp only [ran, Option.map_some, Option.some.injEq, Prod.mk.injEq] at facts
  obtain ⟨root, kind, children, parent⟩ := facts
  refine ⟨by decide, by decide, evenTree_wellFormed, granted, after, ran, by rw [root]; decide, fun parents => ?_⟩
  rw [root] at parents
  have named := parents.2 1 .refl kind 5 (by simp [children])
  rw [parent] at named
  exact absurd named (by decide)

end Samples

end BPlusTree

end OneBase
