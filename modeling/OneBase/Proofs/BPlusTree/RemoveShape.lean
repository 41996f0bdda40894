import OneBase.Proofs.BPlusTree.RemoveCorrect

/-! # The shape `Remove` leaves

Neither of the two slips on the way up touches the proportions of the tree. Whatever the key, all
leaves stay at one depth and chained in order, every page but the root keeps between its minimum
and its maximum, the root goes when the last key goes, and the pages handed to `DeletePage` are out
of reach.
-/

namespace OneBase

open BPlusTreePage Separators PageStore ListEdits

variable {K V : Type} [LinearOrder K]

namespace BPlusTree

variable {tree : BPlusTree K V} {height : ℕ}

variable [Inhabited K] [Inhabited V]

omit [Inhabited K] [Inhabited V] in
/-- The root goes exactly when no other key was stored. -/
theorem RemoveOutcome.rootPageId_iff (leafSize : 2 ≤ tree.leafMaxSize) (internalSize : 3 ≤ tree.internalMaxSize)
    (wellFormed : tree.WellFormedAt height) (granted : tree.Granted) {key : K} {v : View K V}
    (outcome : RemoveOutcome tree.leafMaxSize tree.internalMaxSize key tree.data height tree.rootPageId v) :
    v.rootPageId = invalidPageId ↔ ∀ other ≠ key, tree.Returns other none := by
  obtain ⟨rooted, sub⟩ := wellFormed.rooted
  have answers := wellFormed.returns_iff leafSize internalSize granted
  have members {rest : List (K × V)}
      (edit : Edits (removedEntry tree.data key height tree.rootPageId) []
        (contents tree.data height tree.rootPageId) rest) :=
    mem_removed leafSize internalSize rooted sub.separated edit
  rcases outcome with ⟨gone, edit, -, -⟩ | ⟨height', rooted', pages, edit, -, -⟩
  · refine iff_of_true gone fun other different => (answers other none).mpr fun value => ?_
    refine iff_of_false (by simp) fun stored => ?_
    have kept := (members edit (other, value)).mpr ⟨stored, different⟩
    simp at kept
  · apply iff_of_false
    · exact sub.valid _ (pages _ (mem_pagesOf_self _ _ _))
    · intro none
      obtain ⟨other, value, kept⟩ := rooted'.shaped.inhabited leafSize internalSize rooted'.positive
      obtain ⟨stored, different⟩ := (members edit (other, value)).mp kept
      have answer := ((answers other Option.none).mp (none other different) value).mpr stored
      simp at answer

/-- After `Remove(key)` the root page id is invalid exactly when no other key was stored; otherwise
the tree has the proportions of a B+ tree, and no page passed to `DeletePage` is among those its
root reaches or its leaf chain visits. -/
theorem remove_shape (leafSize : 2 ≤ tree.leafMaxSize) (internalSize : 3 ≤ tree.internalMaxSize)
    (wellFormed : tree.WellFormed) (granted : tree.Granted) (key : K) :
    ∃ enough, ∀ rounds ≥ enough, ∃ after dropped, remove rounds key tree = some ((), after) ∧
      after.deleted = dropped ++ tree.deleted ∧
      (after.rootPageId = invalidPageId ↔ ∀ other ≠ key, tree.Returns other none) ∧
      (after.rootPageId ≠ invalidPageId → ∃ height, after.Proportioned height ∧
        ∀ q ∈ dropped, ¬ Reaches after.data after.rootPageId q ∧
          q ∉ leavesOf after.data height after.rootPageId) := by
  by_cases empty : tree.rootPageId = invalidPageId
  · refine ⟨0, fun rounds _ =>
      ⟨tree, [], remove_empty empty rounds key, rfl, ?_, fun valid => absurd empty valid⟩⟩
    exact iff_of_true empty fun other _ => (returns_empty_iff empty other none).mpr rfl
  obtain ⟨height, wellFormedAt⟩ := wellFormed.rooted empty
  refine ⟨height + 1, fun rounds enough => ?_⟩
  obtain ⟨after, ran, -, ⟨-, leafMax, internalMax⟩, ⟨dropped, deleted, unreachable⟩, outcome⟩ :=
    wellFormedAt.remove_outcome leafSize internalSize granted key rounds (by omega)
  refine ⟨after, dropped, ran, deleted, outcome.rootPageId_iff leafSize internalSize wellFormedAt granted,
    fun valid => ?_⟩
  rcases outcome with ⟨gone, -⟩ | ⟨height', rooted', -⟩
  · exact absurd gone valid
  · simp only [view_leafMaxSize, view_internalMaxSize] at leafMax internalMax
    rw [← leafMax, ← internalMax] at rooted'
    have proportioned := proportioned_of_rooted (leafMax ▸ leafSize) (internalMax ▸ internalSize) rooted'
    refine ⟨height', proportioned, fun q inDropped => ?_⟩
    have apart : ¬ Reaches after.data after.rootPageId q := unreachable valid q inDropped
    refine ⟨apart, fun inChain => apart ?_⟩
    exact (reaches_iff_mem_pagesOf proportioned.uniform).mpr (leavesOf_subset_pagesOf _ _ _ inChain)

theorem remove_shape_evenTree :
    evenTree.WellFormed ∧ evenTree.Granted ∧
      ∃ enough, ∀ rounds ≥ enough, ∃ after dropped, remove rounds 4 evenTree = some ((), after) ∧
        after.deleted = dropped ++ evenTree.deleted ∧
        (after.rootPageId = invalidPageId ↔ ∀ other ≠ 4, evenTree.Returns other none) ∧
        (after.rootPageId ≠ invalidPageId → ∃ height, after.Proportioned height ∧
          ∀ q ∈ dropped, ¬ Reaches after.data after.rootPageId q ∧
            q ∉ leavesOf after.data height after.rootPageId) :=
  ⟨evenTree_wellFormed, fun _ => rfl,
    remove_shape (by decide) (by decide) evenTree_wellFormed (fun _ => rfl) 4⟩

end BPlusTree

end OneBase
