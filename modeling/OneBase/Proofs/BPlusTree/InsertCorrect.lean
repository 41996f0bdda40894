import OneBase.Proofs.BPlusTree.Insert
import OneBase.Proofs.BPlusTree.WellFormed

/-! # `Insert` is correct

On a well-formed tree `Insert` returns, answers whether the key was new, adds exactly the new pair,
and leaves a well-formed tree behind, however far the splits go up.
-/

namespace OneBase.BPlusTree

open BPlusTreePage PageStore ListEdits

variable {K V : Type} [LinearOrder K] [Inhabited K] [Inhabited V] {tree after : BPlusTree K V}

/-- The tree holds `key` under some value. -/
def Holds (tree : BPlusTree K V) (key : K) : Prop :=
  tree.rootPageId ≠ invalidPageId ∧ ∃ value, StoredBelow tree.data tree.rootPageId key value

omit [Inhabited K] [Inhabited V] in
theorem WellFormedAt.holds_iff {height : ℕ} (wellFormed : tree.WellFormedAt height) (key : K) :
    tree.Holds key ↔ KeyBelow tree.data height tree.rootPageId key := by
  rw [Holds, and_iff_right wellFormed.rootPageId_ne]
  exact exists_congr fun value => storedBelow_iff wellFormed.uniform

omit [Inhabited K] [Inhabited V] in
/-- What an insertion leaves is well formed. -/
theorem InsertOutcome.wellFormedAt {entry : K × V} {height height' : ℕ}
    (leafSize : 2 ≤ tree.leafMaxSize) (internalSize : 3 ≤ tree.internalMaxSize) (next : 0 ≤ tree.nextPageId)
    (wellFormed : tree.WellFormedAt height)
    (outcome : InsertOutcome tree.leafMaxSize tree.internalMaxSize entry tree.view height after.view height') :
    after.WellFormedAt height' := by
  have leafMax : after.leafMaxSize = tree.leafMaxSize := outcome.leafMaxSize
  have internalMax : after.internalMaxSize = tree.internalMaxSize := outcome.internalMaxSize
  refine wellFormedAt_of_rooted (leafMax ▸ leafSize) (internalMax ▸ internalSize) ?_ outcome.separated
    outcome.parented ?_
  · rw [leafMax, internalMax]
    exact outcome.rooted
  · intro q inside
    rcases outcome.pages q inside with old | ⟨low, high⟩
    · obtain ⟨low, high⟩ := wellFormed.allocated q old
      exact ⟨low, high.trans_le outcome.nextPageId⟩
    · exact ⟨next.trans low, high⟩

omit [Inhabited K] [Inhabited V] in
/-- Well-formedness does not depend on pins and call counts. -/
theorem WellFormed.of_view (wellFormed : tree.WellFormed) (same : after.view = tree.view) : after.WellFormed := by
  obtain ⟨data, pins, next, grants, calls, deleted, root, leafMax, internalMax⟩ := after
  obtain ⟨rfl, rfl, rfl, rfl, rfl, rfl⟩ := View.mk.inj same
  refine ⟨wellFormed.nextPageId, fun valid => ?_⟩
  obtain ⟨height, sound⟩ := wellFormed.rooted valid
  exact ⟨height, { sound with }⟩

omit [LinearOrder K] [Inhabited K] [Inhabited V] in
/-- What searches answer once one new pair is stored. -/
theorem answers_insert {old new : K → Option V → Prop} {key : K} {value : V} {stored stored' : List (K × V)}
    (before : ∀ k answer, old k answer ↔ ∀ v, answer = some v ↔ (k, v) ∈ stored)
    (answers : ∀ k answer, new k answer ↔ ∀ v, answer = some v ↔ (k, v) ∈ stored')
    (members : ∀ e, e ∈ stored' ↔ e ∈ stored ∨ e ∈ [(key, value)]) (absent : ∀ v, (key, v) ∉ stored) :
    (∀ answer, new key answer ↔ answer = some value) ∧
      ∀ other ≠ key, ∀ answer, new other answer ↔ old other answer := by
  constructor
  · intro answer
    rw [answers]
    simp only [members, absent, List.mem_singleton, Prod.mk.injEq, true_and, false_or]
    refine ⟨fun all => (all value).mpr rfl, ?_⟩
    rintro rfl v
    exact Option.some_inj.trans eq_comm
  · intro other different answer
    rw [answers, before]
    simp [members, different]

/-- `Insert(key, value)` returns `true` exactly when the key was absent; then `GetValue(key)` gives the
value and every other key reads as before. A present key changes nothing. The tree stays well formed. -/
theorem insert_correct (leafSize : 2 ≤ tree.leafMaxSize) (internalSize : 3 ≤ tree.internalMaxSize)
    (wellFormed : tree.WellFormed) (granted : tree.Granted) (key : K) (value : V) :
    ∃ enough, ∀ rounds ≥ enough, ∃ result after, insert rounds key value tree = some (result, after) ∧
      (result = true ↔ ¬ tree.Holds key) ∧
      (¬ tree.Holds key → (∀ answer, after.Returns key answer ↔ answer = some value) ∧
        ∀ other ≠ key, ∀ answer, after.Returns other answer ↔ tree.Returns other answer) ∧
      (tree.Holds key → after.view = tree.view) ∧ after.WellFormed := by
  by_cases empty : tree.rootPageId = invalidPageId
  · have absent : ¬ tree.Holds key := fun held => held.1 empty
    refine ⟨0, fun rounds _ => ?_⟩
    obtain ⟨result, after, ran, granted', done, rooted, stored, root, next, leafMax, internalMax⟩ :=
      runs_insert_empty (v := tree.view) (key, value) rounds tree.internalMaxSize leafSize rfl empty tree granted rfl
    change after.leafMaxSize = tree.leafMaxSize at leafMax
    change after.internalMaxSize = tree.internalMaxSize at internalMax
    change after.rootPageId = tree.nextPageId at root
    change after.nextPageId = tree.nextPageId + 1 at next
    have first : 0 ≤ after.nextPageId ∧ tree.nextPageId < after.nextPageId := by
      rw [next]
      exact ⟨wellFormed.nextPageId.trans (Int.lt_succ _).le, Int.lt_succ _⟩
    rw [← leafMax] at leafSize rooted
    rw [← internalMax] at internalSize rooted
    have wellFormed' : after.WellFormedAt 0 := by
      refine wellFormedAt_of_rooted leafSize internalSize rooted trivial trivial ?_
      intro q inside
      obtain rfl := List.mem_singleton.mp inside
      rw [root]
      exact ⟨wellFormed.nextPageId, first.2⟩
    have before (k : K) (answer : Option V) : tree.Returns k answer ↔ ∀ v, answer = some v ↔ (k, v) ∈ [] := by
      rw [returns_empty_iff empty]
      simp [Option.eq_none_iff_forall_ne_some]
    refine ⟨result, after, ran, iff_of_true done absent, fun _ => ?_, fun held => absurd held absent,
      ⟨first.1, fun _ => ⟨0, wellFormed'⟩⟩⟩
    exact answers_insert before (wellFormed'.returns_iff leafSize internalSize granted') (by simp [← stored])
      (by simp)
  · obtain ⟨height, wellFormedAt⟩ := wellFormed.rooted empty
    obtain ⟨rooted, sub⟩ := wellFormedAt.rooted
    refine ⟨height + 1, fun rounds enough => ?_⟩
    obtain ⟨result, after, ran, granted', outcome⟩ := runs_insert (v := tree.view) (key, value) rounds leafSize
      internalSize rfl rfl rooted sub (fun q inside => (wellFormedAt.allocated q inside).2) (by omega) tree granted rfl
    refine ⟨result, after, ran, ?_⟩
    rw [wellFormedAt.holds_iff]
    rcases outcome with ⟨done, same, held⟩ | ⟨done, absent, height', outcome⟩
    · exact ⟨iff_of_false (by simp [done]) (not_not_intro held), fun absent => absurd held absent, fun _ => same,
        wellFormed.of_view same⟩
    · have wellFormed' := outcome.wellFormedAt leafSize internalSize wellFormed.nextPageId wellFormedAt
      have leafMax : after.leafMaxSize = tree.leafMaxSize := outcome.leafMaxSize
      have internalMax : after.internalMaxSize = tree.internalMaxSize := outcome.internalMaxSize
      refine ⟨iff_of_true done absent, fun _ => ?_, fun held => absurd held absent,
        ⟨wellFormed.nextPageId.trans outcome.nextPageId, fun _ => ⟨height', wellFormed'⟩⟩⟩
      exact answers_insert (wellFormedAt.returns_iff leafSize internalSize granted)
        (wellFormed'.returns_iff (leafMax ▸ leafSize) (internalMax ▸ internalSize) granted')
        outcome.stored.mem_insert (fun v held => absent ⟨v, held⟩)

/-- The leaf of 1 is full and so are the pages above it, so inserting 2 grows a new root. -/
def fullTree : BPlusTree ℕ ℕ := sampleTree
  [sampleInternal (-1) [(0, 1), (5, 2), (7, 3)], sampleLeaf 0 2 [(1, 10), (3, 30)], sampleLeaf 0 3 [(5, 50)],
    sampleLeaf 0 (-1) [(7, 70)]]

theorem fullTree_wellFormed : fullTree.WellFormed :=
  ⟨by decide, fun _ => ⟨1, wellFormedAt_of_rooted (by decide) (by decide)
    ⟨by decide, by decide, by decide, by decide, by decide, by unfold LeafChain; decide⟩ (by decide) (by decide)
    (by decide)⟩⟩

end OneBase.BPlusTree
