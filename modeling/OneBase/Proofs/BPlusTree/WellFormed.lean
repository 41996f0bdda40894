import OneBase.Proofs.BPlusTree.Node

/-! # The invariant, page by page and by height

The tree invariant speaks of every page reachable from the root; the proofs work by recursion on
the height. Here the two readings are shown to be the same.
-/

namespace OneBase

open BPlusTreePage Separators PageStore

variable {K V : Type}

namespace PageStore

variable {d : PageStore K V} {height : ℕ} {p : PageId}

theorem Reaches.trans {q r : PageId} (first : Reaches d p q) (second : Reaches d q r) : Reaches d p r := by
  induction second with
  | refl => exact first
  | child _ internal link ih => exact .child ih internal link

private theorem pagesOf_closed {q c : PageId} (uniform : UniformDepth d height p) (inside : q ∈ pagesOf d height p)
    (internal : (d q).pageType = .internalPage) (link : c ∈ (d q).children) : c ∈ pagesOf d height p := by
  induction height generalizing p with
  | zero =>
    obtain rfl := List.mem_singleton.mp inside
    rw [UniformDepth] at uniform
    simp [uniform] at internal
  | succ height ih =>
    rcases List.mem_cons.mp inside with rfl | inside
    · exact List.mem_cons_of_mem _ (List.mem_flatMap.mpr ⟨c, link, mem_pagesOf_self d height c⟩)
    · obtain ⟨top, member, below⟩ := List.mem_flatMap.mp inside
      exact List.mem_cons_of_mem _ (List.mem_flatMap.mpr ⟨top, member, ih (uniform.2 top member) below⟩)

/-- The pages of a tree of uniform depth are the reachable ones. -/
theorem reaches_iff_mem_pagesOf (uniform : UniformDepth d height p) {q : PageId} :
    Reaches d p q ↔ q ∈ pagesOf d height p := by
  constructor
  · intro reached
    induction reached with
    | refl => exact mem_pagesOf_self d height p
    | child _ internal link ih => exact pagesOf_closed uniform ih internal link
  · intro inside
    induction height generalizing p with
    | zero =>
      obtain rfl := List.mem_singleton.mp inside
      exact .refl
    | succ height ih =>
      rcases List.mem_cons.mp inside with rfl | inside
      · exact .refl
      · obtain ⟨c, member, below⟩ := List.mem_flatMap.mp inside
        exact (Reaches.child .refl uniform.1 member).trans (ih (uniform.2 c member) below)

/-- What is stored below a page of a tree of uniform depth. -/
theorem storedBelow_iff (uniform : UniformDepth d height p) {key : K} {value : V} :
    StoredBelow d p key value ↔ (key, value) ∈ contents d height p := by
  simp only [StoredBelow, reaches_iff_mem_pagesOf uniform]
  induction height generalizing p with
  | zero =>
    rw [UniformDepth] at uniform
    simp [pagesOf, contents, uniform]
  | succ height ih =>
    simp only [contents, List.mem_flatMap]
    constructor
    · rintro ⟨leaf, inside, kind, stored⟩
      rcases List.mem_cons.mp inside with rfl | inside
      · simp [uniform.1] at kind
      · obtain ⟨c, member, below⟩ := List.mem_flatMap.mp inside
        exact ⟨c, member, (ih (uniform.2 c member)).mp ⟨leaf, below, kind, stored⟩⟩
    · rintro ⟨c, member, stored⟩
      obtain ⟨leaf, below, kind, stored⟩ := (ih (uniform.2 c member)).mpr stored
      exact ⟨leaf, List.mem_cons_of_mem _ (List.mem_flatMap.mpr ⟨c, member, below⟩), kind, stored⟩

/-- Quantifying over the internal pages of a subtree, level by level. -/
private theorem forall_internal_succ (internal : (d p).pageType = .internalPage) {P : PageId → Prop} :
    (∀ q ∈ pagesOf d (height + 1) p, (d q).pageType = .internalPage → P q) ↔
      P p ∧ ∀ c ∈ (d p).children, ∀ q ∈ pagesOf d height c, (d q).pageType = .internalPage → P q := by
  rw [pagesOf, List.forall_mem_cons]
  refine and_congr ⟨fun all => all internal, fun here _ => here⟩ ?_
  constructor
  · exact fun all c member q below => all q (List.mem_flatMap.mpr ⟨c, member, below⟩)
  · intro all q inside
    obtain ⟨c, member, below⟩ := List.mem_flatMap.mp inside
    exact all c member q below

/-- Parent pointers, page by page and by height. -/
theorem parentsCorrect_iff (uniform : UniformDepth d height p) :
    ParentsCorrect d p ↔ (d p).parentPageId = invalidPageId ∧ Parented d height p := by
  simp only [ParentsCorrect, reaches_iff_mem_pagesOf uniform]
  refine and_congr_right fun _ => ?_
  clear * - uniform
  induction height generalizing p with
  | zero =>
    rw [UniformDepth] at uniform
    simp [pagesOf, Parented, uniform]
  | succ height ih =>
    rw [forall_internal_succ uniform.1, Parented]
    simp only [forall_and]
    exact and_congr_right fun _ => forall₂_congr fun c member => ih (uniform.2 c member)

variable [LinearOrder K]

/-- The separator condition at one page. -/
private theorem bounded_iff_separators (uniform : UniformDepth d (height + 1) p) :
    (∀ i < (d p).size, ∀ key value, StoredBelow d (InternalPage.valueAt (d p) i) key value →
        (0 < i → InternalPage.keyAt (d p) i ≤ key) ∧
          (i + 1 < (d p).size → key < InternalPage.keyAt (d p) (i + 1))) ↔
      Bounded (KeyBelow d height) none (d p).links none := by
  rw [bounded_iff_getElem]
  have at_child (i : ℕ) (inside : i < (d p).links.length) (key : K) :
      KeyBelow d height (d p).links[i].2 key ↔
        ∃ value, StoredBelow d (InternalPage.valueAt (d p) i) key value := by
    have child : (d p).links[i].2 ∈ (d p).children := mem_children.mpr ⟨_, List.getElem_mem inside, rfl⟩
    have cell : InternalPage.valueAt (d p) i = (d p).links[i].2 := by
      rw [links_getElem, InternalPage.valueAt]
    simp only [KeyBelow, cell, storedBelow_iff (uniform.2 _ child)]
  have within (i : ℕ) (inside : i < (d p).links.length) (key : K) :
      Within (if i = 0 then none else some (d p).links[i].1)
          (if next : i + 1 < (d p).links.length then some (d p).links[i + 1].1 else none) key ↔
        (0 < i → InternalPage.keyAt (d p) i ≤ key) ∧
          (i + 1 < (d p).size → key < InternalPage.keyAt (d p) (i + 1)) := by
    refine and_congr ?_ ?_
    · rw [links_getElem]
      by_cases first : i = 0 <;> simp [first, InternalPage.keyAt, Nat.pos_iff_ne_zero]
    · by_cases next : i + 1 < (d p).links.length
      · have next' : i + 1 < (d p).size := by simpa using next
        rw [dif_pos next, links_getElem]
        simp [next', InternalPage.keyAt]
      · have next' : ¬ i + 1 < (d p).size := by simpa using next
        simp [next']
  constructor
  · intro all i inside key stored
    obtain ⟨value, stored⟩ := (at_child i inside key).mp stored
    exact (within i inside key).mpr (all i (by simpa using inside) key value stored)
  · intro all i inside key value stored
    have inside' : i < (d p).links.length := by simpa using inside
    exact (within i inside' key).mp (all i inside' key ((at_child i inside' key).mpr ⟨value, stored⟩))

/-- Search order, page by page and by height. -/
theorem separatorsBound_iff (uniform : UniformDepth d height p) :
    SeparatorsBound d p ↔ Separated d height p := by
  simp only [SeparatorsBound, reaches_iff_mem_pagesOf uniform]
  induction height generalizing p with
  | zero =>
    rw [UniformDepth] at uniform
    simp [pagesOf, Separated, uniform]
  | succ height ih =>
    rw [forall_internal_succ uniform.1, bounded_iff_separators uniform, Separated]
    exact and_congr_right fun _ => forall₂_congr fun c member => ih (uniform.2 c member)

variable {leafMax internalMax : ℕ}

theorem Shaped.uniform (shaped : Shaped leafMax internalMax d height p) : UniformDepth d height p := by
  induction height generalizing p with
  | zero => exact shaped.1
  | succ height ih => exact ⟨shaped.1, fun c member => ih (shaped.2.2 c member).1⟩

/-- What a shaped subtree says of each of its pages. -/
theorem Shaped.page (shaped : Shaped leafMax internalMax d height p) {q : PageId}
    (inside : q ∈ pagesOf d height p) :
    ((d q).pageType = .leafPage → (d q).entries.Pairwise (fun a b => a.1 < b.1)) ∧
      (d q).maxSize = (if (d q).isLeafPage then leafMax else internalMax) ∧
      (q ≠ p → (d q).getMinSize ≤ (d q).size ∧ (d q).size ≤ (d q).maxSize) := by
  induction height generalizing p with
  | zero =>
    obtain rfl := List.mem_singleton.mp inside
    exact ⟨fun _ => shaped.2.2, by simp [isLeafPage, shaped.1, shaped.2.1], fun other => absurd rfl other⟩
  | succ height ih =>
    rcases List.mem_cons.mp inside with rfl | inside
    · exact ⟨fun leaf => by simp [shaped.1] at leaf, by simp [isLeafPage, shaped.1, shaped.2.1],
        fun other => absurd rfl other⟩
    · obtain ⟨c, member, below⟩ := List.mem_flatMap.mp inside
      obtain ⟨shapedChild, filled⟩ := shaped.2.2 c member
      obtain ⟨sorted, capacity, occupied⟩ := ih shapedChild below
      refine ⟨sorted, capacity, fun _ => ?_⟩
      by_cases top : q = c
      · subst top
        rw [shapedChild.getMinSize, shapedChild.maxSize]
        exact filled
      · exact occupied top

/-- No page of a shaped subtree is overfull if its top is not. -/
theorem Shaped.notOverfull (shaped : Shaped leafMax internalMax d height p)
    (high : (d p).size ≤ maxFill leafMax internalMax height) {q : PageId} (reached : Reaches d p q) :
    (d q).size ≤ (d q).maxSize := by
  by_cases top : q = p
  · rw [top, shaped.maxSize]
    exact high
  · exact ((shaped.page ((reaches_iff_mem_pagesOf shaped.uniform).mp reached)).2.2 top).2

/-- A subtree is shaped when all its pages are. -/
theorem shaped_of_pages (uniform : UniformDepth d height p) (distinct : (pagesOf d height p).Nodup)
    (sorted : ∀ q ∈ pagesOf d height p, (d q).pageType = .leafPage →
      (d q).entries.Pairwise (fun a b => a.1 < b.1))
    (capacity : ∀ q ∈ pagesOf d height p, (d q).maxSize = if (d q).isLeafPage then leafMax else internalMax)
    (occupied : ∀ q ∈ pagesOf d height p, q ≠ p → (d q).getMinSize ≤ (d q).size ∧
      (d q).size ≤ (d q).maxSize) :
    Shaped leafMax internalMax d height p := by
  induction height generalizing p with
  | zero =>
    have inside := mem_pagesOf_self d 0 p
    rw [UniformDepth] at uniform
    exact ⟨uniform, by simpa [isLeafPage, uniform] using capacity p inside, sorted p inside uniform⟩
  | succ height ih =>
    refine ⟨uniform.1, ?_, fun c member => ?_⟩
    · simpa [isLeafPage, uniform.1] using capacity p (mem_pagesOf_self d _ p)
    · rw [pagesOf, List.nodup_cons] at distinct
      have below (q : PageId) (inside : q ∈ pagesOf d height c) : q ∈ pagesOf d (height + 1) p ∧ q ≠ p := by
        have flat := List.mem_flatMap.mpr ⟨c, member, inside⟩
        exact ⟨List.mem_cons_of_mem _ flat, fun same => distinct.1 (same ▸ flat)⟩
      have shapedChild := ih (uniform.2 c member) ((List.nodup_flatMap.mp distinct.2).1 c member)
        (fun q inside => sorted q (below q inside).1) (fun q inside => capacity q (below q inside).1)
        (fun q inside _ => occupied q (below q inside).1 (below q inside).2)
      refine ⟨shapedChild, ?_⟩
      have filled := occupied c (below c (mem_pagesOf_self d _ c)).1 (below c (mem_pagesOf_self d _ c)).2
      rw [shapedChild.getMinSize, shapedChild.maxSize] at filled
      exact filled

/-- In search order the separators of an internal page increase. -/
theorem Separated.keys_increase (leafSize : 2 ≤ leafMax) (internalSize : 3 ≤ internalMax)
    (shaped : Shaped leafMax internalMax d height p) (separated : Separated d height p) {q : PageId}
    (inside : q ∈ pagesOf d height p) (internal : (d q).pageType = .internalPage) {i : ℕ} (positive : 0 < i)
    (next : i + 1 < (d q).size) : InternalPage.keyAt (d q) i < InternalPage.keyAt (d q) (i + 1) := by
  induction height generalizing p with
  | zero =>
    obtain rfl := List.mem_singleton.mp inside
    simp [shaped.1] at internal
  | succ height ih =>
    rcases List.mem_cons.mp inside with rfl | inside
    · have bound : i < (d q).links.length := by rw [links_length]; omega
      obtain ⟨key, value, stored⟩ :=
        shaped.children_inhabited leafSize internalSize (d q).links[i] (List.getElem_mem bound)
      have child : (d q).links[i].2 ∈ (d q).children := mem_children.mpr ⟨_, List.getElem_mem bound, rfl⟩
      have cell : InternalPage.valueAt (d q) i = (d q).links[i].2 := by rw [links_getElem, InternalPage.valueAt]
      have bounds := (bounded_iff_separators shaped.uniform).mpr separated.1 i (by omega) key value
        (by rw [cell, storedBelow_iff (shaped.2.2 _ child).1.uniform]; exact stored)
      exact (bounds.1 positive).trans_lt (bounds.2 next)
    · obtain ⟨c, member, below⟩ := List.mem_flatMap.mp inside
      exact ih (shaped.2.2 c member).1 (separated.2 c member) below

theorem Shaped.height_unique (leafSize : 2 ≤ leafMax) (internalSize : 3 ≤ internalMax) {a b : ℕ} {p : PageId}
    (first : Shaped leafMax internalMax d a p) (second : Shaped leafMax internalMax d b p)
    (positive : 1 ≤ (d p).size) : a = b := by
  induction a generalizing b p with
  | zero =>
    cases b with
    | zero => rfl
    | succ b => exact absurd (first.1.symm.trans second.1) (by decide)
  | succ a ih =>
    cases b with
    | zero => exact absurd (second.1.symm.trans first.1) (by decide)
    | succ b =>
      obtain ⟨c, member⟩ : ∃ c, c ∈ (d p).children := by
        apply List.exists_mem_of_length_pos
        rw [children_length]
        exact positive
      obtain ⟨shapedChild, filled⟩ := first.2.2 c member
      exact congrArg (· + 1) (ih shapedChild (second.2.2 c member).1
        ((minFill_pos leafSize internalSize a).trans filled.1))

section Decide

variable (d : PageStore K V)

instance decidableWithin (lo hi : Option K) (k : K) : Decidable (Within lo hi k) :=
  inferInstanceAs (Decidable (_ ∧ _))

/-- Bounds on the keys below a child are bounds on its entries. -/
instance decidableBounded (height : ℕ) :
    ∀ lo links hi, Decidable (Bounded (KeyBelow d height) lo links hi)
  | _, [], _ => isTrue trivial
  | lo, link :: rest, hi =>
    have := decidableBounded height (headKey rest hi) rest hi
    decidable_of_iff ((∀ e ∈ contents d height link.2, Within lo (headKey rest hi) e.1) ∧
        Bounded (KeyBelow d height) (headKey rest hi) rest hi)
      (and_congr_left fun _ => ⟨fun all _ stored => stored.elim fun _ stored => all _ stored,
        fun all e stored => all e.1 ⟨e.2, stored⟩⟩)

instance decidableSeparated : ∀ height p, Decidable (Separated d height p)
  | 0, _ => isTrue trivial
  | height + 1, _ =>
    have := decidableSeparated height
    inferInstanceAs (Decidable (_ ∧ _))

instance decidableShaped (leafMax internalMax : ℕ) : ∀ height p, Decidable (Shaped leafMax internalMax d height p)
  | 0, _ => inferInstanceAs (Decidable (_ ∧ _ ∧ _))
  | height + 1, p =>
    have := decidableShaped leafMax internalMax height
    have (c : PageId) : Decidable (Filled leafMax internalMax d height c) := inferInstanceAs (Decidable (_ ∧ _))
    inferInstanceAs (Decidable (_ ∧ _ ∧ ∀ c ∈ (d p).children, _))

omit [LinearOrder K] in
instance decidableParented : ∀ height p, Decidable (Parented d height p)
  | 0, _ => isTrue trivial
  | height + 1, p =>
    have := decidableParented height
    inferInstanceAs (Decidable (∀ c ∈ (d p).children, _))

end Decide

end PageStore

namespace BPlusTree

variable [LinearOrder K] {tree : BPlusTree K V} {height : ℕ}

/-- A well-formed tree, by height. -/
theorem WellFormedAt.rooted (wellFormed : tree.WellFormedAt height) :
    Rooted tree.leafMaxSize tree.internalMaxSize tree.data height tree.rootPageId ∧
      Subtree tree.leafMaxSize tree.internalMaxSize tree.data height tree.rootPageId := by
  have reaches (q : PageId) (inside : q ∈ pagesOf tree.data height tree.rootPageId) :=
    (reaches_iff_mem_pagesOf wellFormed.uniform).mpr inside
  have shaped : Shaped tree.leafMaxSize tree.internalMaxSize tree.data height tree.rootPageId :=
    shaped_of_pages wellFormed.uniform wellFormed.distinct
      (fun q inside => wellFormed.leafKeys q (reaches q inside))
      (fun q inside => wellFormed.capacity q (reaches q inside))
      (fun q inside other => ⟨wellFormed.notUnderfull q (reaches q inside) other,
        wellFormed.notOverfull q (reaches q inside)⟩)
  obtain ⟨parent, parented⟩ := (parentsCorrect_iff wellFormed.uniform).mp wellFormed.parents
  refine ⟨⟨shaped, ?_, ?_, parent, wellFormed.distinct, wellFormed.leafChain⟩, ⟨shaped,
    (separatorsBound_iff wellFormed.uniform).mp wellFormed.separators, parented, wellFormed.distinct, ?_⟩⟩
  · cases height with
    | zero => exact wellFormed.rootLeaf shaped.1
    | succ height => exact wellFormed.rootInternal shaped.1
  · rw [← shaped.maxSize]
    exact wellFormed.notOverfull _ .refl
  · intro q inside invalid
    have low := (wellFormed.allocated q inside).1
    rw [invalid] at low
    exact absurd low (by decide)

/-- A tree that is sound by height has the proportions of a tree of that height. -/
theorem proportioned_of_rooted (leafSize : 2 ≤ tree.leafMaxSize) (internalSize : 3 ≤ tree.internalMaxSize)
    (rooted : Rooted tree.leafMaxSize tree.internalMaxSize tree.data height tree.rootPageId) :
    tree.Proportioned height := by
  have uniform := rooted.shaped.uniform
  have page {q : PageId} (reached : Reaches tree.data tree.rootPageId q) :=
    rooted.shaped.page ((reaches_iff_mem_pagesOf uniform).mp reached)
  constructor
  · exact uniform
  · exact fun q reached => (page reached).2.1
  · exact fun q reached => rooted.shaped.notOverfull rooted.high reached
  · exact fun q reached other => ((page reached).2.2 other).1
  · intro internal
    cases height with
    | zero => simp [rooted.shaped.1] at internal
    | succ height => exact rooted.low
  · obtain ⟨key, value, stored⟩ := rooted.shaped.inhabited leafSize internalSize rooted.positive
    exact ⟨key, value, (storedBelow_iff uniform).mpr stored⟩
  · exact rooted.chain

/-- A tree that is sound by height is well formed. -/
theorem wellFormedAt_of_rooted (leafSize : 2 ≤ tree.leafMaxSize) (internalSize : 3 ≤ tree.internalMaxSize)
    (rooted : Rooted tree.leafMaxSize tree.internalMaxSize tree.data height tree.rootPageId)
    (separated : Separated tree.data height tree.rootPageId) (parented : Parented tree.data height tree.rootPageId)
    (allocated : ∀ q ∈ pagesOf tree.data height tree.rootPageId, 0 ≤ q ∧ q < tree.nextPageId) :
    tree.WellFormedAt height := by
  have proportioned := proportioned_of_rooted leafSize internalSize rooted
  have uniform := proportioned.uniform
  have inside {q : PageId} (reached : Reaches tree.data tree.rootPageId q) :=
    (reaches_iff_mem_pagesOf uniform).mp reached
  exact
    { proportioned with
      leafKeys := fun q reached => (rooted.shaped.page (inside reached)).1
      internalKeys := fun q reached internal i positive next =>
        separated.keys_increase leafSize internalSize rooted.shaped (inside reached) internal positive next
      separators := (separatorsBound_iff uniform).mpr separated
      rootLeaf := fun _ => rooted.positive
      parents := (parentsCorrect_iff uniform).mpr ⟨rooted.parent, parented⟩
      distinct := rooted.distinct
      allocated := allocated }

theorem WellFormedAt.rootPageId_ne {height : ℕ} (wellFormed : tree.WellFormedAt height) :
    tree.rootPageId ≠ invalidPageId := wellFormed.rooted.2.valid _ (mem_pagesOf_self _ _ _)

theorem WellFormedAt.height_unique (leafSize : 2 ≤ tree.leafMaxSize) (internalSize : 3 ≤ tree.internalMaxSize)
    {a b : ℕ} (first : tree.WellFormedAt a) (second : tree.WellFormedAt b) : a = b :=
  first.rooted.1.shaped.height_unique leafSize internalSize second.rooted.1.shaped first.rooted.1.positive

/-- `GetValue` on a well-formed tree answers for everything stored in it. -/
theorem WellFormedAt.returns_iff (leafSize : 2 ≤ tree.leafMaxSize) (internalSize : 3 ≤ tree.internalMaxSize)
    {height : ℕ} (wellFormed : tree.WellFormedAt height) (granted : tree.Granted) (key : K) (result : Option V) :
    tree.Returns key result ↔
      ∀ value, result = some value ↔ (key, value) ∈ contents tree.data height tree.rootPageId :=
  BPlusTree.returns_iff leafSize internalSize granted wellFormed.rootPageId_ne wellFormed.rooted.1.shaped
    wellFormed.rooted.2.separated wellFormed.rooted.1.positive key result

section Samples

/-- A leaf of a tree with `leaf_max_size` 2. -/
def sampleLeaf (parent next : PageId) (entries : List (ℕ × ℕ)) : BPlusTreePage ℕ ℕ :=
  { (zeroed : BPlusTreePage ℕ ℕ) with
    pageType := .leafPage, maxSize := 2, size := entries.length, parentPageId := parent, nextPageId := next
    leafArray := fun i => entries.getD i (0, 0) }

/-- An internal page of a tree with `internal_max_size` 3. -/
def sampleInternal (parent : PageId) (links : List (ℕ × PageId)) : BPlusTreePage ℕ ℕ :=
  { (zeroed : BPlusTreePage ℕ ℕ) with
    pageType := .internalPage, maxSize := 3, size := links.length, parentPageId := parent
    internalArray := fun i => links.getD i (0, 0) }

/-- The tree on the listed pages, the first of which is the root. -/
def sampleTree (pages : List (BPlusTreePage ℕ ℕ)) : BPlusTree ℕ ℕ :=
  { (create 2 3 (fun _ => true) : BPlusTree ℕ ℕ) with
    data := fun q => pages.getD q.toNat zeroed
    nextPageId := pages.length
    rootPageId := 0 }

/-- Three leaves under the left child of the root and two under the right one. -/
def unevenTree : BPlusTree ℕ ℕ := sampleTree
  [sampleInternal (-1) [(0, 1), (4, 2)], sampleInternal 0 [(0, 3), (2, 4), (3, 5)],
    sampleInternal 0 [(0, 6), (5, 7)], sampleLeaf 1 4 [(1, 10)], sampleLeaf 1 5 [(2, 20)],
    sampleLeaf 1 6 [(3, 30)], sampleLeaf 2 7 [(4, 40)], sampleLeaf 2 (-1) [(5, 50)]]

theorem unevenTree_wellFormedAt : unevenTree.WellFormedAt 2 :=
  wellFormedAt_of_rooted (by decide) (by decide)
    ⟨by decide, by decide, by decide, by decide, by decide, by unfold LeafChain; decide⟩ (by decide) (by decide)
    (by decide)

theorem unevenTree_wellFormed : unevenTree.WellFormed := ⟨by decide, fun _ => ⟨2, unevenTree_wellFormedAt⟩⟩

end Samples

end BPlusTree

end OneBase
