import OneBase.Proofs.BPlusTree.Iteration
import OneBase.Proofs.BPlusTree.Steps
import OneBase.Proofs.BPlusTree.WellFormed
import Mathlib.Data.List.Perm.Subperm

/-! # When an iteration is exact

In a well-formed tree internal pages always have a child to follow, so both `Begin` functions reach
a leaf and the chain does the rest. What the occupancy bounds do not give is an entry in every leaf:
with a capacity below two the minimum is none, and neither `Begin` nor `operator++` looks before an
empty leaf is dereferenced.
-/

namespace OneBase

open BPlusTreePage PageStore BPlusTreeIterator

variable {K V : Type}

namespace PageStore

variable {d : PageStore K V} {height : ℕ} {p : PageId}

/-- The leftmost leaf is where a descent along first children ends. -/
theorem leavesOf_head (uniform : UniformDepth d height p)
    (positive : ∀ q, Reaches d p q → (d q).pageType = .internalPage → 1 ≤ (d q).size) (last : PageId) :
    (leavesOf d height p).headD last = descent (fun page => InternalPage.valueAt page 0) d height p := by
  suffices ∃ rest, leavesOf d height p = descent (fun page => InternalPage.valueAt page 0) d height p :: rest by
    obtain ⟨rest, cut⟩ := this
    rw [cut]
    rfl
  induction height generalizing p with
  | zero => exact ⟨[], rfl⟩
  | succ height ih =>
    obtain ⟨first, others, cut⟩ := List.exists_cons_of_length_pos (l := (d p).links) (by
      rw [links_length]
      exact positive p .refl uniform.1)
    have child : first.2 ∈ (d p).children := mem_children.mpr ⟨first, by simp [cut], rfl⟩
    have value : InternalPage.valueAt (d p) 0 = first.2 :=
      congrArg Prod.snd (internalArray_of_links (show _ = [] ++ first :: others from cut))
    obtain ⟨rest, below⟩ := ih (uniform.2 _ child) fun q reached =>
      positive q (Reaches.trans (.child .refl uniform.1 child) reached)
    refine ⟨rest ++ leavesIn d height others, ?_⟩
    rw [leavesOf_succ, cut, leavesIn_cons, below, descent, value]
    rfl

/-- A subtree none of whose pages is empty. -/
theorem stocked_of_reaches (uniform : UniformDepth d height p)
    (positive : ∀ q, Reaches d p q → 1 ≤ (d q).size) : Stocked d height p := by
  induction height generalizing p with
  | zero => exact positive p .refl
  | succ height ih =>
    refine ⟨positive p .refl, fun c member => ih (uniform.2 c member) fun q reached => ?_⟩
    exact positive q (Reaches.trans (.child .refl uniform.1 member) reached)

theorem leavesOf_leaf (uniform : UniformDepth d height p) {q : PageId} (leaf : q ∈ leavesOf d height p) :
    (d q).pageType = .leafPage := by
  induction height generalizing p with
  | zero =>
    obtain rfl := List.mem_singleton.mp leaf
    exact uniform
  | succ height ih =>
    obtain ⟨c, member, below⟩ := List.mem_flatMap.mp leaf
    exact ih (uniform.2 c member) below

theorem mem_leavesOf (uniform : UniformDepth d height p) {q : PageId} (reached : Reaches d p q)
    (leaf : (d q).pageType = .leafPage) : q ∈ leavesOf d height p := by
  have inside := (reaches_iff_mem_pagesOf uniform).mp reached
  clear reached
  induction height generalizing p with
  | zero => exact inside
  | succ height ih =>
    rcases List.mem_cons.mp inside with rfl | inside
    · exact absurd (leaf.symm.trans uniform.1) (by decide)
    · obtain ⟨c, member, below⟩ := List.mem_flatMap.mp inside
      exact List.mem_flatMap.mpr ⟨c, member, ih (uniform.2 c member) below⟩

/-- An empty leaf shows more than it holds. -/
theorem length_shown_lt {leaves : List PageId} :
    (leaves.flatMap fun q => (d q).entries).length ≤ (leaves.flatMap fun q => (d q).shown).length ∧
      ((leaves.flatMap fun q => (d q).shown).length ≤ (leaves.flatMap fun q => (d q).entries).length →
        ∀ q ∈ leaves, 1 ≤ (d q).size) := by
  induction leaves with
  | nil => simp
  | cons leaf rest ih =>
    obtain ⟨more, tight⟩ := ih
    simp only [List.flatMap_cons, List.length_append, length_shown, entries_length, List.forall_mem_cons]
    refine ⟨by omega, fun few => ⟨by omega, tight (by omega)⟩⟩

/-- Every page of a tree of some height is a leaf or an internal page. -/
theorem kind_of_reaches (uniform : UniformDepth d height p) {q : PageId} (reached : Reaches d p q) :
    (d q).pageType = .leafPage ∨ (d q).pageType = .internalPage := by
  have inside := (reaches_iff_mem_pagesOf uniform).mp reached
  clear reached
  induction height generalizing p with
  | zero =>
    obtain rfl := List.mem_singleton.mp inside
    exact .inl uniform
  | succ height ih =>
    rcases List.mem_cons.mp inside with rfl | inside
    · exact .inr uniform.1
    · obtain ⟨c, member, below⟩ := List.mem_flatMap.mp inside
      exact ih (uniform.2 c member) below

end PageStore

namespace BPlusTree

theorem run_pagePool_fetchPage (s : BPlusTree K V) (p : PageId) : pagePool.fetchPage p s =
    if s.grants s.calls then
      some (some (s.data p), { s with
        calls := s.calls + 1
        pinCount := Function.update s.pinCount p (s.pinCount p + 1) })
    else some (none, { s with calls := s.calls + 1 }) := by
  change (fetchPage p >>= fun got => if got = true then _ else _ : TreeM K V _) s = _
  rw [run_bind, run_fetchPage]
  split <;> rfl

/-- The pool below a tree lends every page while no call is refused. -/
theorem lends_pagePool (d : PageStore K V) (known : PageId → Prop) :
    Lends pagePool (fun tree : BPlusTree K V => tree.Granted ∧ tree.data = d) d known := by
  rintro p - tree ⟨granted, rfl⟩
  refine ⟨{ tree with
    calls := tree.calls + 1
    pinCount := Function.update tree.pinCount p (tree.pinCount p + 1) }, _, ?_, rfl, granted, rfl⟩
  rw [run_pagePool_fetchPage, if_pos (granted tree.calls)]

theorem releases_pagePool (d : PageStore K V) :
    Releases pagePool fun tree : BPlusTree K V => tree.Granted ∧ tree.data = d := by
  rintro p tree got pinned ⟨granted, rfl⟩ fetched q
  rw [run_pagePool_fetchPage, if_pos (granted tree.calls)] at fetched
  obtain ⟨⟩ := fetched
  exact ⟨_, rfl, granted, rfl⟩

variable {tree : BPlusTree K V} {start : PageId → ℕ → StateT (BPlusTree K V) Option BPlusTreeIterator}

/-- A loop visits one list only. -/
theorem Visits.unique {first second : List (K × V)} (one : tree.Visits start first)
    (other : tree.Visits start second) : first = second := by
  obtain ⟨enough, ran⟩ := one
  obtain ⟨enough', ran'⟩ := other
  obtain ⟨after, run⟩ := ran (max enough enough') (le_max_left _ _)
  obtain ⟨after', run'⟩ := ran' (max enough enough') (le_max_right _ _)
  rw [run] at run'
  exact Except.ok.inj (Prod.mk.inj (Option.some.inj run')).1

/-- A loop that starts at a known iterator. -/
theorem visits_of_scansTo {it : BPlusTreeIterator} {height : ℕ} {visited : List (K × V)}
    (starts : ∀ rounds > height, ∃ after, start tree.rootPageId rounds tree = some (it, after) ∧
      after.Granted ∧ after.data = tree.data)
    (scans : ScansTo pagePool (fun after : BPlusTree K V => after.Granted ∧ after.data = tree.data) it visited) :
    tree.Visits start visited := by
  refine ⟨height + visited.length + 1, fun rounds enough => ?_⟩
  obtain ⟨middle, begun, held⟩ := starts rounds (by omega)
  obtain ⟨after, scanned, -⟩ := scans rounds (by omega) middle held
  refine ⟨after, ?_⟩
  simp [stateT_bind, begun, scanned]

variable [LinearOrder K] {height : ℕ}

/-- In a well-formed tree every internal page has a child. -/
theorem WellFormedAt.internal_positive (wellFormed : tree.WellFormedAt height) {q : PageId}
    (reached : Reaches tree.data tree.rootPageId q) (internal : (tree.data q).pageType = .internalPage) :
    1 ≤ (tree.data q).size := by
  by_cases top : q = tree.rootPageId
  · rw [top] at internal ⊢
    exact Nat.le_of_succ_le (wellFormed.rootInternal internal)
  · cases height with
    | zero =>
      have inside := (reaches_iff_mem_pagesOf wellFormed.uniform).mp reached
      exact absurd (List.mem_singleton.mp inside) top
    | succ height =>
      -- an internal root has two children, so there is room for one in every internal page
      have rootKind := wellFormed.uniform.1
      have many := wellFormed.rootInternal rootKind
      have rootFits := wellFormed.notOverfull _ .refl
      have rootCapacity := wellFormed.capacity _ .refl
      have low := wellFormed.notUnderfull q reached top
      have capacity := wellFormed.capacity q reached
      simp only [isLeafPage, rootKind, internal, getMinSize] at rootCapacity capacity low
      simp at rootCapacity capacity low
      omega

theorem WellFormedAt.valid (wellFormed : tree.WellFormedAt height) {q : PageId}
    (reached : Reaches tree.data tree.rootPageId q) : q ≠ invalidPageId := by
  have low := (wellFormed.allocated q ((reaches_iff_mem_pagesOf wellFormed.uniform).mp reached)).1
  rintro rfl
  exact absurd low (by decide)

theorem WellFormedAt.reaches_leaf (wellFormed : tree.WellFormedAt height) {q : PageId}
    (leaf : q ∈ leavesOf tree.data height tree.rootPageId) :
    Reaches tree.data tree.rootPageId q ∧ (tree.data q).pageType = .leafPage :=
  ⟨(reaches_iff_mem_pagesOf wellFormed.uniform).mpr (leavesOf_subset_pagesOf _ _ _ leaf),
    leavesOf_leaf wellFormed.uniform leaf⟩

theorem WellFormedAt.leaves_nodup (wellFormed : tree.WellFormedAt height) :
    (leavesOf tree.data height tree.rootPageId).Nodup :=
  (leavesOf_sublist_pagesOf tree.data height tree.rootPageId).nodup wellFormed.distinct

/-- No leaf links to itself. -/
theorem WellFormedAt.nextPageId_ne (wellFormed : tree.WellFormedAt height) {q : PageId}
    (reached : Reaches tree.data tree.rootPageId q) (leaf : (tree.data q).pageType = .leafPage) :
    (tree.data q).nextPageId ≠ q := by
  obtain ⟨front, back, cut⟩ := List.append_of_mem (mem_leavesOf wellFormed.uniform reached leaf)
  have chain := wellFormed.leafChain
  have distinct := wellFormed.leaves_nodup
  rw [cut] at chain distinct
  rw [chain.drop.tail.1]
  cases back with
  | nil => exact (wellFormed.valid reached).symm
  | cons next back =>
    rintro rfl
    exact absurd (List.nodup_append.mp distinct).2.1 (by simp)

/-- What is stored stands in a leaf. -/
theorem WellFormedAt.stores_iff (wellFormed : tree.WellFormedAt height) (key : K) (value : V) :
    tree.Stores key value ↔ (key, value) ∈ contents tree.data height tree.rootPageId :=
  (and_iff_right (wellFormed.valid .refl)).trans (storedBelow_iff wellFormed.uniform)

/-- The child that `Begin()` takes. -/
theorem WellFormedAt.first_child (wellFormed : tree.WellFormedAt height) {q : PageId}
    (reached : Reaches tree.data tree.rootPageId q) (internal : (tree.data q).pageType = .internalPage) :
    InternalPage.valueAt (tree.data q) 0 ∈ (tree.data q).children ∧
      Reaches tree.data tree.rootPageId (InternalPage.valueAt (tree.data q) 0) := by
  have first : InternalPage.valueAt (tree.data q) 0 ∈ (tree.data q).children := by
    obtain ⟨link, rest, cut⟩ := List.exists_cons_of_length_pos (l := (tree.data q).links) (by
      rw [links_length]
      exact wellFormed.internal_positive reached internal)
    refine mem_children.mpr ⟨link, by simp [cut], ?_⟩
    exact (congrArg Prod.snd (internalArray_of_links (show _ = [] ++ link :: rest from cut))).symm
  exact ⟨first, .child reached internal first⟩

/-- The child that `Begin(key)` takes. -/
theorem WellFormedAt.lookup_child (wellFormed : tree.WellFormedAt height) (key : K) {q : PageId}
    (reached : Reaches tree.data tree.rootPageId q) (internal : (tree.data q).pageType = .internalPage) :
    InternalPage.lookup (tree.data q) key ∈ (tree.data q).children ∧
      Reaches tree.data tree.rootPageId (InternalPage.lookup (tree.data q) key) := by
  obtain ⟨before, link, after, links, found, -⟩ :=
    InternalPage.lookup_cut key (wellFormed.internal_positive reached internal)
  have child : InternalPage.lookup (tree.data q) key ∈ (tree.data q).children :=
    mem_children.mpr ⟨link, by simp [links], found.symm⟩
  exact ⟨child, .child reached internal child⟩

/-- Over any pool that lends the pages of the tree, `Begin()` stands at the first leaf. -/
theorem WellFormedAt.run_begin {σ : Type} {pool : PagePool σ K V} {holds : σ → Prop}
    (wellFormed : tree.WellFormedAt height) (lends : Lends pool holds tree.data (Reaches tree.data tree.rootPageId))
    {rounds : ℕ} (enough : height < rounds) {s : σ} (held : holds s) :
    ∃ s', begin pool tree.rootPageId rounds s =
      some (⟨(leavesOf tree.data height tree.rootPageId).headD invalidPageId, 0, true⟩, s') ∧ holds s' := by
  have positive (q : PageId) := wellFormed.internal_positive (q := q)
  have below (q : PageId) := wellFormed.first_child (q := q)
  rw [leavesOf_head wellFormed.uniform positive invalidPageId]
  exact BPlusTreeIterator.run_begin lends wellFormed.uniform below (wellFormed.valid .refl) .refl enough held

/-- The loop from `Begin()` visits what the leaves show. -/
theorem WellFormedAt.visits_begin (wellFormed : tree.WellFormedAt height) (granted : tree.Granted) :
    tree.Visits (begin pagePool)
      ((leavesOf tree.data height tree.rootPageId).flatMap fun q => (tree.data q).shown) := by
  have lends := lends_pagePool tree.data (Reaches tree.data tree.rootPageId)
  refine visits_of_scansTo (fun rounds enough => wellFormed.run_begin lends enough ⟨granted, rfl⟩) ?_
  exact scansTo_chain lends (releases_pagePool _) wellFormed.leafChain fun q leaf =>
    ⟨(wellFormed.reaches_leaf leaf).1, wellFormed.valid (wellFormed.reaches_leaf leaf).1⟩

section Stocked

variable (wellFormed : tree.WellFormedAt height)
  (positive : ∀ q, Reaches tree.data tree.rootPageId q → 1 ≤ (tree.data q).size)

omit [LinearOrder K] in
include positive in
theorem flatMap_shown {leaves : List PageId}
    (each : ∀ q ∈ leaves, Reaches tree.data tree.rootPageId q) :
    (leaves.flatMap fun q => (tree.data q).shown) = leaves.flatMap fun q => (tree.data q).entries :=
  List.flatMap_congr fun q leaf => shown_of_positive (positive q (each q leaf))

include wellFormed positive

/-- The loop from `Begin(key)` visits the part of the contents that starts at `key`. -/
theorem WellFormedAt.visits_beginAt (granted : tree.Granted) (key : K) :
    ∃ before visited, contents tree.data height tree.rootPageId = before ++ visited ∧
      (∀ e ∈ before, e.1 < key) ∧ (∀ e ∈ visited, key ≤ e.1) ∧
      tree.Visits (beginAt pagePool key) visited := by
  have lends := lends_pagePool tree.data (Reaches tree.data tree.rootPageId)
  have stocked := stocked_of_reaches wellFormed.uniform positive
  obtain ⟨front, back, cut, smaller, greater⟩ :=
    stocked.route_cut ((separatorsBound_iff wellFormed.uniform).mp wellFormed.separators) key
  have known (q : PageId) (leaf : q ∈ front ++ route tree.data key height tree.rootPageId :: back) :=
    wellFormed.reaches_leaf (q := q) (cut ▸ leaf)
  have wide := contents_eq_flatMap tree.data height tree.rootPageId
  have chain := wellFormed.leafChain
  rw [cut] at wide chain
  obtain ⟨follows, chainBack⟩ := chain.drop.tail
  have later := scansTo_chain lends (releases_pagePool _) chainBack fun q leaf =>
    ⟨(known q (by simp [leaf])).1, wellFormed.valid (known q (by simp [leaf])).1⟩
  rw [flatMap_shown positive fun q leaf => (known q (by simp [leaf])).1, ← follows] at later
  -- the leaf that `key` routes to
  generalize leafEq : route tree.data key height tree.rootPageId = leaf at *
  obtain ⟨reached, kind⟩ := known leaf (by simp)
  obtain ⟨bound, under, above⟩ := LeafPage.keyIndex_spec key (wellFormed.leafKeys leaf reached kind)
  refine ⟨front.flatMap (fun q => (tree.data q).entries) ++
      (tree.data leaf).entries.take (LeafPage.keyIndex (tree.data leaf) key),
    (tree.data leaf).entries.drop (LeafPage.keyIndex (tree.data leaf) key) ++
      back.flatMap fun q => (tree.data q).entries, ?_, ?_, ?_, ?_⟩
  · rw [wide, List.flatMap_append, List.flatMap_cons]
    conv_lhs => rw [← List.take_append_drop (LeafPage.keyIndex (tree.data leaf) key) (tree.data leaf).entries]
    simp only [List.append_assoc]
  · intro e member
    rcases List.mem_append.mp member with member | member
    · obtain ⟨q, leaf, stored⟩ := List.mem_flatMap.mp member
      exact smaller q leaf e stored
    · exact under e member
  · intro e member
    rcases List.mem_append.mp member with member | member
    · exact above e member
    · obtain ⟨q, leaf, stored⟩ := List.mem_flatMap.mp member
      exact (greater q leaf e stored).le
  · have below (q : PageId) := wellFormed.lookup_child key (q := q)
    refine visits_of_scansTo (fun rounds enough => run_beginAt lends wellFormed.uniform below
      (wellFormed.valid .refl) .refl enough ⟨granted, rfl⟩) ?_
    rw [leafEq]
    split
    · next exhausted =>
      rw [List.drop_of_length_le (by rw [entries_length]; exact exhausted)]
      exact later
    · next inside =>
      rw [← shown_of_positive (positive leaf reached)]
      exact ScansTo.leaf lends (releases_pagePool _) (wellFormed.valid reached) reached later (by omega)

end Stocked

/-- With no empty leaf no page is empty. -/
theorem WellFormedAt.positive (wellFormed : tree.WellFormedAt height) (full : tree.NoEmptyLeaf) (q : PageId)
    (reached : Reaches tree.data tree.rootPageId q) : 1 ≤ (tree.data q).size := by
  rcases kind_of_reaches wellFormed.uniform reached with leaf | internal
  · exact full (wellFormed.valid .refl) q reached leaf
  · exact wellFormed.internal_positive reached internal

/-- From a capacity of two on the occupancy bounds leave no leaf empty. -/
theorem noEmptyLeaf_of_leafMaxSize (wellFormed : tree.WellFormed) (leafSize : 2 ≤ tree.leafMaxSize) :
    tree.NoEmptyLeaf := by
  intro valid q reached leaf
  obtain ⟨height, wellFormedAt⟩ := wellFormed.rooted valid
  by_cases top : q = tree.rootPageId
  · rw [top] at leaf ⊢
    exact wellFormedAt.rootLeaf leaf
  · have low := wellFormedAt.notUnderfull q reached top
    have capacity := wellFormedAt.capacity q reached
    simp only [isLeafPage, leaf, decide_true, if_true, getMinSize] at capacity low
    omega

/-- An empty tree has nothing to visit. -/
theorem scansExactly_empty (empty : tree.rootPageId = invalidPageId) (wanted : K → Prop)
    (starts : ∀ rounds, start tree.rootPageId rounds tree = some (endIterator, tree)) :
    tree.ScansExactly start wanted := by
  refine ⟨[], ⟨1, fun rounds enough => ⟨tree, ?_⟩⟩, List.Pairwise.nil, ?_⟩
  · obtain ⟨rounds, rfl⟩ := Nat.exists_eq_succ_of_ne_zero (Nat.ne_zero_of_lt enough)
    simp [stateT_bind, starts, scan, equals, stateT_pure]
  · intro key value
    simp [Stores, empty]

/-- No leaf of a well-formed tree with a leaf capacity of at least two is empty; and the loops from `Begin()`
and from `Begin(key)` visit exactly what they should, each pair once and by increasing key, exactly when
no leaf is empty. -/
theorem iteration_exact_iff (wellFormed : tree.WellFormed) (granted : tree.Granted) (key : K) :
    (2 ≤ tree.leafMaxSize → tree.NoEmptyLeaf) ∧
      (tree.ScansExactly (begin pagePool) (fun _ => True) ∧
          tree.ScansExactly (beginAt pagePool key) (fun other => key ≤ other) ↔ tree.NoEmptyLeaf) := by
  refine ⟨noEmptyLeaf_of_leafMaxSize wellFormed, ?_⟩
  by_cases empty : tree.rootPageId = invalidPageId
  · apply iff_of_true
    · constructor
      · apply scansExactly_empty empty
        simp [begin, empty, stateT_pure]
      · apply scansExactly_empty empty
        simp [beginAt, empty, stateT_pure]
    · exact fun valid => absurd empty valid
  obtain ⟨height, wellFormedAt⟩ := wellFormed.rooted empty
  have whole := wellFormedAt.visits_begin granted
  have wide := contents_eq_flatMap tree.data height tree.rootPageId
  constructor
  · rintro ⟨⟨visited, visits, sorted, members⟩, -⟩ - q reached leaf
    obtain rfl := visits.unique whole
    apply length_shown_lt.2 ?_ q (mem_leavesOf wellFormedAt.uniform reached leaf)
    rw [← wide]
    have once : List.Nodup _ := sorted.imp fun less same => less.ne (congrArg Prod.fst same)
    apply (once.subperm _).length_le
    intro e member
    exact (wellFormedAt.stores_iff e.1 e.2).mp ((members e.1 e.2).mp member).1
  · intro full
    have positive := wellFormedAt.positive full
    have sorted := (stocked_of_reaches wellFormedAt.uniform positive).contents_sorted
      ((separatorsBound_iff wellFormedAt.uniform).mp wellFormedAt.separators) fun q leaf =>
        wellFormedAt.leafKeys q (wellFormedAt.reaches_leaf leaf).1 (wellFormedAt.reaches_leaf leaf).2
    constructor
    · rw [flatMap_shown positive fun q leaf => (wellFormedAt.reaches_leaf leaf).1, ← wide] at whole
      refine ⟨_, whole, sorted, fun other value => ?_⟩
      rw [and_true, wellFormedAt.stores_iff]
    · obtain ⟨before, visited, cut, smaller, notSmaller, visits⟩ :=
        wellFormedAt.visits_beginAt positive granted key
      rw [cut] at sorted
      refine ⟨visited, visits, (List.pairwise_append.mp sorted).2.1, fun other value => ?_⟩
      rw [wellFormedAt.stores_iff, cut, List.mem_append]
      constructor
      · exact fun member => ⟨.inr member, notSmaller _ member⟩
      · rintro ⟨member | member, wanted⟩
        · exact absurd (smaller _ member) (not_lt.mpr wanted)
        · exact member

theorem iteration_exact_unevenTree : unevenTree.WellFormed ∧ unevenTree.Granted ∧
    (2 ≤ unevenTree.leafMaxSize → unevenTree.NoEmptyLeaf) ∧
      (unevenTree.ScansExactly (begin pagePool) (fun _ => True) ∧
          unevenTree.ScansExactly (beginAt pagePool 3) (fun other => 3 ≤ other) ↔ unevenTree.NoEmptyLeaf) :=
  ⟨unevenTree_wellFormed, fun _ => rfl, iteration_exact_iff unevenTree_wellFormed (fun _ => rfl) 3⟩

/-- Two keys inserted into a tree whose leaves hold one, and the smaller one removed. -/
def ghostTree : BPlusTree ℕ ℕ :=
  let run : TreeM ℕ ℕ Unit := do
    let _ ← insert 3 1 10
    let _ ← insert 3 2 20
    remove 3 1
  { ((run (create 1 3 fun _ => true)).map Prod.snd).getD (create 1 3 fun _ => true) with grants := fun _ => true }

theorem ghostTree_wellFormedAt : ghostTree.WellFormedAt 1 := by
  have shaped : Shaped ghostTree.leafMaxSize ghostTree.internalMaxSize ghostTree.data 1 ghostTree.rootPageId := by
    decide +kernel
  have uniform := shaped.uniform
  have page {q : PageId} (reached : Reaches ghostTree.data ghostTree.rootPageId q) :=
    shaped.page ((reaches_iff_mem_pagesOf uniform).mp reached)
  have root : (ghostTree.data ghostTree.rootPageId).size = 2 ∧ (ghostTree.data ghostTree.rootPageId).maxSize = 3 := by
    decide +kernel
  have pages : pagesOf ghostTree.data 1 ghostTree.rootPageId = [2, 0, 1] := by decide +kernel
  constructor
  · exact uniform
  · exact fun p reached => (page reached).1
  · intro p reached internal i first last
    have inside := (reaches_iff_mem_pagesOf uniform).mp reached
    rw [pages] at inside
    have narrow : ∀ q ∈ ([2, 0, 1] : List PageId), (ghostTree.data q).size ≤ 2 := by decide +kernel
    have := narrow p inside
    omega
  · exact (separatorsBound_iff uniform).mpr (by decide +kernel)
  · exact fun p reached => (page reached).2.1
  · intro p reached
    by_cases top : p = ghostTree.rootPageId
    · rw [top, root.1, root.2]
      decide
    · exact ((page reached).2.2 top).2
  · exact fun p reached other => ((page reached).2.2 other).1
  · exact fun _ => by rw [root.1]; decide
  · exact fun _ => by rw [root.1]
  · exact (parentsCorrect_iff uniform).mpr ⟨by decide +kernel, by decide +kernel⟩
  · unfold LeafChain
    decide +kernel
  · decide +kernel
  · decide +kernel

/-- The leaf of 1 is left empty, as the minimum is none, and the loop still visits 1. -/
theorem iteration_visits_removed_key : ghostTree.WellFormed ∧ ghostTree.Granted ∧
    ¬ ghostTree.Stores 1 10 ∧ ¬ ghostTree.ScansExactly (begin pagePool) (fun _ => True) := by
  have granted : ghostTree.Granted := fun _ => rfl
  have missing : ¬ ghostTree.Stores 1 10 := by
    rw [ghostTree_wellFormedAt.stores_iff]
    decide +kernel
  have visited : ((leavesOf ghostTree.data 1 ghostTree.rootPageId).flatMap fun q => (ghostTree.data q).shown) =
      [(1, 10), (2, 20)] := by decide +kernel
  have visits := ghostTree_wellFormedAt.visits_begin granted
  rw [visited] at visits
  refine ⟨⟨by decide +kernel, fun _ => ⟨1, ghostTree_wellFormedAt⟩⟩, granted, missing, ?_⟩
  rintro ⟨other, visitsOther, -, members⟩
  obtain rfl := visitsOther.unique visits
  exact missing ((members 1 10).mp (by simp)).1

end BPlusTree

end OneBase
