import OneBase.Proofs.BPlusTree.Regroup
import OneBase.Proofs.BPlusTree.Runs

/-! # Descending to a leaf

A search follows `InternalPage::Lookup` down to one leaf. In a subtree in search order no other
leaf can hold the key, so `GetValue` answers for the whole tree, and the entries of a subtree, left
to right, are strictly increasing.
-/

namespace OneBase

open BPlusTreePage Separators PageStore

variable {K V : Type} [LinearOrder K]

namespace PageStore

/-- The leaf a search for `key` ends in. -/
def route (d : PageStore K V) (key : K) : ℕ → PageId → PageId
  | 0, p => p
  | height + 1, p => route d key height (InternalPage.lookup (d p) key)

variable {leafMax internalMax : ℕ} {d : PageStore K V} {height : ℕ} {p : PageId}

/-- How `Lookup` cuts the links of a page in search order. -/
theorem lookup_route (leafSize : 2 ≤ leafMax) (internalSize : 3 ≤ internalMax)
    (shaped : Shaped leafMax internalMax d (height + 1) p) (separated : Separated d (height + 1) p)
    (positive : 1 ≤ (d p).size) (key : K) :
    ∃ before link after, (d p).links = before ++ link :: after ∧ InternalPage.lookup (d p) key = link.2 ∧
      Within (lowKey before link.1) (headKey after none) key ∧
      ∀ other ∈ before ++ after, ¬ KeyBelow d height other.2 key := by
  obtain ⟨before, link, after, cut, found, lower, upper⟩ := InternalPage.lookup_cut key positive
  have inhabited := shaped.children_inhabited leafSize internalSize
  rw [separated_succ, cut] at separated
  rw [cut] at inhabited
  refine ⟨before, link, after, cut, found, ⟨?_, ?_⟩, separated.1.routes inhabited lower upper⟩
  · cases before with
    | nil => simp
    | cons first rest => simpa using lower (by simp)
  · cases after with
    | nil => simp
    | cons next rest => simpa using upper next rfl

/-- The leaf a search ends in belongs to the subtree and is sorted. -/
theorem route_leaf (leafSize : 2 ≤ leafMax) (internalSize : 3 ≤ internalMax)
    (shaped : Shaped leafMax internalMax d height p) (positive : 1 ≤ (d p).size) (key : K) :
    route d key height p ∈ pagesOf d height p ∧
      Shaped leafMax internalMax d 0 (route d key height p) := by
  induction height generalizing p with
  | zero => exact ⟨mem_pagesOf_self d 0 p, shaped⟩
  | succ height ih =>
    obtain ⟨before, link, after, cut, found, -, -⟩ := InternalPage.lookup_cut key positive
    have member : link ∈ (d p).links := by simp [cut]
    obtain ⟨shapedChild, filled⟩ := shaped.2.2 _ (mem_children.mpr ⟨link, member, rfl⟩)
    obtain ⟨inside, leaf⟩ := ih shapedChild ((minFill_pos leafSize internalSize height).trans filled.1)
    rw [route, found]
    exact ⟨pagesOf_of_mem_links member inside, leaf⟩

private theorem storedIn_sorted {lo hi : Option K} {links : List (K × PageId)}
    (each : ∀ link ∈ links, (contents d height link.2).Pairwise (fun a b => a.1 < b.1))
    (inhabited : ∀ link ∈ links, ∃ key, KeyBelow d height link.2 key)
    (bounded : Bounded (KeyBelow d height) lo links hi) :
    (storedIn d height links).Pairwise (fun a b => a.1 < b.1) := by
  induction links generalizing lo with
  | nil => simp [storedIn]
  | cons link rest ih =>
    rw [storedIn_cons]
    have inhabitedRest := fun other member => inhabited other (List.mem_cons_of_mem link member)
    refine List.pairwise_append.mpr ⟨each link List.mem_cons_self,
      ih (fun other member => each other (List.mem_cons_of_mem _ member)) inhabitedRest bounded.2, ?_⟩
    intro a inLink b inRest
    obtain ⟨other, member, stored⟩ := List.mem_flatMap.mp inRest
    have low := bounded.1 a.1 ⟨a.2, inLink⟩
    have high := bounded.2.within inhabitedRest other member b.1 ⟨b.2, stored⟩
    cases rest with
    | nil => simp at member
    | cons next rest => exact (low.2 _ rfl).trans_le (high.1 _ rfl)

/-- A subtree in search order lists its entries by strictly increasing key. -/
theorem contents_sorted (leafSize : 2 ≤ leafMax) (internalSize : 3 ≤ internalMax)
    (shaped : Shaped leafMax internalMax d height p) (separated : Separated d height p) :
    (contents d height p).Pairwise (fun a b => a.1 < b.1) := by
  induction height generalizing p with
  | zero => exact shaped.2.2
  | succ height ih =>
    rw [contents_succ]
    refine storedIn_sorted (fun link member => ?_) (shaped.children_inhabited leafSize internalSize)
      (separated_succ.mp separated).1
    have child := mem_children.mpr ⟨link, member, rfl⟩
    exact ih (shaped.2.2 _ child).1 (separated.2 _ child)

omit [LinearOrder K] in
/-- The entries of a subtree are those of its leaves, left to right. -/
theorem contents_eq_flatMap (d : PageStore K V) (height : ℕ) (p : PageId) :
    contents d height p = (leavesOf d height p).flatMap fun q => (d q).entries := by
  induction height generalizing p with
  | zero => simp [contents, leavesOf]
  | succ height ih =>
    rw [contents, leavesOf, List.flatMap_assoc]
    exact List.flatMap_congr fun c _ => ih c

/-- The leaf a search ends in cuts the leaves: all keys before it are smaller, all keys after it greater. -/
theorem Stocked.route_cut (stocked : Stocked d height p) (separated : Separated d height p) (key : K) :
    ∃ before after, leavesOf d height p = before ++ route d key height p :: after ∧
      (∀ q ∈ before, ∀ e ∈ (d q).entries, e.1 < key) ∧ ∀ q ∈ after, ∀ e ∈ (d q).entries,
      key < e.1 := by
  induction height generalizing p with
  | zero => exact ⟨[], [], rfl, by simp, by simp⟩
  | succ height ih =>
    obtain ⟨front, link, back, cut, found, lower, upper⟩ := InternalPage.lookup_cut key stocked.1
    have inhabited : ∀ other ∈ front ++ link :: back, ∃ k, KeyBelow d height other.2 k := fun other member =>
      (stocked.2 _ (mem_children.mpr ⟨other, cut ▸ member, rfl⟩)).inhabited
    have bounded := (separated_succ.mp separated).1
    rw [cut] at bounded
    obtain ⟨smaller, greater⟩ := bounded.splits inhabited lower upper
    have child : link.2 ∈ (d p).children := mem_children.mpr ⟨link, by simp [cut], rfl⟩
    obtain ⟨before, after, inside, under, above⟩ := ih (stocked.2 _ child) (separated.2 _ child)
    have below {other : K × PageId} {q : PageId} (leaf : q ∈ leavesOf d height other.2) {e : K × V}
        (stored : e ∈ (d q).entries) : KeyBelow d height other.2 e.1 := by
      refine ⟨e.2, ?_⟩
      rw [contents_eq_flatMap]
      exact List.mem_flatMap.mpr ⟨q, leaf, stored⟩
    refine ⟨leavesIn d height front ++ before, after ++ leavesIn d height back, ?_, ?_, ?_⟩
    · rw [leavesOf_succ, cut, leavesIn_append, leavesIn_cons, inside, route, found]
      simp
    · intro q member e stored
      rcases List.mem_append.mp member with member | member
      · obtain ⟨other, inFront, leaf⟩ := List.mem_flatMap.mp member
        exact smaller other inFront e.1 (below leaf stored)
      · exact under q member e stored
    · intro q member e stored
      rcases List.mem_append.mp member with member | member
      · exact above q member e stored
      · obtain ⟨other, inBack, leaf⟩ := List.mem_flatMap.mp member
        exact greater other inBack e.1 (below leaf stored)

/-- A key is stored below a page exactly when it is stored in the leaf it routes to. -/
theorem mem_contents_iff_route (leafSize : 2 ≤ leafMax) (internalSize : 3 ≤ internalMax)
    (shaped : Shaped leafMax internalMax d height p) (separated : Separated d height p)
    (positive : 1 ≤ (d p).size) (key : K) (value : V) :
    (key, value) ∈ contents d height p ↔ (key, value) ∈ (d (route d key height p)).entries := by
  obtain ⟨before, after, cut, under, above⟩ :=
    (shaped.stocked leafSize internalSize positive).route_cut separated key
  rw [contents_eq_flatMap, cut, List.flatMap_append, List.flatMap_cons, List.mem_append, List.mem_append]
  constructor
  · rintro (member | member | member)
    · obtain ⟨q, inside, stored⟩ := List.mem_flatMap.mp member
      exact absurd (under q inside _ stored) (lt_irrefl key)
    · exact member
    · obtain ⟨q, inside, stored⟩ := List.mem_flatMap.mp member
      exact absurd (above q inside _ stored) (lt_irrefl key)
  · exact fun member => .inr (.inl member)

/-- A subtree without empty pages lists its entries by strictly increasing key. -/
theorem Stocked.contents_sorted (stocked : Stocked d height p) (separated : Separated d height p)
    (sorted : ∀ q ∈ leavesOf d height p, (d q).entries.Pairwise (fun a b => a.1 < b.1)) :
    (contents d height p).Pairwise (fun a b => a.1 < b.1) := by
  induction height generalizing p with
  | zero => exact sorted p (List.mem_singleton_self p)
  | succ height ih =>
    rw [contents_succ]
    have child {link : K × PageId} (member : link ∈ (d p).links) : link.2 ∈ (d p).children :=
      mem_children.mpr ⟨link, member, rfl⟩
    apply storedIn_sorted ?_ ?_ (separated_succ.mp separated).1
    · intro link member
      apply ih (stocked.2 _ (child member)) (separated.2 _ (child member))
      intro q leaf
      apply sorted
      rw [leavesOf_succ]
      exact List.mem_flatMap.mpr ⟨link, member, leaf⟩
    · exact fun link member => (stocked.2 _ (child member)).inhabited

end PageStore

namespace BPlusTree

variable {β : Type} {leafMax internalMax : ℕ} {v : View K V} {R : β → View K V → Prop}

/-- The shared descent ends in the leaf the key routes to. -/
theorem runs_descend (leafSize : 2 ≤ leafMax) (internalSize : 3 ≤ internalMax) {height rounds : ℕ}
    {p : PageId} {key : K} {f : Option PageId → TreeM K V β}
    (shaped : Shaped leafMax internalMax v.data height p) (positive : 1 ≤ (v.data p).size)
    (enough : height < rounds) (rest : Runs (f (some (route v.data key height p))) v R) :
    Runs (descend key rounds p >>= f) v R := by
  induction height generalizing p rounds with
  | zero =>
    obtain ⟨rounds, rfl⟩ := Nat.exists_eq_succ_of_ne_zero (Nat.ne_zero_of_lt enough)
    rw [descend, bind_assoc]
    refine runs_page ?_
    rw [if_pos (by simp [isLeafPage, shaped.1]), pure_bind]
    exact rest
  | succ height ih =>
    obtain ⟨rounds, rfl⟩ := Nat.exists_eq_succ_of_ne_zero (Nat.ne_zero_of_lt enough)
    obtain ⟨before, link, after, cut, found, -, -⟩ := InternalPage.lookup_cut key positive
    obtain ⟨shapedChild, filled⟩ := shaped.2.2 link.2 (mem_children.mpr ⟨link, by simp [cut], rfl⟩)
    rw [descend, bind_assoc]
    refine runs_page ?_
    rw [if_neg (by simp [isLeafPage, shaped.1])]
    simp only [bind_assoc]
    refine runs_unpinPage (runs_fetchPage ?_)
    rw [if_pos rfl, found]
    refine ih shapedChild ((minFill_pos leafSize internalSize height).trans filled.1) (by omega) ?_
    rw [route, found] at rest
    exact rest

/-- `GetValue` looks the key up in the leaf it routes to and changes nothing. -/
theorem runs_getValue (leafSize : 2 ≤ leafMax) (internalSize : 3 ≤ internalMax) {height rounds : ℕ} (key : K)
    (rooted : v.rootPageId ≠ invalidPageId)
    (shaped : Shaped leafMax internalMax v.data height v.rootPageId)
    (positive : 1 ≤ (v.data v.rootPageId).size) (enough : height < rounds) :
    Runs (getValue rounds key) v fun result v' =>
      v' = v ∧ result = LeafPage.lookup (v.data (route v.data key height v.rootPageId)) key := by
  rw [getValue]
  refine runs_get ?_
  rintro tree rfl
  rw [if_neg (by simpa [isEmpty] using rooted)]
  refine runs_fetchPage ?_
  rw [if_pos rfl]
  refine runs_descend leafSize internalSize shaped positive enough (runs_page (runs_unpinPage ?_))
  exact ObservedRuns.RunsTo.pure ⟨rfl, rfl⟩

/-- `GetValue` answers with what the leaf it reaches holds, in search order or not. -/
theorem returns_iff_lookup (leafSize : 2 ≤ leafMax) (internalSize : 3 ≤ internalMax) {tree : BPlusTree K V}
    {height : ℕ} (granted : tree.Granted) (rooted : tree.rootPageId ≠ invalidPageId)
    (shaped : Shaped leafMax internalMax tree.data height tree.rootPageId)
    (positive : 1 ≤ (tree.data tree.rootPageId).size) (key : K) (result : Option V) :
    tree.Returns key result ↔
      result = LeafPage.lookup (tree.data (route tree.data key height tree.rootPageId)) key := by
  have run (rounds : ℕ) (enough : height < rounds) := runs_getValue leafSize internalSize key
    rooted shaped positive enough tree granted rfl
  constructor
  · rintro ⟨enough, returned⟩
    obtain ⟨after, ran⟩ := returned (enough + height + 1) (by omega)
    obtain ⟨answer, last, ran', -, -, lookup⟩ := run (enough + height + 1) (by omega)
    rw [ran] at ran'
    obtain ⟨rfl, -⟩ := Prod.mk.inj (Option.some.inj ran')
    exact lookup
  · rintro rfl
    refine ⟨height + 1, fun rounds enough => ?_⟩
    obtain ⟨actual, last, ran, -, -, lookup⟩ := run rounds enough
    exact ⟨last, lookup ▸ ran⟩

/-- `GetValue` on a tree in search order answers for everything stored in it. -/
theorem returns_iff (leafSize : 2 ≤ leafMax) (internalSize : 3 ≤ internalMax) {tree : BPlusTree K V}
    {height : ℕ} (granted : tree.Granted) (rooted : tree.rootPageId ≠ invalidPageId)
    (shaped : Shaped leafMax internalMax tree.data height tree.rootPageId)
    (separated : Separated tree.data height tree.rootPageId)
    (positive : 1 ≤ (tree.data tree.rootPageId).size) (key : K) (result : Option V) :
    tree.Returns key result ↔
      ∀ value, result = some value ↔ (key, value) ∈ contents tree.data height tree.rootPageId := by
  have found (value : V) : LeafPage.lookup (tree.data (route tree.data key height tree.rootPageId)) key =
      some value ↔ (key, value) ∈ contents tree.data height tree.rootPageId := by
    rw [mem_contents_iff_route leafSize internalSize shaped separated positive]
    exact LeafPage.lookup_eq_some_iff key value (route_leaf leafSize internalSize shaped positive key).2.2.2
  rw [returns_iff_lookup leafSize internalSize granted rooted shaped positive]
  constructor
  · rintro rfl value
    exact found value
  · intro answer
    exact Option.ext fun value => by rw [found, ← answer]

/-- `GetValue` finds nothing in an empty tree. -/
theorem returns_empty_iff {tree : BPlusTree K V} (empty : tree.rootPageId = invalidPageId) (key : K)
    (result : Option V) : tree.Returns key result ↔ result = none := by
  have run (rounds : ℕ) : getValue rounds key tree = some (none, tree) := by
    change (if tree.isEmpty then _ else _ : TreeM K V (Option V)) tree = _
    rw [if_pos (by simpa [isEmpty] using empty)]
    rfl
  constructor
  · rintro ⟨enough, returned⟩
    obtain ⟨after, ran⟩ := returned enough le_rfl
    rw [run] at ran
    exact (Prod.mk.inj (Option.some.inj ran)).1.symm
  · rintro rfl
    exact ⟨0, fun rounds _ => ⟨tree, run rounds⟩⟩

end BPlusTree

end OneBase
