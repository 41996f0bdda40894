import OneBase.Proofs.BPlusTree.Rebalance
import OneBase.Proofs.BPlusTree.WellFormed

/-! # Removing a key

The cascade of `Remove`, from the leaf up. What the code will do is read off the tree before the
call: which pages underflow, where an internal page merges, and where one borrows from the left
under a stale first key. A removal from a subtree either settles inside it or leaves its top one
element short, in which case the code goes on at the parent.
-/

namespace OneBase

open BPlusTreePage Separators PageStore ListEdits

variable {K V : Type} [LinearOrder K]

namespace BPlusTree

section Path

variable (d : PageStore K V) (key : K)

/-- The sibling the code picks for child `c` of page `p`, and whether it stands to the left. -/
def siblingAt (p c : PageId) : PageId × Bool := siblingOf (d p) (InternalPage.valueIndex (d p) c)

/-- The sibling of the child of `p` that `key` routes to has nothing to lend. -/
def SiblingPoor (p : PageId) : Prop :=
  (d (siblingAt d p (InternalPage.lookup (d p) key)).1).size ≤
    (d (siblingAt d p (InternalPage.lookup (d p) key)).1).getMinSize

/-- Removing `key` takes an element from the page at this height, and the page has none to spare. -/
def Underflows : ℕ → PageId → Prop
  | 0, p => (LeafPage.lookup (d p) key).isSome ∧ (d p).size ≤ (d p).getMinSize
  | height + 1, p => Underflows height (InternalPage.lookup (d p) key) ∧ SiblingPoor d key p ∧
      (d p).size ≤ (d p).getMinSize

/-- Removing `key` merges two internal pages. -/
def MergesInternal : ℕ → PageId → Prop
  | 0, _ => False
  | 1, _ => False
  | height + 2, p => (Underflows d key (height + 1) (InternalPage.lookup (d p) key) ∧ SiblingPoor d key p) ∨
      MergesInternal (height + 1) (InternalPage.lookup (d p) key)

/-- Removing `key` makes an internal page borrow from its left sibling, and the first key of the
borrowing page, which no search reads, does not separate the moved child from the ones before it. -/
def BorrowsStale : ℕ → PageId → Prop
  | 0, _ => False
  | 1, _ => False
  | height + 2, p => (Underflows d key (height + 1) (InternalPage.lookup (d p) key) ∧ ¬ SiblingPoor d key p ∧
        (siblingAt d p (InternalPage.lookup (d p) key)).2 = true ∧
        ¬ StaleKeySplits d height (siblingAt d p (InternalPage.lookup (d p) key)).1
          (InternalPage.lookup (d p) key)) ∨
      BorrowsStale (height + 1) (InternalPage.lookup (d p) key)

variable {d key}

/-- A borrow ends the cascade, so an underflow has no borrow below it. -/
theorem Underflows.not_borrowsStale {height : ℕ} {p : PageId} (under : Underflows d key height p) :
    ¬ BorrowsStale d key height p := by
  induction height generalizing p with
  | zero => exact id
  | succ height ih =>
    cases height with
    | zero => exact id
    | succ height =>
      rintro (⟨-, rich, -, -⟩ | below)
      · exact rich under.2.1
      · exact ih under.1 below

/-- What the removal takes out of the leaf it reaches. -/
def removedEntry (d : PageStore K V) (key : K) (height : ℕ) (p : PageId) : List (K × V) :=
  match LeafPage.lookup (d (route d key height p)) key with
  | some value => [(key, value)]
  | none => []

end Path

/-- One level of the walk up from an underfull page at a height. -/
def coalesce [Inhabited K] [Inhabited V] (rounds : ℕ) : ℕ → PageId → TreeM K V Unit
  | 0 => coalesceOrRedistribute rounds
  | height + 1 => coalesceOrRedistributeInternal (rounds - height)

/-- Whether the separator a borrow writes is right. -/
def BorrowSplits (d : PageStore K V) : ℕ → Bool → PageId → PageId → Prop
  | height + 1, true, x, y => StaleKeySplits d height x y
  | _, _, _, _ => True

section Step

variable {d : PageStore K V} {key : K} {height : ℕ} {p : PageId}

theorem borrowsStale_succ {c : PageId} (found : InternalPage.lookup (d p) key = c) :
    BorrowsStale d key (height + 1) p ↔
      (Underflows d key height c ∧ ¬ SiblingPoor d key p ∧
        ¬ BorrowSplits d height (siblingAt d p c).2 (siblingAt d p c).1 c) ∨ BorrowsStale d key height c := by
  subst found
  cases height with
  | zero => simp [BorrowsStale, BorrowSplits]
  | succ height =>
    rw [BorrowsStale]
    cases (siblingAt d p (InternalPage.lookup (d p) key)).2 <;> simp [BorrowSplits]

theorem mergesInternal_succ {c : PageId} (found : InternalPage.lookup (d p) key = c) :
    MergesInternal d key (height + 1) p ↔
      (height ≠ 0 ∧ Underflows d key height c ∧ SiblingPoor d key p) ∨ MergesInternal d key height c := by
  subst found
  cases height <;> simp [MergesInternal]

end Step

/-- What a subtree looks like after the removal reached its top. -/
structure Removed (leafMax internalMax : ℕ) (key : K) (old : List (K × V)) (d d' : PageStore K V) (height : ℕ)
    (p : PageId) : Prop where
  node : NodeRewritten leafMax internalMax (fun _ => False) old [] d d' height p
  separated : Separated d' height p ↔ ¬ BorrowsStale d key height p
  parented : Parented d' height p ↔ ¬ MergesInternal d key height p

section Child

variable {leafMax internalMax : ℕ} {key : K} {old : List (K × V)} {d d' : PageStore K V} {height : ℕ} {p : PageId}
  {link : K × PageId} (leafSize : 2 ≤ leafMax) (internalSize : 3 ≤ internalMax)
  (sub : Subtree leafMax internalMax d (height + 1) p) (member : link ∈ (d p).links)
  (removed : Removed leafMax internalMax key old d d' height link.2)

include removed

/-- A removal adds no key. -/
theorem Removed.keyBelow {k : K} (stored : KeyBelow d' height link.2 k) : KeyBelow d height link.2 k := by
  obtain ⟨value, stored⟩ := stored
  have edit := (removed.node.rewritten link.1).stored
  simp only [storedIn_cons, storedIn_nil, List.append_nil] at edit
  exact ⟨value, (edit.mem_of_mem stored).resolve_right (by simp)⟩

include sub member

/-- The parent and the other children are untouched. -/
theorem Removed.elsewhere :
    d' p = d p ∧ ∀ other ∈ (d p).links, other ≠ link → ∀ q ∈ pagesOf d height other.2, d' q = d q := by
  have frame (q : PageId) (outside : q ∉ pagesOf d height link.2) : d' q = d q :=
    (removed.node.rewritten link.1).frame q (by simpa using outside) id
  constructor
  · exact frame p fun inside => sub.top_not_mem (mem_pagesIn.mpr ⟨link, member, inside⟩)
  · intro other linked different q inside
    exact frame q fun inside' => different (link_unique sub.distinct_below linked member inside inside')

/-- A removal that settles in a child settles the parent. -/
theorem Removed.settle (found : InternalPage.lookup (d p) key = link.2)
    (filled : Filled leafMax internalMax d' height link.2) (full : ¬ Underflows d key height link.2) :
    Removed leafMax internalMax key old d d' (height + 1) p ∧ d' p = d p := by
  have top := (removed.elsewhere sub member).1
  obtain ⟨before, after, cut⟩ := List.append_of_mem member
  have cut' : (d p).links = before ++ ([link] ++ after) := by simpa using cut
  obtain ⟨node, separated, parented⟩ := (removed.node.rewritten link.1).node sub (by simp) cut' cut' rfl rfl rfl
    (by simpa using filled) (by simpa using removed.node.parentPageId.trans (sub.child_parent member))
  rw [← top, Function.update_eq_self] at node separated parented
  refine ⟨⟨node, ?_, ?_⟩, top⟩
  · rw [separated, borrowsStale_succ found, or_iff_right (fun stuck => full stuck.1), ← removed.separated]
    have old := sub.separated
    rw [separated_succ, cut', separatedIn_window] at old
    simp only [SeparatedIn, bounded_singleton, List.mem_singleton, forall_eq] at old ⊢
    exact and_iff_right fun k stored => old.2.1.1 k (removed.keyBelow stored)
  · rw [parented, mergesInternal_succ found, or_iff_right (fun stuck => full stuck.2.1), ← removed.parented]
    simp

/-- What a child has dropped its parent has dropped. -/
theorem Removed.settle_dropped {dropped : List PageId} (gone : Dropped d d' height link.2 dropped) :
    Dropped d d' (height + 1) p dropped := by
  have top := (removed.elsewhere sub member).1
  obtain ⟨before, after, cut⟩ := List.append_of_mem member
  have cut' : (d p).links = before ++ ([link] ++ after) := by simpa using cut
  intro q inDropped
  obtain ⟨inside, out⟩ := gone q inDropped
  have above := (removed.node.rewritten link.1).left_above sub (by simp) cut' cut' (by simpa using inside)
    (by simpa using out)
  rwa [← top, Function.update_eq_self] at above

section Siblings

variable {front back : List (K × PageId)} {x y : K × PageId}
  (cut : (d p).links = front ++ ([x, y] ++ back)) (one : link = x ∨ link = y)

include cut

omit removed member in
private theorem pair_distinct :
    (pagesIn d height [x, y]).Nodup ∧ x ≠ y ∧ x ∈ (d p).links ∧ y ∈ (d p).links := by
  have distinct := sub.distinct_below
  rw [cut, pagesIn_append, pagesIn_append] at distinct
  have pairDistinct := (List.nodup_append.mp (List.nodup_append.mp distinct).2.1).1
  refine ⟨pairDistinct, ?_, by simp [cut], by simp [cut]⟩
  rintro rfl
  simp only [pagesIn_cons, pagesIn_nil, List.append_nil] at pairDistinct
  exact (List.nodup_append.mp pairDistinct).2.2 _ (mem_pagesOf_self d height x.2) _
    (mem_pagesOf_self d height x.2) rfl

include one

omit member in
/-- The removal seen on the child and its sibling together. -/
theorem Removed.rewritten_pair :
    Rewritten leafMax internalMax (fun _ => False) old [] d d' height [x, y] [x, y] := by
  obtain ⟨distinct, -, inX, inY⟩ := pair_distinct sub cut
  rcases one with rfl | rfl
  · exact (removed.node.rewritten link.1).context [] [y] distinct (by simp)
      (by simpa using (sub.child inY).shaped)
  · exact (removed.node.rewritten link.1).context [x] [] distinct (by simp)
      (by simpa using (sub.child inX).shaped)

include leafSize internalSize in
/-- An underfull child and its sibling, ready to be rebalanced. -/
theorem Removed.pair (under : Underflows d key height link.2) :
    Pair leafMax internalMax d' height p front back x y ∧
      ∀ t ∈ [x.2, y.2], (d' t).pageType = .internalPage → ∀ c ∈ (d' t).children, (d' c).parentPageId = t := by
  obtain ⟨distinct, different, inX, inY⟩ := pair_distinct sub cut
  obtain ⟨top, elsewhere⟩ := removed.elsewhere sub member
  have step := removed.rewritten_pair sub cut one
  have distinctBelow := sub.distinct_below
  rw [cut] at distinctBelow
  have whole := step.context _ _ distinctBelow (by simp) fun other outside =>
    (sub.child (by rw [cut]; simp only [List.mem_append] at outside ⊢; tauto)).shaped
  rw [← cut] at whole
  have separatedLink : Separated d' height link.2 := removed.separated.mpr under.not_borrowsStale
  have sibling (other : K × PageId) (linked : other ∈ (d p).links) (distinctLink : other ≠ link) :
      Subtree leafMax internalMax d' height other.2 ∧ (d' other.2).parentPageId = p := by
    refine ⟨(sub.child linked).of_eq (elsewhere other linked distinctLink), ?_⟩
    rw [elsewhere other linked distinctLink _ (mem_pagesOf_self d height other.2)]
    exact sub.child_parent linked
  -- each of the two is either the child itself or untouched
  have both : ∀ other ∈ [x, y], Separated d' height other.2 ∧ (d' other.2).parentPageId = p ∧
      ((d' other.2).pageType = .internalPage → ∀ c ∈ (d' other.2).children, (d' c).parentPageId = other.2) ∧
      ∀ k, KeyBelow d' height other.2 k → KeyBelow d height other.2 k := by
    intro other inPair
    by_cases same : other = link
    · subst same
      exact ⟨separatedLink, removed.node.parentPageId.trans (sub.child_parent member), removed.node.adopted,
        fun k stored => removed.keyBelow stored⟩
    · have linked : other ∈ (d p).links := by
        rcases List.mem_pair.mp inPair with rfl | rfl
        · exact inX
        · exact inY
      obtain ⟨sound, parent⟩ := sibling other linked same
      refine ⟨sound.separated, parent, sound.adopted, fun k stored => ?_⟩
      simpa only [KeyBelow, (reading_congr fun q inside => Alike.of_eq (elsewhere other linked same q inside)).2.2]
        using stored
  have window := sub.separated
  have inhabited := sub.shaped.children_inhabited leafSize internalSize
  rw [separated_succ, cut, separatedIn_window] at window
  obtain ⟨-, ⟨bounded, -⟩, -⟩ := window
  refine ⟨⟨by rw [top]; exact cut, ?_, ?_, ?_, ?_, (both x (by simp)).2.1, (both y (by simp)).2.1,
    ⟨?_, ?_⟩, ?_⟩, ?_⟩
  · rw [pagesOf_succ, top, List.nodup_cons]
    exact ⟨whole.above_not_mem sub.top_not_mem id, whole.distinct⟩
  · intro q inside
    rw [pagesOf_succ, top] at inside
    rcases List.mem_cons.mp inside with rfl | inside
    · exact sub.valid _ (mem_pagesOf_self d _ _)
    · refine sub.valid q ?_
      rw [pagesOf_succ]
      exact List.mem_cons_of_mem _ ((whole.pages q inside).resolve_right id)
  · exact step.shaped x (by simp)
  · exact step.shaped y (by simp)
  · exact bounded.anti fun other inPair k stored => (both other inPair).2.2.2 k stored
  · exact fun other inPair => (both other inPair).1
  · have between := bounded.separator_within fun other inPair => inhabited other (by
      rcases List.mem_pair.mp inPair with rfl | rfl
      · exact inX
      · exact inY)
    exact ⟨fun a bound => (between.1 a bound).le, fun b bound => (between.2 b bound).le⟩
  · simpa using ⟨(both x (by simp)).2.2.1, (both y (by simp)).2.2.1⟩

/-- The parent after the child was rebalanced with its sibling. -/
theorem Removed.rebalance {store : PageStore K V} {page : BPlusTreePage K V} {win : List (K × PageId)}
    (rebalanced : Rebalanced leafMax internalMax d' store height p front back x y (x :: win) page) :
    NodeRewritten leafMax internalMax (fun _ => False) old [] d (Function.update store p page) (height + 1) p ∧
      (Separated (Function.update store p page) (height + 1) p ↔
        SeparatedIn store height (lowKey front x.1) (x :: win) (headKey back none)) ∧
      (Parented (Function.update store p page) (height + 1) p ↔
        ∀ link ∈ x :: win, Parented store height link.2) := by
  have top := (removed.elsewhere sub member).1
  have step := (removed.rewritten_pair sub cut one).trans rebalanced.rewritten
  exact step.node sub (by simp) cut rebalanced.links (by rw [rebalanced.pageType, top])
    (by rw [rebalanced.maxSize, top]) (by rw [rebalanced.parentPageId, top]) rebalanced.filled rebalanced.parents

/-- What the child has dropped is in neither of the two. -/
theorem Removed.dropped_pair {dropped : List PageId} (gone : Dropped d d' height link.2 dropped) :
    ∀ q ∈ dropped, q ∈ pagesIn d height [x, y] ∧ q ∉ pagesIn d' height [x, y] := by
  obtain ⟨-, different, inX, inY⟩ := pair_distinct sub cut
  intro q inDropped
  obtain ⟨inside, out⟩ := gone q inDropped
  have outOther (other : K × PageId) (linked : other ∈ (d p).links) (notLink : other ≠ link) :
      q ∉ pagesOf d' height other.2 := by
    have same := (removed.elsewhere sub member).2 other linked notLink
    rw [(reading_congr fun q inside => Alike.of_eq (same q inside)).1]
    exact fun inOther => notLink (link_unique sub.distinct_below linked member inOther inside)
  rcases one with rfl | rfl
  · exact ⟨by simp [inside], by simpa using ⟨out, outOther y inY (Ne.symm different)⟩⟩
  · exact ⟨by simp [inside], by simpa using ⟨outOther x inX different, out⟩⟩

/-- What the child has dropped stays out of the parent when the two are rebalanced. -/
theorem Removed.dropped_rebalance {store : PageStore K V} {page : BPlusTreePage K V} {win : List (K × PageId)}
    (rebalanced : Rebalanced leafMax internalMax d' store height p front back x y (x :: win) page)
    {dropped : List PageId} (gone : Dropped d d' height link.2 dropped) :
    Dropped d (Function.update store p page) (height + 1) p dropped := by
  intro q inDropped
  obtain ⟨inside, out⟩ := removed.dropped_pair sub member cut one gone q inDropped
  apply ((removed.rewritten_pair sub cut one).trans rebalanced.rewritten).left_above sub (by simp) cut
    rebalanced.links inside
  exact fun still => (rebalanced.rewritten.pages q still).elim out id

/-- So does the page that a merge drops. -/
theorem Removed.dropped_merge {store : PageStore K V} {page : BPlusTreePage K V}
    (rebalanced : Rebalanced leafMax internalMax d' store height p front back x y [x] page)
    (out : y.2 ∉ pagesIn store height [x]) {dropped : List PageId} (gone : Dropped d d' height link.2 dropped) :
    Dropped d (Function.update store p page) (height + 1) p (y.2 :: dropped) := by
  intro q inDropped
  rcases List.mem_cons.mp inDropped with rfl | inDropped
  · exact ((removed.rewritten_pair sub cut one).trans rebalanced.rewritten).left_above sub (by simp) cut
      rebalanced.links (mem_pagesIn_of_mem (by simp)) out
  · exact removed.dropped_rebalance sub member cut one rebalanced gone q inDropped

variable (found : InternalPage.lookup (d p) key = link.2) (under : Underflows d key height link.2)
  {store : PageStore K V} {page : BPlusTreePage K V} {κ : K}

include found under

/-- The parent after a borrow. -/
theorem Removed.borrowed (rich : ¬ SiblingPoor d key p)
    (rebalanced : Rebalanced leafMax internalMax d' store height p front back x y [x, (κ, y.2)] page)
    (splits : SeparatedIn store height (lowKey front x.1) [x, (κ, y.2)] (headKey back none) ↔
      BorrowSplits d height (siblingAt d p link.2).2 (siblingAt d p link.2).1 link.2)
    (parents : Parented store height x.2 ∧ Parented store height y.2 ↔ Parented d' height link.2) :
    Removed leafMax internalMax key old d (Function.update store p page) (height + 1) p ∧
      (Function.update store p page p).size = (d p).size := by
  obtain ⟨node, separated, parented⟩ := removed.rebalance sub member cut one rebalanced
  refine ⟨⟨node, ?_, ?_⟩, ?_⟩
  · rw [separated, splits, borrowsStale_succ found, or_iff_left under.not_borrowsStale]
    tauto
  · rw [parented, mergesInternal_succ found, or_iff_right (fun stuck => rich stuck.2.2), ← removed.parented,
      ← parents]
    simp
  · rw [Function.update_self, ← links_length, ← links_length, rebalanced.links, cut]
    simp

/-- The parent after a merge. -/
theorem Removed.merged (poor : SiblingPoor d key p)
    (rebalanced : Rebalanced leafMax internalMax d' store height p front back x y [x] page)
    (separatedIn : SeparatedIn store height (lowKey front x.1) [x] (headKey back none))
    (parents : Parented store height x.2 ↔ height = 0) :
    Removed leafMax internalMax key old d (Function.update store p page) (height + 1) p ∧
      (Function.update store p page p).size + 1 = (d p).size := by
  obtain ⟨node, separated, parented⟩ := removed.rebalance sub member cut one rebalanced
  refine ⟨⟨node, ?_, ?_⟩, ?_⟩
  · rw [separated, borrowsStale_succ found, or_iff_left under.not_borrowsStale]
    exact iff_of_true separatedIn fun stuck => stuck.2.1 poor
  · rw [parented, mergesInternal_succ found]
    simp only [List.mem_singleton, forall_eq, parents]
    cases height with
    | zero => simp [MergesInternal]
    | succ height => simp [under, poor]
  · rw [Function.update_self, ← links_length, ← links_length, rebalanced.links, cut]
    simp
    omega

end Siblings

/-- The stale first key is judged alike before and after the removal below it. -/
theorem Removed.borrowSplits_iff {x : K × PageId} (linked : x ∈ (d p).links) (different : x ≠ link) :
    BorrowSplits d' height true x.2 link.2 ↔ BorrowSplits d height true x.2 link.2 := by
  cases height with
  | zero => simp [BorrowSplits]
  | succ height =>
    have same := (removed.elsewhere sub member).2 x linked different
    have kind : (d' link.2).pageType = .internalPage :=
      ((removed.node.rewritten link.1).shaped _ (List.mem_singleton_self _)).1
    have top := same x.2 (mem_pagesOf_self d _ x.2)
    have below : ∀ other ∈ (d x.2).links, contents d' height other.2 = contents d height other.2 :=
      fun other inX => (reading_congr fun q inside => Alike.of_eq (same q (pagesOf_of_mem_links inX inside))).2.2
    have kept : storedIn d' height (d x.2).links.dropLast = storedIn d height (d x.2).links.dropLast :=
      List.flatMap_congr fun other inX => below other (List.dropLast_subset _ inX)
    simp only [BorrowSplits, StaleKeySplits, top, removed.node.firstKey kind, kept]
    refine and_congr_right fun _ => forall₂_congr fun other inX => ?_
    rw [below other (List.mem_of_mem_getLast? inX)]

end Child

section Coalesce

variable [Inhabited K] [Inhabited V] {leafMax internalMax : ℕ} {v : View K V} {p : PageId} {height : ℕ}
  {front back : List (K × PageId)} {x y : K × PageId} {rounds : ℕ} {Q : Unit → View K V → Prop}
  (leafSize : 2 ≤ leafMax) (internalSize : 3 ≤ internalMax)
  (pair : Pair leafMax internalMax v.data height p front back x y)
  (adopted : ∀ t ∈ [x.2, y.2], (v.data t).pageType = .internalPage →
    ∀ c ∈ (v.data t).children, (v.data c).parentPageId = t)
  (enough : height ≤ rounds)

include leafSize internalSize pair adopted enough

/-- One round for a page with a left sibling. -/
theorem runs_coalesce_left
    (under : (v.data y.2).size + 1 = minFill leafMax internalMax height)
    (sibling : Filled leafMax internalMax v.data height x.2)
    (borrow : minFill leafMax internalMax height < (v.data x.2).size →
      AfterBorrow leafMax internalMax v height p front back x y (BorrowSplits v.data height true x.2 y.2) Q)
    (merge : (v.data x.2).size ≤ minFill leafMax internalMax height →
      AfterMerge leafMax internalMax v height p front back x y
        (finishMerge (coalesce rounds (height + 1)) p) Q) :
    Runs (coalesce rounds height y.2) v Q := by
  cases height with
  | zero => exact runs_coalesce_leaf_left pair under sibling borrow merge
  | succ height =>
    have fuel : rounds - height = (rounds - (height + 1)) + 1 := by omega
    rw [coalesce, fuel]
    exact runs_coalesce_internal_left leafSize internalSize pair
      (adopted x.2 (by simp) pair.shapedX.1) (adopted y.2 (by simp) pair.shapedY.1) under sibling borrow merge

/-- One round for a first child. -/
theorem runs_coalesce_right (first : front = [])
    (under : (v.data x.2).size + 1 = minFill leafMax internalMax height)
    (sibling : Filled leafMax internalMax v.data height y.2)
    (borrow : minFill leafMax internalMax height < (v.data y.2).size →
      AfterBorrow leafMax internalMax v height p front back x y (BorrowSplits v.data height false x.2 y.2) Q)
    (merge : (v.data y.2).size ≤ minFill leafMax internalMax height →
      AfterMerge leafMax internalMax v height p front back x y
        (finishMerge (coalesce rounds (height + 1)) p) Q) :
    Runs (coalesce rounds height x.2) v Q := by
  cases height with
  | zero => exact runs_coalesce_leaf_right pair first under sibling borrow merge
  | succ height =>
    have fuel : rounds - height = (rounds - (height + 1)) + 1 := by omega
    rw [coalesce, fuel]
    exact runs_coalesce_internal_right leafSize internalSize pair
      (adopted x.2 (by simp) pair.shapedX.1) (adopted y.2 (by simp) pair.shapedY.1) first under sibling
      borrow merge

end Coalesce

section Cascade

variable [Inhabited K] [Inhabited V] {leafMax internalMax : ℕ} {d : PageStore K V} {v : View K V} {key : K}
  {old : List (K × V)} {p : PageId} {height rounds : ℕ} {link : K × PageId} {Q : Unit → View K V → Prop}
  (leafSize : 2 ≤ leafMax) (internalSize : 3 ≤ internalMax)

/-- The rest of `Remove` once the leaf is found and pinned. -/
def removeTail (rounds : ℕ) (key : K) (leafPageId : PageId) : TreeM K V Unit := do
  let leafPage := (LeafPage.removeAndDeleteRecord (← page leafPageId) key).1
  writePage leafPageId leafPage
  if leafPage.size < leafPage.getMinSize ∧ ¬ leafPage.isRootPage then
    coalesceOrRedistribute rounds leafPageId
  else if leafPage.size = 0 ∧ leafPage.isRootPage then
    modify fun tree => { tree with rootPageId := invalidPageId }
    unpinPage leafPageId true
    deletePage leafPageId
  else unpinPage leafPageId true

include leafSize internalSize

/-- The walk up passes a parent: the child it comes from borrows, and the parent is settled, or it
merges, and the parent has one child less. -/
theorem runs_coalesce_child (sub : Subtree leafMax internalMax d (height + 1) p)
    (member : link ∈ (d p).links) (found : InternalPage.lookup (d p) key = link.2)
    (many : 2 ≤ (d p).size) (removed : Removed leafMax internalMax key old d v.data height link.2)
    {dropped : List PageId} (gone : Dropped d v.data height link.2 dropped)
    (under : Underflows d key height link.2)
    (short : (v.data link.2).size + 1 = minFill leafMax internalMax height) (enough : height ≤ rounds)
    (settled : ∀ d', Removed leafMax internalMax key old d d' (height + 1) p →
      Dropped d d' (height + 1) p dropped → (d' p).size = (d p).size → ¬ SiblingPoor d key p →
      Q () { v with data := d' })
    (merged : ∀ d' q, Removed leafMax internalMax key old d d' (height + 1) p →
      Dropped d d' (height + 1) p (q :: dropped) → (d' p).size + 1 = (d p).size → SiblingPoor d key p →
      Runs (finishMerge (coalesce rounds (height + 1)) p) { v with data := d', deleted := q :: v.deleted } Q) :
    Runs (coalesce rounds height link.2) v Q := by
  obtain ⟨before, after, cutLink⟩ := List.append_of_mem member
  have size : (d p).size = before.length + after.length + 1 := by
    rw [← links_length, cutLink]; simp; omega
  have notStale := under.not_borrowsStale
  have top := (removed.elsewhere sub member).1
  have siblingFacts (x : K × PageId) (linked : x ∈ (d p).links) (different : x ≠ link)
      (sibling : (siblingAt d p link.2).1 = x.2) :
      Filled leafMax internalMax v.data height x.2 ∧ Parented v.data height x.2 ∧
        (SiblingPoor d key p ↔ (v.data x.2).size ≤ minFill leafMax internalMax height) := by
    have same := (removed.elsewhere sub member).2 x linked different
    have sound := (sub.child linked).of_eq same
    have atX := same x.2 (mem_pagesOf_self d height x.2)
    refine ⟨?_, sound.parented, ?_⟩
    · rw [Filled, atX]
      exact sub.child_filled linked
    · rw [SiblingPoor, found, sibling, atX, (sub.child linked).shaped.getMinSize]
  rcases List.eq_nil_or_concat before with rfl | ⟨front, x, rfl⟩
  · obtain ⟨y, back, rfl⟩ := List.exists_cons_of_ne_nil (show after ≠ [] by
      rintro rfl
      simp only [List.length_nil] at size
      omega)
    have cut : (d p).links = [] ++ ([link, y] ++ back) := cutLink
    obtain ⟨pair, adopted⟩ := removed.pair leafSize internalSize sub member cut (.inl rfl) under
    have different : y ≠ link := fun same => pair.ne (by rw [same])
    have sibling : siblingAt d p link.2 = (y.2, false) := (siblingOf_right (top ▸ pair.cut)).2
    obtain ⟨filled, parentedY, poor⟩ := siblingFacts y (by simp [cut]) different (by rw [sibling])
    refine runs_coalesce_right leafSize internalSize pair adopted enough rfl short filled ?_ ?_
    · intro rich κ store page rebalanced splits parented
      have notPoor : ¬ SiblingPoor d key p := fun isPoor => absurd (poor.mp isPoor) (not_le.mpr rich)
      obtain ⟨after, same⟩ := removed.borrowed sub member cut (.inl rfl) found under notPoor rebalanced
        (by rw [splits, sibling]; cases height <;> rfl) (by rw [parented]; exact and_iff_left parentedY)
      have droppedAfter := removed.dropped_rebalance sub member cut (.inl rfl) rebalanced gone
      exact settled _ after droppedAfter same notPoor
    · intro poorY store page rebalanced out separated parented
      obtain ⟨after, fewer⟩ := removed.merged sub member cut (.inl rfl) found under (poor.mpr poorY) rebalanced
        separated parented
      have droppedAfter := removed.dropped_merge sub member cut (.inl rfl) rebalanced out gone
      exact merged _ _ after droppedAfter fewer (poor.mpr poorY)
  · have cut : (d p).links = front ++ ([x, link] ++ after) := by simpa using cutLink
    obtain ⟨pair, adopted⟩ := removed.pair leafSize internalSize sub member cut (.inr rfl) under
    have different : x ≠ link := fun same => pair.ne (by rw [same])
    have linked : x ∈ (d p).links := by simp [cut]
    have sibling : siblingAt d p link.2 = (x.2, true) :=
      (siblingOf_left (top ▸ pair.cut) (top ▸ pair.distinct_links)).2
    obtain ⟨filled, parentedX, poor⟩ := siblingFacts x linked different (by rw [sibling])
    refine runs_coalesce_left leafSize internalSize pair adopted enough short filled ?_ ?_
    · intro rich κ store page rebalanced splits parented
      have notPoor : ¬ SiblingPoor d key p := fun isPoor => absurd (poor.mp isPoor) (not_le.mpr rich)
      obtain ⟨after, same⟩ := removed.borrowed sub member cut (.inr rfl) found under notPoor rebalanced
        (by rw [splits, sibling]; exact removed.borrowSplits_iff sub member linked different)
        (by rw [parented]; exact and_iff_right parentedX)
      have droppedAfter := removed.dropped_rebalance sub member cut (.inr rfl) rebalanced gone
      exact settled _ after droppedAfter same notPoor
    · intro poorX store page rebalanced out separated parented
      obtain ⟨after, fewer⟩ := removed.merged sub member cut (.inr rfl) found under (poor.mpr poorX) rebalanced
        separated parented
      have droppedAfter := removed.dropped_merge sub member cut (.inr rfl) rebalanced out gone
      exact merged _ _ after droppedAfter fewer (poor.mpr poorX)

omit leafSize internalSize [Inhabited K] [Inhabited V] in
/-- `RemoveAndDeleteRecord` on a leaf of the tree. -/
theorem removed_leaf (shaped : Shaped leafMax internalMax d 0 p) (key : K) :
    Removed leafMax internalMax key (removedEntry d key 0 p) d
        (Function.update d p (LeafPage.removeAndDeleteRecord (d p) key).1) 0 p ∧
      SameHeader (LeafPage.removeAndDeleteRecord (d p) key).1 (d p) ∧
      (LeafPage.removeAndDeleteRecord (d p) key).1.size = (LeafPage.removeAndDeleteRecord (d p) key).2 ∧
      (d p).size = (LeafPage.removeAndDeleteRecord (d p) key).2 +
        if (LeafPage.lookup (d p) key).isSome then 1 else 0 := by
  obtain ⟨kind, capacity, sorted⟩ := shaped
  have header : SameHeader (LeafPage.removeAndDeleteRecord (d p) key).1 (d p) := by
    unfold LeafPage.removeAndDeleteRecord
    dsimp only
    split <;> exact ⟨rfl, rfl, rfl, rfl⟩
  have size : (LeafPage.removeAndDeleteRecord (d p) key).1.size = (LeafPage.removeAndDeleteRecord (d p) key).2 := by
    unfold LeafPage.removeAndDeleteRecord
    dsimp only
    split <;> rfl
  have lookup (value : V) := LeafPage.lookup_eq_some_iff key value sorted
  have outcome : (LeafPage.removeAndDeleteRecord (d p) key).1.entries.Pairwise (fun a b => a.1 < b.1) ∧
      Edits (removedEntry d key 0 p) [] (d p).entries (LeafPage.removeAndDeleteRecord (d p) key).1.entries ∧
      (d p).size = (LeafPage.removeAndDeleteRecord (d p) key).2 +
        if (LeafPage.lookup (d p) key).isSome then 1 else 0 := by
    rcases LeafPage.remove_cases key sorted with ⟨same, absent⟩ |
      ⟨before, value, after, cut, -, -, entries, fewer⟩
    · have missing : LeafPage.lookup (d p) key = none := Option.eq_none_iff_forall_ne_some.mpr fun value found =>
        absent _ ((lookup value).mp found) rfl
      rw [same, removedEntry, route, missing]
      exact ⟨sorted, edits_nil_iff.mpr rfl, rfl⟩
    · have found : LeafPage.lookup (d p) key = some value := (lookup value).mpr (by simp [cut])
      rw [entries, removedEntry, route, found]
      refine ⟨?_, ⟨before, after, by simpa using cut, rfl⟩, fewer.symm⟩
      rw [cut] at sorted
      exact sorted.sublist (List.Sublist.append_left (List.sublist_cons_self _ _) _)
  refine ⟨⟨⟨fun _ => .leaf (header.1.trans kind) (header.2.1.trans capacity) outcome.1 header.2.2.2 outcome.2.1,
    ?_, ?_, ?_⟩, ?_, ?_⟩, header, size, outcome.2.2⟩
  · simpa using header.2.2.1
  · simp [header.1, kind]
  · simp [header.1, kind]
  · simp [Separated, BorrowsStale]
  · simp [Parented, MergesInternal]

/-- Removing from a subtree below the root settles inside it or leaves its top one element short. -/
def Cascades (leafMax internalMax rounds : ℕ) (key : K) (height : ℕ) : Prop :=
  ∀ (v : View K V) (p : PageId) (Q : Unit → View K V → Prop),
    Subtree leafMax internalMax v.data height p → Filled leafMax internalMax v.data height p →
    (v.data p).parentPageId ≠ invalidPageId →
    (∀ d' dropped, Removed leafMax internalMax key (removedEntry v.data key height p) v.data d' height p →
      Dropped v.data d' height p dropped → Filled leafMax internalMax d' height p →
      ¬ Underflows v.data key height p → Q () { v with data := d', deleted := dropped ++ v.deleted }) →
    (∀ d' dropped, Removed leafMax internalMax key (removedEntry v.data key height p) v.data d' height p →
      Dropped v.data d' height p dropped → (d' p).size + 1 = minFill leafMax internalMax height →
      Underflows v.data key height p →
      Runs (coalesce rounds height p) { v with data := d', deleted := dropped ++ v.deleted } Q) →
    Runs (removeTail rounds key (route v.data key height p)) v Q

omit leafSize internalSize in
theorem cascades_zero : Cascades (V := V) leafMax internalMax rounds key 0 := by
  intro v p Q sub filled inner settled up
  obtain ⟨removed, header, size, fewer⟩ := removed_leaf sub.shaped key
  have minimum : (LeafPage.removeAndDeleteRecord (v.data p) key).1.getMinSize = minFill leafMax internalMax 0 := by
    rw [header.getMinSize, sub.shaped.getMinSize]
  have notRoot : (LeafPage.removeAndDeleteRecord (v.data p) key).1.isRootPage = false := by
    simpa [isRootPage, header.2.2.1] using inner
  have under : Underflows v.data key 0 p ↔
      (LeafPage.removeAndDeleteRecord (v.data p) key).2 < minFill leafMax internalMax 0 := by
    rw [Underflows, sub.shaped.getMinSize]
    have low := filled.1
    split at fewer
    · rename_i found
      rw [and_iff_right found]
      omega
    · rename_i absent
      exact iff_of_false (fun both => absent both.1) (by omega)
  have close : (v.data p).size ≤ (LeafPage.removeAndDeleteRecord (v.data p) key).2 + 1 := by
    split at fewer <;> omega
  obtain ⟨low, high⟩ := filled
  rw [route, removeTail]
  refine runs_page (runs_writePage ?_)
  simp only [minimum, notRoot, size, Bool.false_eq_true, not_false_eq_true, and_true, and_false, ↓reduceIte]
  by_cases short : (LeafPage.removeAndDeleteRecord (v.data p) key).2 < minFill leafMax internalMax 0
  · rw [if_pos short]
    refine up _ [] removed (by simp [Dropped]) ?_ (under.mpr short)
    rw [Function.update_self, size]
    omega
  · rw [if_neg short]
    refine runs_last (runs_unpinPage (ObservedRuns.RunsTo.pure (settled _ [] removed (by simp [Dropped]) ?_
      (fun isUnder => short (under.mp isUnder)))))
    rw [Filled, Function.update_self, size]
    omega

/-- Removing from below a page that has at least two children. -/
theorem runs_removeTail_below (cascades : Cascades (V := V) leafMax internalMax rounds key height)
    (sub : Subtree leafMax internalMax v.data (height + 1) p) (many : 2 ≤ (v.data p).size)
    (enough : height ≤ rounds)
    (settled : ∀ d' dropped, Removed leafMax internalMax key (removedEntry v.data key (height + 1) p) v.data d'
        (height + 1) p → Dropped v.data d' (height + 1) p dropped → (d' p).size = (v.data p).size →
      ¬ Underflows v.data key (height + 1) p → Q () { v with data := d', deleted := dropped ++ v.deleted })
    (merged : ∀ d' dropped, Removed leafMax internalMax key (removedEntry v.data key (height + 1) p) v.data d'
        (height + 1) p → Dropped v.data d' (height + 1) p dropped → (d' p).size + 1 = (v.data p).size →
      (Underflows v.data key (height + 1) p ↔ (d' p).size < minFill leafMax internalMax (height + 1)) →
      Runs (finishMerge (coalesce rounds (height + 1)) p)
        { v with data := d', deleted := dropped ++ v.deleted } Q) :
    Runs (removeTail rounds key (route v.data key (height + 1) p)) v Q := by
  obtain ⟨before, link, after, cut, found, -, -⟩ :=
    lookup_route leafSize internalSize sub.shaped sub.separated (by omega) key
  have member : link ∈ (v.data p).links := by simp [cut]
  have entry : removedEntry v.data key (height + 1) p = removedEntry v.data key height link.2 := by
    rw [removedEntry, removedEntry, route, found]
  have inner : (v.data link.2).parentPageId ≠ invalidPageId := by
    rw [sub.child_parent member]
    exact sub.valid p (mem_pagesOf_self _ _ p)
  rw [entry] at settled merged
  rw [route, found]
  refine cascades v link.2 Q (sub.child member) (sub.child_filled member) inner ?_ ?_
  · intro d' dropped removed gone filled full
    obtain ⟨settledAbove, top⟩ := removed.settle sub member found filled full
    exact settled d' dropped settledAbove (removed.settle_dropped sub member gone) (by rw [top])
      fun isUnder => full (found ▸ isUnder.1)
  · intro d' dropped removed gone short under
    refine runs_coalesce_child leafSize internalSize sub member found many removed gone under short enough ?_ ?_
    · exact fun store above goneAbove same rich => settled store dropped above goneAbove same fun isUnder =>
        rich isUnder.2.1
    · intro store q above goneAbove fewer poor
      refine merged store (q :: dropped) above goneAbove fewer ?_
      rw [Underflows, found, sub.shaped.getMinSize]
      refine ⟨fun isUnder => ?_, fun less => ⟨under, poor, ?_⟩⟩ <;> omega

omit leafSize internalSize [LinearOrder K] in
/-- The end of a merge below the root. -/
theorem runs_finishMerge_inner {next : PageId → TreeM K V Unit} (inner : (v.data p).parentPageId ≠ invalidPageId)
    (up : (v.data p).size < (v.data p).getMinSize → Runs (next p) v Q)
    (stay : ¬ (v.data p).size < (v.data p).getMinSize → Q () v) : Runs (finishMerge next p) v Q := by
  have notRoot : (v.data p).isRootPage = false := by simpa [isRootPage] using inner
  rw [finishMerge]
  refine runs_page ?_
  simp only [notRoot, Bool.false_eq_true, not_false_eq_true, and_true, false_and, ↓reduceIte]
  by_cases short : (v.data p).size < (v.data p).getMinSize
  · rw [if_pos short]
    exact up short
  · rw [if_neg short]
    exact runs_last (runs_unpinPage (ObservedRuns.RunsTo.pure (stay short)))

theorem cascades_succ (cascades : Cascades (V := V) leafMax internalMax rounds key height)
    (enough : height ≤ rounds) : Cascades (V := V) leafMax internalMax rounds key (height + 1) := by
  intro v p Q sub filled inner settled up
  obtain ⟨low, high⟩ := filled
  have many : 2 ≤ (v.data p).size := by
    simp only [minFill] at low
    omega
  refine runs_removeTail_below leafSize internalSize cascades sub many enough ?_ ?_
  · intro d' dropped removed gone same full
    exact settled d' dropped removed gone (by rw [Filled, same]; exact ⟨low, high⟩) full
  · intro d' dropped removed gone fewer under
    have parent : (d' p).parentPageId ≠ invalidPageId := by rw [removed.node.parentPageId]; exact inner
    have shaped := (removed.node.rewritten key).shaped _ (List.mem_singleton_self _)
    refine runs_finishMerge_inner parent (fun short => ?_) fun full => ?_
    · rw [shaped.getMinSize] at short
      exact up d' dropped removed gone (by dsimp only at short; omega) (under.mpr short)
    · rw [shaped.getMinSize] at full
      refine settled d' dropped removed gone ⟨not_lt.mp full, ?_⟩ fun isUnder => full (under.mp isUnder)
      omega

theorem cascades (enough : height ≤ rounds) : Cascades (V := V) leafMax internalMax rounds key height := by
  induction height with
  | zero => exact cascades_zero
  | succ height ih => exact cascades_succ leafSize internalSize (ih (by omega)) (by omega)

end Cascade

section Root

variable {leafMax internalMax : ℕ} {key : K}

/-- What a removal makes of a whole tree: nothing is left, or a tree that has lost the removed
entry, in search order and with right parent pointers exactly as foretold. -/
def RemoveOutcome (leafMax internalMax : ℕ) (key : K) (d : PageStore K V) (height : ℕ) (root : PageId)
    (v : View K V) : Prop :=
  (v.rootPageId = invalidPageId ∧ Edits (removedEntry d key height root) [] (contents d height root) [] ∧
      ¬ BorrowsStale d key height root ∧ ¬ MergesInternal d key height root) ∨
    ∃ height', Rooted leafMax internalMax v.data height' v.rootPageId ∧
      (∀ q ∈ pagesOf v.data height' v.rootPageId, q ∈ pagesOf d height root) ∧
      Edits (removedEntry d key height root) [] (contents d height root) (contents v.data height' v.rootPageId) ∧
      (Separated v.data height' v.rootPageId ↔ ¬ BorrowsStale d key height root) ∧
      (Parented v.data height' v.rootPageId ↔ ¬ MergesInternal d key height root)

/-- No page passed to `DeletePage` between `v` and `v'` can be reached from the root of `v'`. -/
def DropsUnreachable (v v' : View K V) : Prop :=
  ∃ dropped, v'.deleted = dropped ++ v.deleted ∧
    (v'.rootPageId ≠ invalidPageId → ∀ q ∈ dropped, ¬ Reaches v'.data v'.rootPageId q)

omit [LinearOrder K] in
/-- A removal that keeps the root drops pages of the old tree only. -/
theorem dropsUnreachable_same {v : View K V} {d' : PageStore K V} {height : ℕ} {dropped : List PageId}
    (gone : Dropped v.data d' height v.rootPageId dropped) (uniform : UniformDepth d' height v.rootPageId) :
    DropsUnreachable v { v with data := d', deleted := dropped ++ v.deleted } := by
  refine ⟨dropped, rfl, fun _ q inDropped => ?_⟩
  rw [reaches_iff_mem_pagesOf uniform]
  exact (gone q inDropped).2

/-- A removal that leaves the root in place. -/
theorem Removed.outcome_same {v : View K V} {d : PageStore K V} {height : ℕ}
    (rooted : Rooted leafMax internalMax d height v.rootPageId)
    (removed : Removed leafMax internalMax key (removedEntry d key height v.rootPageId) d v.data height
      v.rootPageId)
    (low : rootMin height ≤ (v.data v.rootPageId).size)
    (high : (v.data v.rootPageId).size ≤ maxFill leafMax internalMax height) :
    RemoveOutcome leafMax internalMax key d height v.rootPageId v := by
  obtain ⟨-, pages, distinct, shaped, stored, -, chain⟩ := removed.node.rewritten key
  simp only [pagesIn_cons, pagesIn_nil, leavesIn_cons, leavesIn_nil, storedIn_cons, storedIn_nil,
    List.append_nil] at pages distinct stored chain
  exact .inr ⟨height, ⟨shaped _ (List.mem_singleton_self _), low, high,
    removed.node.parentPageId.trans rooted.parent, distinct, chain _ rooted.chain⟩,
    fun q inside => (pages q inside).resolve_right id, stored, removed.separated, removed.parented⟩

section Shrink

variable {v : View K V} {d d' : PageStore K V} {height : ℕ} {root : PageId} {link : K × PageId}
  (removed : Removed leafMax internalMax key (removedEntry d key (height + 1) root) d d' (height + 1) root)
  (only : (d' root).links = [link])
  (freed : v.data link.2 = (d' link.2).setParentPageId invalidPageId)
  (same : ∀ q, q ≠ root → q ≠ link.2 → v.data q = d' q)

include removed only

/-- The pages of a tree whose root has one child. -/
theorem Removed.pages_shrink : (pagesOf d' (height + 1) root).Nodup ∧
    pagesOf d' (height + 1) root = root :: pagesOf d' height link.2 := by
  have distinct := (removed.node.rewritten key).distinct
  simp only [pagesIn_cons, pagesIn_nil, List.append_nil] at distinct
  refine ⟨distinct, ?_⟩
  rw [pagesOf_succ, only]
  simp

include freed same

/-- The child of a dropped root, and all below it, is read as before. -/
theorem Removed.alike_shrink : ∀ q ∈ pagesOf d' height link.2, Alike (v.data q) (d' q) := by
  obtain ⟨distinct, pages⟩ := removed.pages_shrink only
  rw [pages, List.nodup_cons] at distinct
  intro q inside
  by_cases isTop : q = link.2
  · rw [isTop, freed]
    exact alike_setParentPageId _ _
  · exact Alike.of_eq (same q (fun isRoot => distinct.1 (isRoot ▸ inside)) isTop)

/-- No page that was dropped can be reached from the child of the dropped root. -/
theorem Removed.unreachable_shrink {dropped : List PageId} (gone : Dropped d d' (height + 1) root dropped) :
    ∀ q ∈ root :: dropped, ¬ Reaches v.data link.2 q := by
  obtain ⟨distinct, pages⟩ := removed.pages_shrink only
  have alike := removed.alike_shrink only freed same
  have child : link.2 ∈ (d' root).children := mem_children.mpr ⟨link, by simp [only], rfl⟩
  have shaped := ((removed.node.rewritten key).shaped _ (List.mem_singleton_self _)).2.2 _ child
  intro q inDropped
  rw [reaches_iff_mem_pagesOf ((shaped_congr alike).mpr shaped.1).uniform, (reading_congr alike).1]
  rcases List.mem_cons.mp inDropped with rfl | inDropped
  · rw [pages] at distinct
    exact (List.nodup_cons.mp distinct).1
  · intro still
    apply (gone q inDropped).2
    rw [pages]
    exact List.mem_cons_of_mem _ still

/-- A removal after which the root's only child becomes the root. -/
theorem Removed.outcome_shrink (leafSize : 2 ≤ leafMax) (internalSize : 3 ≤ internalMax)
    (rooted : Rooted leafMax internalMax d (height + 1) root) (newRoot : v.rootPageId = link.2) :
    RemoveOutcome leafMax internalMax key d (height + 1) root v := by
  have alike := removed.alike_shrink only freed same
  obtain ⟨-, pages, distinct, shaped, stored, -, chain⟩ := removed.node.rewritten key
  simp only [pagesIn_cons, pagesIn_nil, leavesIn_cons, leavesIn_nil, storedIn_cons, storedIn_nil,
    List.append_nil, pagesOf_succ, leavesOf_succ, contents_succ, only] at pages distinct stored chain
  have top := shaped _ (List.mem_singleton_self _)
  have child : link.2 ∈ (d' root).children := mem_children.mpr ⟨link, by simp [only], rfl⟩
  obtain ⟨shapedChild, filled⟩ := top.2.2 _ child
  obtain ⟨apart, distinct⟩ := List.nodup_cons.mp distinct
  obtain ⟨samePages, sameLeaves, sameContents⟩ := reading_congr alike
  have separatedTop : Separated d' (height + 1) root ↔ Separated d' height link.2 := by
    rw [separated_succ, only, SeparatedIn, bounded_singleton]
    simp [Within]
  have parentedTop : Parented d' (height + 1) root ↔ Parented d' height link.2 := by
    rw [parented_succ, only, ParentedIn]
    simpa using fun _ => removed.node.adopted top.1 _ child
  have minimum : rootMin height ≤ minFill leafMax internalMax height := by
    cases height <;> simp only [rootMin, minFill] <;> omega
  refine .inr ⟨height, ?_, ?_, ?_, ?_, ?_⟩ <;> rw [newRoot]
  · refine ⟨(shaped_congr alike).mpr shapedChild, ?_, ?_, by rw [freed]; rfl, ?_, ?_⟩
    · rw [freed]
      exact minimum.trans filled.1
    · rw [freed]
      exact filled.2
    · rw [samePages]
      exact distinct
    · rw [sameLeaves]
      refine (leafChain_congr fun q inside => ?_).mpr (chain _ (leavesOf_succ d height root ▸ rooted.chain))
      exact (alike q (leavesOf_subset_pagesOf d' height link.2 inside)).nextPageId
  · intro q inside
    rw [samePages] at inside
    rw [pagesOf_succ]
    exact (pages q (List.mem_cons_of_mem _ inside)).resolve_right id
  · rw [sameContents, contents_succ]
    exact stored
  · rw [separated_congr alike, ← separatedTop]
    exact removed.separated
  · rw [parented_congr alike (fun q inside other => ?_) distinct, ← parentedTop]
    · exact removed.parented
    · rw [same q (fun isRoot => apart (isRoot ▸ inside)) other]

/-- The page of the dropped root is out of reach with the others. -/
theorem Removed.shrink (leafSize : 2 ≤ leafMax) (internalSize : 3 ≤ internalMax)
    (rooted : Rooted leafMax internalMax d (height + 1) root) (newRoot : v.rootPageId = link.2)
    {dropped : List PageId} (gone : Dropped d d' (height + 1) root dropped) {before : View K V}
    (deleted : v.deleted = root :: dropped ++ before.deleted) :
    DropsUnreachable before v ∧ RemoveOutcome leafMax internalMax key d (height + 1) root v := by
  refine ⟨⟨root :: dropped, deleted, fun _ => ?_⟩,
    removed.outcome_shrink only freed same leafSize internalSize rooted newRoot⟩
  rw [newRoot]
  exact removed.unreachable_shrink only freed same gone

end Shrink

section Runs

variable [Inhabited K] [Inhabited V] {v : View K V} {height rounds : ℕ} {Q : Unit → View K V → Prop} {p : PageId}

omit [LinearOrder K] in
/-- The end of a merge at the root, which hands over to its only child. -/
theorem runs_finishMerge_root {next : PageId → TreeM K V Unit} (root : (v.data p).parentPageId = invalidPageId)
    (shrink : (v.data p).size = 1 → ∀ contents, Q () { v with
      data := Function.update (Function.update (Function.update v.data p
          (InternalPage.removeAndReturnOnlyChild (v.data p)).1) (InternalPage.valueAt (v.data p) 0)
        ((Function.update v.data p (InternalPage.removeAndReturnOnlyChild (v.data p)).1
          (InternalPage.valueAt (v.data p) 0)).setParentPageId invalidPageId)) p contents
      rootPageId := InternalPage.valueAt (v.data p) 0
      deleted := p :: v.deleted })
    (stay : (v.data p).size ≠ 1 → Q () v) : Runs (finishMerge next p) v Q := by
  have isRoot : (v.data p).isRootPage = true := by simpa [isRootPage] using root
  rw [finishMerge]
  refine runs_page ?_
  simp only [isRoot, not_true_eq_false, and_false, true_and, ↓reduceIte]
  by_cases one : (v.data p).size = 1
  · rw [if_pos one]
    refine runs_writePage (runs_modify_root (runs_fetchPage ?_))
    simp only [↓reduceIte]
    refine runs_page (runs_writePage (runs_unpinPage (runs_unpinPage (runs_last
      (runs_deletePage fun contents => ObservedRuns.RunsTo.pure ?_)))))
    exact shrink one contents
  · rw [if_neg one]
    exact runs_last (runs_unpinPage (ObservedRuns.RunsTo.pure (stay one)))

/-- `v'` belongs to the same tree object as `v`. -/
def SameObject (v v' : View K V) : Prop :=
  v'.nextPageId = v.nextPageId ∧ v'.leafMaxSize = v.leafMaxSize ∧ v'.internalMaxSize = v.internalMaxSize

/-- Removing from a tree that is a single leaf. -/
theorem runs_removeTail_leafRoot (rooted : Rooted leafMax internalMax v.data 0 v.rootPageId) :
    Runs (removeTail rounds key v.rootPageId) v fun _ v' => SameObject v v' ∧ DropsUnreachable v v' ∧
      RemoveOutcome leafMax internalMax key v.data 0 v.rootPageId v' := by
  obtain ⟨removed, header, size, fewer⟩ := removed_leaf rooted.shaped key
  have isRoot : (LeafPage.removeAndDeleteRecord (v.data v.rootPageId) key).1.isRootPage = true := by
    simpa [isRootPage, header.2.2.1] using rooted.parent
  rw [removeTail]
  refine runs_page (runs_writePage ?_)
  simp only [isRoot, not_true_eq_false, and_false, and_true, ↓reduceIte]
  by_cases empty : (LeafPage.removeAndDeleteRecord (v.data v.rootPageId) key).1.size = 0
  · rw [if_pos empty]
    refine runs_modify_root (runs_unpinPage (runs_last (runs_deletePage fun contents =>
      ObservedRuns.RunsTo.pure ⟨⟨rfl, rfl, rfl⟩, ⟨[v.rootPageId], rfl, fun valid => absurd rfl valid⟩,
        .inl ⟨rfl, ?_, id, id⟩⟩)))
    have stored := (removed.node.rewritten key).stored
    simp only [storedIn_cons, storedIn_nil, List.append_nil, PageStore.contents, Function.update_self] at stored
    have none : (LeafPage.removeAndDeleteRecord (v.data v.rootPageId) key).1.entries = [] := by
      rw [← List.length_eq_zero_iff, entries_length]
      exact empty
    rw [none] at stored
    exact stored
  · rw [if_neg empty]
    refine runs_last (runs_unpinPage (ObservedRuns.RunsTo.pure ⟨⟨rfl, rfl, rfl⟩, ⟨[], rfl, by simp⟩,
      removed.outcome_same rooted ?_ ?_⟩))
    · simp only [Function.update_self, rootMin]
      omega
    · have high := rooted.high
      simp only [Function.update_self]
      omega

/-- Removing from a tree with an internal root. -/
theorem runs_removeTail_internalRoot (leafSize : 2 ≤ leafMax) (internalSize : 3 ≤ internalMax)
    (rooted : Rooted leafMax internalMax v.data (height + 1) v.rootPageId)
    (sub : Subtree leafMax internalMax v.data (height + 1) v.rootPageId) (enough : height ≤ rounds) :
    Runs (removeTail rounds key (route v.data key (height + 1) v.rootPageId)) v fun _ v' =>
      SameObject v v' ∧ DropsUnreachable v v' ∧
        RemoveOutcome leafMax internalMax key v.data (height + 1) v.rootPageId v' := by
  have many : 2 ≤ (v.data v.rootPageId).size := rooted.low
  have high := rooted.high
  refine runs_removeTail_below leafSize internalSize (cascades leafSize internalSize enough) sub many enough ?_ ?_
  · intro d' dropped removed gone same _
    have shaped := (removed.node.rewritten key).shaped _ (List.mem_singleton_self _)
    refine ⟨⟨rfl, rfl, rfl⟩, dropsUnreachable_same gone shaped.uniform,
      removed.outcome_same (v := { v with data := d', deleted := dropped ++ v.deleted }) rooted ?_ ?_⟩
    · dsimp only
      rw [same]
      exact many
    · dsimp only
      rw [same]
      exact high
  · intro d' dropped removed gone fewer _
    have shaped := (removed.node.rewritten key).shaped _ (List.mem_singleton_self _)
    refine runs_finishMerge_root (removed.node.parentPageId.trans rooted.parent) (fun one contents => ?_)
      fun more => ?_
    · dsimp only at one
      obtain ⟨link, only⟩ := List.length_eq_one_iff.mp ((links_length (d' v.rootPageId)).trans one)
      have cell : InternalPage.valueAt (d' v.rootPageId) 0 = link.2 :=
        congrArg Prod.snd (internalArray_of_links (show _ = [] ++ link :: [] from only))
      have other : link.2 ≠ v.rootPageId := by
        have distinct := (removed.node.rewritten key).distinct
        simp only [pagesIn_cons, pagesIn_nil, List.append_nil, pagesOf_succ, only] at distinct
        rintro same
        exact (List.nodup_cons.mp distinct).1 (same ▸ mem_pagesOf_self d' height link.2)
      refine ⟨⟨rfl, rfl, rfl⟩, removed.shrink only ?_ ?_ leafSize internalSize rooted cell gone rfl⟩
      · simp [cell, other]
      · intro q notRoot notLink
        simp [cell, notRoot, notLink]
    · dsimp only at more
      refine ⟨⟨rfl, rfl, rfl⟩, dropsUnreachable_same gone shaped.uniform,
        removed.outcome_same (v := { v with data := d', deleted := dropped ++ v.deleted }) rooted ?_ ?_⟩
      · simp only [rootMin]
        omega
      · dsimp only
        omega

/-- `Remove` on a sound tree returns, and leaves what the removal makes of the tree. -/
theorem runs_remove (leafSize : 2 ≤ leafMax) (internalSize : 3 ≤ internalMax)
    (rooted : Rooted leafMax internalMax v.data height v.rootPageId)
    (sub : Subtree leafMax internalMax v.data height v.rootPageId) (enough : height < rounds) :
    Runs (remove rounds key) v fun _ v' => SameObject v v' ∧ DropsUnreachable v v' ∧
      RemoveOutcome leafMax internalMax key v.data height v.rootPageId v' := by
  have valid : v.rootPageId ≠ invalidPageId := sub.valid _ (mem_pagesOf_self _ _ _)
  have leafValid : route v.data key height v.rootPageId ≠ invalidPageId :=
    sub.valid _ (route_leaf leafSize internalSize rooted.shaped rooted.positive key).1
  have tail : Runs (removeTail rounds key (route v.data key height v.rootPageId)) v fun _ v' =>
      SameObject v v' ∧ DropsUnreachable v v' ∧
        RemoveOutcome leafMax internalMax key v.data height v.rootPageId v' := by
    cases height with
    | zero => exact runs_removeTail_leafRoot rooted
    | succ height => exact runs_removeTail_internalRoot leafSize internalSize rooted sub (by omega)
  rw [remove]
  refine runs_get ?_
  intro tree seen
  have notEmpty : tree.isEmpty = false := by
    subst seen
    simpa [isEmpty] using valid
  simp only [notEmpty, Bool.false_eq_true, ↓reduceIte, findLeafPage, bind_assoc]
  refine runs_get ?_
  intro tree' seen'
  have sameRoot : tree'.rootPageId = v.rootPageId := by rw [← seen']; rfl
  have notEmpty' : tree'.isEmpty = false := by
    simpa [isEmpty, sameRoot] using valid
  simp only [notEmpty', Bool.false_eq_true, ↓reduceIte, bind_assoc, sameRoot]
  refine runs_fetchPage ?_
  simp only [↓reduceIte, bind_assoc]
  refine runs_descend leafSize internalSize rooted.shaped rooted.positive enough ?_
  simp only [bind_assoc, pure_bind]
  refine runs_unpinPage ?_
  simp only [leafValid, ↓reduceIte]
  refine runs_fetchPage ?_
  simp only [Bool.not_true, Bool.false_eq_true, ↓reduceIte]
  exact tail

end Runs

end Root

end BPlusTree

end OneBase
