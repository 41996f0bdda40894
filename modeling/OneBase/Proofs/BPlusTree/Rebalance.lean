import OneBase.Proofs.BPlusTree.Search

/-! # Borrowing from and merging with a sibling

One round of `CoalesceOrRedistribute` and of `CoalesceOrRedistributeInternal`: an underfull child
and the sibling the code picks, always two neighbours `x` and `y` under one parent. A borrow moves
one element across and rewrites the separator between them; a merge moves everything into `x`,
whichever of the two was underfull, and drops `y`.
-/

namespace OneBase

open BPlusTreePage Separators PageStore ListEdits

variable {K V : Type}

namespace BPlusTree

section Sibling

variable {page : BPlusTreePage K V} {front back : List (K × PageId)} {x y : K × PageId}

/-- A child that is not the first one pairs up with its left neighbour. -/
theorem siblingOf_left (cut : page.links = front ++ ([x, y] ++ back))
    (distinct : (page.links.map Prod.snd).Nodup) :
    InternalPage.valueIndex page y.2 = front.length + 1 ∧
      siblingOf page (InternalPage.valueIndex page y.2) = (x.2, true) := by
  have cut' : page.links = (front ++ [x]) ++ y :: back := by simp [cut]
  have index : InternalPage.valueIndex page y.2 = front.length + 1 := by
    rw [InternalPage.valueIndex_of_cut cut']
    · simp
    · intro member
      rw [cut', List.map_append, List.map_cons] at distinct
      exact (List.nodup_append.mp distinct).2.2 _ member _ List.mem_cons_self rfl
  refine ⟨index, ?_⟩
  have cell : page.internalArray front.length = x :=
    internalArray_of_links (show page.links = front ++ x :: (y :: back) by simp [cut])
  rw [siblingOf, index, if_pos (by omega), InternalPage.valueAt]
  simp [cell]

/-- The first child pairs up with its right neighbour. -/
theorem siblingOf_right (cut : page.links = [] ++ ([x, y] ++ back)) :
    InternalPage.valueIndex page x.2 = 0 ∧
      siblingOf page (InternalPage.valueIndex page x.2) = (y.2, false) := by
  have index : InternalPage.valueIndex page x.2 = 0 :=
    InternalPage.valueIndex_of_cut (show page.links = [] ++ x :: (y :: back) from cut) (by simp)
  have size : page.size = back.length + 2 := by
    have := congrArg List.length cut
    simpa using this
  have cell : page.internalArray 1 = y :=
    internalArray_of_links (show page.links = [x] ++ y :: back from cut)
  refine ⟨index, ?_⟩
  rw [siblingOf, index, if_neg (by omega), if_pos (by omega), InternalPage.valueAt]
  simp [cell]

end Sibling

end BPlusTree

namespace PageStore

variable [LinearOrder K] {leafMax internalMax : ℕ} {d d' : PageStore K V} {height : ℕ} {p : PageId}
  {front back : List (K × PageId)} {x y : K × PageId}

/-- Two neighbouring children of `p`, one of which may be underfull. -/
structure Pair (leafMax internalMax : ℕ) (d : PageStore K V) (height : ℕ) (p : PageId)
    (front back : List (K × PageId)) (x y : K × PageId) : Prop where
  cut : (d p).links = front ++ ([x, y] ++ back)
  distinct : (pagesOf d (height + 1) p).Nodup
  valid : ∀ q ∈ pagesOf d (height + 1) p, q ≠ invalidPageId
  shapedX : Shaped leafMax internalMax d height x.2
  shapedY : Shaped leafMax internalMax d height y.2
  parentX : (d x.2).parentPageId = p
  parentY : (d y.2).parentPageId = p
  separated : SeparatedIn d height (lowKey front x.1) [x, y] (headKey back none)
  between : (∀ a ∈ lowKey front x.1, a ≤ y.1) ∧ ∀ b ∈ headKey back none, y.1 ≤ b

/-- What a borrow or a merge makes of the pair: the new window `win`, everything but the parent in
`d'`, and the new parent page. -/
structure Rebalanced (leafMax internalMax : ℕ) (d d' : PageStore K V) (height : ℕ) (p : PageId)
    (front back : List (K × PageId)) (x y : K × PageId) (win : List (K × PageId))
    (page : BPlusTreePage K V) : Prop where
  rewritten : Rewritten leafMax internalMax (fun _ => False) [] [] d d' height [x, y] win
  filled : ∀ link ∈ win, Filled leafMax internalMax d' height link.2
  parents : ∀ link ∈ win, (d' link.2).parentPageId = p
  links : page.links = front ++ (win ++ back)
  pageType : page.pageType = (d p).pageType
  maxSize : page.maxSize = (d p).maxSize
  parentPageId : page.parentPageId = (d p).parentPageId

namespace Pair

variable (pair : Pair leafMax internalMax d height p front back x y)

include pair

/-- The two subtrees and the parent share no page. -/
theorem apart : (pagesIn d height [x, y]).Nodup ∧ p ∉ pagesIn d height [x, y] := by
  have distinct := pair.distinct
  rw [pagesOf_succ, pair.cut, pagesIn_append, pagesIn_append] at distinct
  obtain ⟨above, distinct⟩ := List.nodup_cons.mp distinct
  simp only [List.mem_append, not_or] at above
  exact ⟨(List.nodup_append.mp (List.nodup_append.mp distinct).2.1).1, above.2.1⟩

theorem ne : x.2 ≠ y.2 := by
  have distinct := pair.apart.1
  simp only [pagesIn_cons, pagesIn_nil, List.append_nil] at distinct
  exact (List.nodup_append.mp distinct).2.2 _ (mem_pagesOf_self d height x.2) _ (mem_pagesOf_self d height y.2)

theorem parent_ne : p ≠ x.2 ∧ p ≠ y.2 := by
  constructor
  · intro same
    exact pair.apart.2 (same ▸ mem_pagesIn_of_mem (by simp))
  · intro same
    exact pair.apart.2 (same ▸ mem_pagesIn_of_mem (by simp))

theorem valid_pair : x.2 ≠ invalidPageId ∧ y.2 ≠ invalidPageId := by
  constructor
  · exact pair.valid _ (pagesOf_of_mem_links (by simp [pair.cut]) (mem_pagesOf_self d height x.2))
  · exact pair.valid _ (pagesOf_of_mem_links (by simp [pair.cut]) (mem_pagesOf_self d height y.2))

/-- No child of the parent is listed twice. -/
theorem distinct_links : ((d p).links.map Prod.snd).Nodup := by
  have distinct := pair.distinct
  rw [pagesOf_succ] at distinct
  exact nodup_map_snd (List.nodup_cons.mp distinct).2

end Pair

section Leaf

variable (pair : Pair leafMax internalMax d 0 p front back x y) {pageX pageY page : BPlusTreePage K V}

include pair

/-- Two leaves cut their common entries at another place. -/
theorem Pair.leaf_borrow {left rest : List (K × V)} {entry : K × V}
    (entriesX : pageX.entries = left) (entriesY : pageY.entries = entry :: rest)
    (links : page.links = front ++ ([x, (entry.1, y.2)] ++ back))
    (same : left ++ entry :: rest = (d x.2).entries ++ (d y.2).entries)
    (headX : SameHeader pageX (d x.2)) (headY : SameHeader pageY (d y.2)) (head : SameHeader page (d p))
    (sizeX : leafMax / 2 ≤ left.length ∧ left.length ≤ leafMax)
    (sizeY : leafMax / 2 ≤ rest.length + 1 ∧ rest.length + 1 ≤ leafMax) :
    Rebalanced leafMax internalMax d (Function.update (Function.update d x.2 pageX) y.2 pageY) 0 p front back
        x y [x, (entry.1, y.2)] page ∧
      SeparatedIn (Function.update (Function.update d x.2 pageX) y.2 pageY) 0 (lowKey front x.1)
        [x, (entry.1, y.2)] (headKey back none) := by
  obtain ⟨sorted, within⟩ := leaves_sorted pair.separated pair.between pair.shapedX.2.2 pair.shapedY.2.2
  rw [← same] at sorted within
  obtain ⟨sortedX, sortedY, -⟩ := List.pairwise_append.mp sorted
  have atX : Function.update (Function.update d x.2 pageX) y.2 pageY x.2 = pageX := by simp [pair.ne]
  have atY : Function.update (Function.update d x.2 pageX) y.2 pageY y.2 = pageY := by simp
  refine ⟨⟨.leaves ?_ ?_ ?_ ?_ ?_ ?_ ?_, ?_, ?_, links, head.1, head.2.1, head.2.2.1⟩,
    separatedIn_of_cut sorted within (by rw [atX, entriesX]) (by rw [atY, entriesY])⟩
  · intro q other _
    simp only [List.map_cons, List.map_nil, List.mem_cons, List.not_mem_nil, or_false, not_or] at other
    rw [Function.update_of_ne other.2, Function.update_of_ne other.1]
  · simp
  · simpa using pair.ne
  · simp only [List.forall_mem_cons, List.not_mem_nil, false_imp_iff, implies_true, and_true, atX, atY, headX.1,
      headX.2.1, headY.1, headY.2.1, pair.shapedX.1, pair.shapedX.2.1, pair.shapedY.1, pair.shapedY.2.1,
      entriesX, entriesY, true_and]
    exact ⟨sortedX, sortedY⟩
  · rw [edits_nil_iff]
    simpa [contents, atX, entriesX, entriesY] using same
  · simp
  · intro last chained
    refine (leafChain_congr fun q member => ?_).mpr chained
    simp only [List.map_cons, List.map_nil, List.mem_cons, List.not_mem_nil, or_false] at member
    rcases member with rfl | rfl
    · rw [atX, headX.2.2.2]
    · rw [atY, headY.2.2.2]
  · simp only [List.forall_mem_cons, List.not_mem_nil, false_imp_iff, implies_true, and_true, Filled, atX, atY,
      ← entries_length, entriesX, entriesY, List.length_cons]
    exact ⟨sizeX, sizeY⟩
  · simp only [List.forall_mem_cons, List.not_mem_nil, false_imp_iff, implies_true, and_true, atX, atY,
      headX.2.2.1, headY.2.2.1]
    exact ⟨pair.parentX, pair.parentY⟩

/-- The left leaf takes over all entries and the right leaf's successor. -/
theorem Pair.leaf_merge (dropped : BPlusTreePage K V)
    (entriesX : pageX.entries = (d x.2).entries ++ (d y.2).entries)
    (links : page.links = front ++ ([x] ++ back))
    (headX : SameHeader pageX (d x.2)) (head : SameHeader page (d p))
    (size : leafMax / 2 ≤ (d x.2).size + (d y.2).size ∧ (d x.2).size + (d y.2).size ≤ leafMax) :
    Rebalanced leafMax internalMax d (Function.update (Function.update d x.2
        (pageX.setNextPageId (d y.2).nextPageId)) y.2 dropped) 0 p front back x y [x] page ∧
      SeparatedIn (Function.update (Function.update d x.2 (pageX.setNextPageId (d y.2).nextPageId)) y.2 dropped)
        0 (lowKey front x.1) [x] (headKey back none) := by
  obtain ⟨sorted, within⟩ := leaves_sorted pair.separated pair.between pair.shapedX.2.2 pair.shapedY.2.2
  rw [← entriesX] at sorted within
  have atX : Function.update (Function.update d x.2 (pageX.setNextPageId (d y.2).nextPageId)) y.2 dropped x.2 =
      pageX.setNextPageId (d y.2).nextPageId := by simp [pair.ne]
  have entries : (pageX.setNextPageId (d y.2).nextPageId).entries = (d x.2).entries ++ (d y.2).entries := entriesX
  refine ⟨⟨.leaves ?_ ?_ ?_ ?_ ?_ ?_ ?_, ?_, ?_, links, head.1, head.2.1, head.2.2.1⟩,
    separatedIn_leaf.mpr (by rw [atX]; exact within)⟩
  · intro q other _
    simp only [List.map_cons, List.map_nil, List.mem_cons, List.not_mem_nil, or_false, not_or] at other
    rw [Function.update_of_ne other.2, Function.update_of_ne other.1]
  · simp
  · simp
  · simp only [List.mem_singleton, forall_eq, atX]
    exact ⟨headX.1.trans pair.shapedX.1, headX.2.1.trans pair.shapedX.2.1, sorted⟩
  · rw [edits_nil_iff]
    simpa [contents, atX] using entries
  · simp
  · intro last chained
    simp only [List.map_cons, List.map_nil] at chained ⊢
    rw [leafChain_singleton, atX]
    change (d y.2).nextPageId = last
    exact leafChain_singleton.mp (leafChain_append.mp (show LeafChain d ([x.2] ++ [y.2]) last from chained)).2
  · simp only [List.mem_singleton, forall_eq, Filled, atX, ← entries_length, entries, List.length_append]
    simpa [minFill, maxFill] using size
  · simp only [List.mem_singleton, forall_eq, atX]
    exact headX.2.2.1.trans pair.parentX

end Leaf

section Internal

/-- `d'` differs from `d` in the two pages and in parent pointers of their children. -/
structure Dealt (d d' : PageStore K V) (x y : K × PageId) : Prop where
  alike : ∀ q, q ≠ x.2 → q ≠ y.2 → Alike (d' q) (d q)
  same : ∀ q, q ≠ x.2 → q ≠ y.2 → q ∉ (flatten d [x, y]).map Prod.snd → d' q = d q

omit [LinearOrder K] in
theorem dealt_of_writes (pageX pageY : BPlusTreePage K V) {ids : List PageId} (parent : PageId)
    (moved : ids ⊆ (flatten d [x, y]).map Prod.snd) :
    Dealt d (BPlusTree.adopt ids parent (Function.update (Function.update d x.2 pageX) y.2 pageY)) x y := by
  constructor
  · intro q qx qy
    by_cases member : q ∈ ids
    · rw [BPlusTree.adopt_of_mem member, Function.update_of_ne qy, Function.update_of_ne qx]
      exact alike_setParentPageId _ _
    · rw [BPlusTree.adopt_of_not_mem member, Function.update_of_ne qy, Function.update_of_ne qx]
      exact Alike.of_eq rfl
  · intro q qx qy other
    rw [BPlusTree.adopt_of_not_mem (fun member => other (moved member)), Function.update_of_ne qy,
      Function.update_of_ne qx]

omit [LinearOrder K] in
theorem flatten_children (d : PageStore K V) (x y : K × PageId) :
    (flatten d [x, y]).map Prod.snd = (d x.2).children ++ (d y.2).children := by
  simp [flatten, spread_map_snd]

variable (pair : Pair leafMax internalMax d (height + 1) p front back x y) (dealt : Dealt d d' x y)

include pair

/-- The pages below the pair are pairwise distinct and none of them is one of the two tops. -/
theorem Pair.below :
    (pagesIn d height (flatten d [x, y])).Nodup ∧
      ∀ q ∈ pagesIn d height (flatten d [x, y]), q ≠ x.2 ∧ q ≠ y.2 := by
  have distinct := (pagesIn_succ_perm d height [x, y]).nodup_iff.mp pair.apart.1
  obtain ⟨-, below, apart⟩ := List.nodup_append.mp distinct
  refine ⟨below, fun q member => ⟨?_, ?_⟩⟩
  · rintro rfl
    exact apart x.2 (by simp) x.2 member rfl
  · rintro rfl
    exact apart y.2 (by simp) y.2 member rfl

include dealt

theorem Pair.alike_below : ∀ q ∈ pagesIn d height (flatten d [x, y]), Alike (d' q) (d q) := fun q member =>
  dealt.alike q (pair.below.2 q member).1 (pair.below.2 q member).2

/-- Parent pointers below a child of the pair are untouched. -/
theorem Pair.parented_child {c : PageId} (child : c ∈ (flatten d [x, y]).map Prod.snd) :
    Parented d' height c ↔ Parented d height c := by
  refine parented_regroup pair.below.1 (pair.alike_below dealt) (fun q inside other => ?_) child
  exact dealt.same q (pair.below.2 q inside).1 (pair.below.2 q inside).2 other

/-- Parent pointers below one of the two pages after the children were dealt out. -/
theorem Pair.parented_top {t : PageId} (sub : (d' t).children ⊆ (flatten d [x, y]).map Prod.snd) :
    Parented d' (height + 1) t ↔ ∀ c ∈ (d' t).children, (d' c).parentPageId = t ∧ Parented d height c :=
  forall₂_congr fun _ member => and_congr_right fun _ => pair.parented_child dealt (sub member)

/-- Dealing the children of two neighbours out to the pages of a new window. -/
theorem Pair.deal (leafSize : 2 ≤ leafMax) (internalSize : 3 ≤ internalMax) (win : List (K × PageId))
    {page : BPlusTreePage K V}
    (children : (flatten d' win).map Prod.snd = (flatten d [x, y]).map Prod.snd)
    (tops : ∀ link ∈ win, link.2 = x.2 ∨ link.2 = y.2) (distinctTops : (win.map Prod.snd).Nodup)
    (heads : ∀ link ∈ win, SameHeader (d' link.2) (d link.2))
    (filled : ∀ link ∈ win, Filled leafMax internalMax d' (height + 1) link.2)
    (links : page.links = front ++ (win ++ back)) (head : SameHeader page (d p)) :
    Rebalanced leafMax internalMax d d' (height + 1) p front back x y win page ∧
      ∀ lo hi, SeparatedIn d' (height + 1) lo win hi ↔ SeparatedIn d height lo (flatten d' win) hi := by
  have alike := pair.alike_below dealt
  have parent : ∀ link ∈ win, (d link.2).parentPageId = p ∧ (d link.2).pageType = .internalPage ∧
      (d link.2).maxSize = internalMax := by
    intro link member
    rcases tops link member with same | same <;> rw [same]
    · exact ⟨pair.parentX, pair.shapedX.1, pair.shapedX.2.1⟩
    · exact ⟨pair.parentY, pair.shapedY.1, pair.shapedY.2.1⟩
  have shaped : ∀ link ∈ [x, y], Shaped leafMax internalMax d (height + 1) link.2 := by
    simpa using ⟨pair.shapedX, pair.shapedY⟩
  constructor
  · refine ⟨.regroup children alike ?_ ?_ distinctTops ?_ pair.apart.1 (by simp) shaped, filled, ?_, links,
      head.1, head.2.1, head.2.2.1⟩
    · intro q outside _
      rw [(pagesIn_succ_perm d height [x, y]).mem_iff, List.mem_append, not_or] at outside
      have tops := outside.1
      simp only [List.map_cons, List.map_nil, List.mem_cons, List.not_mem_nil, or_false, not_or] at tops
      refine dealt.same q tops.1 tops.2 fun isChild => ?_
      obtain ⟨link, member, rfl⟩ := List.mem_map.mp isChild
      exact outside.2 (mem_pagesIn_of_mem member)
    · intro link member
      rcases tops link member with same | same <;> simp [same]
    · intro link member
      exact ⟨(heads link member).1.trans (parent link member).2.1,
        (heads link member).2.1.trans (parent link member).2.2⟩
    · intro link member
      exact (heads link member).2.2.1.trans (parent link member).1
  · refine fun lo hi => separatedIn_regroup children alike
      (fun link member => (shaped link member).children_inhabited leafSize internalSize) fun link member none => ?_
    have size := (filled link member).1
    rw [← links_length, none] at size
    simp only [minFill, List.length_nil] at size
    omega

/-- When every child points at its own page before and after, nothing else matters for the parent
pointers of the pair. -/
theorem Pair.parented_dealt
    (children : ∀ c, c ∈ (d' x.2).children ++ (d' y.2).children ↔ c ∈ (d x.2).children ++ (d y.2).children)
    (adoptedX : ∀ c ∈ (d x.2).children, (d c).parentPageId = x.2)
    (adoptedY : ∀ c ∈ (d y.2).children, (d c).parentPageId = y.2)
    (adoptedX' : ∀ c ∈ (d' x.2).children, (d' c).parentPageId = x.2)
    (adoptedY' : ∀ c ∈ (d' y.2).children, (d' c).parentPageId = y.2) :
    Parented d' (height + 1) x.2 ∧ Parented d' (height + 1) y.2 ↔
      Parented d (height + 1) x.2 ∧ Parented d (height + 1) y.2 := by
  have before (t : PageId) (adopted : ∀ c ∈ (d t).children, (d c).parentPageId = t) :
      Parented d (height + 1) t ↔ ∀ c ∈ (d t).children, Parented d height c :=
    forall₂_congr fun c member => by simp [adopted c member]
  have after (t : PageId) (sub : ∀ c ∈ (d' t).children, c ∈ (d x.2).children ++ (d y.2).children)
      (adopted : ∀ c ∈ (d' t).children, (d' c).parentPageId = t) :
      Parented d' (height + 1) t ↔ ∀ c ∈ (d' t).children, Parented d height c := by
    rw [pair.parented_top dealt fun c member => flatten_children d x y ▸ sub c member]
    exact forall₂_congr fun c member => by simp [adopted c member]
  rw [before _ adoptedX, before _ adoptedY,
    after _ (fun c member => (children c).mp (List.mem_append_left _ member)) adoptedX',
    after _ (fun c member => (children c).mp (List.mem_append_right _ member)) adoptedY',
    ← List.forall_mem_append, ← List.forall_mem_append]
  exact forall_congr' fun c => imp_congr_left (children c)

omit dealt in
/-- The parent pointer of a child after one child was adopted by another page. -/
theorem Pair.parent_child (pageX pageY : BPlusTreePage K V) (moved t : PageId) {c : PageId}
    (child : c ∈ (d x.2).children ++ (d y.2).children) :
    (BPlusTree.adopt [moved] t (Function.update (Function.update d x.2 pageX) y.2 pageY) c).parentPageId =
      if c = moved then t else (d c).parentPageId := by
  rw [← flatten_children] at child
  obtain ⟨link, member, rfl⟩ := List.mem_map.mp child
  obtain ⟨cx, cy⟩ := pair.below.2 link.2 (mem_pagesIn_of_mem member)
  simp only [BPlusTree.adopt, List.mem_singleton]
  rw [Function.update_of_ne cy, Function.update_of_ne cx]
  split <;> rfl

omit dealt in
theorem Pair.distinct_children : ((d x.2).children ++ (d y.2).children).Nodup := by
  rw [← flatten_children]
  exact nodup_map_snd pair.below.1

end Internal

section InternalMoves

variable (leafSize : 2 ≤ leafMax) (internalSize : 3 ≤ internalMax)
  (pair : Pair leafMax internalMax d (height + 1) p front back x y)
  (adoptedX : ∀ c ∈ (d x.2).children, (d c).parentPageId = x.2)
  (adoptedY : ∀ c ∈ (d y.2).children, (d c).parentPageId = y.2)
  {pageX pageY page : BPlusTreePage K V}

omit [LinearOrder K] in
theorem flatten_pair {x₀ y₀ : K × PageId} {restX restY : List (K × PageId)}
    (cutX : (d x.2).links = x₀ :: restX) (cutY : (d y.2).links = y₀ :: restY) :
    flatten d [x, y] = (x.1, x₀.2) :: restX ++ (y.1, y₀.2) :: restY := by
  simp [flatten, spread_of_links cutX, spread_of_links cutY]

include leafSize internalSize pair

/-- The children of a pair in search order form one run in search order. -/
theorem Pair.separated_flatten (inhabitedX : 1 ≤ (d x.2).size) (inhabitedY : 1 ≤ (d y.2).size) :
    SeparatedIn d height (lowKey front x.1) (flatten d [x, y]) (headKey back none) := by
  have nonempty (q : PageId) (positive : 1 ≤ (d q).size) : (d q).links ≠ [] := by
    intro none
    rw [← links_length, none] at positive
    simp at positive
  refine (separatedIn_flatten ?_ ?_).mp pair.separated
  · simpa using ⟨nonempty _ inhabitedX, nonempty _ inhabitedY⟩
  · intro link member
    rcases List.mem_pair.mp member with rfl | rfl
    · exact pair.shapedX.children_inhabited leafSize internalSize
    · exact pair.shapedY.children_inhabited leafSize internalSize

include adoptedY in
/-- The left page takes over all children, which keep pointing at the dropped page. -/
theorem Pair.internal_merge (dropped : BPlusTreePage K V) {x₀ y₀ : K × PageId} {restX restY : List (K × PageId)}
    (cutX : (d x.2).links = x₀ :: restX) (cutY : (d y.2).links = y₀ :: restY)
    (linksX : pageX.links = (d x.2).links ++ (y.1, y₀.2) :: restY) (links : page.links = front ++ ([x] ++ back))
    (headX : SameHeader pageX (d x.2)) (head : SameHeader page (d p))
    (size : (internalMax + 1) / 2 ≤ (d x.2).size + (d y.2).size ∧
      (d x.2).size + (d y.2).size ≤ internalMax) :
    Rebalanced leafMax internalMax d (Function.update (Function.update d x.2 pageX) y.2 dropped) (height + 1) p
        front back x y [x] page ∧
      y.2 ∉ pagesIn (Function.update (Function.update d x.2 pageX) y.2 dropped) (height + 1) [x] ∧
      SeparatedIn (Function.update (Function.update d x.2 pageX) y.2 dropped) (height + 1) (lowKey front x.1) [x]
        (headKey back none) ∧
      ¬ Parented (Function.update (Function.update d x.2 pageX) y.2 dropped) (height + 1) x.2 := by
  have dealt : Dealt d (Function.update (Function.update d x.2 pageX) y.2 dropped) x y := by
    have := dealt_of_writes (d := d) (x := x) (y := y) pageX dropped p (List.nil_subset _)
    rwa [BPlusTree.adopt_nil] at this
  have atX : Function.update (Function.update d x.2 pageX) y.2 dropped x.2 = pageX := by simp [pair.ne]
  have linksAfter : (Function.update (Function.update d x.2 pageX) y.2 dropped x.2).links =
      x₀ :: (restX ++ (y.1, y₀.2) :: restY) := by rw [atX, linksX, cutX]; rfl
  have flat : flatten (Function.update (Function.update d x.2 pageX) y.2 dropped) [x] = flatten d [x, y] := by
    rw [flatten_pair cutX cutY]
    simp [flatten, spread_of_links linksAfter]
  have sizeX : pageX.size = (d x.2).size + (d y.2).size := by
    rw [← links_length, linksX, ← links_length, ← links_length, cutY]; simp
  obtain ⟨rebalanced, separated⟩ := pair.deal dealt leafSize internalSize [x] (by rw [flat]) (by simp) (by simp)
    (by simpa [atX] using headX) (by simpa [Filled, atX, sizeX, minFill, maxFill] using size) links head
  refine ⟨rebalanced, ?_, ?_, ?_⟩
  · rw [(pagesIn_succ_perm _ height [x]).mem_iff, flat, (readingIn_congr (pair.alike_below dealt)).1,
      List.mem_append, not_or]
    exact ⟨by simpa using pair.ne.symm, fun inside => (pair.below.2 _ inside).2 rfl⟩
  · rw [separated, flat]
    refine pair.separated_flatten leafSize internalSize ?_ ?_
    · rw [← links_length, cutX]; simp
    · rw [← links_length, cutY]; simp
  · intro parented
    have pointer := (parented y₀.2 (mem_children.mpr ⟨(y.1, y₀.2), by simp [linksAfter], rfl⟩)).1
    have apart := pair.below.2 _ (mem_pagesIn_of_mem (show (y.1, y₀.2) ∈ flatten d [x, y] by
      simp [flatten_pair cutX cutY]))
    rw [Function.update_of_ne apart.2, Function.update_of_ne apart.1] at pointer
    exact pair.ne (pointer.symm.trans (adoptedY _ (mem_children.mpr ⟨y₀, by simp [cutY], rfl⟩)))

include adoptedX adoptedY

/-- The right page hands its first child over; the separator moves along the run of children. -/
theorem Pair.internal_borrow_right {x₀ y₀ y₁ : K × PageId} {restX restY : List (K × PageId)}
    (cutX : (d x.2).links = x₀ :: restX) (cutY : (d y.2).links = y₀ :: y₁ :: restY)
    (linksX : pageX.links = (d x.2).links ++ [(y.1, y₀.2)]) (linksY : pageY.links = y₁ :: restY)
    (links : page.links = front ++ ([x, (y₁.1, y.2)] ++ back))
    (headX : SameHeader pageX (d x.2)) (headY : SameHeader pageY (d y.2)) (head : SameHeader page (d p))
    (sizeX : (internalMax + 1) / 2 ≤ (d x.2).size + 1 ∧ (d x.2).size + 1 ≤ internalMax)
    (sizeY : (internalMax + 1) / 2 < (d y.2).size ∧ (d y.2).size ≤ internalMax) :
    let d' := BPlusTree.adopt [y₀.2] x.2 (Function.update (Function.update d x.2 pageX) y.2 pageY)
    Rebalanced leafMax internalMax d d' (height + 1) p front back x y [x, (y₁.1, y.2)] page ∧
      SeparatedIn d' (height + 1) (lowKey front x.1) [x, (y₁.1, y.2)] (headKey back none) ∧
      (Parented d' (height + 1) x.2 ∧ Parented d' (height + 1) y.2 ↔
        Parented d (height + 1) x.2 ∧ Parented d (height + 1) y.2) := by
  intro d'
  have run := flatten_pair cutX cutY
  have isChild : y₀.2 ∈ (flatten d [x, y]).map Prod.snd := by simp [run]
  have dealt : Dealt d d' x y := dealt_of_writes pageX pageY x.2 (by simpa using isChild)
  have apart := pair.below.2 _ (mem_pagesIn_of_mem (show (y.1, y₀.2) ∈ flatten d [x, y] by simp [run]))
  have atX : d' x.2 = pageX := by simp [d', BPlusTree.adopt, apart.1.symm, pair.ne]
  have atY : d' y.2 = pageY := by simp [d', BPlusTree.adopt, apart.2.symm]
  have flat : flatten d' [x, (y₁.1, y.2)] = flatten d [x, y] := by
    have spreadX : spread d' x = (x.1, x₀.2) :: (restX ++ [(y.1, y₀.2)]) :=
      spread_of_links (by rw [atX, linksX, cutX]; rfl)
    have spreadY : spread d' (y₁.1, y.2) = (y₁.1, y₁.2) :: restY := spread_of_links (by rw [atY, linksY])
    rw [run]
    simp [flatten, spreadX, spreadY]
  have lengthX : pageX.size = (d x.2).size + 1 := by rw [← links_length, linksX]; simp
  have lengthY : pageY.size + 1 = (d y.2).size := by
    rw [← links_length, ← links_length, linksY, cutY]; simp
  obtain ⟨rebalanced, separated⟩ := pair.deal dealt leafSize internalSize [x, (y₁.1, y.2)] (by rw [flat])
    (by simp) (by simpa using pair.ne) (by simpa [atX, atY] using ⟨headX, headY⟩)
    (by simp only [List.forall_mem_cons, Filled, atX, atY, minFill, maxFill]; simp; omega) links head
  refine ⟨rebalanced, ?_, ?_⟩
  · rw [separated, flat]
    refine pair.separated_flatten leafSize internalSize ?_ (by omega)
    rw [← links_length, cutX]; simp
  · have childrenX : (d' x.2).children = (d x.2).children ++ [y₀.2] := by
      rw [atX]; simp [BPlusTreePage.children, linksX]
    have childrenY : (d y.2).children = y₀.2 :: (d' y.2).children := by
      rw [atY]; simp [BPlusTreePage.children, linksY, cutY]
    have distinct := pair.distinct_children
    rw [childrenY, List.nodup_middle] at distinct
    have once := (List.nodup_cons.mp distinct).1
    rw [List.mem_append, not_or] at once
    refine pair.parented_dealt dealt ?_ adoptedX adoptedY ?_ ?_
    · intro c
      rw [childrenX, childrenY]
      simp
    · rw [childrenX]
      intro c member
      rcases List.mem_append.mp member with member | member
      · rw [pair.parent_child _ _ _ _ (List.mem_append_left _ member),
          if_neg (by rintro rfl; exact once.1 member)]
        exact adoptedX c member
      · obtain rfl := List.mem_singleton.mp member
        rw [pair.parent_child _ _ _ _ (by simp [childrenY]), if_pos rfl]
    · intro c member
      rw [pair.parent_child _ _ _ _ (by simp [childrenY, member]),
        if_neg (by rintro rfl; exact once.2 member)]
      exact adoptedY c (by simp [childrenY, member])

/-- The left page hands its last child over and the code takes the recipient's stale first key as
the new separator; search order holds exactly if that key happens to split the moved child from the
ones before it. -/
theorem Pair.internal_borrow_left {y₀ last : K × PageId} {kept restY : List (K × PageId)}
    (cutX : (d x.2).links = kept ++ [last]) (cutY : (d y.2).links = y₀ :: restY)
    (linksX : pageX.links = kept) (linksY : pageY.links = (y₀.1, last.2) :: (y.1, y₀.2) :: restY)
    (links : page.links = front ++ ([x, (y₀.1, y.2)] ++ back))
    (headX : SameHeader pageX (d x.2)) (headY : SameHeader pageY (d y.2)) (head : SameHeader page (d p))
    (sizeX : (internalMax + 1) / 2 < (d x.2).size ∧ (d x.2).size ≤ internalMax)
    (sizeY : (internalMax + 1) / 2 ≤ (d y.2).size + 1 ∧ (d y.2).size + 1 ≤ internalMax) :
    let d' := BPlusTree.adopt [last.2] y.2 (Function.update (Function.update d x.2 pageX) y.2 pageY)
    Rebalanced leafMax internalMax d d' (height + 1) p front back x y [x, (y₀.1, y.2)] page ∧
      (SeparatedIn d' (height + 1) (lowKey front x.1) [x, (y₀.1, y.2)] (headKey back none) ↔
        (∀ link ∈ kept, ∀ key, KeyBelow d height link.2 key → key < y₀.1) ∧
          ∀ key, KeyBelow d height last.2 key → y₀.1 ≤ key) ∧
      (Parented d' (height + 1) x.2 ∧ Parented d' (height + 1) y.2 ↔
        Parented d (height + 1) x.2 ∧ Parented d (height + 1) y.2) := by
  intro d'
  have lengthX : (d x.2).size = kept.length + 1 := by rw [← links_length, cutX]; simp
  obtain ⟨x₀, restX, rfl⟩ := List.exists_cons_of_ne_nil (show kept ≠ [] by
    rintro rfl
    simp only [List.length_nil] at lengthX
    omega)
  have cutX' : (d x.2).links = x₀ :: (restX ++ [last]) := by simpa using cutX
  have run := flatten_pair cutX' cutY
  have isChild : last.2 ∈ (flatten d [x, y]).map Prod.snd := by simp [run]
  have dealt : Dealt d d' x y := dealt_of_writes pageX pageY y.2 (by simpa using isChild)
  have apart := pair.below.2 _ (mem_pagesIn_of_mem (show last ∈ flatten d [x, y] by simp [run]))
  have atX : d' x.2 = pageX := by simp [d', BPlusTree.adopt, apart.1.symm, pair.ne]
  have atY : d' y.2 = pageY := by simp [d', BPlusTree.adopt, apart.2.symm]
  have flat : flatten d' [x, (y₀.1, y.2)] =
      ((x.1, x₀.2) :: restX) ++ (y₀.1, last.2) :: ((y.1, y₀.2) :: restY) := by
    have spreadX : spread d' x = (x.1, x₀.2) :: restX := spread_of_links (by rw [atX, linksX])
    have spreadY : spread d' (y₀.1, y.2) = (y₀.1, last.2) :: (y.1, y₀.2) :: restY := by
      simp [spread, atY, linksY]
    simp [flatten, spreadX, spreadY]
  have lengthY : pageY.size = (d y.2).size + 1 := by
    rw [← links_length, ← links_length, linksY, cutY]; simp
  have lengthX' : pageX.size + 1 = (d x.2).size := by rw [← links_length, linksX, lengthX]
  obtain ⟨rebalanced, separated⟩ := pair.deal dealt leafSize internalSize [x, (y₀.1, y.2)]
    (by rw [flat, run]; simp) (by simp) (by simpa using pair.ne) (by simpa [atX, atY] using ⟨headX, headY⟩)
    (by simp only [List.forall_mem_cons, Filled, atX, atY, minFill, maxFill]; simp; omega) links head
  refine ⟨rebalanced, ?_, ?_⟩
  · have whole := pair.separated_flatten leafSize internalSize (by omega)
      (by rw [← links_length, cutY]; simp)
    have shape : flatten d [x, y] = ((x.1, x₀.2) :: restX) ++ (last.1, last.2) :: ((y.1, y₀.2) :: restY) := by
      simp [run]
    have inhabited : ∀ link ∈ (x.1, x₀.2) :: restX, ∃ key, KeyBelow d height link.2 key := by
      have stored := pair.shapedX.children_inhabited leafSize internalSize
      rw [cutX'] at stored
      intro link member
      rcases List.mem_cons.mp member with rfl | member
      · exact stored x₀ List.mem_cons_self
      · exact stored link (by simp [member])
    rw [shape] at whole
    rw [separated, flat, SeparatedIn, bounded_resplit (by simp) inhabited whole.1]
    have rest : ∀ link ∈ ((x.1, x₀.2) :: restX) ++ (y₀.1, last.2) :: ((y.1, y₀.2) :: restY),
        Separated d height link.2 := by
      have all := whole.2
      simp only [List.forall_mem_append, List.forall_mem_cons] at all ⊢
      exact all
    simp only [List.forall_mem_cons] at *
    exact and_iff_left rest
  · have childrenX : (d x.2).children = (d' x.2).children ++ [last.2] := by
      rw [atX]; simp [BPlusTreePage.children, linksX, cutX]
    have childrenY : (d' y.2).children = last.2 :: (d y.2).children := by
      rw [atY]; simp [BPlusTreePage.children, linksY, cutY]
    have distinct := pair.distinct_children
    rw [childrenX, List.append_assoc, List.singleton_append, List.nodup_middle] at distinct
    have once := (List.nodup_cons.mp distinct).1
    rw [List.mem_append, not_or] at once
    refine pair.parented_dealt dealt ?_ adoptedX adoptedY ?_ ?_
    · intro c
      rw [childrenX, childrenY]
      simp
    · intro c member
      rw [pair.parent_child _ _ _ _ (by simp [childrenX, member]),
        if_neg (by rintro rfl; exact once.1 member)]
      exact adoptedX c (by simp [childrenX, member])
    · rw [childrenY]
      intro c member
      rcases List.mem_cons.mp member with rfl | member
      · rw [pair.parent_child _ _ _ _ (by simp [childrenX]), if_pos rfl]
      · rw [pair.parent_child _ _ _ _ (List.mem_append_right _ member),
          if_neg (by rintro rfl; exact once.2 member)]
        exact adoptedY c member

end InternalMoves

end PageStore

namespace BPlusTree

variable [LinearOrder K] [Inhabited K] [Inhabited V] {leafMax internalMax : ℕ} {v : View K V} {p : PageId}
  {front back : List (K × PageId)} {x y : K × PageId} {rounds : ℕ} {Q : Unit → View K V → Prop}

omit [LinearOrder K] [Inhabited K] [Inhabited V] in
/-- The writes of a merge, with the dropped page written last or before the parent. -/
theorem write_drop (d : PageStore K V) {a b q : PageId} (ab : a ≠ b) (qb : q ≠ b)
    (emptied merged above dropped : BPlusTreePage K V) :
    Function.update (Function.update (Function.update (Function.update d b emptied) a merged) q above) b dropped =
      Function.update (Function.update (Function.update d a merged) b dropped) q above := by
  rw [Function.update_comm qb, Function.update_comm ab.symm, Function.update_idem]

/-- What has to hold after a borrow between `x` and `y`. -/
def AfterBorrow (leafMax internalMax : ℕ) (v : View K V) (height : ℕ) (p : PageId)
    (front back : List (K × PageId)) (x y : K × PageId) (splits : Prop) (Q : Unit → View K V → Prop) : Prop :=
  ∀ κ d' page, Rebalanced leafMax internalMax v.data d' height p front back x y [x, (κ, y.2)] page →
    (SeparatedIn d' height (lowKey front x.1) [x, (κ, y.2)] (headKey back none) ↔ splits) →
    (Parented d' height x.2 ∧ Parented d' height y.2 ↔
      Parented v.data height x.2 ∧ Parented v.data height y.2) →
    Q () { v with data := Function.update d' p page }

/-- How the code has to go on after a merge of `y` into `x`, which drops `y`. -/
def AfterMerge (leafMax internalMax : ℕ) (v : View K V) (height : ℕ) (p : PageId)
    (front back : List (K × PageId)) (x y : K × PageId) (next : TreeM K V Unit)
    (Q : Unit → View K V → Prop) : Prop :=
  ∀ d' page, Rebalanced leafMax internalMax v.data d' height p front back x y [x] page →
    y.2 ∉ pagesIn d' height [x] →
    SeparatedIn d' height (lowKey front x.1) [x] (headKey back none) →
    (Parented d' height x.2 ↔ height = 0) →
    Runs next { v with data := Function.update d' p page, deleted := y.2 :: v.deleted } Q

section LeafRuns

variable (pair : Pair leafMax internalMax v.data 0 p front back x y)

include pair

/-- An underfull leaf with a left sibling. -/
theorem runs_coalesce_leaf_left (under : (v.data y.2).size + 1 = leafMax / 2)
    (sibling : Filled leafMax internalMax v.data 0 x.2)
    (borrow : leafMax / 2 < (v.data x.2).size → AfterBorrow leafMax internalMax v 0 p front back x y True Q)
    (merge : (v.data x.2).size ≤ leafMax / 2 → AfterMerge leafMax internalMax v 0 p front back x y
      (finishMerge (coalesceOrRedistributeInternal rounds) p) Q) :
    Runs (coalesceOrRedistribute rounds y.2) v Q := by
  obtain ⟨index, found⟩ := siblingOf_left pair.cut pair.distinct_links
  have minX : (v.data x.2).getMinSize = leafMax / 2 := pair.shapedX.getMinSize
  have cutY : (v.data p).links = (front ++ [x]) ++ y :: back := by simp [pair.cut]
  have position : (InternalPage.valueIndex (v.data p) y.2).toNat = (front ++ [x]).length := by
    rw [index]; simp
  obtain ⟨lowX, highX⟩ : leafMax / 2 ≤ (v.data x.2).size ∧ (v.data x.2).size ≤ leafMax := sibling
  rw [coalesceOrRedistribute]
  refine runs_page (runs_fetchPage ?_)
  rw [pair.parentY]
  simp only [Bool.not_true, Bool.false_eq_true, ↓reduceIte]
  refine runs_page ?_
  simp only [found, pair.valid_pair.1, ↓reduceIte]
  refine runs_fetchPage ?_
  simp only [Bool.not_true, Bool.false_eq_true, ↓reduceIte]
  refine runs_page (runs_page ?_)
  rw [minX]
  by_cases rich : leafMax / 2 < (v.data x.2).size
  · simp only [rich, ↓reduceIte]
    refine runs_writePage (runs_writePage (runs_writePage (runs_unpinPage (runs_unpinPage (runs_last
      (runs_unpinPage (ObservedRuns.RunsTo.pure ?_)))))))
    obtain ⟨rest, entry, cutX⟩ : ∃ rest entry, (v.data x.2).entries = rest ++ [entry] := by
      rcases List.eq_nil_or_concat (v.data x.2).entries with none | ⟨rest, entry, cutX⟩
      · have := congrArg List.length none
        simp at this
        omega
      · exact ⟨rest, entry, by simpa using cutX⟩
    have sizeX : (v.data x.2).size = rest.length + 1 := by rw [← entries_length, cutX]; simp
    obtain ⟨donor, recipient⟩ := LeafPage.moveLastToFrontOf_entries (v.data y.2) cutX
    have key : LeafPage.keyAt (LeafPage.moveLastToFrontOf (v.data x.2) (v.data y.2)).2 0 = entry.1 :=
      congrArg Prod.fst (leafArray_of_entries (show _ = [] ++ entry :: (v.data y.2).entries from recipient))
    have links := InternalPage.setKeyAt_links entry.1 cutY
    rw [List.append_assoc] at links
    rw [position, key]
    obtain ⟨rebalanced, separated⟩ := pair.leaf_borrow donor recipient links (by simp [cutX])
      ⟨rfl, rfl, rfl, rfl⟩ ⟨rfl, rfl, rfl, rfl⟩ ⟨rfl, rfl, rfl, rfl⟩ (by omega)
        (by rw [entries_length]; omega)
    exact borrow rich entry.1 _ _ rebalanced (by simpa using separated) (by simp [Parented])
  · simp only [rich, ↓reduceIte]
    refine runs_writePage (runs_writePage (runs_writePage (runs_unpinPage (runs_unpinPage
      (runs_deletePage fun contents => ?_)))))
    have links := InternalPage.remove_links cutY
    rw [List.append_assoc] at links
    obtain ⟨rebalanced, separated⟩ := pair.leaf_merge contents (LeafPage.moveAllTo_entries (v.data y.2) _) links
      ⟨rfl, rfl, rfl, rfl⟩ ⟨rfl, rfl, rfl, rfl⟩ (by omega)
    have next := merge (not_lt.mp rich) _ _ rebalanced (by simpa [pagesOf] using pair.ne.symm) separated
      (by simp [Parented])
    rw [← write_drop _ pair.ne pair.parent_ne.2] at next
    rw [position]
    exact next

/-- An underfull first leaf. -/
theorem runs_coalesce_leaf_right (first : front = []) (under : (v.data x.2).size + 1 = leafMax / 2)
    (sibling : Filled leafMax internalMax v.data 0 y.2)
    (borrow : leafMax / 2 < (v.data y.2).size → AfterBorrow leafMax internalMax v 0 p front back x y True Q)
    (merge : (v.data y.2).size ≤ leafMax / 2 → AfterMerge leafMax internalMax v 0 p front back x y
      (finishMerge (coalesceOrRedistributeInternal rounds) p) Q) :
    Runs (coalesceOrRedistribute rounds x.2) v Q := by
  subst first
  obtain ⟨index, found⟩ := siblingOf_right pair.cut
  have minY : (v.data y.2).getMinSize = leafMax / 2 := pair.shapedY.getMinSize
  have cutY : (v.data p).links = [x] ++ y :: back := pair.cut
  have position : (InternalPage.valueIndex (v.data p) x.2 + 1).toNat = [x].length := by
    rw [index]; rfl
  obtain ⟨lowY, highY⟩ : leafMax / 2 ≤ (v.data y.2).size ∧ (v.data y.2).size ≤ leafMax := sibling
  rw [coalesceOrRedistribute]
  refine runs_page (runs_fetchPage ?_)
  rw [pair.parentX]
  simp only [Bool.not_true, Bool.false_eq_true, ↓reduceIte]
  refine runs_page ?_
  simp only [found, pair.valid_pair.2, ↓reduceIte]
  refine runs_fetchPage ?_
  simp only [Bool.not_true, Bool.false_eq_true, ↓reduceIte]
  refine runs_page (runs_page ?_)
  rw [minY]
  by_cases rich : leafMax / 2 < (v.data y.2).size
  · simp only [rich, ↓reduceIte]
    refine runs_writePage (runs_writePage (runs_writePage (runs_unpinPage (runs_unpinPage (runs_last
      (runs_unpinPage (ObservedRuns.RunsTo.pure ?_)))))))
    -- the sibling keeps at least one entry, whose key becomes the separator
    obtain ⟨moved, entry, rest, cutEntries⟩ : ∃ moved entry rest,
        (v.data y.2).entries = moved :: entry :: rest := by
      have length := entries_length (v.data y.2)
      match entries : (v.data y.2).entries with
      | [] => simp [entries] at length; omega
      | [_] => simp [entries] at length; omega
      | moved :: entry :: rest => exact ⟨moved, entry, rest, rfl⟩
    have sizeY : (v.data y.2).size = rest.length + 2 := by rw [← entries_length, cutEntries]; simp
    obtain ⟨donor, recipient⟩ := LeafPage.moveFirstToEndOf_entries (v.data x.2) cutEntries
    have key : LeafPage.keyAt (LeafPage.moveFirstToEndOf (v.data y.2) (v.data x.2)).1 0 = entry.1 :=
      congrArg Prod.fst (leafArray_of_entries (show _ = [] ++ entry :: rest from donor))
    have links := InternalPage.setKeyAt_links entry.1 cutY
    rw [position, key]
    obtain ⟨rebalanced, separated⟩ := pair.leaf_borrow recipient donor links (by simp [cutEntries])
      ⟨rfl, rfl, rfl, rfl⟩ ⟨rfl, rfl, rfl, rfl⟩ ⟨rfl, rfl, rfl, rfl⟩
      (by rw [List.length_append, entries_length]; simp; omega) (by omega)
    rw [Function.update_comm pair.ne] at rebalanced separated
    exact borrow rich entry.1 _ _ rebalanced (by simpa using separated) (by simp [Parented])
  · simp only [rich, ↓reduceIte]
    refine runs_writePage (runs_writePage (runs_writePage (runs_unpinPage (runs_unpinPage
      (runs_deletePage fun contents => ?_)))))
    have links := InternalPage.remove_links cutY
    obtain ⟨rebalanced, separated⟩ := pair.leaf_merge contents (LeafPage.moveAllTo_entries (v.data y.2) _) links
      ⟨rfl, rfl, rfl, rfl⟩ ⟨rfl, rfl, rfl, rfl⟩ (by omega)
    have next := merge (not_lt.mp rich) _ _ rebalanced (by simpa [pagesOf] using pair.ne.symm) separated
      (by simp [Parented])
    rw [← write_drop _ pair.ne pair.parent_ne.2] at next
    rw [position]
    exact next

end LeafRuns

section InternalRuns

variable {height : ℕ} (leafSize : 2 ≤ leafMax) (internalSize : 3 ≤ internalMax)
  (pair : Pair leafMax internalMax v.data (height + 1) p front back x y)
  (adoptedX : ∀ c ∈ (v.data x.2).children, (v.data c).parentPageId = x.2)
  (adoptedY : ∀ c ∈ (v.data y.2).children, (v.data c).parentPageId = y.2)

include leafSize internalSize pair adoptedX adoptedY

/-- The stale first key of `y` separates the last child of `x` from the ones before it. -/
def StaleKeySplits (d : PageStore K V) (height : ℕ) (x y : PageId) : Prop :=
  (∀ e ∈ storedIn d height (d x).links.dropLast, e.1 < InternalPage.keyAt (d y) 0) ∧
    ∀ link ∈ (d x).links.getLast?, ∀ e ∈ contents d height link.2, InternalPage.keyAt (d y) 0 ≤ e.1

/-- An underfull internal page with a left sibling. -/
theorem runs_coalesce_internal_left (under : (v.data y.2).size + 1 = (internalMax + 1) / 2)
    (sibling : Filled leafMax internalMax v.data (height + 1) x.2)
    (borrow : (internalMax + 1) / 2 < (v.data x.2).size → AfterBorrow leafMax internalMax v (height + 1) p
      front back x y (StaleKeySplits v.data height x.2 y.2) Q)
    (merge : (v.data x.2).size ≤ (internalMax + 1) / 2 → AfterMerge leafMax internalMax v (height + 1) p
      front back x y (finishMerge (coalesceOrRedistributeInternal rounds) p) Q) :
    Runs (coalesceOrRedistributeInternal (rounds + 1) y.2) v Q := by
  obtain ⟨index, found⟩ := siblingOf_left pair.cut pair.distinct_links
  have minX : (v.data x.2).getMinSize = (internalMax + 1) / 2 := pair.shapedX.getMinSize
  have cutY : (v.data p).links = (front ++ [x]) ++ y :: back := by simp [pair.cut]
  have position : (InternalPage.valueIndex (v.data p) y.2).toNat = (front ++ [x]).length := by
    rw [index]; simp
  have middle : InternalPage.keyAt (v.data p) (front ++ [x]).length = y.1 :=
    congrArg Prod.fst (internalArray_of_links cutY)
  obtain ⟨lowX, highX⟩ : (internalMax + 1) / 2 ≤ (v.data x.2).size ∧ (v.data x.2).size ≤ internalMax :=
    sibling
  obtain ⟨y₀, restY, linksY⟩ := List.exists_cons_of_ne_nil (show (v.data y.2).links ≠ [] by
    rw [← List.length_pos_iff, links_length]; omega)
  rw [coalesceOrRedistributeInternal]
  refine runs_page (runs_fetchPage ?_)
  rw [pair.parentY]
  simp only [Bool.not_true, Bool.false_eq_true, ↓reduceIte]
  refine runs_page ?_
  simp only [found, pair.valid_pair.1, ↓reduceIte]
  refine runs_fetchPage ?_
  simp only [Bool.not_true, Bool.false_eq_true, ↓reduceIte]
  refine runs_page (runs_page ?_)
  rw [minX, position, middle]
  by_cases rich : (internalMax + 1) / 2 < (v.data x.2).size
  · simp only [rich, ↓reduceIte]
    obtain ⟨kept, last, linksX⟩ : ∃ kept last, (v.data x.2).links = kept ++ [last] := by
      rcases List.eq_nil_or_concat (v.data x.2).links with none | ⟨kept, last, linksX⟩
      · have := congrArg List.length none
        simp at this
        omega
      · exact ⟨kept, last, by simpa using linksX⟩
    obtain ⟨donor, recipient⟩ := InternalPage.moveLastToFrontOf_links y.1 linksX linksY
    have first := internalArray_of_links (show _ = [] ++ (y₀.1, last.2) :: _ from recipient)
    have key : InternalPage.keyAt (InternalPage.moveLastToFrontOf (v.data x.2) (v.data y.2) y.1).2 0 = y₀.1 := by
      have cell := congrArg Prod.fst first
      exact cell
    have links := InternalPage.setKeyAt_links y₀.1 cutY
    rw [List.append_assoc] at links
    obtain ⟨rebalanced, separated, parented⟩ := pair.internal_borrow_left leafSize internalSize adoptedX adoptedY
      linksX linksY donor recipient links ⟨rfl, rfl, rfl, rfl⟩ ⟨rfl, rfl, rfl, rfl⟩ ⟨rfl, rfl, rfl, rfl⟩
      ⟨rich, highX⟩ (by omega)
    have stale : InternalPage.keyAt (v.data y.2) 0 = y₀.1 :=
      congrArg Prod.fst (internalArray_of_links (show _ = [] ++ y₀ :: restY from linksY))
    have splits : StaleKeySplits v.data height x.2 y.2 ↔
        (∀ link ∈ kept, ∀ key, KeyBelow v.data height link.2 key → key < y₀.1) ∧
          ∀ key, KeyBelow v.data height last.2 key → y₀.1 ≤ key := by
      simp only [StaleKeySplits, stale, linksX, List.dropLast_concat, List.getLast?_concat, Option.mem_some_iff,
        forall_eq', storedIn, List.mem_flatMap, KeyBelow]
      constructor
      · rintro ⟨under, above⟩
        constructor
        · rintro link member key ⟨value, stored⟩
          exact under (key, value) ⟨link, member, stored⟩
        · rintro key ⟨value, stored⟩
          exact above (key, value) stored
      · rintro ⟨under, above⟩
        constructor
        · rintro e ⟨link, member, stored⟩
          exact under link member e.1 ⟨e.2, stored⟩
        · exact fun e stored => above e.1 ⟨e.2, stored⟩
    have apart : p ∉ [last.2] := by
      simp only [List.mem_singleton]
      rintro rfl
      exact pair.apart.2 (mem_pagesIn.mpr ⟨x, by simp, pagesOf_of_mem_links (by simp [linksX])
        (mem_pagesOf_self v.data height last.2)⟩)
    refine runs_writePage (runs_writePage (runs_writePage (runs_reparent_one last.2 ?_ (runs_unpinPage
      (runs_unpinPage (runs_last (runs_unpinPage (ObservedRuns.RunsTo.pure ?_))))))))
    · dsimp only
      rw [Function.update_of_ne pair.parent_ne.2.symm, Function.update_self, InternalPage.valueAt]
      have cell := congrArg Prod.snd first
      exact cell
    · dsimp only
      rw [key, adopt_update apart]
      exact borrow rich y₀.1 _ _ rebalanced (separated.trans splits.symm) parented
  · simp only [rich, ↓reduceIte]
    refine runs_writePage (runs_writePage (runs_reparent_none rfl (runs_page (runs_writePage (runs_unpinPage
      (runs_unpinPage (runs_deletePage fun contents => ?_)))))))
    obtain ⟨x₀, restX, linksX⟩ := List.exists_cons_of_ne_nil (show (v.data x.2).links ≠ [] by
      rw [← List.length_pos_iff, links_length]; omega)
    have links := InternalPage.remove_links cutY
    rw [List.append_assoc] at links
    obtain ⟨rebalanced, gone, separated, parented⟩ := pair.internal_merge leafSize internalSize adoptedY contents
      linksX linksY (InternalPage.moveAllTo_links (v.data x.2) y.1 linksY) links ⟨rfl, rfl, rfl, rfl⟩
      ⟨rfl, rfl, rfl, rfl⟩ (by omega)
    have next := merge (not_lt.mp rich) _ _ rebalanced gone separated (by simpa using parented)
    rw [← write_drop _ pair.ne pair.parent_ne.2] at next
    dsimp only
    rw [Function.update_of_ne pair.parent_ne.1, Function.update_of_ne pair.parent_ne.2]
    exact next

/-- An underfull first internal page. -/
theorem runs_coalesce_internal_right (first : front = [])
    (under : (v.data x.2).size + 1 = (internalMax + 1) / 2)
    (sibling : Filled leafMax internalMax v.data (height + 1) y.2)
    (borrow : (internalMax + 1) / 2 < (v.data y.2).size → AfterBorrow leafMax internalMax v (height + 1) p
      front back x y True Q)
    (merge : (v.data y.2).size ≤ (internalMax + 1) / 2 → AfterMerge leafMax internalMax v (height + 1) p
      front back x y (finishMerge (coalesceOrRedistributeInternal rounds) p) Q) :
    Runs (coalesceOrRedistributeInternal (rounds + 1) x.2) v Q := by
  subst first
  obtain ⟨index, found⟩ := siblingOf_right pair.cut
  have minY : (v.data y.2).getMinSize = (internalMax + 1) / 2 := pair.shapedY.getMinSize
  have cutY : (v.data p).links = [x] ++ y :: back := pair.cut
  have position : (InternalPage.valueIndex (v.data p) x.2 + 1).toNat = [x].length := by
    rw [index]; rfl
  have middle : InternalPage.keyAt (v.data p) [x].length = y.1 :=
    congrArg Prod.fst (internalArray_of_links cutY)
  obtain ⟨lowY, highY⟩ : (internalMax + 1) / 2 ≤ (v.data y.2).size ∧ (v.data y.2).size ≤ internalMax :=
    sibling
  obtain ⟨x₀, restX, linksX⟩ := List.exists_cons_of_ne_nil (show (v.data x.2).links ≠ [] by
    rw [← List.length_pos_iff, links_length]; omega)
  rw [coalesceOrRedistributeInternal]
  refine runs_page (runs_fetchPage ?_)
  rw [pair.parentX]
  simp only [Bool.not_true, Bool.false_eq_true, ↓reduceIte]
  refine runs_page ?_
  simp only [found, pair.valid_pair.2, ↓reduceIte]
  refine runs_fetchPage ?_
  simp only [Bool.not_true, Bool.false_eq_true, ↓reduceIte]
  refine runs_page (runs_page ?_)
  rw [minY, position, middle]
  by_cases rich : (internalMax + 1) / 2 < (v.data y.2).size
  · simp only [rich, ↓reduceIte]
    obtain ⟨y₀, y₁, restY, linksY⟩ : ∃ y₀ y₁ restY, (v.data y.2).links = y₀ :: y₁ :: restY := by
      have length := links_length (v.data y.2)
      match cells : (v.data y.2).links with
      | [] => simp [cells] at length; omega
      | [_] => simp [cells] at length; omega
      | y₀ :: y₁ :: restY => exact ⟨y₀, y₁, restY, rfl⟩
    obtain ⟨donor, recipient⟩ := InternalPage.moveFirstToEndOf_links (v.data x.2) y.1 linksY
    have key : InternalPage.keyAt (InternalPage.moveFirstToEndOf (v.data y.2) (v.data x.2) y.1).1 0 = y₁.1 := by
      rw [InternalPage.keyAt]
      exact congrArg Prod.fst (internalArray_of_links (show _ = [] ++ y₁ :: restY from donor))
    have lastCell := internalArray_of_links recipient
    rw [links_length] at lastCell
    have links := InternalPage.setKeyAt_links y₁.1 cutY
    obtain ⟨rebalanced, separated, parented⟩ := pair.internal_borrow_right leafSize internalSize adoptedX adoptedY
      linksX linksY recipient donor links ⟨rfl, rfl, rfl, rfl⟩ ⟨rfl, rfl, rfl, rfl⟩ ⟨rfl, rfl, rfl, rfl⟩
      (by omega) ⟨rich, highY⟩
    have apart : p ∉ [y₀.2] := by
      simp only [List.mem_singleton]
      rintro rfl
      exact pair.apart.2 (mem_pagesIn.mpr ⟨y, by simp, pagesOf_of_mem_links (by simp [linksY])
        (mem_pagesOf_self v.data height y₀.2)⟩)
    refine runs_writePage (runs_writePage (runs_writePage (runs_reparent_one y₀.2 ?_ (runs_unpinPage
      (runs_unpinPage (runs_last (runs_unpinPage (ObservedRuns.RunsTo.pure ?_))))))))
    · dsimp only
      rw [Function.update_of_ne pair.parent_ne.1.symm, Function.update_self, InternalPage.valueAt]
      have cell := congrArg Prod.snd lastCell
      exact cell
    · dsimp only
      rw [key, adopt_update apart, Function.update_comm pair.ne.symm]
      exact borrow rich y₁.1 _ _ rebalanced (by simpa using separated) parented
  · simp only [rich, ↓reduceIte]
    refine runs_writePage (runs_writePage (runs_reparent_none rfl (runs_page (runs_writePage (runs_unpinPage
      (runs_unpinPage (runs_deletePage fun contents => ?_)))))))
    obtain ⟨y₀, restY, linksY⟩ := List.exists_cons_of_ne_nil (show (v.data y.2).links ≠ [] by
      rw [← List.length_pos_iff, links_length]; omega)
    have links := InternalPage.remove_links cutY
    obtain ⟨rebalanced, gone, separated, parented⟩ := pair.internal_merge leafSize internalSize adoptedY contents
      linksX linksY (InternalPage.moveAllTo_links (v.data x.2) y.1 linksY) links ⟨rfl, rfl, rfl, rfl⟩
      ⟨rfl, rfl, rfl, rfl⟩ (by omega)
    have next := merge (not_lt.mp rich) _ _ rebalanced gone separated (by simpa using parented)
    rw [← write_drop _ pair.ne pair.parent_ne.2] at next
    dsimp only
    rw [Function.update_of_ne pair.parent_ne.1, Function.update_of_ne pair.parent_ne.2]
    exact next

end InternalRuns

end BPlusTree

end OneBase
