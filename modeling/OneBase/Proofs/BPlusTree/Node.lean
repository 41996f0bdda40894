import OneBase.Proofs.BPlusTree.Search

/-! # From a window of children to the page above

A sound subtree, and what becomes of it when a window of its children is rewritten and its top page
is written to match: everything is kept except search order and parent pointers, and those are
decided inside the window.
-/

namespace OneBase.PageStore

open BPlusTreePage Separators ListEdits

variable {K V : Type} [LinearOrder K] {leafMax internalMax : ℕ} {d d' : PageStore K V} {height : ℕ} {p : PageId}

/-- A subtree that satisfies the invariant below its top, with usable page ids. -/
structure Subtree (leafMax internalMax : ℕ) (d : PageStore K V) (height : ℕ) (p : PageId) : Prop where
  shaped : Shaped leafMax internalMax d height p
  separated : Separated d height p
  parented : Parented d height p
  distinct : (pagesOf d height p).Nodup
  valid : ∀ q ∈ pagesOf d height p, q ≠ invalidPageId

namespace Subtree

variable (sub : Subtree leafMax internalMax d (height + 1) p)

include sub

theorem child {link : K × PageId} (member : link ∈ (d p).links) :
    Subtree leafMax internalMax d height link.2 where
  shaped := (sub.shaped.2.2 _ (mem_children.mpr ⟨link, member, rfl⟩)).1
  separated := sub.separated.2 _ (mem_children.mpr ⟨link, member, rfl⟩)
  parented := (sub.parented _ (mem_children.mpr ⟨link, member, rfl⟩)).2
  distinct := by
    have distinct := sub.distinct
    rw [pagesOf_succ] at distinct
    exact nodup_of_mem_links (List.nodup_cons.mp distinct).2 member
  valid := fun q inside => sub.valid q (pagesOf_of_mem_links member inside)

theorem child_filled {link : K × PageId} (member : link ∈ (d p).links) :
    Filled leafMax internalMax d height link.2 := (sub.shaped.2.2 _ (mem_children.mpr ⟨link, member, rfl⟩)).2

theorem child_parent {link : K × PageId} (member : link ∈ (d p).links) : (d link.2).parentPageId = p :=
  (sub.parented _ (mem_children.mpr ⟨link, member, rfl⟩)).1

theorem top_not_mem : p ∉ pagesIn d height (d p).links := by
  have distinct := sub.distinct
  rw [pagesOf_succ] at distinct
  exact (List.nodup_cons.mp distinct).1

theorem distinct_below : (pagesIn d height (d p).links).Nodup := by
  have distinct := sub.distinct
  rw [pagesOf_succ] at distinct
  exact (List.nodup_cons.mp distinct).2

omit sub in
/-- An internal page of a sound subtree is the parent of its children. -/
theorem adopted (sub : Subtree leafMax internalMax d height p) (kind : (d p).pageType = .internalPage) :
    ∀ c ∈ (d p).children, (d c).parentPageId = p := by
  cases height with
  | zero => simp [sub.shaped.1] at kind
  | succ height => exact fun c child => (sub.parented c child).1

omit sub in
/-- Soundness only depends on the pages of the subtree. -/
theorem of_eq (sub : Subtree leafMax internalMax d height p) (same : ∀ q ∈ pagesOf d height p, d' q = d q) :
    Subtree leafMax internalMax d' height p := by
  have alike : ∀ q ∈ pagesOf d height p, Alike (d' q) (d q) := fun q inside => Alike.of_eq (same q inside)
  have pages := (reading_congr alike).1
  refine ⟨(shaped_congr alike).mpr sub.shaped, (separated_congr alike).mpr sub.separated,
    (parented_congr alike (fun q inside _ => by rw [same q inside]) sub.distinct).mpr sub.parented, ?_, ?_⟩
  · rw [pages]
    exact sub.distinct
  · rw [pages]
    exact sub.valid

end Subtree

/-- The least size of a root page. -/
def rootMin : ℕ → ℕ
  | 0 => 1
  | _ + 1 => 2

/-- A whole tree of pages, search order and parent pointers aside. -/
structure Rooted (leafMax internalMax : ℕ) (d : PageStore K V) (height : ℕ) (root : PageId) : Prop where
  shaped : Shaped leafMax internalMax d height root
  low : rootMin height ≤ (d root).size
  high : (d root).size ≤ maxFill leafMax internalMax height
  parent : (d root).parentPageId = invalidPageId
  distinct : (pagesOf d height root).Nodup
  chain : LeafChain d (leavesOf d height root) invalidPageId

theorem Rooted.positive (rooted : Rooted leafMax internalMax d height p) : 1 ≤ (d p).size := by
  have low := rooted.low
  cases height <;> simp only [rootMin] at low <;> omega

/-- What is known of a subtree after a window of the children of its top was rewritten. -/
structure NodeRewritten (leafMax internalMax : ℕ) (fresh : PageId → Prop) (old new : List (K × V))
    (d d' : PageStore K V) (height : ℕ) (p : PageId) : Prop where
  rewritten : ∀ key, Rewritten leafMax internalMax fresh old new d d' height [(key, p)] [(key, p)]
  parentPageId : (d' p).parentPageId = (d p).parentPageId
  adopted : (d' p).pageType = .internalPage → ∀ c ∈ (d' p).children, (d' c).parentPageId = p
  firstKey : (d' p).pageType = .internalPage → InternalPage.keyAt (d' p) 0 = InternalPage.keyAt (d p) 0

variable {fresh : PageId → Prop} {old new : List (K × V)} {front back win win' : List (K × PageId)}
  {x : K × PageId} {page : BPlusTreePage K V}

/-- Lift a rewritten window to the subtree above it. -/
theorem Rewritten.node (sub : Subtree leafMax internalMax d (height + 1) p)
    (stale : ∀ q ∈ pagesOf d (height + 1) p, ¬ fresh q)
    (step : Rewritten leafMax internalMax fresh old new d d' height (x :: win) (x :: win'))
    (cut : (d p).links = front ++ ((x :: win) ++ back)) (links : page.links = front ++ ((x :: win') ++ back))
    (kind : page.pageType = (d p).pageType) (capacity : page.maxSize = (d p).maxSize)
    (parent : page.parentPageId = (d p).parentPageId)
    (filled : ∀ link ∈ x :: win', Filled leafMax internalMax d' height link.2)
    (parents : ∀ link ∈ x :: win', (d' link.2).parentPageId = p) :
    NodeRewritten leafMax internalMax fresh old new d (Function.update d' p page) (height + 1) p ∧
      (Separated (Function.update d' p page) (height + 1) p ↔
        SeparatedIn d' height (lowKey front x.1) (x :: win') (headKey back none)) ∧
      (Parented (Function.update d' p page) (height + 1) p ↔ ∀ link ∈ x :: win', Parented d' height link.2) := by
  have apart := sub.top_not_mem
  have distinct := sub.distinct_below
  have staleBelow : ∀ q ∈ pagesIn d height (d p).links, ¬ fresh q := fun q member => by
    apply stale
    rw [pagesOf_succ]
    exact List.mem_cons_of_mem _ member
  rw [cut] at distinct staleBelow
  obtain ⟨sameFront, sameBack⟩ := step.beside distinct staleBelow
  have outer : ∀ link ∈ front ++ back, link ∈ (d p).links ∧ d' link.2 = d link.2 := by
    intro link member
    rcases List.mem_append.mp member with member | member
    · exact ⟨by simp [cut, member], sameFront _ (mem_pagesIn_of_mem member)⟩
    · exact ⟨by simp [cut, member], sameBack _ (mem_pagesIn_of_mem member)⟩
  have whole := step.context _ _ distinct staleBelow fun link member => (sub.child (outer link member).1).shaped
  rw [← cut, ← links] at whole
  have cases_links : ∀ link ∈ page.links, link ∈ front ++ back ∨ link ∈ x :: win' := by
    intro link member
    rw [links] at member
    simp only [List.mem_append] at member ⊢
    tauto
  have staleTop : ¬ fresh p := stale p (mem_pagesOf_self d _ p)
  refine ⟨⟨fun key => whole.lift apart staleTop (kind.trans sub.shaped.1)
    (capacity.trans sub.shaped.2.1) ?_ key key,
    by simpa using parent, ?_, ?_⟩, ?_, ?_⟩
  · intro link member
    rcases cases_links link member with outside | inside
    · rw [Filled, (outer link outside).2]
      exact sub.child_filled (outer link outside).1
    · exact filled link inside
  · intro _ c child
    obtain ⟨link, member, rfl⟩ := mem_children.mp child
    rw [Function.update_self] at member
    rw [whole.below_write apart staleTop _ (mem_pagesIn_of_mem member)]
    rcases cases_links link member with outside | inside
    · rw [(outer link outside).2]
      exact sub.child_parent (outer link outside).1
    · exact parents link inside
  · intro _
    rw [Function.update_self, InternalPage.keyAt, InternalPage.keyAt]
    cases front with
    | nil =>
      have before := internalArray_of_links (show (d p).links = [] ++ x :: (win ++ back) from cut)
      have after := internalArray_of_links (show page.links = [] ++ x :: (win' ++ back) from links)
      exact congrArg Prod.fst (after.trans before.symm)
    | cons first rest =>
      have before := internalArray_of_links (show (d p).links = [] ++ first :: _ from cut)
      have after := internalArray_of_links (show page.links = [] ++ first :: _ from links)
      exact congrArg Prod.fst (after.trans before.symm)
  · exact step.separated_lift cut links rfl sub.distinct stale sub.separated
  · rw [step.parented_lift cut links sub.distinct stale sub.parented]
    exact forall₂_congr fun link member => and_iff_right (parents link member)

/-- Pages of a subtree that are none of its pages any more. -/
def Dropped (d d' : PageStore K V) (height : ℕ) (p : PageId) (dropped : List PageId) : Prop :=
  ∀ q ∈ dropped, q ∈ pagesOf d height p ∧ q ∉ pagesOf d' height p

/-- A page that leaves a rewritten window leaves the subtree above it. -/
theorem Rewritten.left_above (sub : Subtree leafMax internalMax d (height + 1) p)
    (stale : ∀ q ∈ pagesOf d (height + 1) p, ¬ fresh q)
    (step : Rewritten leafMax internalMax fresh old new d d' height win win')
    (cut : (d p).links = front ++ (win ++ back)) (links : page.links = front ++ (win' ++ back)) {q : PageId}
    (inside : q ∈ pagesIn d height win) (gone : q ∉ pagesIn d' height win') :
    q ∈ pagesOf d (height + 1) p ∧ q ∉ pagesOf (Function.update d' p page) (height + 1) p := by
  have apart := sub.top_not_mem
  have distinct := sub.distinct_below
  have below : q ∈ pagesIn d height (d p).links := by simp [cut, inside]
  have staleBelow : ∀ q ∈ pagesIn d height (d p).links, ¬ fresh q := fun q member => by
    apply stale
    rw [pagesOf_succ]
    exact List.mem_cons_of_mem _ member
  rw [cut] at distinct staleBelow
  obtain ⟨sameFront, sameBack⟩ := step.beside distinct staleBelow
  have whole := step.context _ _ distinct staleBelow fun link member => (sub.child (by
    rw [cut]
    simp only [List.mem_append] at member ⊢
    tauto)).shaped
  rw [← cut, ← links] at whole
  have same := whole.below_write apart (stale p (mem_pagesOf_self d _ p))
  refine ⟨by rw [pagesOf_succ]; exact List.mem_cons_of_mem _ below, ?_⟩
  rw [pagesOf_succ, Function.update_self, (readingIn_congr fun q inside => Alike.of_eq (same q inside)).1, links]
  simp only [pagesIn_append, List.mem_cons, List.mem_append, not_or]
  rw [(readingIn_congr fun q inside => Alike.of_eq (sameFront q inside)).1,
    (readingIn_congr fun q inside => Alike.of_eq (sameBack q inside)).1]
  simp only [pagesIn_append] at distinct
  obtain ⟨-, rest, apartFront⟩ := List.nodup_append.mp distinct
  obtain ⟨-, -, apartBack⟩ := List.nodup_append.mp rest
  refine ⟨fun top => apart (top ▸ below), fun inFront => ?_, gone, fun inBack => ?_⟩
  · exact apartFront q inFront q (List.mem_append_left _ inside) rfl
  · exact apartBack q inside q inBack rfl

end OneBase.PageStore
