import OneBase.Model.BPlusTreeInvariant
import OneBase.Proofs.BPlusTree.Page
import OneBase.ToMathlib.Separators
import Mathlib.Data.List.Nodup
import Mathlib.Data.List.Flatten

/-! # Subtrees by height

The invariant of a subtree as a recursion on its height, split by concern: `Shaped` (page kinds,
capacities, sorted leaves, occupancy strictly below the top), `Separated` (search order) and
`Parented` (parent pointers strictly below the top). The top page's own occupancy and parent
pointer are left out, so the predicates also describe a subtree in the middle of a split or a
merge. None of them reads a page outside the subtree.
-/

namespace OneBase.PageStore

open BPlusTreePage Separators

variable {K V : Type}

/-- Some value is stored under `key` in the subtree. -/
def KeyBelow (d : PageStore K V) (height : ℕ) (p : PageId) (key : K) : Prop :=
  ∃ value, (key, value) ∈ contents d height p

/-- `GetMinSize()` at a height. -/
def minFill (leafMax internalMax : ℕ) : ℕ → ℕ
  | 0 => leafMax / 2
  | _ + 1 => (internalMax + 1) / 2

/-- `max_size_` at a height. -/
def maxFill (leafMax internalMax : ℕ) : ℕ → ℕ
  | 0 => leafMax
  | _ + 1 => internalMax

/-- The occupancy of a page that is not the root. -/
def Filled (leafMax internalMax : ℕ) (d : PageStore K V) (height : ℕ) (p : PageId) : Prop :=
  minFill leafMax internalMax height ≤ (d p).size ∧ (d p).size ≤ maxFill leafMax internalMax height

/-- Parent pointers strictly below the top of a subtree. -/
def Parented (d : PageStore K V) : ℕ → PageId → Prop
  | 0, _ => True
  | height + 1, p => ∀ c ∈ (d p).children, (d c).parentPageId = p ∧ Parented d height c

section Ordered

variable [LinearOrder K]

/-- Page kinds, capacities and leaf order of a subtree, and the occupancy strictly below its top. -/
def Shaped (leafMax internalMax : ℕ) (d : PageStore K V) : ℕ → PageId → Prop
  | 0, p => (d p).pageType = .leafPage ∧ (d p).maxSize = leafMax ∧
      (d p).entries.Pairwise (fun a b => a.1 < b.1)
  | height + 1, p => (d p).pageType = .internalPage ∧ (d p).maxSize = internalMax ∧
      ∀ c ∈ (d p).children, Shaped leafMax internalMax d height c ∧ Filled leafMax internalMax d height c

/-- Every separator of a subtree bounds the subtrees beside it. -/
def Separated (d : PageStore K V) : ℕ → PageId → Prop
  | 0, _ => True
  | height + 1, p => Bounded (KeyBelow d height) none (d p).links none ∧
      ∀ c ∈ (d p).children, Separated d height c

end Ordered

section Reading

variable (d : PageStore K V) (height : ℕ)

/-- The pages of a run of neighbouring subtrees. -/
def pagesIn (links : List (K × PageId)) : List PageId := links.flatMap fun link => pagesOf d height link.2

/-- The leaves of a run of neighbouring subtrees. -/
def leavesIn (links : List (K × PageId)) : List PageId := links.flatMap fun link => leavesOf d height link.2

/-- What a run of neighbouring subtrees stores. -/
def storedIn (links : List (K × PageId)) : List (K × V) := links.flatMap fun link => contents d height link.2

theorem pagesOf_succ (p : PageId) : pagesOf d (height + 1) p = p :: pagesIn d height (d p).links := by
  simp [pagesOf, pagesIn, children, List.flatMap_map]

theorem leavesOf_succ (p : PageId) : leavesOf d (height + 1) p = leavesIn d height (d p).links := by
  simp [leavesOf, leavesIn, children, List.flatMap_map]

theorem contents_succ (p : PageId) : contents d (height + 1) p = storedIn d height (d p).links := by
  simp [contents, storedIn, children, List.flatMap_map]

@[simp] theorem pagesIn_nil : pagesIn d height [] = [] := rfl

@[simp] theorem leavesIn_nil : leavesIn d height [] = [] := rfl

@[simp] theorem storedIn_nil : storedIn d height [] = [] := rfl

@[simp] theorem pagesIn_cons (link : K × PageId) (rest : List (K × PageId)) :
    pagesIn d height (link :: rest) = pagesOf d height link.2 ++ pagesIn d height rest := rfl

@[simp] theorem leavesIn_cons (link : K × PageId) (rest : List (K × PageId)) :
    leavesIn d height (link :: rest) = leavesOf d height link.2 ++ leavesIn d height rest := rfl

@[simp] theorem storedIn_cons (link : K × PageId) (rest : List (K × PageId)) :
    storedIn d height (link :: rest) = contents d height link.2 ++ storedIn d height rest := rfl

@[simp] theorem pagesIn_append (a b : List (K × PageId)) :
    pagesIn d height (a ++ b) = pagesIn d height a ++ pagesIn d height b := List.flatMap_append

@[simp] theorem leavesIn_append (a b : List (K × PageId)) :
    leavesIn d height (a ++ b) = leavesIn d height a ++ leavesIn d height b := List.flatMap_append

@[simp] theorem storedIn_append (a b : List (K × PageId)) :
    storedIn d height (a ++ b) = storedIn d height a ++ storedIn d height b := List.flatMap_append

theorem mem_pagesOf_self (p : PageId) : p ∈ pagesOf d height p := by
  cases height <;> simp [pagesOf]

variable {d height}

theorem mem_pagesIn {links : List (K × PageId)} {q : PageId} :
    q ∈ pagesIn d height links ↔ ∃ link ∈ links, q ∈ pagesOf d height link.2 := List.mem_flatMap

theorem mem_pagesIn_of_mem {links : List (K × PageId)} {link : K × PageId} (member : link ∈ links) :
    link.2 ∈ pagesIn d height links := mem_pagesIn.mpr ⟨link, member, mem_pagesOf_self d height link.2⟩

end Reading

theorem mem_children {page : BPlusTreePage K V} {c : PageId} :
    c ∈ page.children ↔ ∃ link ∈ page.links, link.2 = c := by
  simp [children]

theorem pagesOf_of_mem_links {d : PageStore K V} {height : ℕ} {p : PageId} {link : K × PageId}
    (member : link ∈ (d p).links) {q : PageId} (inside : q ∈ pagesOf d height link.2) :
    q ∈ pagesOf d (height + 1) p := by
  rw [pagesOf_succ]
  exact List.mem_cons_of_mem _ (mem_pagesIn.mpr ⟨link, member, inside⟩)

theorem leavesOf_sublist_pagesOf (d : PageStore K V) (height : ℕ) (p : PageId) :
    (leavesOf d height p).Sublist (pagesOf d height p) := by
  induction height generalizing p with
  | zero => exact List.Sublist.refl _
  | succ height ih => exact (List.Sublist.flatMap_right _ fun c _ => ih c).cons p

theorem leavesOf_subset_pagesOf (d : PageStore K V) (height : ℕ) (p : PageId) :
    leavesOf d height p ⊆ pagesOf d height p := (leavesOf_sublist_pagesOf d height p).subset

theorem keyBelow_succ {d : PageStore K V} {height : ℕ} {p : PageId} {key : K} :
    KeyBelow d (height + 1) p key ↔ ∃ link ∈ (d p).links, KeyBelow d height link.2 key := by
  simp only [KeyBelow, contents_succ, storedIn, List.mem_flatMap]
  constructor
  · rintro ⟨value, link, member, stored⟩
    exact ⟨link, member, value, stored⟩
  · rintro ⟨link, member, value, stored⟩
    exact ⟨value, link, member, stored⟩

/-- Two pages that differ at most in their parent pointer. -/
def Alike (a b : BPlusTreePage K V) : Prop := a.setParentPageId b.parentPageId = b

theorem Alike.of_eq {a b : BPlusTreePage K V} (same : a = b) : Alike a b := by
  subst same
  rfl

theorem alike_setParentPageId (a : BPlusTreePage K V) (parent : PageId) :
    Alike (a.setParentPageId parent) a := rfl

theorem Alike.symm {a b : BPlusTreePage K V} (alike : Alike a b) : Alike b a := by
  rw [Alike, ← alike]
  rfl

theorem Alike.trans {a b c : BPlusTreePage K V} (first : Alike a b) (second : Alike b c) : Alike a c :=
  calc
    a.setParentPageId c.parentPageId = (a.setParentPageId b.parentPageId).setParentPageId c.parentPageId := rfl
    _ = b.setParentPageId c.parentPageId := by rw [first]
    _ = c := second

section Alike

variable {a b : BPlusTreePage K V} (alike : Alike a b)

include alike

theorem Alike.pageType : a.pageType = b.pageType := congrArg (fun page => page.pageType) alike

theorem Alike.size : a.size = b.size := congrArg (fun page => page.size) alike

theorem Alike.maxSize : a.maxSize = b.maxSize := congrArg (fun page => page.maxSize) alike

theorem Alike.nextPageId : a.nextPageId = b.nextPageId := congrArg (fun page => page.nextPageId) alike

theorem Alike.entries : a.entries = b.entries := congrArg (fun page => page.entries) alike

theorem Alike.links : a.links = b.links := congrArg (fun page => page.links) alike

theorem Alike.children : a.children = b.children := congrArg (fun page => page.children) alike

end Alike

section Congruence

variable {d d' : PageStore K V}

/-- Reading a subtree looks at no parent pointer. -/
theorem reading_congr {height : ℕ} {p : PageId}
    (alike : ∀ q ∈ pagesOf d height p, Alike (d' q) (d q)) :
    pagesOf d' height p = pagesOf d height p ∧ leavesOf d' height p = leavesOf d height p ∧
      contents d' height p = contents d height p := by
  induction height generalizing p with
  | zero => exact ⟨rfl, rfl, (alike p (mem_pagesOf_self d 0 p)).entries⟩
  | succ height ih =>
    have top := (alike p (mem_pagesOf_self d _ p)).links
    have below (link) (member : link ∈ (d p).links) := ih (p := link.2)
      (fun q inside => alike q (pagesOf_of_mem_links member inside))
    rw [pagesOf_succ, leavesOf_succ, contents_succ, pagesOf_succ, leavesOf_succ, contents_succ, top]
    exact ⟨congrArg (p :: ·) (List.flatMap_congr fun link member => (below link member).1),
      List.flatMap_congr fun link member => (below link member).2.1,
      List.flatMap_congr fun link member => (below link member).2.2⟩

/-- Parent pointers strictly below the top only depend on the pages there. -/
theorem parented_congr {height : ℕ} {p : PageId}
    (alike : ∀ q ∈ pagesOf d height p, Alike (d' q) (d q))
    (same : ∀ q ∈ pagesOf d height p, q ≠ p → (d' q).parentPageId = (d q).parentPageId)
    (distinct : (pagesOf d height p).Nodup) : Parented d' height p ↔ Parented d height p := by
  induction height generalizing p with
  | zero => exact Iff.rfl
  | succ height ih =>
    rw [pagesOf, List.nodup_cons] at distinct
    simp only [Parented, (alike p (mem_pagesOf_self d _ p)).children]
    refine forall₂_congr fun c member => ?_
    have inside : ∀ q ∈ pagesOf d height c, q ∈ pagesOf d (height + 1) p := fun q inPages =>
      List.mem_cons_of_mem _ (List.mem_flatMap.mpr ⟨c, member, inPages⟩)
    have apart : ∀ q ∈ pagesOf d height c, q ≠ p := by
      rintro q inPages rfl
      exact distinct.1 (List.mem_flatMap.mpr ⟨c, member, inPages⟩)
    rw [same c (inside c (mem_pagesOf_self d _ c)) (apart c (mem_pagesOf_self d _ c)),
      ih (fun q inPages => alike q (inside q inPages))
        (fun q inPages _ => same q (inside q inPages) (apart q inPages))
        ((List.nodup_flatMap.mp distinct.2).1 c member)]

variable [LinearOrder K]

theorem shaped_congr {leafMax internalMax height : ℕ} {p : PageId}
    (alike : ∀ q ∈ pagesOf d height p, Alike (d' q) (d q)) :
    Shaped leafMax internalMax d' height p ↔ Shaped leafMax internalMax d height p := by
  induction height generalizing p with
  | zero =>
    have top := alike p (mem_pagesOf_self d 0 p)
    simp only [Shaped, top.pageType, top.maxSize, top.entries]
  | succ height ih =>
    have top := alike p (mem_pagesOf_self d _ p)
    simp only [Shaped, top.pageType, top.maxSize, top.children]
    refine and_congr_right fun _ => and_congr_right fun _ => forall₂_congr fun c member => ?_
    have inside : ∀ q ∈ pagesOf d height c, Alike (d' q) (d q) := fun q inside =>
      alike q (List.mem_cons_of_mem _ (List.mem_flatMap.mpr ⟨c, member, inside⟩))
    rw [ih inside, Filled, Filled, (inside c (mem_pagesOf_self d _ c)).size]

theorem separated_congr {height : ℕ} {p : PageId}
    (alike : ∀ q ∈ pagesOf d height p, Alike (d' q) (d q)) :
    Separated d' height p ↔ Separated d height p := by
  induction height generalizing p with
  | zero => exact Iff.rfl
  | succ height ih =>
    have top := alike p (mem_pagesOf_self d _ p)
    have inside : ∀ c ∈ (d p).children, ∀ q ∈ pagesOf d height c, Alike (d' q) (d q) :=
      fun c member q inside =>
        alike q (List.mem_cons_of_mem _ (List.mem_flatMap.mpr ⟨c, member, inside⟩))
    simp only [Separated, top.links, top.children]
    refine and_congr (bounded_congr fun link member key => ?_)
      (forall₂_congr fun c member => ih (inside c member))
    simp only [KeyBelow, (reading_congr (inside link.2 (mem_children.mpr ⟨link, member, rfl⟩))).2.2]

end Congruence

section Occupancy

variable [LinearOrder K] {leafMax internalMax : ℕ} {d : PageStore K V}

/-- `GetMinSize()` of a page in a shaped subtree. -/
theorem Shaped.getMinSize {height : ℕ} {p : PageId} (shaped : Shaped leafMax internalMax d height p) :
    (d p).getMinSize = minFill leafMax internalMax height := by
  cases height <;> simp [Shaped] at shaped <;>
    simp [BPlusTreePage.getMinSize, isLeafPage, shaped.1, shaped.2.1, minFill]

theorem Shaped.maxSize {height : ℕ} {p : PageId} (shaped : Shaped leafMax internalMax d height p) :
    (d p).maxSize = maxFill leafMax internalMax height := by
  cases height <;> exact shaped.2.1

theorem minFill_pos (leafSize : 2 ≤ leafMax) (internalSize : 3 ≤ internalMax) (height : ℕ) :
    1 ≤ minFill leafMax internalMax height := by
  cases height <;> simp only [minFill] <;> omega

omit [LinearOrder K] in
/-- No page of the subtree is empty. -/
def Stocked (d : PageStore K V) : ℕ → PageId → Prop
  | 0, p => 1 ≤ (d p).size
  | height + 1, p => 1 ≤ (d p).size ∧ ∀ c ∈ (d p).children, Stocked d height c

omit [LinearOrder K] in
theorem Stocked.positive {height : ℕ} {p : PageId} (stocked : Stocked d height p) : 1 ≤ (d p).size := by
  cases height with
  | zero => exact stocked
  | succ height => exact stocked.1

omit [LinearOrder K] in
/-- A subtree without empty pages stores a key. -/
theorem Stocked.inhabited {height : ℕ} {p : PageId} (stocked : Stocked d height p) :
    ∃ key, KeyBelow d height p key := by
  induction height generalizing p with
  | zero =>
    obtain ⟨⟨key, value⟩, member⟩ : ∃ e, e ∈ (d p).entries := by
      apply List.exists_mem_of_length_pos
      rw [entries_length]
      exact stocked
    exact ⟨key, value, member⟩
  | succ height ih =>
    obtain ⟨c, member⟩ : ∃ c, c ∈ (d p).children := by
      apply List.exists_mem_of_length_pos
      rw [children_length]
      exact stocked.1
    obtain ⟨key, stored⟩ := ih (stocked.2 c member)
    obtain ⟨link, linked, rfl⟩ := mem_children.mp member
    exact ⟨key, keyBelow_succ.mpr ⟨link, linked, stored⟩⟩

/-- A shaped subtree has no empty page below its top. -/
theorem Shaped.stocked (leafSize : 2 ≤ leafMax) (internalSize : 3 ≤ internalMax) {height : ℕ}
    {p : PageId} (shaped : Shaped leafMax internalMax d height p) (positive : 1 ≤ (d p).size) :
    Stocked d height p := by
  induction height generalizing p with
  | zero => exact positive
  | succ height ih =>
    refine ⟨positive, fun c member => ?_⟩
    obtain ⟨below, filled⟩ := shaped.2.2 c member
    exact ih below ((minFill_pos leafSize internalSize height).trans filled.1)

/-- A subtree whose top holds anything stores a key. -/
theorem Shaped.inhabited (leafSize : 2 ≤ leafMax) (internalSize : 3 ≤ internalMax) {height : ℕ}
    {p : PageId} (shaped : Shaped leafMax internalMax d height p) (positive : 1 ≤ (d p).size) :
    ∃ key, KeyBelow d height p key := (shaped.stocked leafSize internalSize positive).inhabited

/-- No child of a shaped page is empty. -/
theorem Shaped.children_inhabited (leafSize : 2 ≤ leafMax) (internalSize : 3 ≤ internalMax)
    {height : ℕ} {p : PageId} (shaped : Shaped leafMax internalMax d (height + 1) p) :
    ∀ link ∈ (d p).links, ∃ key, KeyBelow d height link.2 key := by
  intro link member
  obtain ⟨below, filled⟩ := shaped.2.2 link.2 (mem_children.mpr ⟨link, member, rfl⟩)
  exact below.inhabited leafSize internalSize ((minFill_pos leafSize internalSize height).trans filled.1)

end Occupancy

end OneBase.PageStore
