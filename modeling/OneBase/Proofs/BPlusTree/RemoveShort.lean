import OneBase.Proofs.BPlusTree.InsertTolerance
import OneBase.Proofs.BPlusTree.RemoveCorrect
import OneBase.Proofs.BPlusTree.TreePins

/-! # Every call on a tree comes to an end

A removal may be refused pages anywhere on its way up, after which parent pointers can be stale and pages too small.
What the walk up relies on is kept: above the level it stands at, parents and children are still one level apart.
So it ends after as many rounds as the tree is high, and with it every call on a well-formed tree.
-/

namespace OneBase.BPlusTree

open BPlusTreePage PageStore ObservedRuns

variable {K V : Type}

/-- From a level on, parents stand one level above their pages and children one below. -/
structure Tiers (tier : ℕ → PageId → Prop) (height : ℕ) (d : PageStore K V) : Prop where
  parent : ∀ level ≥ height, ∀ p, tier level p → (d p).isRootPage = false →
    tier (level + 1) (d p).parentPageId
  child : ∀ level ≥ height, ∀ p, tier (level + 1) p → ∀ c ∈ (d p).children, tier level c

section Walk

variable {tier : ℕ → PageId → Prop} {height : ℕ} {d d' : PageStore K V}

/-- Below the next level everything may change, and on it everything but parent pointers. -/
theorem Tiers.up (tiers : Tiers tier height d)
    (parents : ∀ level > height, ∀ p, tier level p → (d' p).parentPageId = (d p).parentPageId)
    (above : ∀ level > height + 1, ∀ p, tier level p → d' p = d p) : Tiers tier (height + 1) d' := by
  constructor
  · intro level high p here inner
    have kept := parents level high p here
    rw [kept]
    refine tiers.parent level (Nat.le_of_succ_le high) p here ?_
    rwa [isRootPage, ← kept]
  · intro level high p here c member
    rw [above (level + 1) (Nat.lt_succ_of_le high) p here] at member
    exact tiers.child level (Nat.le_of_succ_le high) p here c member

/-- A leaf may be rewritten under the same parent. -/
theorem Tiers.leaf (tiers : Tiers tier 0 d) (apart : ∀ a b p, tier a p → tier b p → a = b) {p : PageId}
    {page : BPlusTreePage K V} (here : tier 0 p) (kept : page.parentPageId = (d p).parentPageId) :
    Tiers tier 0 (Function.update d p page) := by
  constructor
  · intro level _ q stands inner
    rcases eq_or_ne q p with rfl | different
    · rw [Function.update_self, isRootPage, kept] at inner
      rw [Function.update_self, kept]
      exact tiers.parent level (Nat.zero_le _) q stands inner
    · rw [Function.update_of_ne different] at inner ⊢
      exact tiers.parent level (Nat.zero_le _) q stands inner
  · intro level _ q stands c member
    have different : q ≠ p := by
      rintro rfl
      exact absurd (apart _ _ _ stands here) (Nat.succ_ne_zero _)
    rw [Function.update_of_ne different] at member
    exact tiers.child level (Nat.zero_le _) q stands c member

theorem removeAndDeleteRecord_parentPageId [LinearOrder K] (page : BPlusTreePage K V) (key : K) :
    (LeafPage.removeAndDeleteRecord page key).1.parentPageId = page.parentPageId := by
  rw [LeafPage.removeAndDeleteRecord]
  split
  · rfl
  · rfl

theorem valueAt_mem_children {page : BPlusTreePage K V} {i : ℕ} (inside : i < page.size) :
    InternalPage.valueAt page i ∈ page.children := by
  have bound : i < page.links.length := by rwa [links_length]
  have cell : InternalPage.valueAt page i = page.links[i].2 := by rw [links_getElem, InternalPage.valueAt]
  exact mem_children.mpr ⟨_, List.getElem_mem bound, cell.symm⟩

theorem valueIndexLoop_bounds (page : BPlusTreePage K V) (value : PageId) (i left : ℕ) :
    -1 ≤ InternalPage.valueIndexLoop page value i left ∧
    InternalPage.valueIndexLoop page value i left < i + left := by
  induction left generalizing i with
  | zero =>
    rw [InternalPage.valueIndexLoop]
    omega
  | succ left ih =>
    rw [InternalPage.valueIndexLoop]
    split
    · omega
    · have later := ih (i + 1)
      omega

/-- A sibling is a child of the same page, wherever the page itself is found there. -/
theorem siblingOf_mem {parent : BPlusTreePage K V} {p : PageId}
    (found : (siblingOf parent (InternalPage.valueIndex parent p)).1 ≠ invalidPageId) :
    (siblingOf parent (InternalPage.valueIndex parent p)).1 ∈ parent.children := by
  have bounds := valueIndexLoop_bounds parent p 0 parent.size
  rw [← InternalPage.valueIndex] at bounds
  rw [siblingOf] at found ⊢
  split_ifs at found ⊢ with left right
  · exact valueAt_mem_children (by omega)
  · exact valueAt_mem_children (by omega)
  · exact absurd rfl found

variable {s : Supply K V} {β : Type} {R : β → Supply K V → Prop} {p : PageId}

/-- Code that comes to an end from a state. -/
abbrev Ends (m : TreeM K V β) (s : Supply K V) : Prop := ShortRuns m s fun _ _ => True

theorem ends_pure {a : β} : Ends (pure a) s := RunsTo.pure trivial

theorem ends_unpinPage {isDirty : Bool} : Ends (unpinPage p isDirty) s := by
  rintro tree - rfl
  exact ⟨_, _, rfl, trivial, trivial⟩

/-- Writing two pages of a level leaves the page above them. -/
theorem parent_unwritten (apart : ∀ a b p, tier a p → tier b p → a = b) {p sibling parent : PageId}
    (here : tier height p) (siblingHere : tier height sibling) (parentHere : tier (height + 1) parent)
    (a b : BPlusTreePage K V) : Function.update (Function.update d p a) sibling b parent = d parent := by
  have different {q : PageId} (low : tier height q) : parent ≠ q := by
    rintro rfl
    exact Nat.succ_ne_self height (apart _ _ _ parentHere low)
  rw [Function.update_of_ne (different siblingHere), Function.update_of_ne (different here)]

/-- Merging two pages of a level and shrinking their parent is a step up. -/
theorem Tiers.merge (apart : ∀ a b p, tier a p → tier b p → a = b) {d : PageStore K V} {sibling parent : PageId}
    {a b c e : BPlusTreePage K V}
    (tiers : Tiers tier height d) (here : tier height p) (siblingHere : tier height sibling)
    (parentHere : tier (height + 1) parent) {emptied : PageId} (isEmptied : tier height emptied)
    (kept : c.parentPageId = (d parent).parentPageId) :
    Tiers tier (height + 1) (Function.update (Function.update (Function.update (Function.update d p a) sibling b)
      parent c) emptied e) := by
  have other {q : PageId} (low : tier height q) {level : ℕ} (high : height < level) {x : PageId}
      (at_ : tier level x) :
      x ≠ q := by
    rintro rfl
    exact absurd (apart _ _ _ low at_) (Nat.ne_of_lt high)
  refine tiers.up (fun level high x at_ => ?_) fun level high x at_ => ?_
  · rw [Function.update_of_ne (other isEmptied high at_)]
    rcases eq_or_ne x parent with rfl | different
    · rw [Function.update_self, kept]
    · rw [Function.update_of_ne different, Function.update_of_ne (other siblingHere high at_),
        Function.update_of_ne (other here high at_)]
  · have different : x ≠ parent := by
      rintro rfl
      exact absurd (apart _ _ _ parentHere at_) (Nat.ne_of_lt high)
    have above : height < level := Nat.lt_of_succ_lt high
    rw [Function.update_of_ne (other isEmptied above at_), Function.update_of_ne different,
      Function.update_of_ne (other siblingHere above at_), Function.update_of_ne (other here above at_)]

theorem short_reparent_none {holder parent : PageId} {start count : ℕ} {f : Unit → TreeM K V β} (none : count = 0)
    (rest : ShortRuns (f ()) s R) : ShortRuns (reparent holder parent start count >>= f) s R := by
  subst none
  exact rest

variable [Inhabited K] [Inhabited V]

/-- `DeletePage` may or may not have dropped the contents. -/
theorem short_deletePage {f : Unit → TreeM K V β}
    (rest : ∀ contents, ShortRuns (f ()) { s with view := { s.view with
      data := Function.update s.view.data p contents
      deleted := p :: s.view.deleted } } R) : ShortRuns (deletePage p >>= f) s R := by
  apply short_of_step
  rintro tree rfl
  refine ⟨(), _, rfl, ?_⟩
  rcases Nat.eq_zero_or_pos (tree.pinCount p) with unpinned | pinned
  · simpa only [supply, view, unpinned, if_true] using
      rest (erased (tree.data p))
  · have same := rest (tree.data p)
    rw [show (supply tree).view.data = tree.data from rfl, Function.update_eq_self] at same
    simpa only [supply, view, pinned.ne', if_false] using same

theorem ends_deletePage : Ends (deletePage p) s := by
  rintro tree - rfl
  exact ⟨_, _, rfl, trivial, trivial⟩

end Walk

section Climb

variable [Inhabited K] [Inhabited V] {tier : ℕ → PageId → Prop} {height top rounds : ℕ}
    {s : Supply K V} {p : PageId}

theorem ends_finishMerge {next : PageId → TreeM K V Unit}
    (climbs : (s.view.data p).isRootPage = false → Ends (next p) s) : Ends (finishMerge next p) s := by
  rw [finishMerge]
  apply short_page
  split_ifs with under only
  · exact climbs (by simpa using under.2)
  · apply short_writePage
    apply short_modify_root
    apply short_fetchPage
    split
    · apply short_page
      apply short_writePage
      apply short_unpinPage
      apply short_unpinPage
      exact ends_deletePage
    · apply short_unpinPage
      exact ends_deletePage
  · exact ends_unpinPage

variable (apart : ∀ a b p, tier a p → tier b p → a = b) (topmost : ∀ a p, tier a p → a ≤ top)

include apart topmost

/-- A round on a page that is not the root goes on at most one level higher. -/
theorem ends_coalesceOrRedistributeInternal (tiers : Tiers tier height s.view.data) (here : tier height p)
    (inner : (s.view.data p).isRootPage = false) (enough : top < rounds + height) :
    Ends (coalesceOrRedistributeInternal rounds p) s := by
  induction rounds generalizing s p height with
  | zero => exact absurd (topmost _ _ here) (by omega)
  | succ rounds ih =>
    have parentHere := tiers.parent height le_rfl p here inner
    rw [coalesceOrRedistributeInternal]
    apply short_page
    apply short_fetchPage
    split
    · exact ends_unpinPage
    apply short_page
    dsimp only
    split
    · apply short_unpinPage
      exact ends_unpinPage
    next found =>
    have siblingHere := tiers.child height le_rfl _ parentHere _ (siblingOf_mem found)
    apply short_fetchPage
    split
    · apply short_unpinPage
      exact ends_unpinPage
    apply short_page
    apply short_page
    have climbs (s' : Supply K V) (tiers' : Tiers tier (height + 1) s'.view.data) :
        Ends (finishMerge (coalesceOrRedistributeInternal rounds) (s.view.data p).parentPageId) s' :=
      ends_finishMerge fun inner' => ih tiers' parentHere inner' (by omega)
    split
    · split
      · apply short_writePage
        apply short_writePage
        apply short_writePage
        apply short_reparent
        intro ids _
        apply short_unpinPage
        apply short_unpinPage
        exact ends_unpinPage
      · apply short_writePage
        apply short_writePage
        apply short_writePage
        apply short_reparent
        intro ids _
        apply short_unpinPage
        apply short_unpinPage
        exact ends_unpinPage
    · split
      · apply short_writePage
        apply short_writePage
        apply short_reparent_none rfl
        apply short_page
        apply short_writePage
        apply short_unpinPage
        apply short_unpinPage
        apply short_deletePage
        intro contents
        have same := parent_unwritten (d := s.view.data) apart here siblingHere parentHere
        exact climbs _ (tiers.merge apart here siblingHere parentHere here (congrArg (·.parentPageId) (same _ _) :))
      · apply short_writePage
        apply short_writePage
        apply short_reparent_none rfl
        apply short_page
        apply short_writePage
        apply short_unpinPage
        apply short_unpinPage
        apply short_deletePage
        intro contents
        have same := parent_unwritten (d := s.view.data) apart siblingHere here parentHere
        exact climbs _ (tiers.merge apart siblingHere here parentHere siblingHere
          (congrArg (·.parentPageId) (same _ _) :))

/-- The removal from a leaf that is not the root goes on from its parent. -/
theorem ends_coalesceOrRedistribute (tiers : Tiers tier 0 s.view.data) (here : tier 0 p)
    (inner : (s.view.data p).isRootPage = false) (enough : top ≤ rounds) :
    Ends (coalesceOrRedistribute rounds p) s := by
  have parentHere := tiers.parent 0 le_rfl p here inner
  rw [coalesceOrRedistribute]
  apply short_page
  apply short_fetchPage
  split
  · exact ends_unpinPage
  apply short_page
  dsimp only
  split
  · split
    · apply short_modify_root
      apply short_page
      apply short_writePage
      apply short_unpinPage
      apply short_unpinPage
      exact ends_deletePage
    · apply short_unpinPage
      exact ends_unpinPage
  next found =>
  have siblingHere := tiers.child 0 le_rfl _ parentHere _ (siblingOf_mem found)
  apply short_fetchPage
  split
  · apply short_unpinPage
    exact ends_unpinPage
  apply short_page
  apply short_page
  have climbs (s' : Supply K V) (tiers' : Tiers tier 1 s'.view.data) :
      Ends (finishMerge (coalesceOrRedistributeInternal rounds) (s.view.data p).parentPageId) s' :=
    ends_finishMerge fun inner' =>
      ends_coalesceOrRedistributeInternal apart topmost tiers' parentHere inner' (Nat.lt_succ_of_le enough)
  split
  · split
    · apply short_writePage
      apply short_writePage
      apply short_writePage
      apply short_unpinPage
      apply short_unpinPage
      exact ends_unpinPage
    · apply short_writePage
      apply short_writePage
      apply short_writePage
      apply short_unpinPage
      apply short_unpinPage
      exact ends_unpinPage
  · split
    · apply short_writePage
      apply short_writePage
      apply short_writePage
      apply short_unpinPage
      apply short_unpinPage
      apply short_deletePage
      intro contents
      exact climbs _ (tiers.merge apart here siblingHere parentHere here rfl)
    · apply short_writePage
      apply short_writePage
      apply short_writePage
      apply short_unpinPage
      apply short_unpinPage
      apply short_deletePage
      intro contents
      exact climbs _ (tiers.merge apart siblingHere here parentHere siblingHere rfl)

end Climb

section Tree

variable [LinearOrder K] {tree : BPlusTree K V} {height : ℕ}

/-- A page of the tree with the height of what is below it. -/
def StandsAt (tree : BPlusTree K V) (level : ℕ) (p : PageId) : Prop :=
  Reaches tree.data tree.rootPageId p ∧ Shaped tree.leafMaxSize tree.internalMaxSize tree.data level p ∧
    1 ≤ (tree.data p).size

variable (leafSize : 2 ≤ tree.leafMaxSize) (internalSize : 3 ≤ tree.internalMaxSize)

include leafSize internalSize

theorem StandsAt.unique {a b : ℕ} {p : PageId} (first : tree.StandsAt a p) (second : tree.StandsAt b p) : a = b :=
  first.2.1.height_unique leafSize internalSize second.2.1 first.2.2

theorem StandsAt.child {level : ℕ} {p c : PageId} (above : tree.StandsAt (level + 1) p)
    (member : c ∈ (tree.data p).children) : tree.StandsAt level c := by
  obtain ⟨reached, shaped, -⟩ := above
  obtain ⟨below, filled⟩ := shaped.2.2 c member
  exact ⟨.child reached shaped.1 member, below, (minFill_pos leafSize internalSize level).trans filled.1⟩

/-- Every page of the tree stands somewhere. -/
theorem WellFormedAt.standsAt (wellFormed : tree.WellFormedAt height) {p : PageId}
    (reached : Reaches tree.data tree.rootPageId p) : ∃ level ≤ height, tree.StandsAt level p := by
  have rooted := wellFormed.rooted.1
  induction reached with
  | refl => exact ⟨height, le_rfl, .refl, rooted.shaped, rooted.positive⟩
  | child above internal link ih =>
    obtain ⟨level, low, stands⟩ := ih
    cases level with
    | zero => exact absurd (internal.symm.trans stands.2.1.1) (by decide)
    | succ level => exact ⟨level, Nat.le_of_succ_le low, stands.child leafSize internalSize link⟩

theorem WellFormedAt.tiers (wellFormed : tree.WellFormedAt height) : Tiers tree.StandsAt 0 tree.data := by
  refine ⟨fun level _ p stands inner => ?_, fun level _ p stands c member =>
    stands.child leafSize internalSize member⟩
  obtain ⟨root, parents⟩ := wellFormed.parents
  cases stands.1 with
  | refl => simp [isRootPage, root] at inner
  | @child q _ above internal link =>
    obtain ⟨levelQ, -, standsQ⟩ := wellFormed.standsAt leafSize internalSize above
    cases levelQ with
    | zero => exact absurd (internal.symm.trans standsQ.2.1.1) (by decide)
    | succ levelQ =>
      obtain rfl := (standsQ.child leafSize internalSize link).unique leafSize internalSize stands
      rw [parents q above internal p link]
      exact standsQ

omit leafSize internalSize in
/-- The descents of the iterators end in a leaf or at a page they cannot fetch. -/
theorem ends_descendBy {β : Type} {s : Supply K V} {child : BPlusTreePage K V → PageId}
    (linked : ∀ page : BPlusTreePage K V, 1 ≤ page.size → child page ∈ page.children)
    {f : Option (PageId × BPlusTreePage K V) → TreeM K V β}
    (rest : ∀ result s', Ends (f result) s') {rounds : ℕ}
    {leafMax internalMax : ℕ} (leafSize : 2 ≤ leafMax) (internalSize : 3 ≤ internalMax) {p : PageId}
    (shaped : Shaped leafMax internalMax s.view.data height p) (positive : 1 ≤ (s.view.data p).size)
    (enough : height < rounds) :
    Ends (BPlusTreeIterator.descend pagePool child rounds p (s.view.data p) >>= f) s := by
  induction rounds generalizing s height p with
  | zero => exact absurd enough (Nat.not_lt_zero _)
  | succ rounds ih =>
    rw [BPlusTreeIterator.descend]
    cases height with
    | zero =>
      rw [if_pos (by simp [isLeafPage, shaped.1]), pure_bind]
      exact rest _ _
    | succ height =>
      rw [if_neg (by simp [isLeafPage, shaped.1])]
      simp only [pagePool, bind_assoc]
      obtain ⟨below, filled⟩ := shaped.2.2 _ (linked _ positive)
      apply short_unpinPage
      apply short_fetchPage
      split
      · simp only [bind_assoc, pure_bind]
        apply short_page
        exact ih below ((minFill_pos leafSize internalSize height).trans filled.1) (Nat.lt_of_succ_lt_succ enough)
      · rw [pure_bind, pure_bind]
        exact rest _ _

variable [Inhabited K] [Inhabited V]

theorem WellFormedAt.ends_remove (wellFormed : tree.WellFormedAt height) (key : K) {rounds : ℕ}
    (enough : height < rounds) : Ends (remove rounds key : TreeM K V Unit) (supply tree) := by
  obtain ⟨rooted, sub⟩ := wellFormed.rooted
  have valid : tree.rootPageId ≠ invalidPageId := sub.valid _ (mem_pagesOf_self _ _ _)
  rw [remove]
  apply short_get
  intro now seen
  have root : now.rootPageId = tree.rootPageId := congrArg (fun s => s.view.rootPageId) seen
  rw [if_neg (by simpa [isEmpty, root] using valid), findLeafPage, bind_assoc]
  apply short_get
  intro now seen
  have root : now.rootPageId = tree.rootPageId := congrArg (fun s => s.view.rootPageId) seen
  rw [if_neg (by simpa [isEmpty, root] using valid), bind_assoc, root]
  apply short_fetchPage
  split
  · rw [bind_assoc]
    refine short_descend leafSize internalSize (s := (supply tree).passed 1) rooted.shaped rooted.positive enough ?_ ?_
    · intro _
      obtain ⟨inside, shaped⟩ := route_leaf leafSize internalSize rooted.shaped rooted.positive key
      have reached := (reaches_iff_mem_pagesOf wellFormed.uniform).mpr inside
      obtain ⟨level, -, stands⟩ := wellFormed.standsAt leafSize internalSize reached
      obtain rfl := stands.2.1.height_unique leafSize internalSize shaped stands.2.2
      simp only [bind_assoc, pure_bind]
      apply short_unpinPage
      split
      · exact ends_pure
      apply short_fetchPage
      split
      · exact ends_pure
      apply short_page
      apply short_writePage
      split
      · next under =>
        have kept := removeAndDeleteRecord_parentPageId (tree.data (route tree.data key height tree.rootPageId)) key
        refine ends_coalesceOrRedistribute (fun a b p first second => first.unique leafSize internalSize second)
          (fun a p stands => ?_) ((wellFormed.tiers leafSize internalSize).leaf ?_ stands kept) stands ?_ enough.le
        · obtain ⟨b, low, other⟩ := wellFormed.standsAt leafSize internalSize stands.1
          rwa [stands.unique leafSize internalSize other]
        · exact fun a b p first second => first.unique leafSize internalSize second
        · change (Function.update tree.data _ _ _).isRootPage = false
          rw [Function.update_self]
          exact Bool.eq_false_iff.mpr under.2
      split
      · apply short_modify_root
        apply short_unpinPage
        exact ends_deletePage
      · exact ends_unpinPage
    · rintro count -
      simp only [pure_bind, if_true]
      exact ends_pure
  · simp only [pure_bind, if_true]
    exact ends_pure

omit [Inhabited K] [Inhabited V] in
theorem WellFormedAt.ends_getValue (wellFormed : tree.WellFormedAt height) (key : K) {rounds : ℕ}
    (enough : height < rounds) : Ends (getValue rounds key : TreeM K V (Option V)) (supply tree) := by
  have rooted := wellFormed.rooted.1
  rw [getValue]
  apply short_get
  intro now seen
  have root : now.rootPageId = tree.rootPageId := congrArg (fun s => s.view.rootPageId) seen
  rw [if_neg (by simpa [isEmpty, root] using wellFormed.rootPageId_ne), root]
  apply short_fetchPage
  split
  · refine short_descend leafSize internalSize (s := (supply tree).passed 1) rooted.shaped rooted.positive enough ?_ ?_
    · intro _
      apply short_page
      apply short_unpinPage
      exact ends_pure
    · intro count _
      exact ends_pure
  · exact ends_pure

omit [Inhabited K] [Inhabited V] in
theorem WellFormedAt.ends_begin (wellFormed : tree.WellFormedAt height) {rounds : ℕ} (enough : height < rounds) :
    Ends (BPlusTreeIterator.begin pagePool tree.rootPageId rounds : TreeM K V BPlusTreeIterator) (supply tree) := by
  have rooted := wellFormed.rooted.1
  rw [BPlusTreeIterator.begin, if_neg wellFormed.rootPageId_ne]
  simp only [pagePool, bind_assoc]
  apply short_fetchPage
  split
  · simp only [bind_assoc, pure_bind]
    apply short_page
    refine ends_descendBy (s := (supply tree).passed 1) (fun page positive => valueAt_mem_children positive)
      (fun leaf s' => ?_) leafSize internalSize rooted.shaped rooted.positive enough
    cases leaf with
    | none => exact ends_pure
    | some leaf =>
      apply short_unpinPage
      exact ends_pure
  · rw [pure_bind]
    exact ends_pure

omit [Inhabited K] [Inhabited V] in
theorem WellFormedAt.ends_beginAt (wellFormed : tree.WellFormedAt height) (key : K) {rounds : ℕ}
    (enough : height < rounds) :
    Ends (BPlusTreeIterator.beginAt pagePool key tree.rootPageId rounds : TreeM K V BPlusTreeIterator)
    (supply tree) := by
  have rooted := wellFormed.rooted.1
  have linked (page : BPlusTreePage K V) (positive : 1 ≤ page.size) :
      InternalPage.lookup page key ∈ page.children := by
    obtain ⟨before, link, after, cut, found, -, -⟩ := InternalPage.lookup_cut key positive
    exact mem_children.mpr ⟨link, by simp [cut], found.symm⟩
  rw [BPlusTreeIterator.beginAt, if_neg wellFormed.rootPageId_ne]
  simp only [pagePool, bind_assoc]
  apply short_fetchPage
  split
  · simp only [bind_assoc, pure_bind]
    apply short_page
    refine ends_descendBy (s := (supply tree).passed 1) linked (fun leaf s' => ?_) leafSize internalSize rooted.shaped
      rooted.positive enough
    cases leaf with
    | none => exact ends_pure
    | some leaf =>
      apply short_unpinPage
      split
      · exact ends_pure
      · exact ends_pure
  · rw [pure_bind]
    exact ends_pure

end Tree

section Requests

variable {s : Supply K V}

theorem ends_increment (it : BPlusTreeIterator) :
    Ends (BPlusTreeIterator.increment pagePool it : TreeM K V BPlusTreeIterator) s := by
  rw [BPlusTreeIterator.increment]
  split
  · exact ends_pure
  simp only [pagePool, bind_assoc]
  apply short_fetchPage
  split
  · simp only [bind_assoc, pure_bind]
    apply short_page
    apply short_unpinPage
    exact ends_pure
  · rw [pure_bind]
    exact ends_pure

theorem ends_dereference (it : BPlusTreeIterator) :
    Ends (BPlusTreeIterator.dereference pagePool it : TreeM K V (Except String (K × V))) s := by
  rw [BPlusTreeIterator.dereference]
  split
  · exact ends_pure
  simp only [pagePool, bind_assoc]
  apply short_fetchPage
  split
  · simp only [bind_assoc, pure_bind]
    apply short_page
    apply short_unpinPage
    exact ends_pure
  · rw [pure_bind]
    exact ends_pure

theorem Ends.ignore {α : Type} {m : TreeM K V α} (ends : Ends m s) : Ends (do let _ ← m; return ()) s :=
  RunsTo.bind ends fun _ _ _ => ends_pure

variable [LinearOrder K] [Inhabited K] [Inhabited V] {tree : BPlusTree K V}

theorem WellFormedAt.ends_serve {height : ℕ} (leafSize : 2 ≤ tree.leafMaxSize)
    (internalSize : 3 ≤ tree.internalMaxSize)
    (wellFormed : tree.WellFormedAt height) (request : Request K V) {rounds : ℕ} (enough : height < rounds) :
    Ends (serve rounds request) (supply tree) := by
  cases request with
  | call call =>
    cases call with
    | insert key value =>
      obtain ⟨rooted, sub⟩ := wellFormed.rooted
      exact Ends.ignore ((short_insert (s := supply tree) (key, value) rounds leafSize internalSize rfl rfl rooted sub
        (fun x inside => (wellFormed.allocated x inside).2) enough).mono fun _ _ _ => trivial)
    | remove key => exact wellFormed.ends_remove leafSize internalSize key enough
  | getValue key => exact (wellFormed.ends_getValue leafSize internalSize key enough).ignore
  | begin =>
    apply short_get
    intro now seen
    rw [show now.rootPageId = tree.rootPageId from congrArg (fun s => s.view.rootPageId) seen]
    exact (wellFormed.ends_begin leafSize internalSize enough).ignore
  | beginAt key =>
    apply short_get
    intro now seen
    rw [show now.rootPageId = tree.rootPageId from congrArg (fun s => s.view.rootPageId) seen]
    exact (wellFormed.ends_beginAt leafSize internalSize key enough).ignore
  | increment it => exact (ends_increment it).ignore
  | dereference it => exact (ends_dereference it).ignore

/-- On an empty tree nothing loops. -/
theorem ends_serve_empty (empty : tree.rootPageId = invalidPageId) (request : Request K V) (rounds : ℕ) :
    Ends (serve rounds request) (supply tree) := by
  have isEmpty (now : BPlusTree K V) (seen : supply now = supply tree) : now.isEmpty = true := by
    have root : now.rootPageId = tree.rootPageId := congrArg (fun s => s.view.rootPageId) seen
    simp [BPlusTree.isEmpty, root, empty]
  cases request with
  | call call =>
    cases call with
    | insert key value =>
      apply Ends.ignore
      rintro now - seen
      cases granted : now.grants now.calls with
      | false => exact ⟨_, _, run_insert_refused granted, trivial, trivial⟩
      | true => exact ⟨_, _, run_insert_empty (isEmpty now seen) granted, trivial, trivial⟩
    | remove key =>
      change Ends (remove rounds key) _
      rw [remove]
      apply short_get
      intro now seen
      rw [if_pos (isEmpty now seen)]
      exact ends_pure
  | getValue key =>
    apply Ends.ignore
    rw [getValue]
    apply short_get
    intro now seen
    rw [if_pos (isEmpty now seen)]
    exact ends_pure
  | begin =>
    apply short_get
    intro now seen
    rw [BPlusTreeIterator.begin, if_pos (by simpa [BPlusTree.isEmpty] using isEmpty now seen)]
    exact Ends.ignore ends_pure
  | beginAt key =>
    apply short_get
    intro now seen
    rw [BPlusTreeIterator.beginAt, if_pos (by simpa [BPlusTree.isEmpty] using isEmpty now seen)]
    exact Ends.ignore ends_pure
  | increment it => exact (ends_increment it).ignore
  | dereference it => exact (ends_dereference it).ignore

/-- However pages are refused during it, every call on a well-formed tree and on its iterators returns; unless it wrote
past the end of a page, it pins no page more or less than before, except for the `operator++` that leaves a leaf. -/
theorem serve_returns_pins (leafSize : 2 ≤ tree.leafMaxSize) (internalSize : 3 ≤ tree.internalMaxSize)
    (wellFormed : tree.WellFormed) (unused : ∀ p, tree.nextPageId ≤ p → tree.pinCount p = 0)
    (request : Request K V) :
    ∃ enough, ∀ rounds ≥ enough, ∃ after, serve rounds request tree = some ((), after) ∧
      ((∀ p, (after.data p).written ≤ pageSize) → after.pinCount = request.pinsAfter tree) := by
  obtain ⟨enough, ends⟩ : ∃ enough, ∀ rounds ≥ enough, Ends (serve rounds request) (supply tree) := by
    rcases eq_or_ne tree.rootPageId invalidPageId with empty | rooted
    · exact ⟨0, fun rounds _ => ends_serve_empty empty request rounds⟩
    · obtain ⟨height, wellFormedAt⟩ := wellFormed.rooted rooted
      exact ⟨height + 1, fun rounds enough => wellFormedAt.ends_serve leafSize internalSize request enough⟩
  refine ⟨enough, fun rounds many => ?_⟩
  obtain ⟨_, after, ran, -⟩ := ends rounds many tree trivial rfl
  exact ⟨after, ran, fun _ => pinCount_serve unused ran⟩

/-- Removing 4 with the fetch of the parent refused after the removal from the leaf. -/
def crowdedTree : BPlusTree ℕ ℕ := { evenTree with grants := fun call => call ≠ 4 }

theorem serve_returns_pins_crowdedTree : ∃ enough, ∀ rounds ≥ enough, ∃ after,
    serve rounds (.call (.remove 4)) crowdedTree = some ((), after) ∧
      ((∀ p, (after.data p).written ≤ pageSize) → after.pinCount = crowdedTree.pinCount) :=
  have wellFormed : crowdedTree.WellFormed := evenTree_wellFormed.of_view rfl
  serve_returns_pins (by decide) (by decide) wellFormed (fun _ _ => rfl) _

end Requests

end OneBase.BPlusTree
