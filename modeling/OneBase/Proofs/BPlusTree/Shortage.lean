import OneBase.Model.BPlusTreeShortage
import OneBase.Proofs.BPlusTree.ShortRuns
import OneBase.Proofs.BPlusTree.WellFormed

/-! # What a refused page leaves behind

A child that could not be fetched keeps its old parent pointer, which no search reads: the pages stray
from those of an undisturbed insertion there and nowhere else. Refused anything else, an insertion
leaves an overfull page or loses the half it has moved, and no page further up repairs that.
-/

namespace OneBase.PageStore

open BPlusTreePage Separators BPlusTree

variable {K V : Type} {d d' d'' : PageStore K V} {height : ℕ} {p : PageId}

/-- Pages `d''` instead of `d'`: other parent pointers, and those only where `exact` does not hold. -/
structure Strays (exact : PageId → Prop) (d' d'' : PageStore K V) : Prop where
  alike : ∀ x, Alike (d'' x) (d' x)
  same : ∀ x, exact x → d'' x = d' x

theorem alike_reparented (d : PageStore K V) (q parent x : PageId) :
    Alike (Function.update d q ((d q).setParentPageId parent) x) (d x) := by
  by_cases here : x = q
  · subst here
    rw [Function.update_self]
    exact alike_setParentPageId _ _
  · exact Alike.of_eq (Function.update_of_ne here _ _)

theorem Strays.refl (exact : PageId → Prop) (d : PageStore K V) : Strays exact d d :=
  ⟨fun _ => Alike.of_eq rfl, fun _ _ => rfl⟩

section

variable {exact exact' : PageId → Prop} (strays : Strays exact d' d'')

include strays

theorem Strays.mono (fewer : ∀ x, exact' x → exact x) : Strays exact' d' d'' :=
  ⟨strays.alike, fun x kept => strays.same x (fewer x kept)⟩

/-- The same page is written on both sides. -/
theorem Strays.write (q : PageId) (page : BPlusTreePage K V) :
    Strays (fun x => x = q ∨ exact x) (Function.update d' q page) (Function.update d'' q page) := by
  constructor
  · intro x
    by_cases here : x = q
    · subst here
      rw [Function.update_self, Function.update_self]
      exact Alike.of_eq rfl
    · rw [Function.update_of_ne here, Function.update_of_ne here]
      exact strays.alike x
  · rintro x (rfl | kept)
    · rw [Function.update_self, Function.update_self]
    · rw [Function.update_apply, Function.update_apply, strays.same x kept]

/-- Some of the children are adopted, where all of them should be. -/
theorem Strays.adopt {ids all : List PageId} (some : ids ⊆ all) (parent : PageId) :
    Strays (fun x => x ∉ all ∧ exact x) (adopt all parent d') (adopt ids parent d'') := by
  have each (ids : List PageId) (d : PageStore K V) (x : PageId) : Alike (BPlusTree.adopt ids parent d x) (d x) := by
    by_cases member : x ∈ ids
    · rw [adopt_of_mem member]
      exact alike_setParentPageId _ _
    · rw [adopt_of_not_mem member]
      exact Alike.of_eq rfl
  constructor
  · intro x
    exact (each ids d'' x).trans ((strays.alike x).trans (each all d' x).symm)
  · rintro x ⟨other, kept⟩
    rw [adopt_of_not_mem other, adopt_of_not_mem fun member => other (some member), strays.same x kept]

end

section Inside

variable {contents : BPlusTreePage K V} {more : Prop}

theorem inside_congr (same : ∀ x, (d' x).written = (d x).written) : Inside d' ↔ Inside d :=
  forall_congr' fun x => by rw [same x]

/-- A page is written: what that adds to being inside the pages. -/
theorem inside_update (step : contents.written ≤ pageSize ↔ (d p).written ≤ pageSize ∧ more) :
    Inside (Function.update d p contents) ↔ Inside d ∧ more := by
  constructor
  · intro inside
    have here := inside p
    rw [Function.update_self] at here
    refine ⟨fun x => ?_, (step.mp here).2⟩
    by_cases same : x = p
    · rw [same]
      exact (step.mp here).1
    · have there := inside x
      rwa [Function.update_of_ne same] at there
  · rintro ⟨inside, room⟩ x
    by_cases same : x = p
    · rw [same, Function.update_self]
      exact step.mpr ⟨inside p, room⟩
    · rw [Function.update_of_ne same]
      exact inside x

theorem inside_update_iff (same : contents.written ≤ pageSize ↔ (d p).written ≤ pageSize) :
    Inside (Function.update d p contents) ↔ Inside d :=
  (inside_update (same.trans (and_true _).symm.to_iff)).trans (and_true _).to_iff

theorem inside_update_max {bound : ℕ} (grown : contents.written = max (d p).written bound) :
    Inside (Function.update d p contents) ↔ Inside d ∧ bound ≤ pageSize :=
  inside_update (by rw [grown, Nat.max_le])

theorem inside_adopt (ids : List PageId) (parent : PageId) : Inside (adopt ids parent d) ↔ Inside d := by
  apply inside_congr
  intro x
  by_cases member : x ∈ ids
  · rw [adopt_of_mem member]
    rfl
  · rw [adopt_of_not_mem member]

variable {q : PageId} (other : q ≠ p) {old room : Prop} (inside : Inside d ↔ old ∧ room)
  {blank kept moved : BPlusTreePage K V}

include other inside

/-- A leaf goes into two halves: the new page is written where the old one was already. -/
theorem inside_leafHalves {leafMax : ℕ} (covers : room → LeafPage.slotOffset (d p).size ≤ pageSize)
    (halves : LeafPage.moveHalfTo (d p) (LeafPage.init blank leafMax) = (kept, moved))
    (blankWritten : blank.written = (d q).written) :
    Inside (Function.update (Function.update d p (kept.setNextPageId q)) q (moved.setNextPageId kept.nextPageId)) ↔
      old ∧ room := by
  obtain ⟨front, back⟩ := Prod.mk.inj halves
  have stays : (kept.setNextPageId q).written = (d p).written := by rw [← front]; rfl
  have moves : (moved.setNextPageId kept.nextPageId).written ≤ pageSize ↔ (d q).written ≤ pageSize ∧
      (0 < (d p).size - (d p).size / 2 → LeafPage.slotOffset ((d p).size - (d p).size / 2) ≤ pageSize) := by
    rw [← back, ← blankWritten]
    simp only [setNextPageId, LeafPage.wrote, LeafPage.init]
    split_ifs with some
    · rw [Nat.max_le, forall_prop_of_true some]
    · rw [forall_prop_of_false some, and_true]
  rw [← Function.update_of_ne other (kept.setNextPageId q) d] at moves
  rw [inside_update moves, inside_update_iff (by rw [stays]), inside, and_assoc]
  refine and_congr_right fun _ => and_iff_left_of_imp fun fits _ => ?_
  have bound := covers fits
  rw [LeafPage.slotOffset] at bound ⊢
  omega

theorem inside_internalHalves {internalMax : ℕ} (covers : room → InternalPage.slotOffset (d p).size ≤ pageSize)
    (positive : 1 ≤ (d p).size) {middle : K}
    (halves : InternalPage.moveHalfTo (d p) (InternalPage.init blank internalMax) middle = (kept, moved))
    (blankWritten : blank.written = (d q).written) (ids : List PageId) :
    Inside (adopt ids q (Function.update (Function.update d p kept) q moved)) ↔ old ∧ room := by
  obtain ⟨front, back⟩ := Prod.mk.inj halves
  have stays : kept.written = (d p).written := by rw [← front]
  have moves : moved.written ≤ pageSize ↔ (d q).written ≤ pageSize ∧
      InternalPage.slotOffset ((d p).size - (d p).size / 2 - 1 + 1) ≤ pageSize := by
    rw [← back, ← blankWritten]
    simp only [InternalPage.wrote, InternalPage.init, Nat.succ_pos, if_true, Nat.max_le]
  rw [← Function.update_of_ne other kept d] at moves
  rw [inside_adopt, inside_update moves, inside_update_iff (by rw [stays]), inside, and_assoc]
  refine and_congr_right fun _ => and_iff_left_of_imp fun fits => ?_
  have bound := covers fits
  rw [InternalPage.slotOffset] at bound ⊢
  omega

omit inside in
/-- The two slots of a new root are always on its page. -/
theorem inside_underNewRoot [Inhabited K] [Inhabited V] {r : PageId} {capacity : ℕ} {mid : K} (unusedP : p ≠ r)
    (unusedQ : q ≠ r) : Inside (underNewRoot d capacity p mid q r) ↔ Inside d := by
  have root : (InternalPage.populateNewRoot (InternalPage.init (erased (d r)) capacity) p mid q).written ≤
      pageSize ↔
      (d r).written ≤ pageSize := by
    change max (d r).written (InternalPage.slotOffset 2) ≤ pageSize ↔ _
    rw [Nat.max_le]
    exact and_iff_left (by decide)
  rw [underNewRoot, inside_update_iff, inside_update_iff, inside_update_iff root]
  · rw [Function.update_of_ne unusedP]
    rfl
  · rw [Function.update_of_ne other, Function.update_of_ne unusedQ]
    rfl

end Inside

/-- Pages an insertion below `p` does not touch, apart from the listed ones. -/
def Outer (d : PageStore K V) (height : ℕ) (p : PageId) (fresh : PageId → Prop) (tops : List PageId) (x : PageId) :
    Prop := x ∈ tops ∨ (x ∉ pagesOf d height p ∧ ¬ fresh x)

/-- Some page at or below `p` is overfull. -/
def Overfull (d : PageStore K V) (p : PageId) : Prop := ∃ q, Reaches d p q ∧ (d q).maxSize < (d q).size

variable [LinearOrder K] {leafMax internalMax : ℕ} {entry : K × V} {fresh : PageId → Prop}

/-- A key that was stored below `p`, or was to be, is not found there any more. -/
structure Loses (leafMax internalMax : ℕ) (entry : K × V) (d d' : PageStore K V) (height : ℕ)
    (p : PageId) : Prop where
  shaped : Shaped leafMax internalMax d' height p
  filled : Filled leafMax internalMax d' height p ∨ d' p = d p
  lost : ∃ stored : K × V, (stored ∈ contents d height p ∨ stored = entry) ∧
    LeafPage.lookup (d' (route d' stored.1 height p)) stored.1 = none

/-- What an insertion that was refused a page it needed leaves below `p`. -/
def Damaged (leafMax internalMax : ℕ) (entry : K × V) (d d' : PageStore K V) (height : ℕ) (p : PageId) : Prop :=
  Loses leafMax internalMax entry d d' height p ∨ Overfull d' p

/-- Both halves are pages of the old subtree or fresh. -/
theorem SplitOff.right {old new : List (K × V)} {mid : K} {q : PageId}
    (split : SplitOff leafMax internalMax fresh old new d d' height p mid q) :
    q ∈ pagesOf d height p ∨ fresh q := by
  simpa using (split.rewritten mid).pages q (by simp [mem_pagesOf_self])

/-- The right half of a split page was never hung into the tree. -/
theorem SplitOff.loses (leafSize : 2 ≤ leafMax) (internalSize : 3 ≤ internalMax) {mid : K} {q : PageId}
    (split : SplitOff leafMax internalMax fresh [] [entry] d d' height p mid q) (alike : ∀ x, Alike (d'' x) (d' x)) :
    Loses leafMax internalMax entry d d'' height p := by
  have step := split.rewritten mid
  have shapedP := step.shaped (mid, p) (by simp)
  have shapedQ := step.shaped (mid, q) (by simp)
  have positive := (minFill_pos leafSize internalSize height).trans split.filled.1.1
  obtain ⟨separated, below⟩ := split.separated mid
  obtain ⟨boundP, boundQ⟩ := bounded_pair.mp separated
  have separatedP := below (mid, p) (by simp)
  obtain ⟨-, -, same⟩ := reading_congr fun x (_ : x ∈ pagesOf d' height p) => alike x
  have shaped : Shaped leafMax internalMax d'' height p := (shaped_congr fun x _ => alike x).mpr shapedP
  obtain ⟨key, value, moved⟩ := shapedQ.inhabited leafSize internalSize
    ((minFill_pos leafSize internalSize height).trans split.filled.2.1)
  refine ⟨shaped, .inl ?_, (key, value), ?_, ?_⟩
  · rw [Filled, (alike p).size]
    exact split.filled.1
  · have before := step.stored.mem_of_mem (a := (key, value)) (by simp [moved])
    simpa using before
  · have positive' : 1 ≤ (d'' p).size := by rwa [(alike p).size]
    apply Option.eq_none_iff_forall_ne_some.mpr
    intro answer found
    have sorted := (route_leaf leafSize internalSize shaped positive' key).2.2.2
    have held := (mem_contents_iff_route leafSize internalSize shaped
      ((separated_congr fun x _ => alike x).mpr separatedP) positive' key answer).mpr
      ((LeafPage.lookup_eq_some_iff key answer sorted).mp found)
    rw [same] at held
    have lower : key < mid := (boundP key ⟨answer, held⟩).2 mid rfl
    have upper : mid ≤ key := (boundQ key ⟨value, moved⟩).1 mid rfl
    exact absurd lower (not_lt.mpr upper)

section Above

variable {front back : List (K × PageId)} {link : K × PageId}

/-- A stored key is searched in the child that holds it. -/
theorem lookup_of_keyBelow (leafSize : 2 ≤ leafMax) (internalSize : 3 ≤ internalMax)
    (sub : Subtree leafMax internalMax d (height + 1) p) (positive : 1 ≤ (d p).size) (member : link ∈ (d p).links)
    {key : K} (below : KeyBelow d height link.2 key) : InternalPage.lookup (d p) key = link.2 := by
  obtain ⟨before, other, after, cut, found, -, others⟩ :=
    lookup_route leafSize internalSize sub.shaped sub.separated positive key
  rw [cut, List.mem_append, List.mem_cons] at member
  rcases member with inside | rfl | inside
  · exact absurd below (others link (List.mem_append_left _ inside))
  · exact found
  · exact absurd below (others link (List.mem_append_right _ inside))

/-- No page above repairs the damage. -/
theorem Damaged.above (leafSize : 2 ≤ leafMax) (internalSize : 3 ≤ internalMax)
    (sub : Subtree leafMax internalMax d (height + 1) p) (positive : 1 ≤ (d p).size) (member : link ∈ (d p).links)
    (found : InternalPage.lookup (d p) entry.1 = link.2)
    (frame : ∀ x ∈ pagesOf d (height + 1) p, x ∉ pagesOf d height link.2 → d' x = d x)
    (damaged : Damaged leafMax internalMax entry d d' height link.2) :
    Damaged leafMax internalMax entry d d' (height + 1) p := by
  have top : d' p = d p := by
    apply frame p (mem_pagesOf_self d _ p)
    exact fun inside => sub.top_not_mem (mem_pagesIn.mpr ⟨link, member, inside⟩)
  rcases damaged with ⟨shaped, filled, ⟨key, value⟩, stored, lost⟩ | ⟨q, reached, above⟩
  · refine .inl ⟨⟨by rw [top]; exact sub.shaped.1, by rw [top]; exact sub.shaped.2.1, ?_⟩, .inr top,
      (key, value),
      ?_, ?_⟩
    · intro c child
      rw [top] at child
      obtain ⟨other, linked, rfl⟩ := mem_children.mp child
      by_cases same : other = link
      · subst same
        refine ⟨shaped, filled.elim id fun unchanged => ?_⟩
        rw [Filled, unchanged]
        exact sub.child_filled member
      · have untouched : ∀ x ∈ pagesOf d height other.2, d' x = d x := by
          intro x inside
          apply frame x (pagesOf_of_mem_links linked inside)
          exact fun below => same (link_unique sub.distinct_below linked member inside below)
        refine ⟨(shaped_congr fun x inside => Alike.of_eq (untouched x inside)).mpr (sub.child linked).shaped, ?_⟩
        rw [Filled, untouched _ (mem_pagesOf_self d height other.2)]
        exact sub.child_filled linked
    · refine stored.imp (fun held => ?_) id
      rw [contents_succ]
      exact List.mem_flatMap.mpr ⟨link, member, held⟩
    · have routed : InternalPage.lookup (d p) key = link.2 := by
        rcases stored with held | rfl
        · exact lookup_of_keyBelow leafSize internalSize sub positive member ⟨value, held⟩
        · exact found
      rw [route, top, routed]
      exact lost
  · refine .inr ⟨q, Reaches.trans (.child .refl ?_ ?_) reached, above⟩
    · rw [top]
      exact sub.shaped.1
    · rw [top]
      exact mem_children.mpr ⟨link, member, rfl⟩

end Above

end OneBase.PageStore
