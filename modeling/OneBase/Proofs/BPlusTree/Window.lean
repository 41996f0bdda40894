import OneBase.Proofs.BPlusTree.Subtree
import OneBase.ToMathlib.ListEdits

/-! # Rewriting a window of neighbouring subtrees

Inserting, removing, splitting, borrowing and merging all replace a few neighbouring subtrees by
others of the same height. `Rewritten` collects what such a replacement keeps: pages outside the
window, distinctness, page shapes, the stored entries up to one edit, and the leaf chain. It
composes, extends to wider windows, and lifts from the children of a page to the page itself.

`fresh` describes page ids that were not in use before.
-/

namespace OneBase.PageStore

open BPlusTreePage Separators ListEdits

variable {K V : Type}

section Chain

variable {d d' : PageStore K V}

theorem leafChain_nil {last : PageId} : LeafChain d [] last := by simp [LeafChain]

theorem leafChain_singleton {p last : PageId} : LeafChain d [p] last ↔ (d p).nextPageId = last := by
  simp [LeafChain]

theorem leafChain_append {front back : List PageId} {last : PageId} :
    LeafChain d (front ++ back) last ↔ LeafChain d front (back.headD last) ∧ LeafChain d back last := by
  cases back with
  | nil => simp [LeafChain]
  | cons p rest =>
    simp only [LeafChain, List.append_assoc, List.cons_append, List.headD_cons]
    exact List.isChain_split

theorem leafChain_congr {leaves : List PageId} {last : PageId}
    (same : ∀ q ∈ leaves, (d' q).nextPageId = (d q).nextPageId) :
    LeafChain d' leaves last ↔ LeafChain d leaves last := by
  induction leaves with
  | nil => simp [leafChain_nil]
  | cons p rest ih =>
    rw [← List.singleton_append, leafChain_append, leafChain_append, leafChain_singleton, leafChain_singleton,
      same p List.mem_cons_self, ih (fun q member => same q (List.mem_cons_of_mem _ member))]

end Chain

section Agreement

variable {d d' : PageStore K V} {height : ℕ} {links : List (K × PageId)}

/-- Reading a run of subtrees looks at no parent pointer. -/
theorem readingIn_congr (alike : ∀ q ∈ pagesIn d height links, Alike (d' q) (d q)) :
    pagesIn d' height links = pagesIn d height links ∧ leavesIn d' height links = leavesIn d height links ∧
      storedIn d' height links = storedIn d height links := by
  have below (link) (member : link ∈ links) := reading_congr
    (fun q (inside : q ∈ pagesOf d height link.2) => alike q (mem_pagesIn.mpr ⟨link, member, inside⟩))
  exact ⟨List.flatMap_congr fun link member => (below link member).1,
    List.flatMap_congr fun link member => (below link member).2.1,
    List.flatMap_congr fun link member => (below link member).2.2⟩

theorem leavesIn_subset_pagesIn : leavesIn d height links ⊆ pagesIn d height links := by
  intro q member
  obtain ⟨link, linked, below⟩ := List.mem_flatMap.mp member
  exact mem_pagesIn.mpr ⟨link, linked, leavesOf_subset_pagesOf d height link.2 below⟩

theorem nodup_of_mem_links (distinct : (pagesIn d height links).Nodup) {link : K × PageId}
    (member : link ∈ links) : (pagesOf d height link.2).Nodup :=
  (List.nodup_flatMap.mp distinct).1 link member

theorem nodup_map_snd (distinct : (pagesIn d height links).Nodup) : (links.map Prod.snd).Nodup := by
  refine List.Nodup.sublist ?_ distinct
  rw [List.map_eq_flatMap]
  induction links with
  | nil => exact List.Sublist.slnil
  | cons link rest ih =>
    rw [pagesIn_cons] at distinct
    exact List.Sublist.append (List.singleton_sublist.mpr (mem_pagesOf_self d height link.2))
      (ih (List.nodup_append.mp distinct).2.1)

/-- A page belongs to one subtree of a run only. -/
theorem link_unique (distinct : (pagesIn d height links).Nodup) {a b : K × PageId} (inA : a ∈ links)
    (inB : b ∈ links) {q : PageId} (belowA : q ∈ pagesOf d height a.2) (belowB : q ∈ pagesOf d height b.2) :
    a = b := by
  by_contra different
  have : Std.Symm (Function.onFun List.Disjoint fun link : K × PageId => pagesOf d height link.2) :=
    ⟨fun _ _ apart q inB inA => apart inA inB⟩
  exact (List.nodup_flatMap.mp distinct).2.forall inA inB different belowA belowB

end Agreement

variable [LinearOrder K]

/-- What replacing a window of subtrees keeps. -/
structure Rewritten (leafMax internalMax : ℕ) (fresh : PageId → Prop) (old new : List (K × V))
    (d d' : PageStore K V) (height : ℕ) (win win' : List (K × PageId)) : Prop where
  frame : ∀ q ∉ pagesIn d height win, ¬ fresh q → d' q = d q
  pages : ∀ q ∈ pagesIn d' height win', q ∈ pagesIn d height win ∨ fresh q
  distinct : (pagesIn d' height win').Nodup
  shaped : ∀ link ∈ win', Shaped leafMax internalMax d' height link.2
  stored : Edits old new (storedIn d height win) (storedIn d' height win')
  head : (leavesIn d' height win').head? = (leavesIn d height win).head?
  chain : ∀ last, LeafChain d (leavesIn d height win) last → LeafChain d' (leavesIn d' height win') last

namespace Rewritten

variable {leafMax internalMax : ℕ} {fresh : PageId → Prop} {old new : List (K × V)}
  {d d' d'' : PageStore K V} {height : ℕ} {win win' win'' front back : List (K × PageId)}

theorem mono {fresh' : PageId → Prop}
    (step : Rewritten leafMax internalMax fresh old new d d' height win win')
    (more : ∀ q, fresh q → fresh' q) :
    Rewritten leafMax internalMax fresh' old new d d' height win win' :=
  { step with
    frame := fun q outside stale => step.frame q outside (fun isFresh => stale (more q isFresh))
    pages := fun q inside => (step.pages q inside).imp_right (more q) }

/-- A rearrangement after a rewriting. -/
theorem trans (first : Rewritten leafMax internalMax fresh old new d d' height win win')
    (second : Rewritten leafMax internalMax fresh [] [] d' d'' height win' win'') :
    Rewritten leafMax internalMax fresh old new d d'' height win win'' where
  frame q outside stale := by
    have still : q ∉ pagesIn d' height win' := fun inside =>
      (first.pages q inside).elim outside stale
    rw [second.frame q still stale, first.frame q outside stale]
  pages q inside := (second.pages q inside).elim (first.pages q) .inr
  distinct := second.distinct
  shaped := second.shaped
  stored := by rw [edits_nil_iff.mp second.stored]; exact first.stored
  head := second.head.trans first.head
  chain last chained := second.chain last (first.chain last chained)

/-- Subtrees beside the window are read as before. -/
theorem beside (step : Rewritten leafMax internalMax fresh old new d d' height win win')
    (distinct : (pagesIn d height (front ++ (win ++ back))).Nodup)
    (stale : ∀ q ∈ pagesIn d height (front ++ (win ++ back)), ¬ fresh q) :
    (∀ q ∈ pagesIn d height front, d' q = d q) ∧ ∀ q ∈ pagesIn d height back, d' q = d q := by
  simp only [pagesIn_append] at distinct stale
  obtain ⟨-, rest, apart⟩ := List.nodup_append.mp distinct
  obtain ⟨-, -, apart'⟩ := List.nodup_append.mp rest
  constructor
  · intro q member
    exact step.frame q (fun inside => apart q member q (List.mem_append_left _ inside) rfl)
      (stale q (List.mem_append_left _ member))
  · intro q member
    exact step.frame q (fun inside => apart' q inside q member rfl)
      (stale q (List.mem_append_right _ (List.mem_append_right _ member)))

variable (front back) in
/-- A rewriting inside a wider window. -/
theorem context (step : Rewritten leafMax internalMax fresh old new d d' height win win')
    (distinct : (pagesIn d height (front ++ (win ++ back))).Nodup)
    (stale : ∀ q ∈ pagesIn d height (front ++ (win ++ back)), ¬ fresh q)
    (shaped : ∀ link ∈ front ++ back, Shaped leafMax internalMax d height link.2) :
    Rewritten leafMax internalMax fresh old new d d' height (front ++ (win ++ back))
      (front ++ (win' ++ back)) := by
  obtain ⟨sameFront, sameBack⟩ := step.beside distinct stale
  obtain ⟨pagesFront, leavesFront, storedFront⟩ := readingIn_congr
    fun q member => Alike.of_eq (sameFront q member)
  obtain ⟨pagesBack, leavesBack, storedBack⟩ := readingIn_congr
    fun q member => Alike.of_eq (sameBack q member)
  have sameLeaves : ∀ links, (∀ q ∈ pagesIn d height links, d' q = d q) →
      ∀ q ∈ leavesIn d height links, (d' q).nextPageId = (d q).nextPageId :=
    fun links same q member => congrArg _ (same q (leavesIn_subset_pagesIn member))
  simp only [pagesIn_append] at distinct stale
  obtain ⟨distinctFront, rest, apart⟩ := List.nodup_append.mp distinct
  obtain ⟨-, distinctBack, apart'⟩ := List.nodup_append.mp rest
  refine ⟨?_, ?_, ?_, ?_, ?_, ?_, ?_⟩
  · intro q outside isStale
    simp only [pagesIn_append, List.mem_append, not_or] at outside
    exact step.frame q outside.2.1 isStale
  · intro q inside
    simp only [pagesIn_append, List.mem_append, pagesFront, pagesBack] at inside ⊢
    rcases inside with inside | inside | inside
    · exact .inl (.inl inside)
    · exact (step.pages q inside).imp_left fun was => .inr (.inl was)
    · exact .inl (.inr (.inr inside))
  · simp only [pagesIn_append, pagesFront, pagesBack]
    refine List.nodup_append.mpr ⟨distinctFront, List.nodup_append.mpr
      ⟨step.distinct, distinctBack, ?_⟩, ?_⟩
    · rintro q inside r member rfl
      rcases step.pages q inside with was | isFresh
      · exact apart' q was q member rfl
      · exact stale q (by simp [member]) isFresh
    · rintro q member r inside rfl
      rcases List.mem_append.mp inside with inside | inside
      · rcases step.pages q inside with was | isFresh
        · exact apart q member q (List.mem_append_left _ was) rfl
        · exact stale q (by simp [member]) isFresh
      · exact apart q member q (List.mem_append_right _ inside) rfl
  · intro link member
    simp only [List.mem_append] at member
    have kept : link ∈ front ++ back → Shaped leafMax internalMax d' height link.2 := by
      intro outside
      refine (shaped_congr fun q inside => ?_).mpr (shaped link outside)
      rcases List.mem_append.mp outside with member | member
      · exact Alike.of_eq (sameFront q (mem_pagesIn.mpr ⟨link, member, inside⟩))
      · exact Alike.of_eq (sameBack q (mem_pagesIn.mpr ⟨link, member, inside⟩))
    rcases member with member | member | member
    · exact kept (List.mem_append_left _ member)
    · exact step.shaped link member
    · exact kept (List.mem_append_right _ member)
  · simp only [storedIn_append, storedFront, storedBack]
    exact step.stored.context _ _
  · simp only [leavesIn_append, leavesFront, leavesBack, List.head?_append, step.head]
  · intro last chained
    have sameHead : (leavesIn d' height win' ++ leavesIn d height back).headD last =
        (leavesIn d height win ++ leavesIn d height back).headD last := by
      simp only [List.headD_eq_head?_getD, List.head?_append, step.head]
    simp only [leavesIn_append, leavesFront, leavesBack] at chained ⊢
    rw [leafChain_append, leafChain_append] at chained ⊢
    obtain ⟨chainFront, chainWin, chainBack⟩ := chained
    refine ⟨?_, step.chain _ chainWin, (leafChain_congr (sameLeaves back sameBack)).mpr chainBack⟩
    rw [sameHead]
    exact (leafChain_congr (sameLeaves front sameFront)).mpr chainFront

section Lift

variable {p : PageId} {page : BPlusTreePage K V}
  (step : Rewritten leafMax internalMax fresh old new d d' height (d p).links page.links)
  (apart : p ∉ pagesIn d height (d p).links) (stale : ¬ fresh p)

include step apart stale

/-- A page above a rewritten window is not part of the new one. -/
theorem above_not_mem : p ∉ pagesIn d' height page.links :=
  fun inside => (step.pages p inside).elim apart stale

/-- Writing the page above the window leaves the window alone. -/
theorem below_write : ∀ q ∈ pagesIn d' height page.links, Function.update d' p page q = d' q := by
  rintro q inside
  refine Function.update_of_ne ?_ _ _
  rintro rfl
  exact step.above_not_mem apart stale inside

/-- Rewriting all the children of a page rewrites the page. -/
theorem lift (kind : page.pageType = .internalPage) (capacity : page.maxSize = internalMax)
    (filled : ∀ link ∈ page.links, Filled leafMax internalMax d' height link.2) (key key' : K) :
    Rewritten leafMax internalMax fresh old new d (Function.update d' p page) (height + 1)
      [(key, p)] [(key', p)] := by
  have same := step.below_write apart stale
  have outside := step.above_not_mem apart stale
  obtain ⟨samePages, sameLeaves, sameStored⟩ := readingIn_congr fun q inside => Alike.of_eq (same q inside)
  have written : (Function.update d' p page p).links = page.links := by rw [Function.update_self]
  have pagesAfter : pagesIn (Function.update d' p page) (height + 1) [(key', p)] =
      p :: pagesIn d' height page.links := by simp [pagesOf_succ, samePages]
  have leavesAfter : leavesIn (Function.update d' p page) (height + 1) [(key', p)] =
      leavesIn d' height page.links := by simp [leavesOf_succ, sameLeaves]
  have storedAfter : storedIn (Function.update d' p page) (height + 1) [(key', p)] =
      storedIn d' height page.links := by simp [contents_succ, sameStored]
  have pagesBefore : pagesIn d (height + 1) [(key, p)] = p :: pagesIn d height (d p).links := by
    simp [pagesOf_succ]
  have leavesBefore : leavesIn d (height + 1) [(key, p)] = leavesIn d height (d p).links := by
    simp [leavesOf_succ]
  have storedBefore : storedIn d (height + 1) [(key, p)] = storedIn d height (d p).links := by
    simp [contents_succ]
  refine ⟨?_, ?_, ?_, ?_, ?_, ?_, ?_⟩
  · intro q other isStale
    rw [pagesBefore, List.mem_cons, not_or] at other
    rw [Function.update_of_ne other.1]
    exact step.frame q other.2 isStale
  · intro q inside
    rw [pagesAfter] at inside
    rw [pagesBefore]
    rcases List.mem_cons.mp inside with rfl | inside
    · exact .inl List.mem_cons_self
    · exact (step.pages q inside).imp_left (List.mem_cons_of_mem _)
  · rw [pagesAfter]
    exact List.nodup_cons.mpr ⟨outside, step.distinct⟩
  · intro link member
    obtain rfl := List.mem_singleton.mp member
    refine ⟨by simpa using kind, by simpa using capacity, ?_⟩
    intro c child
    obtain ⟨link, linked, rfl⟩ := mem_children.mp child
    rw [written] at linked
    have inside : ∀ q ∈ pagesOf d' height link.2, Function.update d' p page q = d' q :=
      fun q member => same q (mem_pagesIn.mpr ⟨link, linked, member⟩)
    refine ⟨(shaped_congr fun q member => Alike.of_eq (inside q member)).mpr (step.shaped link linked), ?_⟩
    rw [Filled, inside _ (mem_pagesOf_self d' height link.2)]
    exact filled link linked
  · rw [storedBefore, storedAfter]
    exact step.stored
  · rw [leavesBefore, leavesAfter]
    exact step.head
  · intro last chained
    rw [leavesBefore] at chained
    rw [leavesAfter]
    refine (leafChain_congr fun q member => ?_).mpr (step.chain last chained)
    rw [same q (leavesIn_subset_pagesIn member)]

end Lift

end Rewritten

section Order

variable {d d' : PageStore K V} {height : ℕ}

/-- Search order inside a run of subtrees between two bounds. -/
def SeparatedIn (d : PageStore K V) (height : ℕ) (lo : Option K) (links : List (K × PageId))
    (hi : Option K) : Prop :=
  Bounded (KeyBelow d height) lo links hi ∧ ∀ link ∈ links, Separated d height link.2

theorem separated_succ {p : PageId} :
    Separated d (height + 1) p ↔ SeparatedIn d height none (d p).links none := by
  simp only [Separated, SeparatedIn, children, List.forall_mem_map]

theorem separatedIn_window {front window back : List (K × PageId)} {link : K × PageId} {hi : Option K} :
    SeparatedIn d height none (front ++ ((link :: window) ++ back)) hi ↔
      SeparatedIn d height none front (some link.1) ∧
        SeparatedIn d height (lowKey front link.1) (link :: window) (headKey back hi) ∧
        SeparatedIn d height (headKey back hi) back hi := by
  simp only [SeparatedIn, bounded_window, List.forall_mem_append]
  tauto

theorem separatedIn_congr {links : List (K × PageId)} {lo hi : Option K}
    (alike : ∀ q ∈ pagesIn d height links, Alike (d' q) (d q)) :
    SeparatedIn d' height lo links hi ↔ SeparatedIn d height lo links hi := by
  have inside (link) (member : link ∈ links) : ∀ q ∈ pagesOf d height link.2, Alike (d' q) (d q) :=
    fun q below => alike q (mem_pagesIn.mpr ⟨link, member, below⟩)
  refine and_congr (bounded_congr fun link member key => ?_)
    (forall₂_congr fun link member => separated_congr (inside link member))
  simp only [KeyBelow, (reading_congr (inside link member)).2.2]

end Order

/-- Parent pointers of a run of children of `p` and below them. -/
def ParentedIn (d : PageStore K V) (height : ℕ) (p : PageId) (links : List (K × PageId)) : Prop :=
  ∀ link ∈ links, (d link.2).parentPageId = p ∧ Parented d height link.2

omit [LinearOrder K] in
theorem parented_succ {d : PageStore K V} {height : ℕ} {p : PageId} :
    Parented d (height + 1) p ↔ ParentedIn d height p (d p).links := by
  simp only [Parented, ParentedIn, children, List.forall_mem_map]

omit [LinearOrder K] in
theorem parentedIn_of_eq {d d' : PageStore K V} {height : ℕ} {p : PageId} {links : List (K × PageId)}
    (distinct : (pagesIn d height links).Nodup) (same : ∀ q ∈ pagesIn d height links, d' q = d q) :
    ParentedIn d' height p links ↔ ParentedIn d height p links := by
  refine forall₂_congr fun link member => ?_
  have inside : ∀ q ∈ pagesOf d height link.2, d' q = d q :=
    fun q below => same q (mem_pagesIn.mpr ⟨link, member, below⟩)
  rw [inside _ (mem_pagesOf_self d height link.2), parented_congr
    (fun q below => Alike.of_eq (inside q below)) (fun q below _ => congrArg _ (inside q below))
    (nodup_of_mem_links distinct member)]

namespace Rewritten

variable {leafMax internalMax : ℕ} {fresh : PageId → Prop} {old new : List (K × V)}
  {d d' : PageStore K V} {height : ℕ} {front win win' back : List (K × PageId)} {p : PageId}
  {page : BPlusTreePage K V} {x x' : K × PageId}

section

variable (step : Rewritten leafMax internalMax fresh old new d d' height win win')
  (cut : (d p).links = front ++ (win ++ back)) (written : page.links = front ++ (win' ++ back))
  (distinct : (pagesOf d (height + 1) p).Nodup) (stale : ∀ q ∈ pagesOf d (height + 1) p, ¬ fresh q)

include step cut distinct stale

variable (page) in
/-- After the window and the page above it are written, everything beside the window is as before
and everything inside it as the window's own step left it. -/
theorem around_write :
    (∀ q ∈ pagesIn d height front, Function.update d' p page q = d q) ∧
      (∀ q ∈ pagesIn d' height win', Function.update d' p page q = d' q) ∧
      ∀ q ∈ pagesIn d height back, Function.update d' p page q = d q := by
  rw [pagesOf_succ, cut] at distinct stale
  obtain ⟨apart, distinct⟩ := List.nodup_cons.mp distinct
  obtain ⟨sameFront, sameBack⟩ := step.beside distinct fun q member => stale q (List.mem_cons_of_mem _ member)
  simp only [pagesIn_append, List.mem_append, not_or] at apart
  have other {q : PageId} {pages : List PageId} (member : q ∈ pages) (outside : p ∉ pages) : q ≠ p :=
    fun same => outside (same ▸ member)
  refine ⟨fun q member => ?_, fun q member => ?_, fun q member => ?_⟩
  · rw [Function.update_of_ne (other member apart.1), sameFront q member]
  · refine Function.update_of_ne (other member fun inside => ?_) _ _
    exact (step.pages p inside).elim apart.2.1 (stale p List.mem_cons_self)
  · rw [Function.update_of_ne (other member apart.2.2), sameBack q member]

include written in
/-- Parent pointers after a rewriting are decided inside the window. -/
theorem parented_lift (parented : Parented d (height + 1) p) :
    Parented (Function.update d' p page) (height + 1) p ↔ ParentedIn d' height p win' := by
  obtain ⟨sameFront, sameWin, sameBack⟩ := step.around_write page cut distinct stale
  rw [pagesOf_succ, cut] at distinct
  simp only [pagesIn_append] at distinct
  obtain ⟨distinctFront, rest, -⟩ := List.nodup_append.mp (List.nodup_cons.mp distinct).2
  obtain ⟨-, distinctBack, -⟩ := List.nodup_append.mp rest
  rw [parented_succ, cut] at parented
  rw [parented_succ, Function.update_self, written]
  simp only [ParentedIn, List.forall_mem_append] at parented ⊢
  change ParentedIn _ _ _ front ∧ ParentedIn _ _ _ win' ∧ ParentedIn _ _ _ back ↔ _
  rw [parentedIn_of_eq distinctFront sameFront, parentedIn_of_eq step.distinct sameWin,
    parentedIn_of_eq distinctBack sameBack]
  exact ⟨fun all => all.2.1, fun inside => ⟨parented.1, inside, parented.2.2⟩⟩

end

/-- Search order after a rewriting is decided inside the window. -/
theorem separated_lift (step : Rewritten leafMax internalMax fresh old new d d' height (x :: win) (x' :: win'))
    (cut : (d p).links = front ++ ((x :: win) ++ back))
    (written : page.links = front ++ ((x' :: win') ++ back)) (first : x'.1 = x.1)
    (distinct : (pagesOf d (height + 1) p).Nodup) (stale : ∀ q ∈ pagesOf d (height + 1) p, ¬ fresh q)
    (separated : Separated d (height + 1) p) :
    Separated (Function.update d' p page) (height + 1) p ↔
      SeparatedIn d' height (lowKey front x.1) (x' :: win') (headKey back none) := by
  obtain ⟨sameFront, sameWin, sameBack⟩ := step.around_write page cut distinct stale
  rw [separated_succ, cut, separatedIn_window] at separated
  rw [separated_succ, Function.update_self, written, separatedIn_window,
    separatedIn_congr fun q member => Alike.of_eq (sameFront q member),
    separatedIn_congr fun q member => Alike.of_eq (sameWin q member),
    separatedIn_congr fun q member => Alike.of_eq (sameBack q member), first]
  exact ⟨fun all => all.2.1, fun inside => ⟨separated.1, inside, separated.2.2⟩⟩

end Rewritten

end OneBase.PageStore
