import OneBase.Proofs.BPlusTree.Window
import Mathlib.Data.List.Perm.Basic

/-! # Moving children and entries between neighbours

At the leaf level a rewriting is read off the entries. Above it, splits, merges and borrows deal the same
children out to other pages, so a window is flattened into the run of its children, each carrying
the separator to its left: the window is in search order when that run is, and a regrouping that
keeps the children keeps everything below them.
-/

namespace OneBase.PageStore

open BPlusTreePage Separators ListEdits

variable {K V : Type}

section Leaves

variable (d : PageStore K V) (win : List (K × PageId))

theorem pagesIn_zero : pagesIn d 0 win = win.map Prod.snd := by
  simp [pagesIn, pagesOf, ← List.map_eq_flatMap]

theorem leavesIn_zero : leavesIn d 0 win = win.map Prod.snd := by
  simp [leavesIn, leavesOf, ← List.map_eq_flatMap]

end Leaves

/-- The children of a page, the first one under the separator of the page itself. -/
def spread (d : PageStore K V) (link : K × PageId) : List (K × PageId) :=
  match (d link.2).links with
  | [] => []
  | first :: rest => (link.1, first.2) :: rest

/-- The children of a window, each under the separator to its left. -/
def flatten (d : PageStore K V) (win : List (K × PageId)) : List (K × PageId) := win.flatMap (spread d)

section Flatten

variable {d d' : PageStore K V} {height : ℕ}

theorem spread_of_links {link first : K × PageId} {rest : List (K × PageId)}
    (cut : (d link.2).links = first :: rest) : spread d link = (link.1, first.2) :: rest := by
  simp [spread, cut]

theorem spread_map_snd (d : PageStore K V) (link : K × PageId) :
    (spread d link).map Prod.snd = (d link.2).children := by
  cases cut : (d link.2).links <;> simp [spread, children, cut]

theorem spread_flatMap {β : Type*} (d : PageStore K V) (link : K × PageId) (f : PageId → List β) :
    (spread d link).flatMap (fun below => f below.2) = (d link.2).children.flatMap f := by
  rw [← spread_map_snd, List.flatMap_map]

theorem storedIn_succ (win : List (K × PageId)) :
    storedIn d (height + 1) win = storedIn d height (flatten d win) := by
  simp only [storedIn, flatten, List.flatMap_assoc, spread_flatMap, contents]

theorem leavesIn_succ (win : List (K × PageId)) :
    leavesIn d (height + 1) win = leavesIn d height (flatten d win) := by
  simp only [leavesIn, flatten, List.flatMap_assoc, spread_flatMap, leavesOf]

variable (d height) in
/-- The pages of a window are its tops and the pages below. -/
theorem pagesIn_succ_perm (win : List (K × PageId)) :
    (pagesIn d (height + 1) win).Perm (win.map Prod.snd ++ pagesIn d height (flatten d win)) := by
  have below : pagesIn d height (flatten d win) =
      win.flatMap fun link => (d link.2).children.flatMap (pagesOf d height) := by
    simp only [pagesIn, flatten, List.flatMap_assoc, spread_flatMap]
  rw [below]
  exact (List.map_append_flatMap_perm win Prod.snd _).symm

theorem keyBelow_spread {link : K × PageId} {key : K} :
    KeyBelow d (height + 1) link.2 key ↔ ∃ below ∈ spread d link, KeyBelow d height below.2 key := by
  rw [keyBelow_succ]
  cases cut : (d link.2).links with
  | nil => simp [spread, cut]
  | cons first rest => simp [spread, cut]

variable [LinearOrder K]

/-- Outer bounds of a run hold for its every key. -/
theorem bounded_iff_within {below : PageId → K → Prop} {lo hi : Option K} {link : K × PageId}
    {rest : List (K × PageId)} (inhabited : ∀ other ∈ link :: rest, ∃ key, below other.2 key) :
    Bounded below lo (link :: rest) hi ↔
      (∀ key, (∃ other ∈ link :: rest, below other.2 key) → Within lo hi key) ∧
        Bounded below none (link :: rest) none := by
  constructor
  · intro bounded
    refine ⟨?_, (bounded.rebound_right (by simp)).rebound_left (by simp)⟩
    rintro key ⟨other, member, stored⟩
    exact bounded.within inhabited other member key stored
  · rintro ⟨within, bounded⟩
    refine (bounded.rebound_right fun other member key stored => ?_).rebound_left fun key stored => ?_
    · exact (within key ⟨other, member, stored⟩).2
    · exact (within key ⟨link, List.mem_cons_self, stored⟩).1

private theorem separatedIn_spread {lo hi : Option K} {link : K × PageId}
    (nonempty : (d link.2).links ≠ [])
    (inhabited : ∀ below ∈ (d link.2).links, ∃ key, KeyBelow d height below.2 key) :
    SeparatedIn d (height + 1) lo [link] hi ↔ SeparatedIn d height lo (spread d link) hi := by
  obtain ⟨first, rest, cut⟩ := List.exists_cons_of_ne_nil nonempty
  rw [cut] at inhabited
  have spreads := spread_of_links cut
  have stored : ∀ other ∈ (link.1, first.2) :: rest, ∃ key, KeyBelow d height other.2 key := by
    intro other member
    rcases List.mem_cons.mp member with rfl | member
    · exact inhabited first List.mem_cons_self
    · exact inhabited other (List.mem_cons_of_mem _ member)
  have top : Separated d (height + 1) link.2 ↔
      Bounded (KeyBelow d height) none (spread d link) none ∧
        ∀ other ∈ spread d link, Separated d height other.2 := by
    rw [separated_succ, SeparatedIn, cut, spreads, List.forall_mem_cons, List.forall_mem_cons]
    exact and_congr_left fun _ => bounded_rekey
  simp only [SeparatedIn, bounded_singleton, List.mem_singleton, forall_eq, top, keyBelow_spread]
  have outer : Bounded (KeyBelow d height) lo (spread d link) hi ↔
      (∀ key, (∃ other ∈ spread d link, KeyBelow d height other.2 key) → Within lo hi key) ∧
        Bounded (KeyBelow d height) none (spread d link) none := by
    rw [spreads]
    exact bounded_iff_within stored
  rw [outer]
  tauto

/-- A window is in search order when the run of its children is. -/
theorem separatedIn_flatten {lo hi : Option K} {win : List (K × PageId)}
    (nonempty : ∀ link ∈ win, (d link.2).links ≠ [])
    (inhabited : ∀ link ∈ win, ∀ below ∈ (d link.2).links, ∃ key, KeyBelow d height below.2 key) :
    SeparatedIn d (height + 1) lo win hi ↔ SeparatedIn d height lo (flatten d win) hi := by
  induction win generalizing lo with
  | nil => simp [SeparatedIn, flatten]
  | cons link rest ih =>
    have here := nonempty link List.mem_cons_self
    have ihRest (bound : Option K) := @ih bound
      (fun other member => nonempty other (List.mem_cons_of_mem _ member))
      (fun other member => inhabited other (List.mem_cons_of_mem _ member))
    have spreads : spread d link ≠ [] := by
      obtain ⟨first, others, cut⟩ := List.exists_cons_of_ne_nil here
      simp [spread_of_links cut]
    have headSame : headKey (flatten d rest) hi = headKey rest hi := by
      cases rest with
      | nil => rfl
      | cons next others =>
        obtain ⟨first, below, cut⟩ := List.exists_cons_of_ne_nil
          (nonempty next (List.mem_cons_of_mem _ List.mem_cons_self))
        simp [flatten, spread_of_links cut]
    have split (height : ℕ) (front back : List (K × PageId)) (nonempty : front ≠ []) :
        SeparatedIn d height lo (front ++ back) hi ↔
          SeparatedIn d height lo front (headKey back hi) ∧ SeparatedIn d height (headKey back hi) back hi := by
      simp only [SeparatedIn, bounded_append nonempty, List.forall_mem_append]
      tauto
    change SeparatedIn d (height + 1) lo ([link] ++ rest) hi ↔
      SeparatedIn d height lo (spread d link ++ flatten d rest) hi
    rw [split _ _ _ (by simp), split _ _ _ spreads, headSame, ihRest,
      separatedIn_spread here (inhabited link List.mem_cons_self)]

end Flatten

variable [LinearOrder K] {leafMax internalMax : ℕ} {fresh : PageId → Prop} {d d' : PageStore K V}

/-- Dealing the same children out to other pages rewrites the window without changing what is
stored. Parent pointers below may change. -/
theorem Rewritten.regroup {height : ℕ} {win win' : List (K × PageId)}
    (children : (flatten d' win').map Prod.snd = (flatten d win).map Prod.snd)
    (alike : ∀ q ∈ pagesIn d height (flatten d win), Alike (d' q) (d q))
    (frame : ∀ q ∉ pagesIn d (height + 1) win, ¬ fresh q → d' q = d q)
    (tops : ∀ link ∈ win', link.2 ∈ win.map Prod.snd ∨ fresh link.2)
    (distinctTops : (win'.map Prod.snd).Nodup)
    (kinds : ∀ link ∈ win', (d' link.2).pageType = .internalPage ∧ (d' link.2).maxSize = internalMax)
    (distinct : (pagesIn d (height + 1) win).Nodup)
    (stale : ∀ q ∈ pagesIn d (height + 1) win, ¬ fresh q)
    (shaped : ∀ link ∈ win, Shaped leafMax internalMax d (height + 1) link.2) :
    Rewritten leafMax internalMax fresh [] [] d d' (height + 1) win win' := by
  have viaChildren {β : Type} (f : PageId → List β) :
      (flatten d' win').flatMap (fun link => f link.2) = (flatten d win).flatMap (fun link => f link.2) := by
    rw [← List.flatMap_map Prod.snd f, children, List.flatMap_map]
  obtain ⟨samePages, sameLeaves, sameStored⟩ := readingIn_congr alike
  have pagesBelow : pagesIn d' height (flatten d' win') = pagesIn d height (flatten d win) :=
    (viaChildren _).trans samePages
  have before := pagesIn_succ_perm d height win
  have after := pagesIn_succ_perm d' height win'
  rw [pagesBelow] at after
  have mem_before (q : PageId) : q ∈ pagesIn d (height + 1) win ↔
      q ∈ win.map Prod.snd ∨ q ∈ pagesIn d height (flatten d win) := by
    rw [before.mem_iff, List.mem_append]
  refine ⟨frame, ?_, ?_, ?_, ?_, ?_, ?_⟩
  · intro q inside
    rw [after.mem_iff, List.mem_append] at inside
    rw [mem_before]
    rcases inside with top | inside
    · obtain ⟨link, member, rfl⟩ := List.mem_map.mp top
      exact (tops link member).imp_left .inl
    · exact .inl (.inr inside)
  · rw [after.nodup_iff]
    obtain ⟨-, below, apart⟩ := List.nodup_append.mp (before.nodup_iff.mp distinct)
    refine List.nodup_append.mpr ⟨distinctTops, below, ?_⟩
    rintro q top r inside rfl
    obtain ⟨link, member, rfl⟩ := List.mem_map.mp top
    rcases tops link member with was | isFresh
    · exact apart _ was _ inside rfl
    · exact stale _ ((mem_before _).mpr (.inr inside)) isFresh
  · intro link member
    refine ⟨(kinds link member).1, (kinds link member).2, ?_⟩
    intro c child
    have inside : c ∈ (flatten d win).map Prod.snd := by
      rw [← children, flatten, List.map_flatMap, List.mem_flatMap]
      exact ⟨link, member, by rw [spread_map_snd]; exact child⟩
    obtain ⟨below, flat, rfl⟩ := List.mem_map.mp inside
    obtain ⟨top, topMember, spreads⟩ := List.mem_flatMap.mp flat
    have linked : below.2 ∈ (d top.2).children := by
      rw [← spread_map_snd]; exact List.mem_map_of_mem spreads
    obtain ⟨shapedBelow, filledBelow⟩ := (shaped top topMember).2.2 _ linked
    have alikeBelow : ∀ q ∈ pagesOf d height below.2, Alike (d' q) (d q) := fun q member =>
      alike q (mem_pagesIn.mpr ⟨below, flat, member⟩)
    refine ⟨(shaped_congr alikeBelow).mpr shapedBelow, ?_⟩
    rw [Filled, (alikeBelow _ (mem_pagesOf_self d height below.2)).size]
    exact filledBelow
  · rw [edits_nil_iff, storedIn_succ, storedIn_succ]
    exact (viaChildren _).trans sameStored
  · rw [leavesIn_succ, leavesIn_succ]
    exact congrArg List.head? ((viaChildren _).trans sameLeaves)
  · intro last chained
    rw [leavesIn_succ] at chained ⊢
    rw [show leavesIn d' height (flatten d' win') = leavesIn d height (flatten d win) from
      (viaChildren _).trans sameLeaves]
    exact (leafChain_congr fun q member => (alike q (leavesIn_subset_pagesIn member)).nextPageId).mpr chained

/-- Search order after dealing the same children out, judged on the run of children before. -/
theorem separatedIn_regroup {height : ℕ} {win win' : List (K × PageId)} {lo hi : Option K}
    (children : (flatten d' win').map Prod.snd = (flatten d win).map Prod.snd)
    (alike : ∀ q ∈ pagesIn d height (flatten d win), Alike (d' q) (d q))
    (inhabited : ∀ link ∈ win, ∀ below ∈ (d link.2).links, ∃ key, KeyBelow d height below.2 key)
    (nonempty : ∀ link ∈ win', (d' link.2).links ≠ []) :
    SeparatedIn d' (height + 1) lo win' hi ↔ SeparatedIn d height lo (flatten d' win') hi := by
  have reading : ∀ c ∈ (flatten d win).map Prod.snd, contents d' height c = contents d height c := by
    intro c isChild
    obtain ⟨link, member, rfl⟩ := List.mem_map.mp isChild
    exact (reading_congr fun q below => alike q (mem_pagesIn.mpr ⟨link, member, below⟩)).2.2
  have stored : ∀ c ∈ (flatten d win).map Prod.snd, ∃ key, KeyBelow d height c key := by
    intro c isChild
    rw [flatten, List.map_flatMap, List.mem_flatMap] at isChild
    obtain ⟨top, member, below⟩ := isChild
    rw [spread_map_snd] at below
    obtain ⟨link, linked, rfl⟩ := mem_children.mp below
    exact inhabited top member link linked
  rw [separatedIn_flatten nonempty, separatedIn_congr]
  · intro q member
    obtain ⟨link, linked, below⟩ := mem_pagesIn.mp member
    have isChild : link.2 ∈ (flatten d win).map Prod.snd := by
      rw [← children]; exact List.mem_map_of_mem linked
    obtain ⟨old, oldMember, same⟩ := List.mem_map.mp isChild
    exact alike q (mem_pagesIn.mpr ⟨old, oldMember, same ▸ below⟩)
  · intro link member below linked
    have isChild : below.2 ∈ (flatten d win).map Prod.snd := by
      rw [← children, flatten, List.map_flatMap, List.mem_flatMap]
      exact ⟨link, member, by rw [spread_map_snd]; exact List.mem_map_of_mem linked⟩
    obtain ⟨key, value, here⟩ := stored _ isChild
    exact ⟨key, value, by rw [reading _ isChild]; exact here⟩

omit [LinearOrder K] in
/-- Parent pointers below a child are untouched when only children are adopted. -/
theorem parented_regroup {height : ℕ} {links : List (K × PageId)} (distinct : (pagesIn d height links).Nodup)
    (alike : ∀ q ∈ pagesIn d height links, Alike (d' q) (d q))
    (same : ∀ q ∈ pagesIn d height links, q ∉ links.map Prod.snd → d' q = d q) {c : PageId}
    (child : c ∈ links.map Prod.snd) : Parented d' height c ↔ Parented d height c := by
  obtain ⟨link, member, rfl⟩ := List.mem_map.mp child
  have inside : ∀ q ∈ pagesOf d height link.2, q ∈ pagesIn d height links :=
    fun q below => mem_pagesIn.mpr ⟨link, member, below⟩
  refine parented_congr (fun q below => alike q (inside q below)) (fun q below other => ?_)
    (nodup_of_mem_links distinct member)
  rw [same q (inside q below)]
  intro isChild
  obtain ⟨link', member', rfl⟩ := List.mem_map.mp isChild
  exact other (congrArg Prod.snd (link_unique distinct member' member (mem_pagesOf_self d height link'.2) below))

/-- A rewriting of leaves, read off their entries and next pointers. -/
theorem Rewritten.leaves {old new : List (K × V)} {win win' : List (K × PageId)}
    (frame : ∀ q ∉ win.map Prod.snd, ¬ fresh q → d' q = d q)
    (tops : ∀ link ∈ win', link.2 ∈ win.map Prod.snd ∨ fresh link.2)
    (distinctTops : (win'.map Prod.snd).Nodup)
    (kinds : ∀ link ∈ win', (d' link.2).pageType = .leafPage ∧ (d' link.2).maxSize = leafMax ∧
      (d' link.2).entries.Pairwise (fun a b => a.1 < b.1))
    (stored : Edits old new (storedIn d 0 win) (storedIn d' 0 win'))
    (head : (win'.map Prod.snd).head? = (win.map Prod.snd).head?)
    (chain : ∀ last, LeafChain d (win.map Prod.snd) last → LeafChain d' (win'.map Prod.snd) last) :
    Rewritten leafMax internalMax fresh old new d d' 0 win win' := by
  refine ⟨?_, ?_, ?_, kinds, stored, ?_, ?_⟩ <;> simp only [pagesIn_zero, leavesIn_zero]
  · exact frame
  · intro q member
    obtain ⟨link, linked, rfl⟩ := List.mem_map.mp member
    exact tops link linked
  · exact distinctTops
  · exact head
  · exact chain

/-- Writing one leaf under its old next pointer. -/
theorem Rewritten.leaf {old new : List (K × V)} {p : PageId} {page : BPlusTreePage K V} {key key' : K}
    (kind : page.pageType = .leafPage) (capacity : page.maxSize = leafMax)
    (sorted : page.entries.Pairwise (fun a b => a.1 < b.1)) (next : page.nextPageId = (d p).nextPageId)
    (edit : Edits old new (d p).entries page.entries) :
    Rewritten leafMax internalMax fresh old new d (Function.update d p page) 0 [(key, p)] [(key', p)] := by
  refine .leaves ?_ ?_ ?_ ?_ ?_ ?_ ?_
  · intro q outside _
    exact Function.update_of_ne (by simpa using outside) _ _
  · simp
  · simp
  · simp [kind, capacity, sorted]
  · simpa [contents] using edit
  · simp
  · intro last chained
    simp only [List.map_cons, List.map_nil, leafChain_singleton, Function.update_self, next] at chained ⊢
    exact chained

section LeafOrder

variable {x y : K × PageId} {lo hi : Option K}

omit [LinearOrder K] in
theorem keyBelow_zero {p : PageId} {key : K} :
    KeyBelow d 0 p key ↔ ∃ value, (key, value) ∈ (d p).entries := Iff.rfl

theorem separatedIn_leaf :
    SeparatedIn d 0 lo [x] hi ↔ ∀ e ∈ (d x.2).entries, Within lo hi e.1 := by
  simp only [SeparatedIn, bounded_singleton, Separated, implies_true, and_true, keyBelow_zero]
  constructor
  · exact fun all e member => all e.1 ⟨e.2, member⟩
  · rintro all key ⟨value, member⟩
    exact all _ member

theorem separatedIn_leaves :
    SeparatedIn d 0 lo [x, y] hi ↔
      (∀ e ∈ (d x.2).entries, Within lo (some y.1) e.1) ∧
      ∀ e ∈ (d y.2).entries, Within (some y.1) hi e.1 := by
  simp only [SeparatedIn, bounded_pair, Separated, implies_true, and_true, keyBelow_zero]
  constructor
  · rintro ⟨left, right⟩
    exact ⟨fun e member => left e.1 ⟨e.2, member⟩, fun e member => right e.1 ⟨e.2, member⟩⟩
  · rintro ⟨left, right⟩
    constructor
    · rintro key ⟨value, member⟩
      exact left _ member
    · rintro key ⟨value, member⟩
      exact right _ member

/-- Two neighbouring leaves in search order form one sorted list inside the outer bounds. -/
theorem leaves_sorted (separated : SeparatedIn d 0 lo [x, y] hi)
    (between : (∀ a ∈ lo, a ≤ y.1) ∧ ∀ b ∈ hi, y.1 ≤ b)
    (sortedX : (d x.2).entries.Pairwise (fun a b => a.1 < b.1))
    (sortedY : (d y.2).entries.Pairwise (fun a b => a.1 < b.1)) :
    ((d x.2).entries ++ (d y.2).entries).Pairwise (fun a b => a.1 < b.1) ∧
      ∀ e ∈ (d x.2).entries ++ (d y.2).entries, Within lo hi e.1 := by
  obtain ⟨left, right⟩ := separatedIn_leaves.mp separated
  constructor
  · refine List.pairwise_append.mpr ⟨sortedX, sortedY, fun a inX b inY => ?_⟩
    exact ((left a inX).2 _ rfl).trans_le ((right b inY).1 _ rfl)
  · intro e member
    rcases List.mem_append.mp member with member | member
    · exact ⟨(left e member).1, fun b bound => ((left e member).2 _ rfl).trans_le (between.2 b bound)⟩
    · exact ⟨fun a bound => (between.1 a bound).trans ((right e member).1 _ rfl), (right e member).2⟩

/-- A sorted list cut between two leaves is in search order under the first key after the cut. -/
theorem separatedIn_of_cut {entry : K × V} {front rest : List (K × V)}
    (sorted : (front ++ entry :: rest).Pairwise (fun a b => a.1 < b.1))
    (within : ∀ e ∈ front ++ entry :: rest, Within lo hi e.1)
    (left : (d x.2).entries = front) (right : (d y.2).entries = entry :: rest) :
    SeparatedIn d 0 lo [x, (entry.1, y.2)] hi := by
  obtain ⟨-, tail, across⟩ := List.pairwise_append.mp sorted
  refine separatedIn_leaves.mpr ⟨?_, ?_⟩
  · rw [left]
    refine fun e member => ⟨(within e (List.mem_append_left _ member)).1, fun b bound => ?_⟩
    obtain rfl := Option.mem_some.mp bound
    exact across e member entry List.mem_cons_self
  · rw [right]
    refine fun e member => ⟨fun a bound => ?_, (within e (List.mem_append_right _ member)).2⟩
    obtain rfl := Option.mem_some.mp bound
    rcases List.mem_cons.mp member with rfl | member
    · exact le_rfl
    · exact ((List.pairwise_cons.mp tail).1 e member).le

end LeafOrder

end OneBase.PageStore
