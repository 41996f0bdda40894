import OneBase.Proofs.BPlusTree.Node

/-! # Splitting an overfull page

`Split` and `SplitInternal` move the right half of a page to a fresh one. The two halves, with the
middle key between them, take the place of the page in the window of its parent.
-/

namespace OneBase.PageStore

open BPlusTreePage Separators ListEdits BPlusTree

variable {K V : Type} [LinearOrder K] {leafMax internalMax : ℕ} {fresh : PageId → Prop} {old new : List (K × V)}
  {d d' : PageStore K V} {height : ℕ} {p q : PageId}

/-- Bounds may be put around a run in search order when they hold for its every key. -/
theorem SeparatedIn.widen {lo hi : Option K} {x : K × PageId} {win : List (K × PageId)}
    (separated : SeparatedIn d height none (x :: win) none)
    (within : ∀ link ∈ x :: win, ∀ k, KeyBelow d height link.2 k → Within lo hi k) :
    SeparatedIn d height lo (x :: win) hi :=
  ⟨(separated.1.rebound_right fun link member k stored => (within link member k stored).2).rebound_left
    fun k stored => (within x List.mem_cons_self k stored).1, separated.2⟩

/-- Page `p` was split, with `q` as the new right half and `mid` between the two. -/
structure SplitOff (leafMax internalMax : ℕ) (fresh : PageId → Prop) (old new : List (K × V))
    (d d' : PageStore K V) (height : ℕ) (p : PageId) (mid : K) (q : PageId) : Prop where
  rewritten : ∀ key, Rewritten leafMax internalMax fresh old new d d' height [(key, p)] [(key, p), (mid, q)]
  filled : Filled leafMax internalMax d' height p ∧ Filled leafMax internalMax d' height q
  parentPageId : (d' p).parentPageId = (d p).parentPageId
  separated : ∀ key, SeparatedIn d' height none [(key, p), (mid, q)] none
  parented : Parented d' height p ∧ Parented d' height q

/-- An edit of a page followed by its split. -/
theorem SplitOff.after {d'' : PageStore K V} {mid : K}
    (edit : NodeRewritten leafMax internalMax fresh old new d d' height p)
    (split : SplitOff leafMax internalMax fresh [] [] d' d'' height p mid q) :
    SplitOff leafMax internalMax fresh old new d d'' height p mid q where
  rewritten key := (edit.rewritten key).trans (split.rewritten key)
  filled := split.filled
  parentPageId := split.parentPageId.trans edit.parentPageId
  separated := split.separated
  parented := split.parented

theorem SplitOff.mono {fresh' : PageId → Prop} {mid : K}
    (split : SplitOff leafMax internalMax fresh old new d d' height p mid q) (more : ∀ x, fresh x → fresh' x) :
    SplitOff leafMax internalMax fresh' old new d d' height p mid q :=
  { split with rewritten := fun key => (split.rewritten key).mono more }

theorem NodeRewritten.mono {fresh' : PageId → Prop}
    (edit : NodeRewritten leafMax internalMax fresh old new d d' height p) (more : ∀ x, fresh x → fresh' x) :
    NodeRewritten leafMax internalMax fresh' old new d d' height p :=
  { edit with rewritten := fun key => (edit.rewritten key).mono more }

/-- Changing parent pointers at the tops of a rewritten window. -/
theorem Rewritten.retop {d'' : PageStore K V} {win win' : List (K × PageId)}
    (step : Rewritten leafMax internalMax fresh old new d d' height win win')
    (alike : ∀ x, Alike (d'' x) (d' x)) (same : ∀ x ∉ pagesIn d' height win', d'' x = d' x) :
    Rewritten leafMax internalMax fresh old new d d'' height win win' := by
  obtain ⟨samePages, sameLeaves, sameStored⟩ := readingIn_congr fun x (_ : x ∈ pagesIn d' height win') => alike x
  refine ⟨fun x outside stale => ?_, ?_, ?_, fun link member => ?_, ?_, ?_, fun last chained => ?_⟩
  · rw [same x fun inside => (step.pages x inside).elim outside stale, step.frame x outside stale]
  · rw [samePages]
    exact step.pages
  · rw [samePages]
    exact step.distinct
  · exact (shaped_congr fun x _ => alike x).mpr (step.shaped link member)
  · rw [sameStored]
    exact step.stored
  · rw [sameLeaves]
    exact step.head
  · rw [sameLeaves]
    exact (leafChain_congr fun x _ => (alike x).nextPageId).mpr (step.chain last chained)

/-- The new right half is hung under a parent. -/
theorem SplitOff.hang {mid : K} (split : SplitOff leafMax internalMax fresh old new d d' height p mid q)
    (parent : PageId) :
    SplitOff leafMax internalMax fresh old new d
      (Function.update d' q ((d' q).setParentPageId parent)) height p mid q := by
  have distinct := (split.rewritten mid).distinct
  simp only [pagesIn_cons, pagesIn_nil, List.append_nil] at distinct
  obtain ⟨distinctP, distinctQ, apart⟩ := List.nodup_append.mp distinct
  have alike (x : PageId) : Alike (Function.update d' q ((d' q).setParentPageId parent) x) (d' x) := by
    by_cases top : x = q
    · subst top
      rw [Function.update_self]
      exact alike_setParentPageId _ _
    · exact Alike.of_eq (Function.update_of_ne top _ _)
  have inside : q ∈ pagesOf d' height q := mem_pagesOf_self d' height q
  have other : ∀ x ∈ pagesOf d' height p, x ≠ q := fun x member => apart x member q inside
  refine ⟨fun key => (split.rewritten key).retop alike fun x outside => ?_, ?_, ?_, fun key => ?_, ?_, ?_⟩
  · refine Function.update_of_ne ?_ _ _
    rintro rfl
    exact outside (by simp [inside])
  · simp only [Filled, (alike _).size]
    exact split.filled
  · rw [Function.update_of_ne (other p (mem_pagesOf_self d' height p))]
    exact split.parentPageId
  · exact (separatedIn_congr fun x _ => alike x).mpr (split.separated key)
  · refine (parented_congr (fun x _ => alike x) (fun x member _ => ?_) distinctP).mpr split.parented.1
    rw [Function.update_of_ne (other x member)]
  · refine (parented_congr (fun x _ => alike x) (fun x _ notTop => ?_) distinctQ).mpr split.parented.2
    rw [Function.update_of_ne notTop]

section Leaf

variable {pageP pageQ : BPlusTreePage K V} {front rest : List (K × V)} {entry : K × V}

/-- The halves of a leaf. -/
theorem leaf_splitOff (shaped : Shaped leafMax internalMax d 0 p) (qp : q ≠ p)
    (entries : (d p).entries = front ++ entry :: rest)
    (entriesP : pageP.entries = front) (entriesQ : pageQ.entries = entry :: rest)
    (kindP : pageP.pageType = .leafPage ∧ pageP.maxSize = leafMax)
    (kindQ : pageQ.pageType = .leafPage ∧ pageQ.maxSize = leafMax)
    (parentP : pageP.parentPageId = (d p).parentPageId)
    (nextP : pageP.nextPageId = q) (nextQ : pageQ.nextPageId = (d p).nextPageId)
    (sizeP : leafMax / 2 ≤ front.length ∧ front.length ≤ leafMax)
    (sizeQ : leafMax / 2 ≤ rest.length + 1 ∧ rest.length + 1 ≤ leafMax) :
    SplitOff leafMax internalMax (· = q) [] [] d (Function.update (Function.update d p pageP) q pageQ) 0 p
      entry.1 q := by
  have sorted := shaped.2.2
  rw [entries] at sorted
  obtain ⟨sortedP, sortedQ, -⟩ := List.pairwise_append.mp sorted
  have atP : Function.update (Function.update d p pageP) q pageQ p = pageP := by simp [qp.symm]
  have atQ : Function.update (Function.update d p pageP) q pageQ q = pageQ := by simp
  refine ⟨fun key => .leaves ?_ ?_ ?_ ?_ ?_ ?_ ?_, ⟨?_, ?_⟩, by rw [atP, parentP], fun key => ?_,
    trivial, trivial⟩
  · intro x outside notFresh
    rw [Function.update_of_ne notFresh, Function.update_of_ne (by simpa using outside)]
  · simp
  · simpa using qp.symm
  · simp only [List.forall_mem_cons, List.not_mem_nil, false_imp_iff, implies_true, and_true, atP, atQ, kindP, kindQ,
      entriesP, entriesQ, true_and]
    exact ⟨sortedP, sortedQ⟩
  · rw [edits_nil_iff]
    simp [contents, atP, entriesP, entriesQ, entries]
  · simp
  · intro last chained
    simp only [List.map_cons, List.map_nil] at chained ⊢
    rw [leafChain_singleton] at chained
    rw [← List.singleton_append, leafChain_append, leafChain_singleton, leafChain_singleton, atP, atQ]
    exact ⟨nextP, nextQ.trans chained⟩
  · rw [Filled, atP, ← entries_length, entriesP]
    exact sizeP
  · rw [Filled, atQ, ← entries_length, entriesQ, List.length_cons]
    exact sizeQ
  · exact separatedIn_of_cut (x := (key, p)) (y := (key, q)) sorted (fun _ _ => ⟨by simp, by simp⟩)
      (by rw [atP, entriesP]) (by rw [atQ, entriesQ])

end Leaf

section Internal

variable {pageP pageQ : BPlusTreePage K V} {before after : List (K × PageId)} {link : K × PageId} {stale : K}

/-- The halves of an internal page, whose right children have been adopted by the new page. -/
theorem internal_splitOff (leafSize : 2 ≤ leafMax) (internalSize : 3 ≤ internalMax)
    (shaped : Shaped leafMax internalMax d (height + 1) p) (separated : Separated d (height + 1) p)
    (parented : Parented d (height + 1) p) (distinct : (pagesOf d (height + 1) p).Nodup)
    (unused : q ∉ pagesOf d (height + 1) p) (cut : (d p).links = before ++ link :: after)
    (linksP : pageP.links = before) (linksQ : pageQ.links = (stale, link.2) :: after)
    (kindP : pageP.pageType = .internalPage ∧ pageP.maxSize = internalMax)
    (kindQ : pageQ.pageType = .internalPage ∧ pageQ.maxSize = internalMax)
    (parentP : pageP.parentPageId = (d p).parentPageId)
    (sizeP : (internalMax + 1) / 2 ≤ before.length ∧ before.length ≤ internalMax)
    (sizeQ : (internalMax + 1) / 2 ≤ after.length + 1 ∧ after.length + 1 ≤ internalMax) :
    SplitOff leafMax internalMax (· = q) [] [] d
      (adopt pageQ.children q (Function.update (Function.update d p pageP) q pageQ)) (height + 1) p link.1 q := by
  have qp : q ≠ p := by
    rintro rfl
    exact unused (mem_pagesOf_self d _ _)
  rw [pagesOf_succ] at distinct unused
  obtain ⟨apart, distinct⟩ := List.nodup_cons.mp distinct
  rw [List.mem_cons, not_or] at unused
  -- no child is one of the two halves
  have isChild : ∀ c ∈ pageQ.children, c ∈ (d p).children := by
    simp only [BPlusTreePage.children, linksQ, cut]
    intro c member
    simp only [List.map_append, List.map_cons, List.mem_append]
    exact .inr member
  have below : ∀ c ∈ (d p).children, c ≠ p ∧ c ≠ q := by
    intro c member
    obtain ⟨other, linked, rfl⟩ := mem_children.mp member
    have inside : other.2 ∈ pagesIn d height (d p).links := mem_pagesIn_of_mem linked
    exact ⟨fun same => apart (same ▸ inside), fun same => unused.2 (same ▸ inside)⟩
  have notP : p ∉ pageQ.children := fun member => (below p (isChild p member)).1 rfl
  have notQ : q ∉ pageQ.children := fun member => (below q (isChild q member)).2 rfl
  generalize store : adopt pageQ.children q (Function.update (Function.update d p pageP) q pageQ) = d'
  have atP : d' p = pageP := by
    rw [← store, adopt_of_not_mem notP]
    simp [qp.symm]
  have atQ : d' q = pageQ := by
    rw [← store, adopt_of_not_mem notQ]
    simp
  have elsewhere (x : PageId) (xp : x ≠ p) (xq : x ≠ q) : Alike (d' x) (d x) := by
    rw [← store]
    by_cases member : x ∈ pageQ.children
    · rw [adopt_of_mem member, Function.update_of_ne xq, Function.update_of_ne xp]
      exact alike_setParentPageId _ _
    · rw [adopt_of_not_mem member, Function.update_of_ne xq, Function.update_of_ne xp]
      exact Alike.of_eq rfl
  have same (x : PageId) (xp : x ≠ p) (xq : x ≠ q) (other : x ∉ pageQ.children) : d' x = d x := by
    rw [← store, adopt_of_not_mem other, Function.update_of_ne xq, Function.update_of_ne xp]
  have pointer (c : PageId) (member : c ∈ (d p).children) :
      (d' c).parentPageId = if c ∈ pageQ.children then q else (d c).parentPageId := by
    obtain ⟨cp, cq⟩ := below c member
    rw [← store]
    unfold adopt
    rw [Function.update_of_ne cq, Function.update_of_ne cp]
    split <;> rfl
  obtain ⟨first, front, rfl⟩ := List.exists_cons_of_ne_nil (show before ≠ [] by
    rintro rfl
    simp only [List.length_nil] at sizeP
    omega)
  have flatBefore (key : K) : flatten d [(key, p)] = (key, first.2) :: front ++ link :: after := by
    have spreads : spread d (key, p) = (key, first.2) :: (front ++ link :: after) :=
      spread_of_links (show (d p).links = first :: (front ++ link :: after) by simpa using cut)
    simp [flatten, spreads]
  have flatAfter (key : K) : flatten d' [(key, p), (link.1, q)] = flatten d [(key, p)] := by
    have spreadP : spread d' (key, p) = (key, first.2) :: front := spread_of_links (by rw [atP, linksP])
    have spreadQ : spread d' (link.1, q) = link :: after := by simp [spread, atQ, linksQ]
    rw [flatBefore]
    simp [flatten, spreadP, spreadQ]
  have flatPages (key : K) : pagesIn d height (flatten d [(key, p)]) = pagesIn d height (d p).links := by
    rw [flatBefore, cut]
    simp
  have alike (key : K) : ∀ x ∈ pagesIn d height (flatten d [(key, p)]), Alike (d' x) (d x) := by
    intro x inside
    rw [flatPages] at inside
    exact elsewhere x (fun same => apart (same ▸ inside)) (fun same => unused.2 (same ▸ inside))
  have notEmpty (key : K) : ∀ half ∈ [(key, p), (link.1, q)], (d' half.2).links ≠ [] := by
    simp [atP, atQ, linksP, linksQ]
  have parentedChild (c : PageId) (member : c ∈ (d p).children) : Parented d' height c :=
    (parented_regroup distinct
      (fun x inside => elsewhere x (fun top => apart (top ▸ inside)) (fun top => unused.2 (top ▸ inside)))
      (fun x inside other => same x (fun top => apart (top ▸ inside)) (fun top => unused.2 (top ▸ inside))
        fun member => other (isChild x member)) member).mpr (parented c member).2
  have distinctChildren := nodup_map_snd distinct
  refine ⟨fun key => .regroup (by rw [flatAfter]) (alike key) ?_ (by simp) (by simpa using qp.symm) ?_ ?_ ?_
    (by simpa using shaped), ⟨?_, ?_⟩, by rw [atP, parentP], fun key => ?_, ?_, ?_⟩
  · intro x outside notQ
    simp only [pagesIn_cons, pagesIn_nil, List.append_nil, pagesOf_succ, List.mem_cons, not_or] at outside
    refine same x outside.1 notQ fun member => outside.2 ?_
    obtain ⟨other, linked, rfl⟩ := mem_children.mp (isChild x member)
    exact mem_pagesIn_of_mem linked
  · simp only [List.forall_mem_cons, List.not_mem_nil, false_imp_iff, implies_true, and_true, atP, atQ]
    exact ⟨kindP, kindQ⟩
  · simpa [pagesOf_succ] using ⟨apart, distinct⟩
  · intro x inside isQ
    subst isQ
    simp only [pagesIn_cons, pagesIn_nil, List.append_nil, pagesOf_succ] at inside
    exact (List.mem_cons.mp inside).elim unused.1 unused.2
  · rw [Filled, atP, ← links_length, linksP]
    exact sizeP
  · rw [Filled, atQ, ← links_length, linksQ, List.length_cons]
    exact sizeQ
  · rw [separatedIn_regroup (by rw [flatAfter]) (alike key) (by
      simpa using fun a b => shaped.children_inhabited leafSize internalSize (a, b)) (notEmpty key), flatAfter,
      ← separatedIn_flatten (by simp [cut]) (by
      simpa using fun a b => shaped.children_inhabited leafSize internalSize (a, b))]
    exact ⟨by rw [bounded_singleton]; simp [Within], by simpa using separated⟩
  · intro c member
    have inP : c ∈ (d p).children := by
      rw [atP] at member
      simp only [BPlusTreePage.children, linksP, cut] at member ⊢
      rw [List.map_append]
      exact List.mem_append_left _ member
    refine ⟨?_, parentedChild c inP⟩
    rw [pointer c inP, if_neg fun inQ => ?_]
    · exact (parented c inP).1
    · rw [atP, BPlusTreePage.children, linksP] at member
      rw [BPlusTreePage.children, linksQ] at inQ
      rw [cut, List.map_append] at distinctChildren
      exact (List.nodup_append.mp distinctChildren).2.2 c member c inQ rfl
  · intro c member
    rw [atQ] at member
    refine ⟨?_, parentedChild c (isChild c member)⟩
    rw [pointer c (isChild c member), if_pos member]

end Internal

end OneBase.PageStore
