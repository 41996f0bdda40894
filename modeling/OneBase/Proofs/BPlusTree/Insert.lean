import OneBase.Proofs.BPlusTree.Split

/-! # Inserting a key

`Insert` puts the pair into the leaf it routes to and walks up from there as long as pages overflow.
Both kinds of split end in the same code, which hangs the new right half beside the old page. A
subtree either takes the pair in or comes out in two halves, in which case the walk goes on at the
parent, or at a new root.
-/

namespace OneBase

open BPlusTreePage Separators PageStore ListEdits

variable {K V : Type} [Inhabited K] [Inhabited V]

namespace BPlusTree

/-- The end of `Split` and `SplitInternal`: hang the right half `newId` of page `oldId` under a new
root, or under the parent of `oldId`. -/
def hang (insertIntoParent : PageId → PageId → K → PageId → TreeM K V Unit) (internalMaxSize : ℕ)
    (oldId : PageId) (middleKey : K) (newId : PageId) : TreeM K V Unit := do
  if (← page oldId).isRootPage then
    match ← newPage with
    | none =>
      unpinPage oldId true
      unpinPage newId true
    | some newRootId =>
      let newRoot := InternalPage.init (← page newRootId) internalMaxSize
      writePage newRootId (InternalPage.populateNewRoot newRoot oldId middleKey newId)
      writePage oldId ((← page oldId).setParentPageId newRootId)
      writePage newId ((← page newId).setParentPageId newRootId)
      modify fun tree => { tree with rootPageId := newRootId }
      unpinPage oldId true
      unpinPage newId true
      unpinPage newRootId true
  else
    let parentId := (← page oldId).parentPageId
    writePage newId ((← page newId).setParentPageId parentId)
    unpinPage oldId true
    unpinPage newId true
    insertIntoParent parentId oldId middleKey newId

theorem split_eq_hang (rounds : ℕ) (leafPageId : PageId) :
    split (K := K) (V := V) rounds leafPageId = (do
      match ← newPage with
      | none => unpinPage leafPageId true
      | some newPageId =>
        let tree ← get
        writePage newPageId (LeafPage.init (← page newPageId) tree.leafMaxSize)
        let leafPage ← page leafPageId
        let (kept, moved) := LeafPage.moveHalfTo leafPage (← page newPageId)
        writePage newPageId (moved.setNextPageId kept.nextPageId)
        writePage leafPageId (kept.setNextPageId newPageId)
        hang (insertIntoParent rounds) tree.internalMaxSize leafPageId (LeafPage.keyAt moved 0) newPageId) := rfl

theorem splitInternal_eq_hang (insertIntoParent : PageId → PageId → K → PageId → TreeM K V Unit)
    (internalPageId : PageId) :
    splitInternal insertIntoParent internalPageId = (do
      match ← newPage with
      | none => unpinPage internalPageId true
      | some newPageId =>
        let tree ← get
        writePage newPageId (InternalPage.init (← page newPageId) tree.internalMaxSize)
        let internalPage ← page internalPageId
        let middleKey := InternalPage.keyAt internalPage (internalPage.size / 2)
        let (kept, moved) := InternalPage.moveHalfTo internalPage (← page newPageId) middleKey
        writePage internalPageId kept
        writePage newPageId moved
        reparent newPageId newPageId 0 moved.size
        hang insertIntoParent tree.internalMaxSize internalPageId middleKey newPageId) := rfl

section Halves

variable {β : Type} {v : View K V} {p : PageId} {f : Unit → TreeM K V β} {R : β → View K V → Prop}
  {next : PageId → PageId → K → PageId → TreeM K V Unit}

/-- `Split` up to the point where the new leaf is hung into the tree. -/
theorem runs_split {rounds : ℕ} (other : v.nextPageId ≠ p)
    (rest : ∀ kept moved,
      LeafPage.moveHalfTo (v.data p) (LeafPage.init (erased (v.data v.nextPageId)) v.leafMaxSize) = (kept, moved) →
      Runs (hang (insertIntoParent rounds) v.internalMaxSize p (LeafPage.keyAt moved 0) v.nextPageId >>= f)
        { v with
          data := Function.update (Function.update v.data p (kept.setNextPageId v.nextPageId)) v.nextPageId
            (moved.setNextPageId kept.nextPageId)
          nextPageId := v.nextPageId + 1 } R) :
    Runs (split rounds p >>= f) v R := by
  rw [split_eq_hang, bind_assoc]
  refine runs_newPage ?_
  simp only [bind_assoc]
  refine runs_get ?_
  intro tree seen
  have leafMax : tree.leafMaxSize = v.leafMaxSize := congrArg View.leafMaxSize seen
  have internalMax : tree.internalMaxSize = v.internalMaxSize := congrArg View.internalMaxSize seen
  rw [leafMax, internalMax]
  refine runs_page (runs_writePage (runs_page (runs_page (runs_writePage (runs_writePage ?_)))))
  simp only [Function.update_self, Function.update_of_ne other.symm, Function.update_idem]
  rw [Function.update_comm other]
  exact rest _ _ rfl

/-- `SplitInternal` up to the point where the new page is hung into the tree. -/
theorem runs_splitInternal (other : v.nextPageId ≠ p)
    (rest : ∀ kept moved,
      InternalPage.moveHalfTo (v.data p) (InternalPage.init (erased (v.data v.nextPageId)) v.internalMaxSize)
        (InternalPage.keyAt (v.data p) ((v.data p).size / 2)) = (kept, moved) →
      Runs (hang next v.internalMaxSize p (InternalPage.keyAt (v.data p) ((v.data p).size / 2)) v.nextPageId >>= f)
        { v with
          data := adopt moved.children v.nextPageId
            (Function.update (Function.update v.data p kept) v.nextPageId moved)
          nextPageId := v.nextPageId + 1 } R) :
    Runs (splitInternal next p >>= f) v R := by
  rw [splitInternal_eq_hang, bind_assoc]
  refine runs_newPage ?_
  simp only [bind_assoc]
  refine runs_get ?_
  intro tree seen
  have internalMax : tree.internalMaxSize = v.internalMaxSize := congrArg View.internalMaxSize seen
  rw [internalMax]
  refine runs_page (runs_writePage (runs_page (runs_page (runs_writePage (runs_writePage (runs_reparent ?_))))))
  simp only [Function.update_self, Function.update_of_ne other.symm, Function.update_idem]
  rw [Function.update_comm other, Function.update_idem]
  rw [map_valueAt]
  exact rest _ _ rfl

section Cut

variable [LinearOrder K] {leafMax internalMax : ℕ} {d : PageStore K V} {height : ℕ} {q : PageId}
  (leafSize : 2 ≤ leafMax) (internalSize : 3 ≤ internalMax)

include leafSize

omit [Inhabited K] [Inhabited V] in
/-- What `Split` makes of an overfull leaf. -/
theorem leaf_halves (shaped : Shaped leafMax internalMax d 0 p) (above : (d p).size = leafMax + 1) (other : q ≠ p)
    {blank kept moved : BPlusTreePage K V}
    (halves : LeafPage.moveHalfTo (d p) (LeafPage.init blank leafMax) = (kept, moved)) :
    SplitOff leafMax internalMax (· = q) [] [] d
      (Function.update (Function.update d p (kept.setNextPageId q)) q (moved.setNextPageId kept.nextPageId)) 0 p
      (LeafPage.keyAt moved 0) q := by
  have kindKept : kept.pageType = (d p).pageType ∧ kept.maxSize = (d p).maxSize ∧
      kept.parentPageId = (d p).parentPageId ∧ kept.nextPageId = (d p).nextPageId := by
    rw [show kept = _ from (congrArg Prod.fst halves).symm]
    exact ⟨rfl, rfl, rfl, rfl⟩
  have kindMoved : moved.pageType = .leafPage ∧ moved.maxSize = leafMax := by
    rw [show moved = _ from (congrArg Prod.snd halves).symm]
    exact ⟨rfl, rfl⟩
  obtain ⟨front, back⟩ := LeafPage.moveHalfTo_entries (d p) (LeafPage.init blank leafMax)
  rw [halves] at front back
  obtain ⟨entry, later, cut⟩ := List.exists_cons_of_ne_nil
    (show (d p).entries.drop ((d p).size / 2) ≠ [] by simp; omega)
  rw [cut] at back
  have whole : (d p).entries = (d p).entries.take ((d p).size / 2) ++ entry :: later := by
    rw [← cut, List.take_append_drop]
  have length := congrArg List.length whole
  have shorter := List.length_take (i := (d p).size / 2) (l := (d p).entries)
  simp only [entries_length, List.length_append, List.length_cons] at length shorter
  have middle : LeafPage.keyAt moved 0 = entry.1 :=
    congrArg Prod.fst (leafArray_of_entries (show moved.entries = [] ++ entry :: later from back))
  rw [middle]
  refine leaf_splitOff shaped other whole front back ⟨kindKept.1.trans shaped.1,
    kindKept.2.1.trans shaped.2.1⟩ ⟨kindMoved.1, kindMoved.2⟩ kindKept.2.2.1 rfl kindKept.2.2.2
    ?_ ?_ <;> omega

/-- An overfull leaf comes out of `Split` in two halves. -/
theorem runs_split_halves {rounds : ℕ} (leafMaxSize : v.leafMaxSize = leafMax)
    (shaped : Shaped leafMax internalMax v.data 0 p) (above : (v.data p).size = leafMax + 1)
    (other : v.nextPageId ≠ p)
    (rest : ∀ d' mid, SplitOff leafMax internalMax (· = v.nextPageId) [] [] v.data d' 0 p mid v.nextPageId →
      Runs (hang (insertIntoParent rounds) v.internalMaxSize p mid v.nextPageId >>= f)
        { v with data := d', nextPageId := v.nextPageId + 1 } R) :
    Runs (split rounds p >>= f) v R := by
  apply runs_split other
  intro kept moved halves
  rw [leafMaxSize] at halves
  exact rest _ _ (leaf_halves leafSize shaped above other halves)

include internalSize

omit [Inhabited K] [Inhabited V] in
/-- What `SplitInternal` makes of an overfull internal page once every moved child is adopted. -/
theorem internal_halves (shaped : Shaped leafMax internalMax d (height + 1) p) (separated : Separated d (height + 1) p)
    (parented : Parented d (height + 1) p) (distinct : (pagesOf d (height + 1) p).Nodup)
    (above : (d p).size = internalMax + 1) (unused : q ∉ pagesOf d (height + 1) p)
    {blank kept moved : BPlusTreePage K V}
    (halves : InternalPage.moveHalfTo (d p) (InternalPage.init blank internalMax)
      (InternalPage.keyAt (d p) ((d p).size / 2)) = (kept, moved)) :
    SplitOff leafMax internalMax (· = q) [] [] d
      (adopt moved.children q (Function.update (Function.update d p kept) q moved)) (height + 1) p
      (InternalPage.keyAt (d p) ((d p).size / 2)) q := by
  have kindKept : kept.pageType = (d p).pageType ∧ kept.maxSize = (d p).maxSize ∧
      kept.parentPageId = (d p).parentPageId := by
    rw [show kept = _ from (congrArg Prod.fst halves).symm]
    exact ⟨rfl, rfl, rfl⟩
  have kindMoved : moved.pageType = .internalPage ∧ moved.maxSize = internalMax := by
    rw [show moved = _ from (congrArg Prod.snd halves).symm]
    exact ⟨rfl, rfl⟩
  obtain ⟨link, after, cut⟩ := List.exists_cons_of_ne_nil
    (show (d p).links.drop ((d p).size / 2) ≠ [] by simp; omega)
  have whole : (d p).links = (d p).links.take ((d p).size / 2) ++ link :: after := by
    rw [← cut, List.take_append_drop]
  have length := congrArg List.length whole
  have shorter := List.length_take (i := (d p).size / 2) (l := (d p).links)
  simp only [links_length, List.length_append, List.length_cons] at length shorter
  have half : ((d p).links.take ((d p).size / 2)).length = (d p).size / 2 := by omega
  have middle : InternalPage.keyAt (d p) ((d p).size / 2) = link.1 := by
    have cell := internalArray_of_links whole
    rw [half] at cell
    exact congrArg Prod.fst cell
  obtain ⟨front, back⟩ := InternalPage.moveHalfTo_links (InternalPage.init blank internalMax)
    (InternalPage.keyAt (d p) ((d p).size / 2)) whole half
  rw [halves] at front back
  rw [middle]
  refine internal_splitOff leafSize internalSize shaped separated parented distinct
    unused whole front back ⟨kindKept.1.trans shaped.1, kindKept.2.1.trans shaped.2.1⟩
    ⟨kindMoved.1, kindMoved.2⟩ kindKept.2.2 ?_ ?_ <;> omega

/-- An overfull internal page comes out of `SplitInternal` in two halves. -/
theorem runs_splitInternal_halves (internalMaxSize : v.internalMaxSize = internalMax)
    (shaped : Shaped leafMax internalMax v.data (height + 1) p) (separated : Separated v.data (height + 1) p)
    (parented : Parented v.data (height + 1) p) (distinct : (pagesOf v.data (height + 1) p).Nodup)
    (above : (v.data p).size = internalMax + 1) (unused : v.nextPageId ∉ pagesOf v.data (height + 1) p)
    (rest : ∀ d' mid, SplitOff leafMax internalMax (· = v.nextPageId) [] [] v.data d' (height + 1) p mid
        v.nextPageId →
      Runs (hang next v.internalMaxSize p mid v.nextPageId >>= f)
        { v with data := d', nextPageId := v.nextPageId + 1 } R) :
    Runs (splitInternal next p >>= f) v R := by
  have other : v.nextPageId ≠ p := fun same => unused (by
    rw [same]
    exact mem_pagesOf_self _ _ _)
  apply runs_splitInternal other
  intro kept moved halves
  rw [internalMaxSize] at halves
  exact rest _ _ (internal_halves leafSize internalSize shaped separated parented distinct above unused halves)

end Cut

end Halves

/-- What a subtree looks like after it took the entry in. -/
structure Inserted [LinearOrder K] (leafMax internalMax : ℕ) (fresh : PageId → Prop) (entry : K × V)
    (d d' : PageStore K V) (height : ℕ) (p : PageId) : Prop where
  node : NodeRewritten leafMax internalMax fresh [] [entry] d d' height p
  separated : Separated d' height p
  parented : Parented d' height p

section Child

variable [LinearOrder K] {leafMax internalMax : ℕ} {fresh : PageId → Prop} {entry : K × V}
  {d d' : PageStore K V} {height : ℕ} {p : PageId} {front back : List (K × PageId)} {link : K × PageId}

omit [Inhabited K] [Inhabited V] in
/-- The keys of a window after an insertion stay within bounds that hold before it and for the new key. -/
theorem keys_within {win : List (K × PageId)} {lo hi : Option K}
    (step : Rewritten leafMax internalMax fresh [] [entry] d d' height [link] win)
    (before : ∀ k, KeyBelow d height link.2 k → Within lo hi k) (routes : Within lo hi entry.1) :
    ∀ other ∈ win, ∀ k, KeyBelow d' height other.2 k → Within lo hi k := by
  rintro other member k ⟨value, stored⟩
  rcases step.stored.mem_of_mem (List.mem_flatMap.mpr ⟨other, member, stored⟩) with kept | added
  · simp only [storedIn_cons, storedIn_nil, List.append_nil] at kept
    exact before k ⟨value, kept⟩
  · rw [List.mem_singleton] at added
    rwa [← added] at routes

variable (sub : Subtree leafMax internalMax d (height + 1) p) (cut : (d p).links = front ++ ([link] ++ back))
  (stale : ∀ q ∈ pagesOf d (height + 1) p, ¬ fresh q)
  (routes : Within (lowKey front link.1) (headKey back none) entry.1)

include sub cut

omit [Inhabited K] [Inhabited V] in
private theorem keys_of_child :
    ∀ k, KeyBelow d height link.2 k → Within (lowKey front link.1) (headKey back none) k := by
  have separated := sub.separated
  rw [separated_succ, cut, separatedIn_window] at separated
  exact bounded_singleton.mp separated.2.1.1

include stale routes

omit [Inhabited K] [Inhabited V] in
/-- A child that took the entry in leaves its parent as it is. -/
theorem Inserted.settle (inserted : Inserted leafMax internalMax fresh entry d d' height link.2)
    (filled : Filled leafMax internalMax d' height link.2) :
    Inserted leafMax internalMax fresh entry d d' (height + 1) p ∧ d' p = d p := by
  have member : link ∈ (d p).links := by simp [cut]
  have top : d' p = d p := by
    refine (inserted.node.rewritten link.1).frame p ?_ (stale p (mem_pagesOf_self d _ p))
    simpa using fun inside => sub.top_not_mem (mem_pagesIn.mpr ⟨link, member, inside⟩)
  obtain ⟨node, separated, parented⟩ := (inserted.node.rewritten link.1).node sub stale cut cut rfl rfl rfl
    (by simpa using filled) (by simpa using inserted.node.parentPageId.trans (sub.child_parent member))
  rw [← top, Function.update_eq_self] at node separated parented
  refine ⟨⟨node, separated.mpr ⟨?_, ?_⟩, parented.mpr ?_⟩, top⟩
  · exact bounded_singleton.mpr fun k stored =>
      keys_within (inserted.node.rewritten link.1) (keys_of_child sub cut) routes link List.mem_cons_self k stored
  · simpa using inserted.separated
  · simpa using inserted.parented

omit [Inhabited K] [Inhabited V] in
/-- A child that came out in two halves gives its parent one more link. -/
theorem inserted_of_split {mid : K} {q : PageId}
    (split : SplitOff leafMax internalMax fresh [] [entry] d d' height link.2 mid q)
    (hung : (d' q).parentPageId = p) :
    Inserted leafMax internalMax fresh entry d
        (Function.update d' p (InternalPage.insertNodeAfter (d p) link.2 mid q).1) (height + 1) p ∧ d' p = d p := by
  have member : link ∈ (d p).links := by simp [cut]
  have top : d' p = d p := by
    refine (split.rewritten link.1).frame p ?_ (stale p (mem_pagesOf_self d _ p))
    simpa using fun inside => sub.top_not_mem (mem_pagesIn.mpr ⟨link, member, inside⟩)
  have first : link.2 ∉ front.map Prod.snd := by
    have distinct := nodup_map_snd sub.distinct_below
    rw [cut, List.map_append] at distinct
    exact fun inFront => (List.nodup_append.mp distinct).2.2 _ inFront _ (by simp) rfl
  have links := InternalPage.insertNodeAfter_links mid q cut first
  obtain ⟨node, separated, parented⟩ := (split.rewritten link.1).node sub stale cut links rfl rfl rfl
    (by simpa using split.filled) (by simpa using ⟨split.parentPageId.trans (sub.child_parent member), hung⟩)
  refine ⟨⟨node, separated.mpr ?_, parented.mpr (by simpa using split.parented)⟩, top⟩
  exact (split.separated link.1).widen (keys_within (split.rewritten link.1) (keys_of_child sub cut) routes)

end Child

/-- The ids handed out between two states of the allocator. -/
def Between (base next : PageId) (q : PageId) : Prop := base ≤ q ∧ q < next

/-- The rest of `Insert` once the leaf is found and pinned. -/
def insertTail [LinearOrder K] (rounds : ℕ) (key : K) (value : V) (leafPageId : PageId) : TreeM K V Bool := do
  let oldLeaf ← page leafPageId
  writePage leafPageId (LeafPage.insert oldLeaf key value).1
  if (LeafPage.insert oldLeaf key value).2 = oldLeaf.size then
    unpinPage leafPageId false
    return false
  else if (LeafPage.insert oldLeaf key value).1.maxSize < (LeafPage.insert oldLeaf key value).1.size then
    split rounds leafPageId
    return true
  else
    unpinPage leafPageId true
    return true

section Rise

variable [LinearOrder K] {leafMax internalMax : ℕ} {entry : K × V} {height rounds : ℕ}

/-- Inserting into a subtree: it takes the entry in, or comes out in two halves. -/
def Rises (leafMax internalMax rounds : ℕ) (entry : K × V) (height : ℕ) : Prop :=
  ∀ (v : View K V) (p : PageId) (Q : Bool → View K V → Prop),
    v.leafMaxSize = leafMax → v.internalMaxSize = internalMax →
    Subtree leafMax internalMax v.data height p → 1 ≤ (v.data p).size →
    (v.data p).size ≤ maxFill leafMax internalMax height →
    (∀ q ∈ pagesOf v.data height p, q < v.nextPageId) →
    (∀ e ∈ (v.data (route v.data entry.1 height p)).entries, e.1 ≠ entry.1) →
    (∀ d' next, v.nextPageId ≤ next →
      Inserted leafMax internalMax (Between v.nextPageId next) entry v.data d' height p →
      (v.data p).size ≤ (d' p).size → (d' p).size ≤ maxFill leafMax internalMax height →
      Q true { v with data := d', nextPageId := next }) →
    (∀ d' next mid q, v.nextPageId ≤ next →
      SplitOff leafMax internalMax (Between v.nextPageId next) [] [entry] v.data d' height p mid q →
      Runs (hang (insertIntoParent (rounds - height)) v.internalMaxSize p mid q >>= fun _ => pure true)
        { v with data := d', nextPageId := next } Q) →
    Runs (insertTail rounds entry.1 entry.2 (route v.data entry.1 height p)) v Q

omit [Inhabited K] [Inhabited V] in
/-- `Insert` of a leaf page that does not hold the key. -/
theorem inserted_leaf {d : PageStore K V} {p : PageId} (fresh : PageId → Prop)
    (shaped : Shaped leafMax internalMax d 0 p) (absent : ∀ e ∈ (d p).entries, e.1 ≠ entry.1) :
    Inserted leafMax internalMax fresh entry d
        (Function.update d p (LeafPage.insert (d p) entry.1 entry.2).1) 0 p ∧
      (LeafPage.insert (d p) entry.1 entry.2).1.maxSize = leafMax ∧
      (LeafPage.insert (d p) entry.1 entry.2).1.size = (d p).size + 1 ∧
      (LeafPage.insert (d p) entry.1 entry.2).2 = (d p).size + 1 := by
  obtain ⟨kind, capacity, sorted⟩ := shaped
  have header := LeafPage.insert_header (d p) entry.1 entry.2
  rcases LeafPage.insert_cases entry.1 entry.2 sorted with ⟨-, value, stored⟩ |
    ⟨before, after, cut, below, above, entries, grown⟩
  · exact absurd rfl (absent (entry.1, value) stored)
  have size : (LeafPage.insert (d p) entry.1 entry.2).1.size = (d p).size + 1 := by
    rw [← entries_length, ← entries_length, entries, cut]
    simp
    omega
  have sorted' : (LeafPage.insert (d p) entry.1 entry.2).1.entries.Pairwise (fun a b => a.1 < b.1) := by
    rw [cut] at sorted
    obtain ⟨sortedBefore, sortedAfter, across⟩ := List.pairwise_append.mp sorted
    rw [entries]
    refine List.pairwise_append.mpr ⟨sortedBefore, List.pairwise_cons.mpr ⟨above, sortedAfter⟩, ?_⟩
    intro a inBefore b inAfter
    rcases List.mem_cons.mp inAfter with rfl | inAfter
    · exact below a inBefore
    · exact across a inBefore b inAfter
  refine ⟨⟨⟨fun _ => .leaf (header.1.trans kind) (header.2.1.trans capacity) sorted' header.2.2.2
    ⟨before, after, cut, entries⟩, ?_, ?_, ?_⟩, trivial, trivial⟩, header.2.1.trans capacity, size, grown⟩
  · simpa using header.2.2.1
  · simp [header.1, kind]
  · simp [header.1, kind]

theorem rises_zero (leafSize : 2 ≤ leafMax) : Rises leafMax internalMax rounds entry 0 := by
  intro v p Q leafMaxSize internalMaxSize sub positive high allocated absent settled up
  rw [route] at absent
  have shaped := sub.shaped
  have stale : v.nextPageId ≠ p := (allocated p (mem_pagesOf_self _ _ _)).ne'
  obtain ⟨inserted, capacity, size, grown⟩ :=
    inserted_leaf (Between v.nextPageId (v.nextPageId + 1)) shaped absent
  have high : (v.data p).size ≤ leafMax := high
  rw [insertTail, route]
  refine runs_page (runs_writePage ?_)
  rw [if_neg (by omega)]
  by_cases above : leafMax < (v.data p).size + 1
  · rw [if_pos (by omega)]
    have shapedAfter := (inserted.node.rewritten entry.1).shaped _ (List.mem_singleton_self _)
    refine runs_split_halves leafSize leafMaxSize shapedAfter (by simp; omega) stale ?_
    intro d' mid halves
    have split := SplitOff.after inserted.node (halves.mono fun q (same : q = v.nextPageId) => by
      subst same
      exact ⟨le_rfl, Int.lt_succ _⟩)
    exact up d' _ mid _ (Int.lt_succ _).le split
  · rw [if_neg (by omega)]
    refine runs_unpinPage (ObservedRuns.RunsTo.pure ?_)
    refine settled _ v.nextPageId le_rfl (inserted_leaf _ shaped absent).1 ?_ ?_
    · simp only [Function.update_self]
      omega
    · simp only [Function.update_self, maxFill]
      omega

section Parent

variable {β : Type} {w : View K V} {d : PageStore K V} {p q base : PageId} {front back : List (K × PageId)}
  {link : K × PageId} {mid : K} {f : Unit → TreeM K V β} {R : β → View K V → Prop}
  (leafSize : 2 ≤ leafMax) (internalSize : 3 ≤ internalMax)

include leafSize internalSize

/-- The walk up passes a parent, which takes the new half in or comes out in two halves itself. -/
theorem runs_hang_child (internalMaxSize : w.internalMaxSize = internalMax)
    (sub : Subtree leafMax internalMax d (height + 1) p) (high : (d p).size ≤ internalMax)
    (allocated : ∀ x ∈ pagesOf d (height + 1) p, x < base) (grown : base ≤ w.nextPageId)
    (cut : (d p).links = front ++ ([link] ++ back))
    (routes : Within (lowKey front link.1) (headKey back none) entry.1)
    (split : SplitOff leafMax internalMax (Between base w.nextPageId) [] [entry] d w.data height link.2 mid q)
    (settled : ∀ d', Inserted leafMax internalMax (Between base w.nextPageId) entry d d' (height + 1) p →
      (d p).size ≤ (d' p).size → (d' p).size ≤ internalMax → Runs (f ()) { w with data := d' } R)
    (up : ∀ d' mid', SplitOff leafMax internalMax (Between base (w.nextPageId + 1)) [] [entry] d d' (height + 1) p
        mid' w.nextPageId →
      Runs (hang (insertIntoParent rounds) w.internalMaxSize p mid' w.nextPageId >>= f)
        { w with data := d', nextPageId := w.nextPageId + 1 } R) :
    Runs (hang (insertIntoParent (rounds + 1)) w.internalMaxSize link.2 mid q >>= f) w R := by
  have member : link ∈ (d p).links := by simp [cut]
  have parent : (w.data link.2).parentPageId = p := split.parentPageId.trans (sub.child_parent member)
  have valid : p ≠ invalidPageId := sub.valid p (mem_pagesOf_self _ _ _)
  have stale : ∀ x ∈ pagesOf d (height + 1) p, ¬ Between base w.nextPageId x :=
    fun x inside between => absurd (allocated x inside) (not_lt.mpr between.1)
  obtain ⟨inserted, top⟩ := inserted_of_split sub cut stale routes (split.hang p) (by simp [setParentPageId])
  rw [hang]
  simp only [bind_assoc]
  refine runs_page ?_
  rw [if_neg (by simpa [isRootPage, parent] using valid)]
  simp only [bind_assoc]
  refine runs_page (runs_page (runs_writePage (runs_unpinPage (runs_unpinPage ?_))))
  rw [parent, insertIntoParent, bind_assoc]
  refine runs_fetchPage ?_
  simp only [↓reduceIte, bind_assoc]
  refine runs_page (runs_writePage ?_)
  simp only [top]
  have size : (InternalPage.insertNodeAfter (d p) link.2 mid q).1.size = (d p).size + 1 := rfl
  have capacity : (InternalPage.insertNodeAfter (d p) link.2 mid q).1.maxSize = internalMax := sub.shaped.2.1
  simp only [size, capacity]
  by_cases above : internalMax < (d p).size + 1
  · rw [if_pos above]
    obtain ⟨-, pages, distinct, shaped, -⟩ := inserted.node.rewritten entry.1
    simp only [pagesIn_cons, pagesIn_nil, List.append_nil] at pages distinct
    refine runs_splitInternal_halves leafSize internalSize internalMaxSize (shaped _ (List.mem_singleton_self _))
      inserted.separated inserted.parented distinct (by simp only [Function.update_self, size]; omega) ?_ ?_
    · intro inside
      rcases pages _ inside with old | new
      · exact absurd (allocated _ old) (not_lt.mpr grown)
      · exact lt_irrefl _ new.2
    · intro d' mid' halves
      refine up d' mid' (SplitOff.after (inserted.node.mono fun x between => ⟨between.1, ?_⟩)
        (halves.mono fun x same => ?_))
      · exact between.2.trans (Int.lt_succ _)
      · subst same
        exact ⟨grown, Int.lt_succ _⟩
  · rw [if_neg above]
    refine runs_unpinPage (settled _ inserted ?_ ?_)
    · rw [Function.update_self, size]
      exact Nat.le_succ _
    · rw [Function.update_self, size]
      exact not_lt.mp above

theorem rises_succ (rises : Rises leafMax internalMax rounds entry height) (enough : height < rounds) :
    Rises leafMax internalMax rounds entry (height + 1) := by
  intro v p Q leafMaxSize internalMaxSize sub positive high allocated absent settled up
  obtain ⟨front, link, back, cut, found, routes, -⟩ :=
    lookup_route leafSize internalSize sub.shaped sub.separated positive entry.1
  have member : link ∈ (v.data p).links := by simp [cut]
  obtain ⟨low, fits⟩ := sub.child_filled member
  have stale (next : PageId) : ∀ x ∈ pagesOf v.data (height + 1) p, ¬ Between v.nextPageId next x :=
    fun x inside between => absurd (allocated x inside) (not_lt.mpr between.1)
  rw [route, found] at absent ⊢
  refine rises v link.2 Q leafMaxSize internalMaxSize (sub.child member)
    ((minFill_pos leafSize internalSize height).trans low) fits
    (fun x inside => allocated x (pagesOf_of_mem_links member inside)) absent ?_ ?_
  · intro d' next grown inserted larger smaller
    obtain ⟨above, top⟩ := inserted.settle sub cut (stale next) routes ⟨low.trans larger, smaller⟩
    exact settled d' next grown above (by rw [top]) (by rw [top]; exact high)
  · intro d' next mid q grown split
    have fuel : rounds - height = (rounds - (height + 1)) + 1 := by omega
    rw [fuel]
    refine runs_hang_child leafSize internalSize (w := { v with data := d', nextPageId := next }) internalMaxSize sub
      high allocated grown cut routes split (fun d'' inserted larger smaller => ?_) fun d'' mid' split' => ?_
    · exact ObservedRuns.RunsTo.pure (settled d'' next grown inserted larger smaller)
    · exact up d'' _ mid' _ (grown.trans (Int.lt_succ _).le) split'

theorem rises (enough : height ≤ rounds) : Rises (V := V) leafMax internalMax rounds entry height := by
  induction height with
  | zero => exact rises_zero leafSize
  | succ height ih => exact rises_succ leafSize internalSize (ih (by omega)) (by omega)

end Parent

end Rise

section Root

variable [LinearOrder K] {leafMax internalMax : ℕ} {entry : K × V} {height rounds : ℕ}

/-- The tree after an insertion, with the pages it may have taken from the allocator. -/
structure InsertOutcome (leafMax internalMax : ℕ) (entry : K × V) (v : View K V) (height : ℕ) (v' : View K V)
    (height' : ℕ) : Prop where
  rooted : Rooted leafMax internalMax v'.data height' v'.rootPageId
  separated : Separated v'.data height' v'.rootPageId
  parented : Parented v'.data height' v'.rootPageId
  stored : Edits [] [entry] (contents v.data height v.rootPageId) (contents v'.data height' v'.rootPageId)
  pages : ∀ q ∈ pagesOf v'.data height' v'.rootPageId,
    q ∈ pagesOf v.data height v.rootPageId ∨ Between v.nextPageId v'.nextPageId q
  nextPageId : v.nextPageId ≤ v'.nextPageId
  leafMaxSize : v'.leafMaxSize = v.leafMaxSize
  internalMaxSize : v'.internalMaxSize = v.internalMaxSize

omit [Inhabited K] [Inhabited V] in
/-- An insertion that leaves the root in place. -/
theorem Inserted.outcome {v : View K V} {d' : PageStore K V} {next : PageId} (grown : v.nextPageId ≤ next)
    (rooted : Rooted leafMax internalMax v.data height v.rootPageId)
    (inserted : Inserted leafMax internalMax (Between v.nextPageId next) entry v.data d' height v.rootPageId)
    (larger : (v.data v.rootPageId).size ≤ (d' v.rootPageId).size)
    (high : (d' v.rootPageId).size ≤ maxFill leafMax internalMax height) :
    InsertOutcome leafMax internalMax entry v height { v with data := d', nextPageId := next } height := by
  obtain ⟨-, pages, distinct, shaped, stored, -, chain⟩ := inserted.node.rewritten entry.1
  simp only [pagesIn_cons, pagesIn_nil, leavesIn_cons, leavesIn_nil, storedIn_cons, storedIn_nil,
    List.append_nil] at pages distinct stored chain
  exact ⟨⟨shaped _ (List.mem_singleton_self _), rooted.low.trans larger, high,
    inserted.node.parentPageId.trans rooted.parent, distinct, chain _ rooted.chain⟩, inserted.separated,
    inserted.parented, stored, pages, grown, rfl, rfl⟩

omit [Inhabited K] [Inhabited V] in
/-- A new root over the two halves of the old one. -/
theorem newRoot_outcome (internalSize : 3 ≤ internalMax) (stale : K) {v v' : View K V} {d' : PageStore K V} {mid : K}
    {q r : PageId} (rooted : Rooted leafMax internalMax v.data height v.rootPageId)
    (allocated : ∀ x ∈ pagesOf v.data height v.rootPageId, x < v.nextPageId) (grown : v.nextPageId ≤ r)
    (split : SplitOff leafMax internalMax (Between v.nextPageId r) [] [entry] v.data d' height v.rootPageId mid q)
    (root : v'.rootPageId = r) (after : v'.nextPageId = r + 1)
    (sizes : v'.leafMaxSize = v.leafMaxSize ∧ v'.internalMaxSize = v.internalMaxSize)
    (links : (v'.data r).links = [(stale, v.rootPageId), (mid, q)])
    (kind : (v'.data r).pageType = .internalPage ∧ (v'.data r).maxSize = internalMax ∧
      (v'.data r).parentPageId = invalidPageId)
    (halves : ∀ x ∈ [v.rootPageId, q], v'.data x = (d' x).setParentPageId r)
    (same : ∀ x, x ≠ r → x ∉ [v.rootPageId, q] → v'.data x = d' x) :
    InsertOutcome leafMax internalMax entry v height v' (height + 1) := by
  obtain ⟨-, pages, distinct, shaped, stored, -, chain⟩ := split.rewritten stale
  have separated := split.separated stale
  have apart : r ∉ pagesIn d' height [(stale, v.rootPageId), (mid, q)] := by
    intro inside
    rcases pages r inside with old | new
    · simp only [pagesIn_cons, pagesIn_nil, List.append_nil] at old
      exact absurd (allocated r old) (not_lt.mpr grown)
    · exact lt_irrefl _ new.2
  have alike : ∀ x ∈ pagesIn d' height [(stale, v.rootPageId), (mid, q)], Alike (v'.data x) (d' x) := by
    intro x inside
    by_cases half : x ∈ [v.rootPageId, q]
    · rw [halves x half]
      exact alike_setParentPageId _ _
    · exact Alike.of_eq (same x (fun isRoot => apart (isRoot ▸ inside)) half)
  obtain ⟨samePages, sameLeaves, sameStored⟩ := readingIn_congr alike
  have size : (v'.data r).size = 2 := by rw [← links_length, links]; rfl
  have parentedHalf : ∀ link ∈ [(stale, v.rootPageId), (mid, q)], Parented d' height link.2 →
      Parented v'.data height link.2 := by
    intro link member parented
    have inside (x : PageId) (below : x ∈ pagesOf d' height link.2) := mem_pagesIn.mpr ⟨link, member, below⟩
    refine (parented_congr (fun x below => alike x (inside x below)) (fun x below notTop => ?_)
      (nodup_of_mem_links distinct member)).mpr parented
    rw [same x (fun isRoot => apart (isRoot ▸ inside x below))]
    -- the other half is not below this one
    intro half
    obtain ⟨other, linked, top⟩ : ∃ other ∈ [(stale, v.rootPageId), (mid, q)], other.2 = x := by
      simpa [eq_comm] using half
    have one := link_unique distinct member linked below (top ▸ mem_pagesOf_self d' height other.2)
    exact notTop (top ▸ one ▸ rfl)
  refine ⟨?_, ?_, ?_, ?_, ?_, ?_, sizes.1, sizes.2⟩
  · rw [root]
    refine ⟨⟨kind.1, kind.2.1, ?_⟩, by rw [size]; rfl, by rw [size]; exact (Nat.le_succ 2).trans internalSize,
      kind.2.2, ?_, ?_⟩
    · intro c child
      obtain ⟨link, member, rfl⟩ := mem_children.mp child
      rw [links] at member
      have below (x : PageId) (inside : x ∈ pagesOf d' height link.2) :=
        alike x (mem_pagesIn.mpr ⟨link, member, inside⟩)
      refine ⟨(shaped_congr below).mpr (shaped link member), ?_⟩
      rw [Filled, (below _ (mem_pagesOf_self d' height link.2)).size]
      rcases List.mem_pair.mp member with rfl | rfl
      · exact split.filled.1
      · exact split.filled.2
    · rw [pagesOf_succ, links, samePages]
      exact List.nodup_cons.mpr ⟨apart, distinct⟩
    · rw [leavesOf_succ, links, sameLeaves]
      refine (leafChain_congr fun x inside => (alike x (leavesIn_subset_pagesIn inside)).nextPageId).mpr ?_
      exact chain _ (by simpa using rooted.chain)
  · rw [root, separated_succ, links]
    exact (separatedIn_congr alike).mpr separated
  · rw [root, parented_succ, links]
    intro link member
    have half : link.2 ∈ [v.rootPageId, q] := by
      rcases List.mem_pair.mp member with rfl | rfl <;> simp
    refine ⟨by rw [halves _ half]; rfl, parentedHalf link member ?_⟩
    rcases List.mem_pair.mp member with rfl | rfl
    · exact split.parented.1
    · exact split.parented.2
  · rw [root, contents_succ, links, sameStored]
    simpa using stored
  · intro x inside
    rw [root, pagesOf_succ, links, samePages] at inside
    rw [after]
    rcases List.mem_cons.mp inside with rfl | inside
    · exact .inr ⟨grown, Int.lt_succ _⟩
    · refine (pages x inside).imp (by simp) fun between => ⟨between.1, between.2.trans (Int.lt_succ _)⟩
  · rw [after]
    exact grown.trans (Int.lt_succ _).le

section Runs

variable {v : View K V} {β : Type} {p q : PageId} {mid : K} {f : Unit → TreeM K V β} {R : β → View K V → Prop}

omit [LinearOrder K] in
/-- The halves of the root are hung under a new root. -/
theorem runs_hang_root {next : PageId → PageId → K → PageId → TreeM K V Unit}
    (root : (v.data p).parentPageId = invalidPageId) (other : q ≠ p) (unusedP : p ≠ v.nextPageId)
    (unusedQ : q ≠ v.nextPageId)
    (rest : Runs (f ()) { v with
      data := Function.update (Function.update (Function.update v.data v.nextPageId
          (InternalPage.populateNewRoot (InternalPage.init (erased (v.data v.nextPageId)) v.internalMaxSize) p mid q))
        p ((v.data p).setParentPageId v.nextPageId)) q ((v.data q).setParentPageId v.nextPageId)
      nextPageId := v.nextPageId + 1
      rootPageId := v.nextPageId } R) :
    Runs (hang next v.internalMaxSize p mid q >>= f) v R := by
  rw [hang]
  simp only [bind_assoc]
  refine runs_page ?_
  rw [if_pos (by simpa [isRootPage] using root), bind_assoc]
  refine runs_newPage ?_
  simp only [bind_assoc]
  refine runs_page (runs_writePage (runs_page (runs_writePage (runs_page (runs_writePage (runs_modify_root
    (runs_unpinPage (runs_unpinPage (runs_unpinPage ?_)))))))))
  simpa [Function.update_idem, Function.update_of_ne unusedP, Function.update_of_ne unusedQ,
    Function.update_of_ne other] using rest

omit [Inhabited K] [Inhabited V] in
/-- The halves of the root and the next page id are three pages. -/
theorem apart_of_split {d' : PageStore K V} {next : PageId}
    (allocated : ∀ x ∈ pagesOf v.data height p, x < v.nextPageId) (grown : v.nextPageId ≤ next)
    (split : SplitOff leafMax internalMax (Between v.nextPageId next) [] [entry] v.data d' height p mid q) :
    q ≠ p ∧ p ≠ next ∧ q ≠ next := by
  have pages := (split.rewritten mid).pages
  have distinct := (split.rewritten mid).distinct
  simp only [pagesIn_cons, pagesIn_nil, List.append_nil] at pages distinct
  have inP : p ∈ pagesOf d' height p := mem_pagesOf_self _ _ _
  have inQ : q ∈ pagesOf d' height q := mem_pagesOf_self _ _ _
  have below : ∀ x ∈ pagesOf d' height p ++ pagesOf d' height q, x ≠ next := by
    rintro x inside rfl
    rcases pages x inside with old | new
    · exact absurd (allocated x old) (not_lt.mpr grown)
    · exact lt_irrefl _ new.2
  exact ⟨fun isRoot => (List.nodup_append.mp distinct).2.2 _ inP _ inQ isRoot.symm,
    below p (List.mem_append_left _ inP), below q (List.mem_append_right _ inQ)⟩

/-- The pages after the halves of the root are hung under a new root. -/
def underNewRoot (d : PageStore K V) (internalMaxSize : ℕ) (p : PageId) (mid : K) (q r : PageId) : PageStore K V :=
  Function.update (Function.update (Function.update d r
    (InternalPage.populateNewRoot (InternalPage.init (erased (d r)) internalMaxSize) p mid q))
    p ((d p).setParentPageId r)) q ((d q).setParentPageId r)

/-- Hanging both halves of the root under a new one ends the insertion. -/
theorem underNewRoot_outcome (internalSize : 3 ≤ internalMax) {d' : PageStore K V} {next : PageId}
    (internalMaxSize : v.internalMaxSize = internalMax)
    (rooted : Rooted leafMax internalMax v.data height v.rootPageId)
    (allocated : ∀ x ∈ pagesOf v.data height v.rootPageId, x < v.nextPageId) (grown : v.nextPageId ≤ next)
    (split : SplitOff leafMax internalMax (Between v.nextPageId next) [] [entry] v.data d' height v.rootPageId mid q) :
    InsertOutcome leafMax internalMax entry v height { v with
      data := underNewRoot d' v.internalMaxSize v.rootPageId mid q next
      nextPageId := next + 1
      rootPageId := next } (height + 1) := by
  obtain ⟨other, unusedP, unusedQ⟩ := apart_of_split allocated grown split
  refine newRoot_outcome internalSize default rooted allocated grown split rfl rfl ⟨rfl, rfl⟩ ?_ ?_ ?_ ?_
  · simp [underNewRoot, Function.update_of_ne unusedP.symm, Function.update_of_ne unusedQ.symm,
      InternalPage.populateNewRoot_links, InternalPage.init, erased, zeroed]
  · simp only [underNewRoot, Function.update_of_ne unusedP.symm, Function.update_of_ne unusedQ.symm,
      Function.update_self]
    exact ⟨rfl, internalMaxSize, rfl⟩
  · simp [underNewRoot, Function.update_of_ne other.symm]
  · intro x notNew notHalf
    simp only [List.mem_cons, List.not_mem_nil, or_false, not_or] at notHalf
    simp [underNewRoot, Function.update_of_ne notHalf.1, Function.update_of_ne notHalf.2, Function.update_of_ne notNew]

/-- `Insert` of a key that a sound tree does not hold. -/
theorem runs_insert_absent (leafSize : 2 ≤ leafMax) (internalSize : 3 ≤ internalMax)
    (leafMaxSize : v.leafMaxSize = leafMax) (internalMaxSize : v.internalMaxSize = internalMax)
    (rooted : Rooted leafMax internalMax v.data height v.rootPageId)
    (sub : Subtree leafMax internalMax v.data height v.rootPageId)
    (allocated : ∀ x ∈ pagesOf v.data height v.rootPageId, x < v.nextPageId) (enough : height ≤ rounds)
    (absent : ∀ e ∈ (v.data (route v.data entry.1 height v.rootPageId)).entries, e.1 ≠ entry.1) :
    Runs (insertTail rounds entry.1 entry.2 (route v.data entry.1 height v.rootPageId)) v fun result v' =>
      result = true ∧ ∃ height', InsertOutcome leafMax internalMax entry v height v' height' := by
  refine rises leafSize internalSize enough v v.rootPageId _ leafMaxSize internalMaxSize sub rooted.positive
    rooted.high allocated absent ?_ ?_
  · intro d' next grown inserted larger high
    exact ⟨rfl, height, inserted.outcome grown rooted larger high⟩
  · intro d' next mid q grown split
    obtain ⟨other, unusedP, unusedQ⟩ := apart_of_split allocated grown split
    exact runs_hang_root (v := { v with data := d', nextPageId := next }) (split.parentPageId.trans rooted.parent)
      other unusedP unusedQ (ObservedRuns.RunsTo.pure ⟨rfl, height + 1,
        underNewRoot_outcome internalSize internalMaxSize rooted allocated grown split⟩)

/-- `Insert` into a tree with a root. -/
theorem runs_insert (entry : K × V) (rounds : ℕ) (leafSize : 2 ≤ leafMax) (internalSize : 3 ≤ internalMax)
    (leafMaxSize : v.leafMaxSize = leafMax) (internalMaxSize : v.internalMaxSize = internalMax)
    (rooted : Rooted leafMax internalMax v.data height v.rootPageId)
    (sub : Subtree leafMax internalMax v.data height v.rootPageId)
    (allocated : ∀ x ∈ pagesOf v.data height v.rootPageId, x < v.nextPageId) (enough : height < rounds) :
    Runs (insert rounds entry.1 entry.2) v fun result v' =>
      (result = false ∧ v' = v ∧ KeyBelow v.data height v.rootPageId entry.1) ∨
      (result = true ∧ ¬ KeyBelow v.data height v.rootPageId entry.1 ∧
        ∃ height', InsertOutcome leafMax internalMax entry v height v' height') := by
  have stored (value : V) := mem_contents_iff_route leafSize internalSize sub.shaped sub.separated rooted.positive
    entry.1 value
  have sorted := (route_leaf leafSize internalSize sub.shaped rooted.positive entry.1).2.2.2
  have valid : v.rootPageId ≠ invalidPageId := sub.valid _ (mem_pagesOf_self _ _ _)
  rw [insert]
  refine runs_get ?_
  intro tree seen
  have root : tree.rootPageId = v.rootPageId := congrArg View.rootPageId seen
  rw [if_neg (by simpa [isEmpty, root] using valid), root]
  refine runs_fetchPage ?_
  rw [if_pos rfl]
  refine runs_descend leafSize internalSize sub.shaped rooted.positive enough ?_
  change Runs (insertTail rounds entry.1 entry.2 _) v _
  rcases LeafPage.insert_cases entry.1 entry.2 sorted with ⟨unchanged, value, found⟩ |
    ⟨before, after, cut, below, above, -⟩
  · rw [insertTail]
    refine runs_page ?_
    rw [unchanged]
    refine runs_writePage ?_
    rw [if_pos rfl, Function.update_eq_self]
    exact runs_unpinPage (ObservedRuns.RunsTo.pure (.inl ⟨rfl, rfl, value, (stored value).mpr found⟩))
  · have absent : ∀ e ∈ (v.data (route v.data entry.1 height v.rootPageId)).entries, e.1 ≠ entry.1 := by
      rw [cut]
      intro e member
      rcases List.mem_append.mp member with member | member
      · exact (below e member).ne
      · exact (above e member).ne'
    refine (runs_insert_absent leafSize internalSize leafMaxSize internalMaxSize rooted sub allocated enough.le
      absent).mono ?_
    rintro result v' ⟨done, outcome⟩
    refine .inr ⟨done, ?_, outcome⟩
    rintro ⟨value, held⟩
    exact absent _ ((stored value).mp held) rfl

/-- `Insert` into an empty tree makes a root leaf. -/
theorem runs_insert_empty (entry : K × V) (rounds internalMax : ℕ) (leafSize : 2 ≤ leafMax)
    (leafMaxSize : v.leafMaxSize = leafMax) (empty : v.rootPageId = invalidPageId) :
    Runs (insert rounds entry.1 entry.2) v fun result v' =>
      result = true ∧ Rooted leafMax internalMax v'.data 0 v'.rootPageId ∧
        contents v'.data 0 v'.rootPageId = [entry] ∧ v'.rootPageId = v.nextPageId ∧
        v'.nextPageId = v.nextPageId + 1 ∧ v'.leafMaxSize = v.leafMaxSize ∧
        v'.internalMaxSize = v.internalMaxSize := by
  rw [insert]
  refine runs_get ?_
  intro tree seen
  have root : tree.rootPageId = v.rootPageId := congrArg View.rootPageId seen
  have capacity : tree.leafMaxSize = v.leafMaxSize := congrArg View.leafMaxSize seen
  rw [if_pos (by simpa [isEmpty, root] using empty), capacity]
  have header := LeafPage.insert_header (LeafPage.init (erased (v.data v.nextPageId)) v.leafMaxSize) entry.1 entry.2
  have entries : (LeafPage.insert (LeafPage.init (erased (v.data v.nextPageId)) v.leafMaxSize) entry.1
      entry.2).1.entries = [entry] := by
    have nothing : (LeafPage.init (erased (v.data v.nextPageId)) v.leafMaxSize : BPlusTreePage K V).entries = [] := rfl
    rcases LeafPage.insert_cases entry.1 entry.2 (nothing ▸ List.Pairwise.nil) with ⟨-, value, stored⟩ |
      ⟨before, after, cut, -, -, entries, -⟩
    · simp [nothing] at stored
    · rw [nothing, List.nil_eq, List.append_eq_nil_iff] at cut
      simpa [cut.1, cut.2] using entries
  have size : (LeafPage.insert (LeafPage.init (erased (v.data v.nextPageId)) v.leafMaxSize) entry.1 entry.2).1.size =
      1 := by
    rw [← entries_length, entries]
    rfl
  refine runs_newPage (runs_page (runs_writePage (runs_modify_root (runs_unpinPage
    (ObservedRuns.RunsTo.pure ⟨rfl, ?_, ?_, rfl, rfl, rfl, rfl⟩)))))
  · simp only [Function.update_self, Function.update_idem]
    refine ⟨⟨?_, ?_, ?_⟩, ?_, ?_, ?_, ?_, ?_⟩
    · rw [Function.update_self]
      exact header.1
    · rw [Function.update_self]
      exact header.2.1.trans leafMaxSize
    · simp [entries]
    · simp [size, rootMin]
    · simp only [Function.update_self, size, maxFill]
      omega
    · rw [Function.update_self]
      exact header.2.2.1
    · simp [pagesOf]
    · rw [leavesOf, leafChain_singleton, Function.update_self]
      exact header.2.2.2
  · simp [contents, entries]

end Runs

end Root

end BPlusTree

end OneBase
