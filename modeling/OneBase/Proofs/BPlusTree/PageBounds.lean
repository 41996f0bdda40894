import OneBase.Proofs.BPlusTree.Page
import OneBase.Proofs.BPlusTree.Steps

/-! # Where the pages end

The default fan-outs are what fits on a page, but an insertion stores the new entry before it looks
at the size, so a full leaf is written one slot past its capacity: four bytes past the page. The first
split of any run is preceded by such a write, so a run stays inside its pages exactly as long as
its tree is one leaf with room for every key.
-/

namespace OneBase.BPlusTree

open BPlusTreePage

variable {K V : Type}

/-- An `Insert` of this key finds the root to be a leaf that is full and has no such key. -/
def Overfills [LinearOrder K] (tree : BPlusTree K V) (key : K) : Prop :=
  tree.isEmpty = false ∧ tree.grants tree.calls = true ∧ (tree.data tree.rootPageId).isLeafPage = true ∧
    (tree.data tree.rootPageId).size = (tree.data tree.rootPageId).maxSize ∧
    LeafPage.lookup (tree.data tree.rootPageId) key = none

/-- A tree with the default fan-outs that is empty or a single leaf, and was written inside its pages only. -/
structure OneLeaf (tree : BPlusTree K V) : Prop where
  capacity : tree.leafMaxSize = 339
  inside : ∀ p, (tree.data p).written ≤ pageSize
  root : tree.rootPageId ≠ invalidPageId → (tree.data tree.rootPageId).isLeafPage = true ∧
    (tree.data tree.rootPageId).maxSize = 339 ∧ (tree.data tree.rootPageId).size ≤ 339 ∧
    (tree.data tree.rootPageId).parentPageId = invalidPageId
  allocated : tree.rootPageId < tree.nextPageId
  next : 0 ≤ tree.nextPageId

variable [LinearOrder K] [Inhabited K] [Inhabited V] {tree after : BPlusTree K V} {key : K} {value : V}
  {rounds : ℕ}

omit [LinearOrder K] in
theorem oneLeaf_construct (grants : ℕ → Bool) : OneLeaf (construct 0 0 grants : BPlusTree K V) := by
  refine ⟨rfl, fun p => ?_, fun rooted => absurd rfl rooted, ?_, le_rfl⟩
  · exact Nat.zero_le _
  · change invalidPageId < 0
    decide

omit [Inhabited K] [Inhabited V] in
/-- What `Remove` of a key does to the leaf it reaches. -/
theorem remove_leaf_cases (leaf : BPlusTreePage K V) (key : K) :
    let page := (LeafPage.removeAndDeleteRecord leaf key).1
    page.size ≤ leaf.size ∧ page.maxSize = leaf.maxSize ∧ page.pageType = leaf.pageType ∧
      page.parentPageId = leaf.parentPageId ∧ page.written ≤ max leaf.written (LeafPage.slotOffset leaf.size) := by
  unfold LeafPage.removeAndDeleteRecord
  dsimp only
  split
  · exact ⟨le_rfl, rfl, rfl, rfl, le_max_left _ _⟩
  · refine ⟨Nat.sub_le _ _, rfl, rfl, rfl, ?_⟩
    simp only [LeafPage.wrote, LeafPage.slotOffset]
    split <;> omega

omit [LinearOrder K] [Inhabited K] [Inhabited V] in
theorem inside_update {d : PageId → BPlusTreePage K V} (inside : ∀ p, (d p).written ≤ pageSize) {q : PageId}
    {contents : BPlusTreePage K V} (small : contents.written ≤ pageSize) (p : PageId) :
    (Function.update d q contents p).written ≤ pageSize := by
  by_cases here : p = q
  · rw [here, Function.update_self]
    exact small
  · rw [Function.update_of_ne here]
    exact inside p

/-- An `Insert` that does not overfill the leaf keeps the tree one leaf. -/
theorem OneLeaf.insert (one : OneLeaf tree) (fits : ¬ Overfills tree key) {answer : Bool}
    (ran : insert rounds key value tree = some (answer, after)) : OneLeaf after := by
  cases granted : tree.grants tree.calls with
  | false =>
    rw [run_insert_refused granted, Option.some.injEq, Prod.mk.injEq] at ran
    obtain ⟨-, rfl⟩ := ran
    exact ⟨one.capacity, one.inside, one.root, one.allocated, one.next⟩
  | true =>
    cases empty : tree.isEmpty with
    | true =>
      rw [run_insert_empty empty granted, Option.some.injEq, Prod.mk.injEq] at ran
      obtain ⟨-, rfl⟩ := ran
      rcases LeafPage.insert_fields (LeafPage.init (erased (tree.data tree.nextPageId)) tree.leafMaxSize) key value with
        ⟨found, -⟩ | ⟨leaf, -, inserted, size, maxSize, kind, parent, written⟩
      · exact absurd rfl found
      rw [inserted]
      refine ⟨one.capacity, inside_update one.inside ?_, fun _ => ?_, Int.lt_succ _, Int.le_add_one one.next⟩
      · rw [written]
        exact max_le (one.inside _) (show LeafPage.slotOffset (0 + 1) ≤ pageSize by decide)
      · simp only [Function.update_self]
        refine ⟨by rw [isLeafPage, kind]; rfl, maxSize.trans one.capacity, ?_, parent⟩
        rw [size]
        exact Nat.succ_le_succ (Nat.zero_le _)
    | false =>
      have rooted : tree.rootPageId ≠ invalidPageId := by simpa [isEmpty] using empty
      obtain ⟨leaf, maxSize, small, parent⟩ := one.root rooted
      cases rounds with
      | zero =>
        rw [BPlusTree.insert, run_bind, run_get, Option.bind_some, run_ite, if_neg (by simp [empty]), run_bind,
          run_fetchPage, if_pos granted] at ran
        cases ran
      | succ rounds =>
        rcases LeafPage.insert_fields (tree.data tree.rootPageId) key value with
          ⟨present, inserted⟩ | ⟨page, absent, inserted, size, maxSize', kind, parent', written⟩
        · rw [run_insert_present empty granted leaf inserted, Option.some.injEq, Prod.mk.injEq] at ran
          obtain ⟨-, rfl⟩ := ran
          exact ⟨one.capacity, one.inside, one.root, one.allocated, one.next⟩
        · have room : page.size ≤ 339 := by
            by_contra full
            exact fits ⟨empty, granted, leaf, by omega, absent⟩
          rw [run_insert_room empty granted leaf inserted (by omega), Option.some.injEq, Prod.mk.injEq] at ran
          obtain ⟨-, rfl⟩ := ran
          refine ⟨one.capacity, inside_update one.inside ?_, fun _ => ?_, one.allocated, one.next⟩
          · have before := one.inside tree.rootPageId
            rw [written, LeafPage.slotOffset]
            simp only [pageSize] at before ⊢
            omega
          · simp only [Function.update_self]
            exact ⟨by rw [isLeafPage, kind]; exact leaf, maxSize'.trans maxSize, room, parent'.trans parent⟩

/-- A `Remove` keeps the tree one leaf. -/
theorem OneLeaf.remove (one : OneLeaf tree) (ran : remove rounds key tree = some ((), after)) : OneLeaf after := by
  cases empty : tree.isEmpty with
  | true =>
    rw [run_remove_empty empty, Option.some.injEq, Prod.mk.injEq] at ran
    exact ran.2 ▸ one
  | false =>
    have rooted : tree.rootPageId ≠ invalidPageId := by simpa [isEmpty] using empty
    obtain ⟨leaf, maxSize, small, parent⟩ := one.root rooted
    cases granted : tree.grants tree.calls with
    | false =>
      rw [run_remove_refused empty granted, Option.some.injEq, Prod.mk.injEq] at ran
      obtain ⟨-, rfl⟩ := ran
      exact ⟨one.capacity, one.inside, one.root, one.allocated, one.next⟩
    | true =>
      cases rounds with
      | zero =>
        rw [BPlusTree.remove, run_bind, run_get, Option.bind_some, run_ite, if_neg (by simp [empty]), run_bind,
          findLeafPage, run_bind, run_get, Option.bind_some, run_ite, if_neg (by simp [empty]), run_bind, run_fetchPage,
          if_pos granted] at ran
        cases ran
      | succ rounds =>
        cases granted' : tree.grants (tree.calls + 1) with
        | false =>
          rw [run_remove_lost empty granted leaf granted', Option.some.injEq, Prod.mk.injEq] at ran
          obtain ⟨-, rfl⟩ := ran
          exact ⟨one.capacity, one.inside, one.root, one.allocated, one.next⟩
        | true =>
          obtain ⟨size, maxSize', kind, parent', written⟩ := remove_leaf_cases (tree.data tree.rootPageId) key
          have isRoot : (LeafPage.removeAndDeleteRecord (tree.data tree.rootPageId) key).1.isRootPage = true := by
            simpa [isRootPage, parent'] using parent
          have inside : (LeafPage.removeAndDeleteRecord (tree.data tree.rootPageId) key).1.written ≤ pageSize := by
            have before := one.inside tree.rootPageId
            simp only [LeafPage.slotOffset] at written
            simp only [pageSize] at before ⊢
            omega
          rw [run_remove_leaf empty granted leaf granted' rfl isRoot] at ran
          split at ran
          · rw [run_deletePage, Option.some.injEq, Prod.mk.injEq] at ran
            obtain ⟨-, rfl⟩ := ran
            refine ⟨one.capacity, ?_, fun valid => absurd rfl valid, ?_, one.next⟩
            · dsimp only
              split
              · apply inside_update (inside_update one.inside inside)
                rwa [Function.update_self]
              · exact inside_update one.inside inside
            · exact (show invalidPageId < 0 by decide).trans_le one.next
          · rw [Option.some.injEq, Prod.mk.injEq] at ran
            obtain ⟨-, rfl⟩ := ran
            refine ⟨one.capacity, inside_update one.inside inside, fun _ => ?_, one.allocated, one.next⟩
            simp only [Function.update_self]
            exact ⟨by rw [isLeafPage, kind]; exact leaf, maxSize'.trans maxSize, size.trans small,
              parent'.trans parent⟩

omit [LinearOrder K] in
/-- Whatever becomes of the split, the overfull root leaf keeps what was written. -/
theorem run_split_written {p : PageId} (isRoot : (tree.data p).isRootPage = true) (allocated : p < tree.nextPageId)
    (rounds : ℕ) : ∃ after, split rounds p tree = some ((), after) ∧
    (after.data p).written = (tree.data p).written := by
  have notNew : p ≠ tree.nextPageId := allocated.ne
  have notNext : p ≠ tree.nextPageId + 1 := (allocated.trans (Int.lt_succ _)).ne
  rw [split, run_bind, run_newPage]
  by_cases first : tree.grants tree.calls = true
  · rw [if_pos first]
    simp only [Option.bind_some, run_bind, run_get, run_page, run_writePage, Function.update_self,
      Function.update_of_ne notNew, run_ite, run_newPage]
    have isRoot' : ((LeafPage.moveHalfTo (tree.data p)
        (LeafPage.init (erased (tree.data tree.nextPageId)) tree.leafMaxSize)).1.setNextPageId
          tree.nextPageId).isRootPage =
        true := isRoot
    rw [if_pos isRoot']
    by_cases second : tree.grants (tree.calls + 1) = true
    · simp only [second, if_true, Option.bind_some, run_bind, run_page, run_writePage, run_modify, run_unpinPage]
      refine ⟨_, rfl, ?_⟩
      simp [Function.update_of_ne notNew, Function.update_of_ne notNext, Function.update_self, setParentPageId,
        setNextPageId,
        LeafPage.moveHalfTo]
    · simp only [second, Bool.false_eq_true, if_false, Option.bind_some, run_bind, run_unpinPage]
      refine ⟨_, rfl, ?_⟩
      simp [Function.update_self, setNextPageId, LeafPage.moveHalfTo]
  · rw [if_neg first]
    simp only [Option.bind_some, run_unpinPage, Option.some.injEq, Prod.mk.injEq, true_and]
    exact ⟨_, rfl, rfl⟩

/-- An `Insert` that overfills the root leaf writes past the page. -/
theorem OneLeaf.overfilled (one : OneLeaf tree) (full : Overfills tree key) (rounds : ℕ) (value : V) :
    ∃ after, BPlusTree.insert (rounds + 1) key value tree = some (true, after) ∧
      pageSize < (after.data tree.rootPageId).written := by
  obtain ⟨nonempty, granted, leaf, size, absent⟩ := full
  have rooted : tree.rootPageId ≠ invalidPageId := by simpa [isEmpty] using nonempty
  obtain ⟨-, maxSize, -, parent⟩ := one.root rooted
  rcases LeafPage.insert_fields (tree.data tree.rootPageId) key value with
    ⟨found, -⟩ | ⟨page, -, inserted, size', maxSize', kind, parent', written⟩
  · exact absurd absent found
  have above : page.maxSize < page.size := by omega
  have past : pageSize < page.written := by
    rw [written, size, maxSize, LeafPage.slotOffset, pageSize]
    omega
  rw [BPlusTree.insert, run_bind, run_get, Option.bind_some, run_ite, if_neg (by simp [nonempty]), run_bind,
    run_fetchPage, if_pos granted]
  simp only [Option.bind_some, if_true, run_bind, run_descend_leaf, leaf, run_page, inserted, run_writePage, run_ite,
    Nat.succ_ne_self, if_false, above]
  have isRoot : page.isRootPage = true := by simpa [isRootPage, parent'] using parent
  let stored : BPlusTree K V := { tree with
    calls := tree.calls + 1
    pinCount := Function.update tree.pinCount tree.rootPageId (tree.pinCount tree.rootPageId + 1)
    data := Function.update tree.data tree.rootPageId page }
  have holds : stored.data tree.rootPageId = page := Function.update_self _ _ _
  have isRoot' : (stored.data tree.rootPageId).isRootPage = true := by rwa [holds]
  have allocated : tree.rootPageId < stored.nextPageId := one.allocated
  obtain ⟨after, ran, same⟩ := run_split_written isRoot' allocated (rounds + 1)
  refine ⟨after, ?_, by rwa [same, holds]⟩
  rw [show split (rounds + 1) tree.rootPageId _ = some ((), after) from ran, Option.bind_some, run_pure]

theorem performAll_append (rounds : ℕ) (first second : List (Call K V)) (tree : BPlusTree K V) :
    performAll rounds (first ++ second) tree =
      (performAll rounds first tree).bind fun result => performAll rounds second result.2 := by
  induction first generalizing tree with
  | nil => rfl
  | cons call rest ih =>
    rw [List.cons_append, performAll, performAll, run_bind, run_bind, Option.bind_assoc]
    congr 1
    funext result
    exact ih result.2

theorem perform_insert {rounds : ℕ} {answer : Bool} (ran : insert rounds key value tree = some (answer, after)) :
    perform rounds (.insert key value) tree = some ((), after) := by
  rw [perform, run_bind, ran]
  rfl

/-- One more call of the list. -/
theorem performAll_take_succ {rounds n : ℕ} {calls : List (Call K V)} {start : BPlusTree K V}
    (ran : performAll rounds (calls.take (n + 1)) start = some ((), after)) :
    ∃ tree, performAll rounds (calls.take n) start = some ((), tree) ∧
      (calls[n]? = none ∧ tree = after ∨
        ∃ call, calls[n]? = some call ∧ perform rounds call tree = some ((), after)) := by
  rw [List.take_add_one, performAll_append] at ran
  obtain ⟨⟨⟨⟩, tree⟩, before, ran⟩ := Option.bind_eq_some_iff.mp ran
  refine ⟨tree, before, ?_⟩
  cases next : calls[n]? with
  | none =>
    rw [next] at ran
    exact .inl ⟨rfl, by simpa [performAll, run_pure] using ran⟩
  | some call =>
    rw [next] at ran
    simp only [Option.toList_some, performAll, run_bind, run_pure] at ran
    obtain ⟨⟨⟨⟩, last⟩, performed, ended⟩ := Option.bind_eq_some_iff.mp ran
    simp only [Option.some.injEq, Prod.mk.injEq, true_and] at ended
    exact .inr ⟨call, rfl, ended ▸ performed⟩

/-- A run without an overfilling `Insert` keeps the tree one leaf. -/
theorem oneLeaf_run {rounds : ℕ} {grants : ℕ → Bool} {calls : List (Call K V)} {n : ℕ}
    (fits : ∀ m < n, ∀ key value tree, performAll rounds (calls.take m) (construct 0 0 grants) = some ((), tree) →
      calls[m]? = some (.insert key value) → ¬ Overfills tree key)
    (ran : performAll rounds (calls.take n) (construct 0 0 grants) = some ((), after)) : OneLeaf after := by
  induction n generalizing after with
  | zero =>
    simp only [List.take_zero, performAll, run_pure, Option.some.injEq, Prod.mk.injEq, true_and] at ran
    exact ran ▸ oneLeaf_construct grants
  | succ n ih =>
    obtain ⟨tree, before, ⟨-, rfl⟩ | ⟨call, next, performed⟩⟩ := performAll_take_succ ran
    · exact ih (fun m less => fits m (less.trans n.lt_succ_self)) before
    · have one := ih (fun m less => fits m (less.trans n.lt_succ_self)) before
      cases call with
      | insert key value =>
        rw [perform, run_bind] at performed
        obtain ⟨⟨answer, last⟩, inserted, ended⟩ := Option.bind_eq_some_iff.mp performed
        simp only [run_pure, Option.some.injEq, Prod.mk.injEq, true_and] at ended
        subst ended
        exact one.insert (fits n n.lt_succ_self key value tree before next) inserted
      | remove key => exact one.remove performed

/-- Where a tree with the default fan-outs is written: inside its pages throughout a run exactly if no
`Insert` of the run finds a full leaf as the root. -/
theorem pages_inside_iff (rounds : ℕ) (grants : ℕ → Bool) (calls : List (Call K V)) :
    (∀ n after, performAll (rounds + 1) (calls.take n) (construct 0 0 grants) = some ((), after) →
      ∀ p, (after.data p).written ≤ pageSize) ↔
    ∀ n key value tree, performAll (rounds + 1) (calls.take n) (construct 0 0 grants) = some ((), tree) →
      calls[n]? = some (.insert key value) → ¬ Overfills tree key := by
  constructor
  · intro inside n
    induction n using Nat.strong_induction_on with
    | _ n ih =>
      intro key value tree ran next full
      have one := oneLeaf_run ih ran
      obtain ⟨after, inserted, past⟩ := one.overfilled full rounds value
      have longer : performAll (rounds + 1) (calls.take (n + 1)) (construct 0 0 grants) = some ((), after) := by
        rw [List.take_add_one, performAll_append, ran, next]
        simp only [Option.bind_some, Option.toList_some, performAll, perform, run_bind, run_pure, inserted]
      exact past.not_ge (inside _ _ longer _)
  · intro fits n after ran
    exact (oneLeaf_run (fun m _ => fits m) ran).inside

/-- The tree after the keys below `n` were inserted in order and every page was found. -/
structure FirstKeys (n : ℕ) (tree : BPlusTree ℕ ℕ) : Prop where
  one : OneLeaf tree
  granted : ∀ call, tree.grants call = true
  nonempty : tree.isEmpty = false
  size : (tree.data tree.rootPageId).size = n
  below : ∀ i < n, LeafPage.keyAt (tree.data tree.rootPageId) i < n

theorem lookup_of_below {leaf : BPlusTreePage ℕ ℕ} {n : ℕ}
    (below : ∀ i < leaf.size, LeafPage.keyAt leaf i < n) :
    LeafPage.lookup leaf n = none := by
  have absent : LeafPage.matchesAt leaf n (LeafPage.keyIndex leaf n) = false := by
    by_cases bound : LeafPage.keyIndex leaf n < leaf.size
    · simp [LeafPage.matchesAt, below _ bound]
    · simp [LeafPage.matchesAt, bound]
  simp [LeafPage.lookup, absent]

/-- A key past all others goes to the end of the leaf. -/
theorem insert_below {leaf : BPlusTreePage ℕ ℕ} {n : ℕ} (size : leaf.size = n)
    (below : ∀ i < n, LeafPage.keyAt leaf i < n) : ∃ page, LeafPage.insert leaf n 0 = (page, n + 1) ∧
      page.size = n + 1 ∧ page.maxSize = leaf.maxSize ∧ ∀ i < n + 1, LeafPage.keyAt page i < n + 1 := by
  subst size
  have absent := lookup_of_below below
  rcases LeafPage.insert_fields leaf leaf.size 0 with ⟨found, -⟩ | ⟨page, -, inserted, size, maxSize, -⟩
  · exact absurd absent found
  refine ⟨page, inserted, size, maxSize, fun i bound => ?_⟩
  have within : LeafPage.keyIndex leaf leaf.size ≤ leaf.size :=
    LeafPage.keyIndexLoop_le leaf leaf.size leaf.size 0 leaf.size (Nat.zero_le _)
  have unmatched : LeafPage.matchesAt leaf leaf.size (LeafPage.keyIndex leaf leaf.size) = false := by
    by_contra matched
    simp [LeafPage.lookup, matched] at absent
  obtain rfl : (LeafPage.insert leaf leaf.size 0).1 = page := by rw [inserted]
  simp only [LeafPage.insert, unmatched, Bool.false_eq_true, if_false, LeafPage.keyAt, Function.update_apply,
    ArrayLoops.shiftUp_apply]
  split_ifs
  · exact Nat.lt_succ_self _
  · exact (below _ (by omega)).trans (Nat.lt_succ_self _)
  · exact (below _ (by omega)).trans (Nat.lt_succ_self _)

theorem filled_first :
    ∃ after, insert 1 0 0 (construct 0 0 fun _ => true : BPlusTree ℕ ℕ) = some (true, after) ∧
    FirstKeys 1 after := by
  let start : BPlusTree ℕ ℕ := construct 0 0 fun _ => true
  let leaf : BPlusTreePage ℕ ℕ := LeafPage.init (erased (start.data start.nextPageId)) start.leafMaxSize
  have size : leaf.size = 0 := rfl
  have ran : insert 1 0 0 start = _ := run_insert_empty rfl rfl
  have stays : ¬ Overfills start 0 := fun full => absurd full.1 (by decide)
  have one := (oneLeaf_construct fun _ => true).insert stays ran
  obtain ⟨page, inserted, size', -, below⟩ := insert_below size (fun i bound => absurd bound (Nat.not_lt_zero i))
  refine ⟨_, ran, one, fun _ => rfl, by decide, ?_, ?_⟩
  · change (Function.update start.data 0 (LeafPage.insert leaf 0 0).1 0).size = 1
    rw [Function.update_self, inserted, size']
  · change ∀ i < 1, LeafPage.keyAt (Function.update start.data 0 (LeafPage.insert leaf 0 0).1 0) i < 1
    rwa [Function.update_self, inserted]

theorem FirstKeys.insert {n : ℕ} {tree : BPlusTree ℕ ℕ} (filled : FirstKeys n tree) (room : n < 339) :
    ∃ after, BPlusTree.insert 1 n 0 tree = some (true, after) ∧ FirstKeys (n + 1) after := by
  have rooted : tree.rootPageId ≠ invalidPageId := by simpa [isEmpty] using filled.nonempty
  obtain ⟨leaf, maxSize, -, -⟩ := filled.one.root rooted
  obtain ⟨page, inserted, size, maxSize', below⟩ := insert_below filled.size filled.below
  have ran : BPlusTree.insert 1 n 0 tree = _ :=
    run_insert_room filled.nonempty (filled.granted _) leaf (by rw [inserted, filled.size]) (by omega)
  have stays : ¬ Overfills tree n := by
    rintro ⟨-, -, -, full, -⟩
    have size := filled.size
    omega
  refine ⟨_, ran, filled.one.insert stays ran, filled.granted, filled.nonempty, ?_, ?_⟩
  · change (Function.update tree.data tree.rootPageId page tree.rootPageId).size = n + 1
    rw [Function.update_self, size]
  · simpa only [Function.update_self] using below

/-- Filling the first leaf. -/
theorem filled_run {n : ℕ} (room : n < 339) : ∃ tree, performAll 1 ((List.range (n + 1)).map fun k => .insert k 0)
    (construct 0 0 fun _ => true) = some ((), tree) ∧ FirstKeys (n + 1) tree := by
  induction n with
  | zero =>
    obtain ⟨after, ran, filled⟩ := filled_first
    refine ⟨after, ?_, filled⟩
    rw [List.range_one, List.map_cons, List.map_nil, performAll, run_bind, perform_insert ran]
    rfl
  | succ n ih =>
    obtain ⟨tree, before, filled⟩ := ih (by omega)
    obtain ⟨after, ran, filled'⟩ := filled.insert room
    refine ⟨after, ?_, filled'⟩
    rw [List.range_succ, List.map_append, performAll_append, before, Option.bind_some, List.map_cons, List.map_nil,
      performAll, run_bind, perform_insert ran]
    rfl

/-- The 340th key ends four bytes past the page. -/
theorem key_written_past_the_page : ∃ after : BPlusTree ℕ ℕ,
    performAll 1 ((List.range 340).map fun k => .insert k 0) (construct 0 0 fun _ => true) = some ((), after) ∧
      ∃ p, pageSize < (after.data p).written := by
  obtain ⟨tree, before, filled⟩ := filled_run (show 338 < 339 by decide)
  have rooted : tree.rootPageId ≠ invalidPageId := by simpa [isEmpty] using filled.nonempty
  obtain ⟨leaf, maxSize, -, -⟩ := filled.one.root rooted
  have full : Overfills tree 339 := ⟨filled.nonempty, filled.granted _, leaf, filled.size.trans maxSize.symm,
    lookup_of_below (by rw [filled.size]; exact filled.below)⟩
  obtain ⟨after, ran, past⟩ := filled.one.overfilled full 0 0
  refine ⟨after, ?_, _, past⟩
  rw [List.range_succ, List.map_append, performAll_append, before, Option.bind_some, List.map_cons, List.map_nil,
    performAll, run_bind, perform_insert ran]
  rfl

end OneBase.BPlusTree
