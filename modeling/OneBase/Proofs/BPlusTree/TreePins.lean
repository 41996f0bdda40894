import OneBase.Proofs.BPlusTree.IterationCorrect
import OneBase.ToMathlib.PinLedger

/-! # The pins of the tree code

Tree code takes and drops its pins by hand, through splits and merges that hand pinned pages to each other, with a way
out behind almost every call to the pool. Whatever the pages hold, even when they are no tree at all, and whichever
calls are refused, each routine ends with the pins that its callers count on. The exception is `operator++`, which at
the end of a leaf keeps the pin it took and drops one of the next leaf.

A page is followed by its own pin count in memory, so a call that stores past the end of a page is no longer described:
the results hold for calls that write inside their pages.
-/

namespace OneBase.BPlusTree

open BPlusTreePage PinLedger

variable {K V α β : Type}

/-- The pool below a tree. -/
def pins : Pool (BPlusTree K V) PageId := ⟨pinCount, nextPageId⟩

section Calls

variable {held besides : Multiset PageId} {final : β → Multiset PageId} {p : PageId}

theorem moves_get {f : BPlusTree K V → TreeM K V β} (rest : ∀ tree, pins.Moves held (f tree) final) :
    pins.Moves held (get >>= f) final :=
  Pool.Still.bind (by rintro s _ _ ⟨⟩; exact ⟨rfl, rfl⟩) rest

theorem moves_page {f : BPlusTreePage K V → TreeM K V β} (rest : ∀ contents, pins.Moves held (f contents) final) :
    pins.Moves held (page p >>= f) final :=
  Pool.Still.bind (by rintro s _ _ ⟨⟩; exact ⟨rfl, rfl⟩) rest

theorem moves_writePage {contents : BPlusTreePage K V} {f : Unit → TreeM K V β}
    (rest : pins.Moves held (f ()) final) :
    pins.Moves held (writePage p contents >>= f) final :=
  Pool.Still.bind (by rintro s _ _ ⟨⟩; exact ⟨rfl, rfl⟩) fun _ => rest

theorem moves_modify_root {f : PUnit → TreeM K V β} (rest : pins.Moves held (f ⟨⟩) final) :
    pins.Moves held (modify (fun tree => { tree with rootPageId := p }) >>= f) final :=
  Pool.Still.bind (by rintro s _ _ ⟨⟩; exact ⟨rfl, rfl⟩) fun _ => rest

theorem fetches (p : PageId) : (pins (K := K) (V := V)).Fetches p id (fetchPage p) := by
  intro s fetched s' ran
  rw [run_fetchPage] at ran
  split at ran
  · obtain ⟨⟩ := ran
    exact ⟨rfl, rfl⟩
  · obtain ⟨⟩ := ran
    exact ⟨rfl, rfl⟩

theorem moves_fetchPage {f : Bool → TreeM K V β} (fetched : pins.Moves (p ::ₘ held) (f true) final)
    (refused : pins.Moves held (f false) final) : pins.Moves held (fetchPage p >>= f) final :=
  (fetches p).bind (by rintro _ rfl; exact fetched) (by rintro _ rfl; exact refused)

/-- The same for a test that leaves when the page is refused. -/
theorem moves_fetchPage_not {leave stay : TreeM K V β} (fetched : pins.Moves (p ::ₘ held) stay final)
    (refused : pins.Moves held leave final) :
    pins.Moves held (fetchPage p >>= fun fetched => if (!fetched) = true then leave else stay) final :=
  moves_fetchPage fetched refused

theorem moves_unpinPage {isDirty : Bool} {f : Unit → TreeM K V β} (taken : held = p ::ₘ besides)
    (rest : pins.Moves besides (f ()) final) : pins.Moves held (unpinPage p isDirty >>= f) final :=
  Pool.Unpins.bind (by rintro s _ _ ⟨⟩; exact ⟨rfl, rfl⟩) taken fun _ => rest

theorem moves_unpinPage_last {isDirty : Bool} :
    pins.Moves {p} (unpinPage p isDirty : TreeM K V Unit) fun _ => 0 :=
  Pool.Unpins.moves (by rintro s _ _ ⟨⟩; exact ⟨rfl, rfl⟩) 0

variable [Inhabited K] [Inhabited V]

theorem moves_newPage {f : Option PageId → TreeM K V β}
    (allocated : ∀ p, pins.Moves (p ::ₘ held) (f (some p)) final)
    (refused : pins.Moves held (f none) final) : pins.Moves held (newPage >>= f) final := by
  refine Pool.Allocates.bind ?_ allocated refused
  intro s page s' ran
  rw [run_newPage] at ran
  split at ran
  · obtain ⟨⟩ := ran
    exact ⟨Int.le_add_one le_rfl, .inr ⟨rfl, rfl⟩⟩
  · obtain ⟨⟩ := ran
    exact ⟨le_rfl, .inl ⟨rfl, rfl⟩⟩

theorem moves_deletePage {f : Unit → TreeM K V β} (rest : pins.Moves held (f ()) final) :
    pins.Moves held (deletePage p >>= f) final :=
  Pool.Still.bind (by rintro s _ _ ⟨⟩; exact ⟨rfl, rfl⟩) fun _ => rest

theorem moves_deletePage_last : pins.Moves held (deletePage p : TreeM K V Unit) fun _ => held :=
  Pool.Still.moves (by rintro s _ _ ⟨⟩; exact ⟨rfl, rfl⟩) held

end Calls

section Descent

variable [LinearOrder K]

/-- The descent trades the pin of a page for the pin of the leaf below it. -/
theorem moves_descend (key : K) (rounds : ℕ) (p : PageId) :
    pins.Moves {p} (descend key rounds p : TreeM K V (Option PageId)) fun leaf => leaf.elim 0 singleton := by
  induction rounds generalizing p with
  | zero => exact Pool.moves_none
  | succ rounds ih =>
    rw [descend]
    refine moves_page fun treePage => ?_
    split
    · exact Pool.moves_pure rfl
    · refine moves_unpinPage rfl (moves_fetchPage ?_ ?_)
      · exact ih _
      · exact Pool.moves_pure rfl

/-- The descent from the root, pinned by its caller. -/
theorem moves_descend_bind {key : K} {rounds : ℕ} {p : PageId} {f : Option PageId → TreeM K V β}
    {final : β → Multiset PageId} (found : ∀ leaf, pins.Moves {leaf} (f (some leaf)) final)
    (lost : pins.Moves 0 (f none) final) : pins.Moves {p} (descend key rounds p >>= f) final := by
  refine (moves_descend key rounds p).bind fun leaf => ?_
  cases leaf with
  | none => exact lost
  | some leaf => exact found leaf

theorem moves_getValue (rounds : ℕ) (key : K) :
    pins.Moves 0 (getValue rounds key : TreeM K V (Option V)) fun _ => 0 := by
  rw [getValue]
  refine moves_get fun tree => ?_
  split
  · exact Pool.moves_pure rfl
  refine moves_fetchPage (moves_descend_bind (fun leaf => ?_) (Pool.moves_pure rfl)) (Pool.moves_pure rfl)
  exact moves_page fun contents => moves_unpinPage rfl (Pool.moves_pure rfl)

theorem moves_findLeafPage (rounds : ℕ) (key : K) :
    pins.Moves 0 (findLeafPage rounds key : TreeM K V PageId) fun _ => 0 := by
  rw [findLeafPage]
  refine moves_get fun tree => ?_
  split
  · exact Pool.moves_pure rfl
  refine moves_fetchPage (moves_descend_bind (fun leaf => ?_) (Pool.moves_pure rfl)) (Pool.moves_pure rfl)
  exact moves_unpinPage rfl (Pool.moves_pure rfl)

end Descent

/-- Each child is dropped as soon as it is rewritten. -/
theorem moves_reparent (holder parent : PageId) (start count : ℕ) :
    pins.Moves 0 (reparent holder parent start count : TreeM K V Unit) fun _ => 0 := by
  induction count generalizing start with
  | zero =>
    rw [reparent]
    exact Pool.moves_pure rfl
  | succ count ih =>
    rw [reparent]
    refine moves_page fun contents => moves_fetchPage ?_ (ih _)
    exact moves_page fun child => moves_writePage (moves_unpinPage rfl (ih _))

/-- Under the pins that a routine holds meanwhile, the children get their new parent. -/
theorem moves_reparent_bind {holder parent : PageId} {start count : ℕ} {held : Multiset PageId}
    {f : Unit → TreeM K V β} {final : β → Multiset PageId} (rest : pins.Moves held (f ()) final) :
    pins.Moves held (reparent holder parent start count >>= f) final := by
  have framed := (moves_reparent (K := K) (V := V) holder parent start count).frame held
  rw [zero_add] at framed
  exact framed.bind fun _ => rest

section Insert

variable [Inhabited K] [Inhabited V]

/-- The split of an internal page drops the pin it is handed, and its own. -/
theorem moves_splitInternal {next : PageId → PageId → K → PageId → TreeM K V Unit}
    (climbs : ∀ parent child key new, pins.Moves 0 (next parent child key new) fun _ => 0) (p : PageId) :
    pins.Moves {p} (splitInternal next p) fun _ => 0 := by
  rw [splitInternal]
  refine moves_newPage (fun new => ?_) moves_unpinPage_last
  refine moves_get fun tree => moves_page fun _ => moves_writePage (moves_page fun _ => moves_page fun _ => ?_)
  refine moves_writePage (moves_writePage (moves_reparent_bind (moves_page fun _ => ?_)))
  split
  · refine moves_newPage (fun root => ?_) ?_
    · refine moves_page fun _ => moves_writePage (moves_page fun _ => moves_writePage ?_)
      refine moves_page fun _ => moves_writePage (moves_modify_root ?_)
      refine moves_unpinPage (cons_cons_last root new p) (moves_unpinPage (Multiset.pair_comm root new) ?_)
      exact moves_unpinPage_last
    · refine moves_unpinPage (Multiset.pair_comm new p) ?_
      exact moves_unpinPage_last
  · refine moves_page fun _ => moves_page fun _ => moves_writePage ?_
    exact moves_unpinPage (Multiset.pair_comm new p) (moves_unpinPage rfl (climbs _ _ _ _))

theorem moves_insertIntoParent (rounds : ℕ) (parent child : PageId) (key : K) (new : PageId) :
    pins.Moves 0 (insertIntoParent rounds parent child key new : TreeM K V Unit) fun _ => 0 := by
  induction rounds generalizing parent child key new with
  | zero => exact Pool.moves_none
  | succ rounds ih =>
    rw [insertIntoParent]
    refine moves_fetchPage ?_ (Pool.moves_pure rfl)
    refine moves_page fun _ => moves_writePage ?_
    split
    · exact moves_splitInternal ih parent
    · exact moves_unpinPage_last

theorem moves_split (rounds : ℕ) (p : PageId) : pins.Moves {p} (split rounds p : TreeM K V Unit) fun _ => 0 := by
  rw [BPlusTree.split]
  refine moves_newPage (fun new => ?_) moves_unpinPage_last
  refine moves_get fun tree => moves_page fun _ => moves_writePage (moves_page fun _ => moves_page fun _ => ?_)
  refine moves_writePage (moves_writePage (moves_page fun _ => ?_))
  split
  · refine moves_newPage (fun root => ?_) ?_
    · refine moves_page fun _ => moves_writePage (moves_page fun _ => moves_writePage ?_)
      refine moves_page fun _ => moves_writePage (moves_modify_root ?_)
      refine moves_unpinPage (cons_cons_last root new p) (moves_unpinPage (Multiset.pair_comm root new) ?_)
      exact moves_unpinPage_last
    · refine moves_unpinPage (Multiset.pair_comm new p) ?_
      exact moves_unpinPage_last
  · refine moves_page fun _ => moves_page fun _ => moves_writePage ?_
    exact moves_unpinPage (Multiset.pair_comm new p) (moves_unpinPage rfl (moves_insertIntoParent _ _ _ _ _))

variable [LinearOrder K]

theorem moves_insert (rounds : ℕ) (key : K) (value : V) : pins.Moves 0 (insert rounds key value) fun _ => 0 := by
  rw [insert]
  refine moves_get fun tree => ?_
  split
  · refine moves_newPage (fun new => ?_) (Pool.moves_pure rfl)
    refine moves_page fun _ => moves_writePage (moves_modify_root ?_)
    exact moves_unpinPage rfl (Pool.moves_pure rfl)
  refine moves_fetchPage (moves_descend_bind (fun leaf => ?_) (Pool.moves_pure rfl)) (Pool.moves_pure rfl)
  refine moves_page fun oldLeaf => moves_writePage ?_
  split
  · exact moves_unpinPage rfl (Pool.moves_pure rfl)
  split
  · exact (moves_split rounds leaf).bind fun _ => Pool.moves_pure rfl
  · exact moves_unpinPage rfl (Pool.moves_pure rfl)

end Insert

section Remove

variable [Inhabited K] [Inhabited V]

theorem moves_finishMerge {next : PageId → TreeM K V Unit} (climbs : ∀ p, pins.Moves {p} (next p) fun _ => 0)
    (p : PageId) : pins.Moves {p} (finishMerge next p) fun _ => 0 := by
  rw [finishMerge]
  refine moves_page fun parent => ?_
  split
  · exact climbs p
  split
  · refine moves_writePage (moves_modify_root (moves_fetchPage ?_ ?_))
    · refine moves_page fun _ => moves_writePage (moves_unpinPage rfl ?_)
      exact moves_unpinPage rfl moves_deletePage_last
    · exact moves_unpinPage rfl moves_deletePage_last
  · exact moves_unpinPage_last

omit [Inhabited K] [Inhabited V] in
/-- The three pins of a round that borrows. -/
theorem moves_unpinPages {p sibling parent : PageId} :
    pins.Moves (sibling ::ₘ parent ::ₘ {p})
      (do unpinPage p true; unpinPage sibling true; unpinPage parent true : TreeM K V Unit) fun _ => 0 :=
  moves_unpinPage (cons_cons_last sibling parent p) (moves_unpinPage rfl moves_unpinPage_last)

/-- A round that merges goes on with the parent. -/
theorem moves_unpinPages_merged {p sibling parent emptied : PageId} {next : TreeM K V Unit}
    (climbs : pins.Moves {parent} next fun _ => 0) :
    pins.Moves (sibling ::ₘ parent ::ₘ {p})
      (do unpinPage p true; unpinPage sibling true; deletePage emptied; next) fun _ => 0 :=
  moves_unpinPage (cons_cons_last sibling parent p) (moves_unpinPage rfl (moves_deletePage climbs))

/-- A round on a page drops the pin of the page, and those of its parent and of its sibling. -/
theorem moves_coalesceOrRedistributeInternal (rounds : ℕ) (p : PageId) :
    pins.Moves {p} (coalesceOrRedistributeInternal rounds p : TreeM K V Unit) fun _ => 0 := by
  induction rounds generalizing p with
  | zero => exact Pool.moves_none
  | succ rounds ih =>
    rw [coalesceOrRedistributeInternal]
    refine moves_page fun _ => moves_fetchPage_not (moves_page fun parent => ?_) moves_unpinPage_last
    dsimp only
    split
    · exact moves_unpinPage (Multiset.pair_comm _ p) moves_unpinPage_last
    refine moves_fetchPage_not ?_ (moves_unpinPage (Multiset.pair_comm _ p) moves_unpinPage_last)
    refine moves_page fun _ => moves_page fun _ => ?_
    split
    · split
      · exact moves_writePage (moves_writePage (moves_writePage (moves_reparent_bind moves_unpinPages)))
      · exact moves_writePage (moves_writePage (moves_writePage (moves_reparent_bind moves_unpinPages)))
    · split
      · refine moves_writePage (moves_writePage (moves_reparent_bind (moves_page fun _ => moves_writePage ?_)))
        exact moves_unpinPages_merged (moves_finishMerge ih _)
      · refine moves_writePage (moves_writePage (moves_reparent_bind (moves_page fun _ => moves_writePage ?_)))
        exact moves_unpinPages_merged (moves_finishMerge ih _)

theorem moves_coalesceOrRedistribute (rounds : ℕ) (p : PageId) :
    pins.Moves {p} (coalesceOrRedistribute rounds p : TreeM K V Unit) fun _ => 0 := by
  rw [coalesceOrRedistribute]
  refine moves_page fun _ => moves_fetchPage_not (moves_page fun parent => ?_) moves_unpinPage_last
  dsimp only
  split
  · split
    · refine moves_modify_root (moves_page fun _ => moves_writePage ?_)
      exact moves_unpinPage (Multiset.pair_comm _ p) (moves_unpinPage rfl moves_deletePage_last)
    · exact moves_unpinPage (Multiset.pair_comm _ p) moves_unpinPage_last
  refine moves_fetchPage_not ?_ (moves_unpinPage (Multiset.pair_comm _ p) moves_unpinPage_last)
  refine moves_page fun _ => moves_page fun _ => ?_
  split
  · split
    · exact moves_writePage (moves_writePage (moves_writePage moves_unpinPages))
    · exact moves_writePage (moves_writePage (moves_writePage moves_unpinPages))
  · split
    · refine moves_writePage (moves_writePage (moves_writePage ?_))
      exact moves_unpinPages_merged (moves_finishMerge (moves_coalesceOrRedistributeInternal rounds) _)
    · refine moves_writePage (moves_writePage (moves_writePage ?_))
      exact moves_unpinPages_merged (moves_finishMerge (moves_coalesceOrRedistributeInternal rounds) _)

theorem moves_remove [LinearOrder K] (rounds : ℕ) (key : K) :
    pins.Moves 0 (remove rounds key : TreeM K V Unit) fun _ => 0 := by
  rw [remove]
  refine moves_get fun tree => ?_
  split
  · exact Pool.moves_pure rfl
  refine (moves_findLeafPage rounds key).bind fun leaf => ?_
  split
  · exact Pool.moves_pure rfl
  refine moves_fetchPage_not (moves_page fun _ => moves_writePage ?_) (Pool.moves_pure rfl)
  split
  · exact moves_coalesceOrRedistribute rounds leaf
  split
  · exact moves_modify_root (moves_unpinPage rfl moves_deletePage_last)
  · exact moves_unpinPage_last

end Remove

section Iterators

open BPlusTreeIterator

theorem moves_pagePool_fetchPage {p : PageId} {held : Multiset PageId} {f : Option (BPlusTreePage K V) → TreeM K V β}
    {final : β → Multiset PageId} (fetched : ∀ contents, pins.Moves (p ::ₘ held) (f (some contents)) final)
    (refused : pins.Moves held (f none) final) : pins.Moves held (pagePool.fetchPage p >>= f) final := by
  rw [pagePool]
  simp only [bind_assoc]
  exact moves_fetchPage (moves_page fun contents => fetched contents) refused

theorem moves_pagePool_unpinPage {p : PageId} {isDirty : Bool} {held besides : Multiset PageId}
    {f : Unit → TreeM K V β} {final : β → Multiset PageId} (taken : held = p ::ₘ besides)
    (rest : pins.Moves besides (f ()) final) : pins.Moves held (pagePool.unpinPage p isDirty >>= f) final :=
  Pool.Unpins.bind (by rintro s _ _ ⟨⟩; exact ⟨rfl, rfl⟩) taken fun _ => rest

/-- Both descents of the iterators trade pins as the one of the tree does. -/
theorem moves_descendBy (child : BPlusTreePage K V → PageId) (rounds : ℕ) (p : PageId)
    (treePage : BPlusTreePage K V) :
    pins.Moves {p} (BPlusTreeIterator.descend pagePool child rounds p treePage) fun leaf =>
      leaf.elim 0 fun leaf => {leaf.1} := by
  induction rounds generalizing p treePage with
  | zero => exact Pool.moves_none
  | succ rounds ih =>
    rw [BPlusTreeIterator.descend]
    split
    · exact Pool.moves_pure rfl
    · refine moves_pagePool_unpinPage rfl (moves_pagePool_fetchPage (fun childPage => ?_) ?_)
      · exact ih _ _
      · exact Pool.moves_pure rfl

theorem moves_descendBy_bind {child : BPlusTreePage K V → PageId} {rounds : ℕ} {p : PageId}
    {treePage : BPlusTreePage K V} {f : Option (PageId × BPlusTreePage K V) → TreeM K V β}
    {final : β → Multiset PageId} (found : ∀ leaf contents, pins.Moves {leaf} (f (some (leaf, contents))) final)
    (lost : pins.Moves 0 (f none) final) :
    pins.Moves {p} (BPlusTreeIterator.descend pagePool child rounds p treePage >>= f) final := by
  refine (moves_descendBy child rounds p treePage).bind fun leaf => ?_
  cases leaf with
  | none => exact lost
  | some leaf => exact found leaf.1 leaf.2

theorem moves_begin (rootPageId : PageId) (rounds : ℕ) :
    pins.Moves 0 (begin (pagePool : PagePool (BPlusTree K V) K V) rootPageId rounds) fun _ => 0 := by
  rw [begin]
  split
  · exact Pool.moves_pure rfl
  refine moves_pagePool_fetchPage (fun treePage => ?_) (Pool.moves_pure rfl)
  refine moves_descendBy_bind (fun leaf contents => ?_) (Pool.moves_pure rfl)
  exact moves_pagePool_unpinPage rfl (Pool.moves_pure rfl)

theorem moves_beginAt [LinearOrder K] (key : K) (rootPageId : PageId) (rounds : ℕ) :
    pins.Moves 0 (beginAt (pagePool : PagePool (BPlusTree K V) K V) key rootPageId rounds) fun _ => 0 := by
  rw [beginAt]
  split
  · exact Pool.moves_pure rfl
  refine moves_pagePool_fetchPage (fun treePage => ?_) (Pool.moves_pure rfl)
  refine moves_descendBy_bind (fun leaf leafPage => ?_) (Pool.moves_pure rfl)
  refine moves_pagePool_unpinPage rfl ?_
  split
  · exact Pool.moves_pure rfl
  · exact Pool.moves_pure rfl

/-- What `operator++` does to the pins. -/
def pinsAfterIncrement (tree : BPlusTree K V) (it : BPlusTreeIterator) : PageId → ℕ :=
  if it.isEnd = false ∧ it.hasPool = true ∧ tree.grants tree.calls = true then
    handedOn tree.pinCount it.pageId (next tree.data it).pageId
  else tree.pinCount

theorem pinCount_increment {it it' : BPlusTreeIterator} {tree after : BPlusTree K V}
    (ran : increment pagePool it tree = some (it', after)) : after.pinCount = tree.pinsAfterIncrement it := by
  rw [increment] at ran
  rw [pinsAfterIncrement]
  split at ran
  · next stays =>
    obtain ⟨⟩ := ran
    rw [if_neg]
    rintro ⟨inside, set, -⟩
    simp [inside, set] at stays
  next goes =>
  obtain ⟨inside, set⟩ : it.isEnd = false ∧ it.hasPool = true := by simpa using goes
  rw [stateT_bind, run_pagePool_fetchPage] at ran
  by_cases granted : tree.grants tree.calls = true
  · rw [if_pos granted] at ran
    obtain ⟨⟩ := ran
    exact (if_pos ⟨inside, set, granted⟩).symm
  · rw [if_neg granted] at ran
    obtain ⟨⟩ := ran
    exact (if_neg fun all => granted all.2.2).symm

theorem moves_dereference (it : BPlusTreeIterator) :
    pins.Moves 0 (dereference (pagePool : PagePool (BPlusTree K V) K V) it) fun _ => 0 := by
  rw [dereference]
  split
  · exact Pool.moves_pure rfl
  refine moves_pagePool_fetchPage (fun leafPage => ?_) (Pool.moves_pure rfl)
  exact moves_pagePool_unpinPage rfl (Pool.moves_pure rfl)

end Iterators

section Requests

variable [LinearOrder K] [Inhabited K] [Inhabited V]

theorem moves_serve (rounds : ℕ) {request : Request K V} (other : ∀ it, request ≠ .increment it) :
    pins.Moves 0 (serve rounds request) fun _ => 0 := by
  cases request with
  | call call =>
    cases call with
    | insert key value => exact (moves_insert rounds key value).bind fun _ => Pool.moves_pure rfl
    | remove key => exact moves_remove rounds key
  | getValue key => exact (moves_getValue rounds key).bind fun _ => Pool.moves_pure rfl
  | begin => exact moves_get fun tree => (moves_begin _ rounds).bind fun _ => Pool.moves_pure rfl
  | beginAt key => exact moves_get fun tree => (moves_beginAt key _ rounds).bind fun _ => Pool.moves_pure rfl
  | increment it => exact absurd rfl (other it)
  | dereference it => exact (moves_dereference it).bind fun _ => Pool.moves_pure rfl

/-- The pins after a call that writes inside its pages. -/
def Request.pinsAfter (tree : BPlusTree K V) : Request K V → PageId → ℕ
  | .increment it => tree.pinsAfterIncrement it
  | _ => tree.pinCount

theorem pinCount_serve {tree after : BPlusTree K V} (unused : ∀ p, tree.nextPageId ≤ p → tree.pinCount p = 0)
    {request : Request K V} {rounds : ℕ} (ran : serve rounds request tree = some ((), after)) :
    after.pinCount = request.pinsAfter tree := by
  by_cases step : ∃ it, request = .increment it
  · obtain ⟨it, rfl⟩ := step
    obtain ⟨⟨it', last⟩, stepped, rest⟩ := Option.bind_eq_some_iff.mp ran
    obtain ⟨⟩ := rest
    exact pinCount_increment stepped
  · have other : ∀ it, request ≠ .increment it := not_exists.mp step
    have same : after.pinCount = tree.pinCount := (moves_serve rounds other).pinCount_eq unused ran
    cases request with
    | increment it => exact absurd rfl (other it)
    | _ => exact same

end Requests

end OneBase.BPlusTree
