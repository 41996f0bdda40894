import Mathlib.Data.Set.Card
import OneBase.Proofs.BPlusTree.IterationCorrect
import OneBase.Proofs.BufferPool.Pins

/-! # Iterating in a crowded pool

Iterators over a tree that lives in a buffer pool, next to other users who hold pins of their own. `operator*`
unpins the page it fetched, and so does `operator++` inside a leaf. At the end of a leaf it unpins the next leaf
instead: the leaf it comes from keeps a pin, and another user of the next one may lose theirs. So a loop needs a
frame for every leaf, next to those of the pages that others have pinned, however few of them are in use at a time.
-/

namespace OneBase

open BPlusTreePage PageStore BPlusTreeIterator BufferPoolManager Traces

variable {K V : Type} {n : ℕ}

/-- The leaves of a tree. -/
def BPlusTree.leafIds (tree : BPlusTree K V) : Set PageId :=
  {p | tree.rootPageId ≠ invalidPageId ∧ Reaches tree.data tree.rootPageId p ∧ (tree.data p).pageType = .leafPage}

namespace BPlusTreeIterator

/-- An iterator over the tree, at any position, or at its end. -/
def Over (tree : BPlusTree K V) (it : BPlusTreeIterator) : Prop :=
  it.isEnd = true ∨ it.hasPool = false ∨ it.pageId ∈ tree.leafIds

variable [Inhabited K] [Inhabited V]

/-- Neither `operator*` nor `operator++` changes the pin count of any page. -/
def KeepsPins (pool : BufferPoolManager n (BPlusTreePage K V)) (it : BPlusTreeIterator) : Prop :=
  (∃ result pool', dereference pagePool it pool = some (result, pool') ∧ pins pool' = pins pool) ∧
    ∃ it' pool', increment pagePool it pool = some (it', pool') ∧ pins pool' = pins pool

/-- `operator++` goes on to the next leaf: the iterator is at the last entry of its leaf, and the leaf can be fetched,
being pinned already or finding a frame. -/
def LeavesLeaf (tree : BPlusTree K V) (pool : BufferPoolManager n (BPlusTreePage K V))
    (it : BPlusTreeIterator) : Prop :=
  it.isEnd = false ∧ it.hasPool = true ∧ (tree.data it.pageId).size ≤ it.index + 1 ∧
    (0 < pins pool it.pageId ∨ Available pool)

/-- The loop from `Begin()` ends after visiting all that is stored. -/
def ScanCompletes (tree : BPlusTree K V) (pool : BufferPoolManager n (BPlusTreePage K V)) : Prop :=
  ∃ visited, (∀ key value, tree.Stores key value → (key, value) ∈ visited) ∧
    ∃ enough, ∀ rounds ≥ enough, ∃ pool',
      (begin pagePool tree.rootPageId rounds >>= scan pagePool rounds) pool =
      some (.ok visited, pool')

end BPlusTreeIterator

variable [Inhabited K] [Inhabited V]

namespace BufferPoolManager

variable {s : Clients n (BPlusTreePage K V)} {tree : BPlusTree K V} {d : PageStore K V} {p : PageId}
  {pool : BufferPoolManager n (BPlusTreePage K V)}

/-- The pages of the tree are existing pages of the pool, with the contents the tree sees. -/
structure Clients.Hosts (s : Clients n (BPlusTreePage K V)) (tree : BPlusTree K V) : Prop where
  contents : ∀ p, Reaches tree.data tree.rootPageId p → s.contents p = tree.data p
  alive : ∀ p, Reaches tree.data tree.rootPageId p → s.deleted p = false
  allocated : tree.nextPageId ≤ s.pool.nextPageId

/-- An existing page, with these contents. -/
structure Clients.Has (s : Clients n (BPlusTreePage K V)) (d : PageStore K V) (p : PageId) : Prop where
  valid : 0 ≤ p
  allocated : p < s.pool.nextPageId
  alive : s.deleted p = false
  contents : s.contents p = d p

/-- The pool with some frame to spare, as far as a reader of the tree can change it. -/
structure Clients.Spare (s : Clients n (BPlusTreePage K V)) (pool : BufferPoolManager n (BPlusTreePage K V)) :
    Prop where
  simulates : Simulates { s with pool }
  available : Available pool
  pins : pins pool = s.pool.pins
  next : pool.nextPageId = s.pool.nextPageId

/-- The pool as an iterator at `p` finds it. A pin it took from the page before, of a client who has yet to save, may be
missing, but the page is still there. -/
structure Clients.Shows (s : Clients n (BPlusTreePage K V)) (pool : BufferPoolManager n (BPlusTreePage K V))
    (p : PageId) : Prop where
  book : Bookkeeping pool
  next : pool.nextPageId = s.pool.nextPageId
  fetched : Simulates { s with pool := (pool.fetchPage p).1 }

theorem Clients.Has.shows (has : s.Has d p) (simulates : Simulates { s with pool })
    (next : pool.nextPageId = s.pool.nextPageId) : s.Shows pool p where
  book := simulates.book
  next := next
  fetched := simulates.fetchPage has.valid (show p < pool.nextPageId from next ▸ has.allocated)

/-- A fetch that is granted, and what is left after any page was unpinned. -/
theorem Clients.Shows.step (shows : s.Shows pool p) (has : s.Has d p) (granted : 0 < pins pool p ∨ Available pool) :
    ∃ frameId, (pool.fetchPage p).2 = some frameId ∧ ((pool.fetchPage p).1.pages frameId).data = d p ∧
      ∀ q, pins ((pool.fetchPage p).1.unpinPage q false).1 = handedOn (pins pool) p q ∧
        Bookkeeping ((pool.fetchPage p).1.unpinPage q false).1 ∧
        ((pool.fetchPage p).1.unpinPage q false).1.nextPageId = s.pool.nextPageId ∧
        (s.Has d q → s.Shows ((pool.fetchPage p).1.unpinPage q false).1 q) := by
  obtain ⟨frameId, fetched⟩ := shows.book.fetchPage_granted granted
  have next : (pool.fetchPage p).1.nextPageId = s.pool.nextPageId :=
    (shows.book.nextPageId_fetchPage p).trans shows.next
  have book : Bookkeeping (pool.fetchPage p).1 := shows.fetched.book
  refine ⟨frameId, fetched, ?_, fun q => ?_⟩
  · rw [← has.contents]
    exact shows.fetched.resident p frameId (shows.book.lookup_fetchPage fetched) has.alive
  have next' := (nextPageId_unpinPage (pool.fetchPage p).1 q false).trans next
  refine ⟨?_, book.unpinPage q false, next', fun hasNext => ?_⟩
  · rw [book.pins_unpinPage, shows.book.pins_fetchPage fetched]
    rfl
  · rcases Nat.eq_zero_or_pos (pins (pool.fetchPage p).1 q) with unpinned | pinned
    · rw [unpinPage_of_not_pinned unpinned]
      exact hasNext.shows shows.fetched next
    · exact ⟨book.unpinPage q false, next',
        shows.fetched.refetch pinned hasNext.valid (next ▸ hasNext.allocated)⟩

/-- With a frame to spare the pool lends every existing page. -/
theorem Clients.lends_spare (s : Clients n (BPlusTreePage K V)) {known : PageId → Prop}
    (exist : ∀ p, known p → s.Has d p) : Lends pagePool s.Spare d known := by
  intro p here pool spare
  have has := exist p here
  have shows := has.shows spare.simulates spare.next
  obtain ⟨frameId, fetched, data, left⟩ := shows.step has (.inr spare.available)
  obtain ⟨same, book, next, -⟩ := left p
  rw [handedOn_self] at same
  refine ⟨(pool.fetchPage p).1, _, ?_, rfl,
    spare.simulates.visit has.valid (show p < pool.nextPageId from spare.next ▸ has.allocated), ?_,
      same.trans spare.pins,
    next⟩
  · simp only [pagePool, fetched, Option.map_some]
    rw [data]
  · rw [book.available_iff_card, shows.book.pinnedPages_congr book same, ← shows.book.available_iff_card]
    exact spare.available

end BufferPoolManager

namespace BPlusTreeIterator

variable {s : Clients n (BPlusTreePage K V)} {d : PageStore K V} {pool : BufferPoolManager n (BPlusTreePage K V)}
  {it : BPlusTreeIterator}

section Steps

variable (shows : s.Shows pool it.pageId) (has : s.Has d it.pageId) (inside : it.isEnd = false)
    (set : it.hasPool = true)

include shows inside set

section Granted

variable (granted : 0 < pins pool it.pageId ∨ Available pool)

include has granted

theorem dereference_granted : ∃ pool', dereference pagePool it pool =
    some (.ok ((d it.pageId).leafArray it.index), pool') ∧ pins pool' = pins pool ∧ s.Shows pool' it.pageId := by
  obtain ⟨frameId, fetched, data, left⟩ := shows.step has granted
  obtain ⟨same, -, -, shows'⟩ := left it.pageId
  rw [handedOn_self] at same
  refine ⟨_, ?_, same, shows' has⟩
  simp [dereference, inside, set, BufferPoolManager.pagePool, stateT_bind, stateT_map, fetched, data]

/-- `operator++` unpins the page it goes to, which is another one at the end of a leaf. -/
theorem increment_granted : ∃ pool', increment pagePool it pool = some (next d it, pool') ∧
    pins pool' = handedOn (pins pool) it.pageId (next d it).pageId ∧ Bookkeeping pool' ∧
    (s.Has d (next d it).pageId → s.Shows pool' (next d it).pageId) := by
  obtain ⟨frameId, fetched, data, left⟩ := shows.step has granted
  obtain ⟨handed, book, -, shows'⟩ := left (next d it).pageId
  refine ⟨_, ?_, handed, book, shows'⟩
  simp [increment, inside, set, BufferPoolManager.pagePool, stateT_bind, stateT_map, fetched, data, next]

end Granted

section Refused

variable (refused : ¬ (0 < pins pool it.pageId ∨ Available pool))

include refused

omit inside set in
theorem fetchPage_none : pool.fetchPage it.pageId = (pool, none) := by
  obtain ⟨unpinned, unavailable⟩ := not_or.mp refused
  exact shows.book.fetchPage_refused (Nat.eq_zero_of_not_pos unpinned) unavailable

theorem dereference_refused : ∃ message, dereference pagePool it pool = some (.error message, pool) := by
  refine ⟨"BPlusTreeIterator::operator*: page fetch failed", ?_⟩
  simp [dereference, inside, set, BufferPoolManager.pagePool, stateT_bind, stateT_pure, fetchPage_none shows refused]

theorem increment_refused : increment pagePool it pool = some ({ it with pageId := invalidPageId }, pool) := by
  simp [increment, inside, set, BufferPoolManager.pagePool, stateT_bind, stateT_pure, fetchPage_none shows refused]

end Refused

end Steps

/-- The loop from `it` ends after visiting `visited` if something fits, and else because a page is refused. -/
def ScanEnds (fits : Prop) (visited : List (K × V)) (it : BPlusTreeIterator)
    (pool : BufferPoolManager n (BPlusTreePage K V)) : Prop :=
  ∀ rounds > visited.length, ∃ result pool', scan pagePool rounds it pool = some (result, pool') ∧
    (fits ∧ result = .ok visited ∨ ¬ fits ∧ ∃ message, result = .error message)

section Chain

variable {fits : Prop} {rest : List (K × V)} {p : PageId} {counts : PageId → ℕ}

/-- One round of the loop. -/
theorem ScanEnds.step (shows : s.Shows pool it.pageId) (has : s.Has d it.pageId) (valid : it.pageId ≠ invalidPageId)
    (set : it.hasPool = true) (refuses : pins pool it.pageId = 0 → ¬ Available pool → ¬ fits)
    (later : ∀ pool', pins pool' = handedOn (pins pool) it.pageId (next d it).pageId → Bookkeeping pool' →
      (s.Has d (next d it).pageId → s.Shows pool' (next d it).pageId) → ScanEnds fits rest (next d it) pool') :
    ScanEnds fits ((d it.pageId).leafArray it.index :: rest) it pool := by
  intro rounds enough
  obtain ⟨rounds, rfl⟩ := Nat.exists_eq_succ_of_ne_zero (Nat.ne_zero_of_lt enough)
  have notEnd : it.equals endIterator = false := by simp [equals, endIterator, valid]
  have inside : it.isEnd = false := by simp [isEnd, valid]
  by_cases granted : 0 < pins pool it.pageId ∨ Available pool
  · obtain ⟨read, dereferenced, same, shows'⟩ := dereference_granted shows has inside set granted
    have granted' : 0 < pins read it.pageId ∨ Available read := by
      rwa [same, shows'.book.available_iff_card, shows.book.pinnedPages_congr shows'.book same,
        ← shows.book.available_iff_card]
    obtain ⟨stepped, incremented, handed, book, goesOn⟩ := increment_granted shows' has inside set granted'
    obtain ⟨result, last, scanned, ends⟩ :=
      later stepped (same ▸ handed) book goesOn rounds (by simpa using enough)
    refine ⟨result.map ((d it.pageId).leafArray it.index :: ·), last, ?_, ?_⟩
    · simp [scan, notEnd, stateT_bind, stateT_map, dereferenced, incremented, scanned]
    · rcases ends with ⟨room, rfl⟩ | ⟨full, message, rfl⟩
      · exact .inl ⟨room, rfl⟩
      · exact .inr ⟨full, message, rfl⟩
  · obtain ⟨message, dereferenced⟩ := dereference_refused shows inside set granted
    obtain ⟨unpinned, unavailable⟩ := not_or.mp granted
    refine ⟨.error message, pool, ?_,
      .inr ⟨refuses (Nat.eq_zero_of_not_pos unpinned) unavailable, message, rfl⟩⟩
    simp [scan, notEnd, stateT_bind, stateT_pure, dereferenced]

/-- The rest of one leaf: until its end the counts stay what they are. -/
theorem ScanEnds.leaf (has : s.Has d p) (valid : p ≠ invalidPageId)
    (refuses : ∀ pool : BufferPoolManager n (BPlusTreePage K V), Bookkeeping pool → pins pool = counts →
      counts p = 0 → ¬ Available pool → ¬ fits)
    (later : ∀ pool' : BufferPoolManager n (BPlusTreePage K V), pins pool' = handedOn counts p (d p).nextPageId →
      Bookkeeping pool' →
      (s.Has d (d p).nextPageId → s.Shows pool' (d p).nextPageId) →
        ScanEnds fits rest ⟨(d p).nextPageId, 0, true⟩ pool')
    {index : ℕ} (inside : index < max 1 (d p).size) (shows : s.Shows pool p) (same : pins pool = counts) :
    ScanEnds fits ((d p).shown.drop index ++ rest) ⟨p, index, true⟩ pool := by
  -- by induction on the cells that are left
  obtain ⟨left, cells⟩ : ∃ left, index + left + 1 = max 1 (d p).size :=
    ⟨max 1 (d p).size - index - 1, by omega⟩
  have cell {index : ℕ} (inside : index < max 1 (d p).size) :
      (d p).shown.drop index = (d p).leafArray index :: (d p).shown.drop (index + 1) := by
    rw [List.drop_eq_getElem_cons (by rw [length_shown]; exact inside)]
    simp [shown]
  have refusesHere : pins pool p = 0 → ¬ Available pool → ¬ fits := same ▸ refuses pool shows.book same
  induction left generalizing index pool with
  | zero =>
    have last : (d p).size ≤ index + 1 := by omega
    have goesTo : next d ⟨p, index, true⟩ = ⟨(d p).nextPageId, 0, true⟩ := if_pos last
    rw [cell inside, List.drop_of_length_le (by rw [length_shown]; omega)]
    refine ScanEnds.step shows has valid rfl refusesHere ?_
    rw [goesTo]
    intro pool' handed book goesOn
    exact later pool' (same ▸ handed) book goesOn
  | succ left ih =>
    have more : ¬ (d p).size ≤ index + 1 := by omega
    have goesTo : next d ⟨p, index, true⟩ = ⟨p, index + 1, true⟩ := if_neg more
    rw [cell inside, List.cons_append]
    refine ScanEnds.step shows has valid rfl refusesHere ?_
    rw [goesTo]
    intro pool' handed book goesOn
    rw [handedOn_self] at handed
    have same' := handed.trans same
    exact ih (by omega) (goesOn has) same' (by omega) (same' ▸ refuses pool' book same')

omit [Inhabited K] [Inhabited V] in
/-- The pages that are pinned once a leaf was left, with the leaves to come. -/
theorem pinnedPages_handedOn {pool' : BufferPoolManager n (BPlusTreePage K V)} (book : Bookkeeping pool)
    (book' : Bookkeeping pool') {q : PageId} (handed : pins pool' = handedOn (pins pool) p q) (different : q ≠ p)
    {leaves : Finset PageId} (covered : q ∈ leaves ∨ pins pool q = 0) :
    pinnedPages pool' ∪ leaves = pinnedPages pool ∪ insert p leaves := by
  ext x
  simp only [Finset.mem_union, Finset.mem_insert, book.mem_pinnedPages, book'.mem_pinnedPages, handed, handedOn,
    Function.update_apply]
  split_ifs <;> grind

/-- A whole chain of leaves: every leaf ends up pinned, so the loop ends well if they fit beside what is pinned. -/
theorem scanEnds_chain {leaves : List PageId} (chain : LeafChain d leaves invalidPageId) (distinct : leaves.Nodup)
    (each : ∀ q ∈ leaves, s.Has d q ∧ q ≠ invalidPageId) (book : Bookkeeping pool)
    (shows : ∀ p ∈ leaves.head?, s.Shows pool p) :
    ScanEnds ((pinnedPages pool ∪ leaves.toFinset).card ≤ n) (leaves.flatMap fun q => (d q).shown)
      ⟨leaves.headD invalidPageId, 0, true⟩ pool := by
  induction leaves generalizing pool with
  | nil =>
    intro rounds enough
    obtain ⟨rounds, rfl⟩ := Nat.exists_eq_succ_of_ne_zero (Nat.ne_zero_of_lt enough)
    refine ⟨.ok [], pool, ?_, .inl ⟨by simpa using book.card_pinnedPages_le, rfl⟩⟩
    simp [scan, equals, endIterator, stateT_pure]
  | cons p rest ih =>
    obtain ⟨has, valid⟩ := each p List.mem_cons_self
    obtain ⟨follows, chain'⟩ := chain.tail
    obtain ⟨notLater, distinct'⟩ := List.nodup_cons.mp distinct
    rw [List.flatMap_cons, List.toFinset_cons]
    have cells : (d p).shown = (d p).shown.drop 0 := rfl
    rw [cells]
    refine ScanEnds.leaf has valid ?_ ?_ (by simp) (shows p rfl) rfl
    · intro pool' book' same unpinned unavailable fits
      have outside : p ∉ pinnedPages pool := by simp [book.mem_pinnedPages, unpinned]
      have more : insert p (pinnedPages pool) ⊆ pinnedPages pool ∪ insert p rest.toFinset := by
        intro x
        simp only [Finset.mem_insert, Finset.mem_union]
        tauto
      have many := Finset.card_le_card more
      rw [Finset.card_insert_of_notMem outside] at many
      rw [book'.available_iff_card, book.pinnedPages_congr book' same] at unavailable
      omega
    · intro pool' handed book' goesOn
      have covered : (d p).nextPageId ≠ p ∧
          ((d p).nextPageId ∈ rest.toFinset ∨ pins pool (d p).nextPageId = 0) := by
        rw [follows]
        cases rest with
        | nil => exact ⟨Ne.symm valid, .inr (by simp [pins, book.lookup_invalid])⟩
        | cons q rest => exact ⟨fun same => notLater (by simp [← same]), .inl (by simp)⟩
      rw [← pinnedPages_handedOn book book' handed covered.1 covered.2, follows]
      refine ih chain' distinct' (fun q later => each q (List.mem_cons_of_mem _ later)) book' fun q first => ?_
      cases rest with
      | nil => cases first
      | cons head rest =>
        obtain rfl := Option.some.inj first
        rw [show (d p).nextPageId = head from follows] at goesOn
        exact goesOn (each head (by simp)).1

end Chain

variable [LinearOrder K] {tree : BPlusTree K V}

omit [Inhabited K] [Inhabited V] in
theorem mem_leafIds {height : ℕ} (wellFormed : tree.WellFormedAt height) {p : PageId} :
    p ∈ tree.leafIds ↔ p ∈ leavesOf tree.data height tree.rootPageId := by
  constructor
  · rintro ⟨-, reached, leaf⟩
    exact mem_leavesOf wellFormed.uniform reached leaf
  · intro leaf
    exact ⟨wellFormed.rootPageId_ne, wellFormed.reaches_leaf leaf⟩

section Pool

variable (simulates : s.Simulates) (wellFormed : tree.WellFormed) (hosts : s.Hosts tree)

include wellFormed hosts

omit [Inhabited K] [Inhabited V] in
theorem has_of_reaches (rooted : tree.rootPageId ≠ invalidPageId) {p : PageId}
    (reached : Reaches tree.data tree.rootPageId p) : s.Has tree.data p := by
  obtain ⟨height, wellFormedAt⟩ := wellFormed.rooted rooted
  obtain ⟨low, high⟩ := wellFormedAt.allocated p ((reaches_iff_mem_pagesOf wellFormedAt.uniform).mp reached)
  exact ⟨low, high.trans_le hosts.allocated, hosts.alive p reached, hosts.contents p reached⟩

include simulates

/-- An iterator keeps all pins unless it leaves a leaf. -/
theorem keepsPins_iff (onTree : it.Over tree) : it.KeepsPins s.pool ↔ ¬ it.LeavesLeaf tree s.pool := by
  by_cases idle : it.isEnd = true ∨ it.hasPool = false
  · have invalid : (it.isEnd || !it.hasPool) = true := by simpa using idle
    refine iff_of_true ⟨⟨_, s.pool, by rw [dereference, if_pos invalid]; rfl, rfl⟩, it, s.pool, ?_, rfl⟩ ?_
    · rw [increment, if_pos invalid]
      rfl
    · rintro ⟨inside, set, -⟩
      simp [inside, set] at idle
  obtain ⟨inside, set⟩ : it.isEnd = false ∧ it.hasPool = true := by simpa using idle
  obtain ⟨rooted, reached, leaf⟩ : it.pageId ∈ tree.leafIds := by simpa [Over, inside, set] using onTree
  have has := has_of_reaches wellFormed hosts rooted reached
  have shows := has.shows simulates rfl
  by_cases granted : 0 < pins s.pool it.pageId ∨ Available s.pool
  · obtain ⟨read, dereferenced, same, -⟩ := dereference_granted shows has inside set granted
    obtain ⟨stepped, incremented, handed, -⟩ := increment_granted shows has inside set granted
    have keeps : it.KeepsPins s.pool ↔ (next tree.data it).pageId = it.pageId := by
      rw [← handedOn_eq_iff (pins s.pool), ← handed]
      constructor
      · rintro ⟨-, it', pool', ran, kept⟩
        rw [incremented] at ran
        obtain ⟨⟩ := ran
        exact kept
      · exact fun kept => ⟨⟨_, read, dereferenced, same⟩, _, stepped, incremented, kept⟩
    obtain ⟨height, wellFormedAt⟩ := wellFormed.rooted rooted
    rw [keeps, LeavesLeaf, and_iff_right inside, and_iff_right set, and_iff_left granted, next]
    split_ifs with last
    · exact iff_of_false (wellFormedAt.nextPageId_ne reached leaf) (not_not_intro last)
    · exact iff_of_true rfl last
  · obtain ⟨message, dereferenced⟩ := dereference_refused shows inside set granted
    exact iff_of_true ⟨⟨_, s.pool, dereferenced, rfl⟩, _, s.pool,
      increment_refused shows inside set granted, rfl⟩
      fun leaves => granted leaves.2.2.2

/-- A loop over the tree needs a frame for every leaf, besides those of the pinned pages. -/
theorem scanCompletes_iff (available : Available s.pool) : ScanCompletes tree s.pool ↔
    Set.encard ({p | 0 < pins s.pool p} ∪ tree.leafIds) ≤ n := by
  have book := simulates.book
  have pinned : {p | 0 < pins s.pool p} = (pinnedPages s.pool : Set PageId) := by
    ext p
    exact book.mem_pinnedPages.symm
  by_cases empty : tree.rootPageId = invalidPageId
  · have leaves : tree.leafIds = ∅ := by simp [BPlusTree.leafIds, empty]
    rw [pinned, leaves, Set.union_empty, Set.encard_coe_eq_coe_finsetCard, Nat.cast_le]
    refine iff_of_true ⟨[], fun key value stored => absurd empty stored.1, 1, fun rounds enough => ⟨s.pool, ?_⟩⟩
      book.card_pinnedPages_le
    obtain ⟨rounds, rfl⟩ := Nat.exists_eq_succ_of_ne_zero (Nat.ne_zero_of_lt enough)
    simp [stateT_bind, begin, empty, scan, equals, stateT_pure]
  obtain ⟨height, wellFormedAt⟩ := wellFormed.rooted empty
  have leaves : tree.leafIds = (leavesOf tree.data height tree.rootPageId).toFinset := by
    ext p
    simp [mem_leafIds wellFormedAt]
  rw [pinned, leaves, ← Finset.coe_union, Set.encard_coe_eq_coe_finsetCard, Nat.cast_le]
  have lends : Lends pagePool s.Spare tree.data (Reaches tree.data tree.rootPageId) :=
    s.lends_spare fun p reached => has_of_reaches wellFormed hosts empty reached
  have each (q : PageId) (leaf : q ∈ leavesOf tree.data height tree.rootPageId) :
      s.Has tree.data q ∧ q ≠ invalidPageId :=
    ⟨has_of_reaches wellFormed hosts empty (wellFormedAt.reaches_leaf leaf).1,
      wellFormedAt.valid (wellFormedAt.reaches_leaf leaf).1⟩
  -- what the loop shows, and how it ends, from some number of rounds on
  obtain ⟨visited, shows⟩ : ∃ visited,
      visited = (leavesOf tree.data height tree.rootPageId).flatMap fun q => (tree.data q).shown := ⟨_, rfl⟩
  generalize fitsEq : ((pinnedPages s.pool ∪ (leavesOf tree.data height tree.rootPageId).toFinset).card ≤ n) = fits
  have runs (rounds : ℕ) (enough : height + visited.length < rounds) : ∃ result pool',
      (begin pagePool tree.rootPageId rounds >>= scan pagePool rounds) s.pool = some (result, pool') ∧
        (fits ∧ result = .ok visited ∨ ¬ fits ∧ ∃ message, result = .error message) := by
    obtain ⟨middle, begun, spare⟩ := wellFormedAt.run_begin lends (show height < rounds by omega)
      (show s.Spare s.pool from ⟨simulates, available, rfl, rfl⟩)
    obtain ⟨result, pool', scanned, ends⟩ := scanEnds_chain wellFormedAt.leafChain wellFormedAt.leaves_nodup each
      spare.simulates.book (fun p first => (each p (List.mem_of_mem_head? first)).1.shows spare.simulates spare.next)
      rounds (by rw [← shows]; omega)
    rw [book.pinnedPages_congr spare.simulates.book spare.pins, fitsEq, ← shows] at ends
    exact ⟨result, pool', by rw [stateT_bind, begun]; exact scanned, ends⟩
  constructor
  · rintro ⟨found, -, enough, completes⟩
    obtain ⟨result, pool', ran, ends⟩ := runs (height + visited.length + 1 + enough) (by omega)
    obtain ⟨pool'', ran'⟩ := completes (height + visited.length + 1 + enough) (by omega)
    rw [ran'] at ran
    obtain ⟨⟩ := ran
    rcases ends with ⟨room, -⟩ | ⟨-, message, failed⟩
    · exact room
    · cases failed
  · intro room
    refine ⟨visited, fun key value stored => ?_, height + visited.length + 1, fun rounds enough => ?_⟩
    · have inContents := (wellFormedAt.stores_iff key value).mp stored
      rw [contents_eq_flatMap] at inContents
      obtain ⟨q, leaf, inLeaf⟩ := List.mem_flatMap.mp inContents
      have positive : 1 ≤ (tree.data q).size := by
        rw [← entries_length]
        exact List.length_pos_of_mem inLeaf
      rw [shows]
      exact List.mem_flatMap.mpr ⟨q, leaf, by rwa [shown_of_positive positive]⟩
    · obtain ⟨result, pool', ran, ends⟩ := runs rounds (by omega)
      obtain ⟨-, rfl⟩ := ends.resolve_right fun failed => failed.1 room
      exact ⟨pool', ran⟩

end Pool

/-- In every pool that clients can leave behind, with whatever pins they hold, and for every iterator over the tree:
`operator*` and `operator++` leave the pin count of every page as it is exactly if the iterator does not go on to
the next leaf. With one frame free or evictable at its start, a loop from `Begin()` meets every stored pair exactly
if the pinned pages and the leaves of the tree fit in the pool together. -/
theorem iterators_keep_pins_iff {k : ℕ} (k_pos : 1 ≤ k) {disk : PageId → BPlusTreePage K V} {nextPageId : PageId}
    (start : 0 ≤ nextPageId) (zeros : ∀ pageId, nextPageId ≤ pageId → disk pageId = 0)
    (run : List (Action (BPlusTreePage K V)))
    (along : Along Clients.Legal Clients.step (Clients.opened k disk nextPageId : Clients n (BPlusTreePage K V)) run)
    (wellFormed : tree.WellFormed)
    (hosts : (run.foldl Clients.step (Clients.opened k disk nextPageId : Clients n (BPlusTreePage K V))).Hosts tree) :
    let pool := (run.foldl Clients.step (Clients.opened k disk nextPageId : Clients n (BPlusTreePage K V))).pool
    (∀ it : BPlusTreeIterator, it.Over tree → (it.KeepsPins pool ↔ ¬ it.LeavesLeaf tree pool)) ∧
      (Available pool → (ScanCompletes tree pool ↔ Set.encard ({p | 0 < pins pool p} ∪ tree.leafIds) ≤ n)) := by
  have simulates : Clients.Simulates (run.foldl Clients.step _) :=
    along.invariant (fun _ _ simulates legal => simulates.step legal) (Clients.simulates_opened k_pos start zeros)
  exact ⟨fun it onTree => keepsPins_iff simulates wellFormed hosts onTree,
    scanCompletes_iff simulates wellFormed hosts⟩

/-- Two leaves under a root. -/
def twoLeaves : BPlusTree ℕ ℕ := BPlusTree.sampleTree
  [BPlusTree.sampleInternal (-1) [(0, 1), (5, 2)], BPlusTree.sampleLeaf 0 2 [(1, 10), (3, 30)],
    BPlusTree.sampleLeaf 0 (-1) [(5, 50)]]

theorem twoLeaves_wellFormedAt : twoLeaves.WellFormedAt 1 :=
  BPlusTree.wellFormedAt_of_rooted (by decide) (by decide)
    ⟨by decide, by decide, by decide, by decide, by decide, by unfold LeafChain; decide⟩ (by decide) (by decide)
    (by decide)

theorem twoLeaves_wellFormed : twoLeaves.WellFormed := ⟨by decide, fun _ => ⟨1, twoLeaves_wellFormedAt⟩⟩

theorem reaches_twoLeaves {p : PageId} (reached : Reaches twoLeaves.data twoLeaves.rootPageId p) :
    p = 0 ∨ p = 1 ∨ p = 2 := by
  have inside := (reaches_iff_mem_pagesOf twoLeaves_wellFormedAt.uniform).mp reached
  rw [show pagesOf twoLeaves.data 1 twoLeaves.rootPageId = [0, 1, 2] by decide] at inside
  simpa using inside

theorem leafIds_twoLeaves : twoLeaves.leafIds = {1, 2} := by
  ext p
  rw [mem_leafIds twoLeaves_wellFormedAt,
    show leavesOf twoLeaves.data 1 twoLeaves.rootPageId = [1, 2] by decide]
  simp

/-- The pages of the tree are written and unpinned, one after another. -/
def twoLeavesRun : List (Action (BPlusTreePage ℕ ℕ)) :=
  [.newPage, .writeData 0 (twoLeaves.data 0), .unpinPage 0 true, .newPage, .writeData 1 (twoLeaves.data 1),
    .unpinPage 1 true, .newPage, .writeData 2 (twoLeaves.data 2), .unpinPage 2 true]

/-- In a pool of one frame, all pages unpinned. -/
def narrowPool : Clients 1 (BPlusTreePage ℕ ℕ) := twoLeavesRun.foldl Clients.step (Clients.opened 2 (fun _ => 0) 0)

/-- Then a reader fetches the second leaf. -/
def sharedRun : List (Action (BPlusTreePage ℕ ℕ)) := twoLeavesRun ++ [.fetchPage 2]

/-- In a pool of three frames, with the reader. -/
def sharedPool : Clients 3 (BPlusTreePage ℕ ℕ) := sharedRun.foldl Clients.step (Clients.opened 2 (fun _ => 0) 0)

theorem narrowPool_hosts : narrowPool.Hosts twoLeaves := by
  refine ⟨fun p reached => ?_, fun p reached => ?_, by decide⟩
  · rcases reaches_twoLeaves reached with rfl | rfl | rfl <;> rfl
  · rcases reaches_twoLeaves reached with rfl | rfl | rfl <;> rfl

theorem sharedPool_hosts : sharedPool.Hosts twoLeaves := by
  refine ⟨fun p reached => ?_, fun p reached => ?_, by decide⟩
  · rcases reaches_twoLeaves reached with rfl | rfl | rfl <;> rfl
  · rcases reaches_twoLeaves reached with rfl | rfl | rfl <;> rfl

/-- From the last entry of the first leaf `operator++` leaves a pin on that leaf and takes the reader's from the second,
and one frame is not enough for a loop over two leaves. -/
theorem increment_steals_pin :
    twoLeaves.WellFormed ∧ sharedPool.Hosts twoLeaves ∧ narrowPool.Hosts twoLeaves ∧
      (⟨1, 1, true⟩ : BPlusTreeIterator).Over twoLeaves ∧
      (pins sharedPool.pool 1, pins sharedPool.pool 2) = (0, 1) ∧
      (increment pagePool ⟨1, 1, true⟩ sharedPool.pool).map (fun after =>
        (after.1, pins after.2 1, pins after.2 2)) =
        some (⟨2, 0, true⟩, 1, 0) ∧
      ¬ KeepsPins sharedPool.pool ⟨1, 1, true⟩ ∧
      Available narrowPool.pool ∧ ¬ ScanCompletes twoLeaves narrowPool.pool := by
  have before : (pins sharedPool.pool 1, pins sharedPool.pool 2) = (0, 1) := by decide +kernel
  have moved : (increment pagePool ⟨1, 1, true⟩ sharedPool.pool).map
      (fun after => (after.1, pins after.2 1, pins after.2 2)) = some (⟨2, 0, true⟩, 1, 0) := by decide +kernel
  have available : Available narrowPool.pool := ⟨0, .inr (by decide +kernel)⟩
  refine ⟨twoLeaves_wellFormed, sharedPool_hosts, narrowPool_hosts, .inr (.inr ?_), before, moved, ?_,
    available, ?_⟩
  · rw [leafIds_twoLeaves]
    exact .inl rfl
  · rintro ⟨-, it', pool', ran, kept⟩
    rw [ran, Option.map_some, kept] at moved
    cases before.symm.trans (congrArg Prod.snd (Option.some.inj moved))
  · have along : Along Clients.Legal Clients.step (Clients.opened 2 (fun _ => 0) 0 : Clients 1 (BPlusTreePage ℕ ℕ))
        twoLeavesRun := by decide +kernel
    have simulates : narrowPool.Simulates :=
      along.invariant (fun _ _ simulates legal => simulates.step legal)
        (Clients.simulates_opened (by decide) le_rfl fun _ _ => rfl)
    rw [scanCompletes_iff simulates twoLeaves_wellFormed narrowPool_hosts available, leafIds_twoLeaves]
    intro few
    have both : Set.encard ({1, 2} : Set PageId) ≤ 1 := (Set.encard_le_encard Set.subset_union_right).trans few
    rw [Set.encard_pair (by decide)] at both
    exact absurd both (by decide)

theorem iterators_keep_pins_iff_sharedPool :
    twoLeaves.WellFormed ∧ sharedPool.Hosts twoLeaves ∧
      (∀ it : BPlusTreeIterator, it.Over twoLeaves →
        (it.KeepsPins sharedPool.pool ↔ ¬ it.LeavesLeaf twoLeaves sharedPool.pool)) ∧
      (Available sharedPool.pool → (ScanCompletes twoLeaves sharedPool.pool ↔
        Set.encard ({p | 0 < pins sharedPool.pool p} ∪ twoLeaves.leafIds) ≤ (3 : ℕ))) :=
  ⟨twoLeaves_wellFormed, sharedPool_hosts, iterators_keep_pins_iff (by decide) le_rfl (fun _ _ => rfl)
    sharedRun (by decide +kernel) twoLeaves_wellFormed sharedPool_hosts⟩

end BPlusTreeIterator

end OneBase
