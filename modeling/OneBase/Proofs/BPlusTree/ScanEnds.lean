import OneBase.Proofs.BPlusTree.IterationCorrect

/-! # When a loop over an iterator ends

`operator++` gives up at a failed fetch by clearing the page id, and keeps the index. The iterator is at its end then,
but it compares equal to `End()` only if the index is zero, and a loop that compares goes on forever. So a loop ends
unless the first increment that is refused its page stands inside a leaf.
-/

namespace OneBase

open BPlusTreePage PageStore BPlusTreeIterator

variable {K V : Type}

namespace BPlusTreeIterator

/-- The first refused call among those from `call` on, one for each index, is made at index zero, if there is one. -/
def refusedAtFirst (grants : ℕ → Bool) : ℕ → List ℕ → Bool
  | _, [] => true
  | call, index :: rest => if grants call then refusedAtFirst grants (call + 1) rest else index == 0

/-- The indices at which an iterator stands on its way along the leaves; an empty leaf has one too. -/
def indicesOf (d : PageStore K V) (leaves : List PageId) : List ℕ :=
  leaves.flatMap fun q => List.range (max 1 (d q).size)

/-- An iterator stands at these indices until it is at its end. -/
inductive Passes (d : PageStore K V) : BPlusTreeIterator → List ℕ → Prop
  | last : Passes d ⟨invalidPageId, 0, true⟩ []
  | stop {it : BPlusTreeIterator} {rest : List ℕ} (valid : it.pageId ≠ invalidPageId) (set : it.hasPool = true)
    (later : Passes d (next d it) rest) : Passes d it (it.index :: rest)

section Paths

variable {d : PageStore K V}

/-- The rest of one leaf, and what comes after it. -/
theorem Passes.leaf {p : PageId} (valid : p ≠ invalidPageId) {rest : List ℕ}
    (later : Passes d ⟨(d p).nextPageId, 0, true⟩ rest) {index : ℕ} (inside : index < max 1 (d p).size) :
    Passes d ⟨p, index, true⟩ ((List.range (max 1 (d p).size)).drop index ++ rest) := by
  -- by induction on the cells that are left
  obtain ⟨left, cells⟩ : ∃ left, index + left + 1 = max 1 (d p).size :=
    ⟨max 1 (d p).size - index - 1, by omega⟩
  have cut : (List.range (max 1 (d p).size)).drop index =
      index :: (List.range (max 1 (d p).size)).drop (index + 1) := by
    rw [List.drop_eq_getElem_cons (by simpa using inside), List.getElem_range]
  induction left generalizing index with
  | zero =>
    have exhausted : (d p).size ≤ index + 1 := by omega
    rw [cut, List.drop_of_length_le (by rw [List.length_range]; omega)]
    apply Passes.stop valid rfl
    simpa [next, exhausted] using later
  | succ left ih =>
    have more : ¬ (d p).size ≤ index + 1 := by omega
    have inside' : index + 1 < max 1 (d p).size := by omega
    rw [cut]
    apply Passes.stop valid rfl
    have goOn := ih inside' (by omega) (by
      rw [List.drop_eq_getElem_cons (by simpa using inside'), List.getElem_range])
    simpa [next, more] using goOn

/-- A whole chain of leaves. -/
theorem passes_chain {leaves : List PageId} (chain : LeafChain d leaves invalidPageId)
    (valid : ∀ q ∈ leaves, q ≠ invalidPageId) :
    Passes d ⟨leaves.headD invalidPageId, 0, true⟩ (indicesOf d leaves) := by
  induction leaves with
  | nil => exact .last
  | cons p rest ih =>
    obtain ⟨follows, chain'⟩ := chain.tail
    have later := ih chain' fun q member => valid q (List.mem_cons_of_mem _ member)
    rw [← follows] at later
    have first : 0 < max 1 (d p).size := by simp
    simpa [indicesOf] using Passes.leaf (valid p List.mem_cons_self) later first

end Paths

end BPlusTreeIterator

namespace BPlusTree

/-- A state on the way: the pages and the pattern are the same, and `calls` calls were made. -/
structure After (tree : BPlusTree K V) (calls : ℕ) (s : BPlusTree K V) : Prop where
  data : s.data = tree.data
  grants : s.grants = tree.grants
  calls : s.calls = calls

section Steps

variable {tree s : BPlusTree K V} {calls : ℕ}

/-- A granted fetch. -/
theorem After.fetched (after : After tree calls s) (granted : tree.grants calls = true) (p : PageId) :
    ∃ pinned, pagePool.fetchPage p s = some (some (tree.data p), pinned) ∧ After tree (calls + 1) pinned := by
  rw [run_pagePool_fetchPage, after.grants, after.calls, if_pos granted, after.data]
  exact ⟨_, rfl, rfl, rfl, rfl⟩

/-- A refused fetch. -/
theorem After.refused (after : After tree calls s) (refused : tree.grants calls = false) (p : PageId) :
    ∃ s', pagePool.fetchPage p s = some (none, s') ∧ After tree (calls + 1) s' := by
  have notGranted : ¬ tree.grants calls = true := by simp [refused]
  rw [run_pagePool_fetchPage, after.grants, after.calls, if_neg notGranted]
  exact ⟨_, rfl, after.data, rfl, rfl⟩

theorem After.unpinned (after : After tree calls s) (p : PageId) :
    ∃ s', pagePool.unpinPage p false s = some ((), s') ∧ After tree calls s' :=
  ⟨_, rfl, after.data, after.grants, after.calls⟩

variable {it : BPlusTreeIterator}

theorem After.steps (after : After tree calls s) (granted : tree.grants calls = true)
    (valid : it.pageId ≠ invalidPageId) (set : it.hasPool = true) :
    ∃ s', increment pagePool it s = some (next tree.data it, s') ∧ After tree (calls + 1) s' := by
  obtain ⟨pinned, fetched, pinnedAfter⟩ := after.fetched granted it.pageId
  obtain ⟨s', unpinned, after'⟩ := pinnedAfter.unpinned (next tree.data it).pageId
  refine ⟨s', ?_, after'⟩
  rw [next, set] at unpinned
  simp [increment, isEnd, valid, set, stateT_bind, stateT_map, fetched, unpinned, next]

theorem After.misses (after : After tree calls s) (refused : tree.grants calls = false)
    (valid : it.pageId ≠ invalidPageId) (set : it.hasPool = true) :
    ∃ s', increment pagePool it s = some ({ it with pageId := invalidPageId }, s') ∧ After tree (calls + 1) s' := by
  obtain ⟨s', missed, after'⟩ := after.refused refused it.pageId
  refine ⟨s', ?_, after'⟩
  simp [increment, isEnd, valid, set, stateT_bind, missed, stateT_pure]

end Steps

section Paths

variable {tree s : BPlusTree K V} {calls : ℕ} {it : BPlusTreeIterator} {indices : List ℕ}

theorem advance_end (last : it.isEnd = true) (steps : ℕ) (s : BPlusTree K V) :
    advance pagePool steps it s = some (it, s) := by
  induction steps with
  | zero => rfl
  | succ steps ih => simpa [advance, increment, last, stateT_bind, stateT_pure] using ih

theorem loop_end (last : it.equals endIterator = true) {rounds : ℕ} (enough : 0 < rounds) (s : BPlusTree K V) :
    loop pagePool rounds it s = some ((), s) := by
  obtain ⟨rounds, rfl⟩ := Nat.exists_eq_succ_of_ne_zero enough.ne'
  simp [loop, last, stateT_pure]

/-- A loop on its way along the leaves ends if it is first refused at index zero or not at all. -/
theorem loop_ends_of_passes (passes : Passes tree.data it indices)
    (atFirst : refusedAtFirst tree.grants calls indices = true)
    (after : After tree calls s) {rounds : ℕ} (enough : indices.length < rounds) :
    ∃ s', loop pagePool rounds it s = some ((), s') := by
  induction passes generalizing calls s rounds with
  | last => exact ⟨s, loop_end rfl enough s⟩
  | @stop it rest valid set later ih =>
    obtain ⟨rounds, rfl⟩ := Nat.exists_eq_succ_of_ne_zero (Nat.ne_zero_of_lt enough)
    have notEnd : it.equals endIterator = false := by simp [equals, endIterator, valid]
    rw [refusedAtFirst] at atFirst
    cases granted : tree.grants calls with
    | true =>
      obtain ⟨middle, stepped, afterStep⟩ := after.steps granted valid set
      rw [if_pos granted] at atFirst
      obtain ⟨s', ended⟩ := ih atFirst afterStep (by simpa using enough)
      exact ⟨s', by simp [loop, notEnd, stateT_bind, stepped, ended]⟩
    | false =>
      obtain ⟨middle, missed, -⟩ := after.misses granted valid set
      rw [granted] at atFirst
      have first : it.index = 0 := by simpa using atFirst
      refine ⟨middle, ?_⟩
      have atEnd : ({ it with pageId := invalidPageId } : BPlusTreeIterator).equals endIterator = true := by
        simp [equals, endIterator, first]
      have ended := loop_end atEnd (by simp at enough; omega : 0 < rounds) middle
      simp [loop, notEnd, stateT_bind, missed, ended]

/-- Then an iterator that is at its end also compares equal to `End()`. -/
theorem recognised_of_passes (passes : Passes tree.data it indices)
    (atFirst : refusedAtFirst tree.grants calls indices = true) (after : After tree calls s) {steps : ℕ}
    {it' : BPlusTreeIterator} {s' : BPlusTree K V} (advanced : advance pagePool steps it s = some (it', s'))
    (last : it'.isEnd = true) : it'.equals endIterator = true := by
  induction passes generalizing calls s steps with
  | last =>
    rw [advance_end rfl] at advanced
    cases advanced
    rfl
  | @stop it rest valid set later ih =>
    cases steps with
    | zero =>
      cases advanced
      simp [isEnd, valid] at last
    | succ steps =>
      rw [refusedAtFirst] at atFirst
      cases granted : tree.grants calls with
      | true =>
        obtain ⟨middle, stepped, afterStep⟩ := after.steps granted valid set
        rw [if_pos granted] at atFirst
        refine ih atFirst afterStep (?_ : advance pagePool steps _ middle = some (it', s'))
        simpa [advance, stateT_bind, stepped] using advanced
      | false =>
        obtain ⟨middle, missed, -⟩ := after.misses granted valid set
        rw [granted] at atFirst
        have first : it.index = 0 := by simpa using atFirst
        have atEnd : ({ it with pageId := invalidPageId } : BPlusTreeIterator).isEnd = true := by simp [isEnd]
        have ended := advance_end atEnd steps middle
        simp only [advance, stateT_bind, missed, Option.bind_some, ended] at advanced
        cases advanced
        simp [equals, endIterator, first]

/-- Refused inside a leaf, the iterator is at its end and does not compare equal to `End()`. -/
theorem stranded_of_passes (passes : Passes tree.data it indices)
    (inside : refusedAtFirst tree.grants calls indices = false) (after : After tree calls s) :
    ∃ steps it' s', advance pagePool steps it s = some (it', s') ∧ it'.isEnd = true ∧
      it'.equals endIterator = false := by
  induction passes generalizing calls s with
  | last => cases inside
  | @stop it rest valid set later ih =>
    rw [refusedAtFirst] at inside
    cases granted : tree.grants calls with
    | true =>
      obtain ⟨middle, stepped, afterStep⟩ := after.steps granted valid set
      rw [if_pos granted] at inside
      obtain ⟨steps, it', s', advanced, last, different⟩ := ih inside afterStep
      exact ⟨steps + 1, it', s', by simp [advance, stateT_bind, stepped, advanced], last, different⟩
    | false =>
      obtain ⟨middle, missed, -⟩ := after.misses granted valid set
      rw [granted] at inside
      have notFirst : it.index ≠ 0 := by simpa using inside
      refine ⟨1, { it with pageId := invalidPageId }, middle, ?_, ?_, ?_⟩
      · simp [advance, stateT_bind, missed, stateT_pure]
      · simp [isEnd]
      · simp [equals, endIterator, notFirst]

end Paths

section Starts

variable {tree s : BPlusTree K V} {calls height rounds : ℕ} {p : PageId} {known : PageId → Prop}

theorem granted_succ {grants : ℕ → Bool} {calls count : ℕ} :
    (∀ call < count + 1, grants (calls + call) = true) ↔
    grants calls = true ∧ ∀ call < count, grants (calls + 1 + call) = true := by
  constructor
  · intro all
    refine ⟨all 0 (Nat.succ_pos _), fun call bound => ?_⟩
    rw [Nat.add_assoc, Nat.add_comm 1]
    exact all (call + 1) (Nat.succ_lt_succ bound)
  · rintro ⟨first, later⟩ call bound
    cases call with
    | zero => exact first
    | succ call =>
      rw [Nat.add_comm call, ← Nat.add_assoc]
      exact later call (Nat.lt_of_succ_lt_succ bound)

/-- The descent takes one page a level, and gives up at the first refusal. -/
theorem After.descends (child : BPlusTreePage K V → PageId) (after : After tree calls s)
    (uniform : UniformDepth tree.data height p)
    (below : ∀ q, known q → (tree.data q).pageType = .internalPage →
      child (tree.data q) ∈ (tree.data q).children ∧ known (child (tree.data q)))
    (here : known p) (enough : height < rounds) :
    if ∀ call < height, tree.grants (calls + call) = true then
      ∃ s', BPlusTreeIterator.descend pagePool child rounds p (tree.data p) s =
        some (some (descent child tree.data height p, tree.data (descent child tree.data height p)), s') ∧
          After tree (calls + height) s'
    else ∃ s', BPlusTreeIterator.descend pagePool child rounds p (tree.data p) s = some (none, s') := by
  induction height generalizing p rounds calls s with
  | zero =>
    obtain ⟨rounds, rfl⟩ := Nat.exists_eq_succ_of_ne_zero (Nat.ne_zero_of_lt enough)
    rw [UniformDepth] at uniform
    rw [if_pos fun call bound => absurd bound (Nat.not_lt_zero call)]
    refine ⟨s, ?_, after⟩
    simp [BPlusTreeIterator.descend, isLeafPage, uniform, descent, stateT_pure]
  | succ height ih =>
    obtain ⟨rounds, rfl⟩ := Nat.exists_eq_succ_of_ne_zero (Nat.ne_zero_of_lt enough)
    obtain ⟨member, here'⟩ := below p here uniform.1
    obtain ⟨released, unpinned, afterUnpin⟩ := after.unpinned p
    cases granted : tree.grants calls with
    | true =>
      obtain ⟨pinned, fetched, afterFetch⟩ := afterUnpin.fetched granted (child (tree.data p))
      have further := ih afterFetch (uniform.2 _ member) here' (Nat.lt_of_succ_lt_succ enough)
      simp only [granted_succ, granted, true_and]
      split_ifs at further ⊢
      · obtain ⟨s', ran, after'⟩ := further
        refine ⟨s', ?_, by rwa [Nat.add_comm height, ← Nat.add_assoc]⟩
        simp [BPlusTreeIterator.descend, isLeafPage, uniform.1, descent, stateT_bind, unpinned, fetched, ran]
      · obtain ⟨s', ran⟩ := further
        refine ⟨s', ?_⟩
        simp [BPlusTreeIterator.descend, isLeafPage, uniform.1, stateT_bind, unpinned, fetched, ran]
    | false =>
      simp only [granted_succ, granted, Bool.false_eq_true, false_and, if_false]
      obtain ⟨s', missed, -⟩ := afterUnpin.refused granted (child (tree.data p))
      refine ⟨s', ?_⟩
      simp [BPlusTreeIterator.descend, isLeafPage, uniform.1, stateT_bind, unpinned, missed, stateT_pure]

/-- A start finds its iterator with one call a level, or hands out `End()`. -/
def StartsAt (tree : BPlusTree K V) (start : PageId → ℕ → StateT (BPlusTree K V) Option BPlusTreeIterator)
    (height : ℕ) (it : BPlusTreeIterator) : Prop :=
  ∀ rounds > height, if ∀ call < height + 1, tree.grants (tree.calls + call) = true then
      ∃ s, start tree.rootPageId rounds tree = some (it, s) ∧ After tree (tree.calls + (height + 1)) s
    else ∃ s, start tree.rootPageId rounds tree = some (endIterator, s)

variable [LinearOrder K]

theorem WellFormedAt.startsAt_begin (wellFormed : tree.WellFormedAt height) :
    StartsAt tree (begin pagePool) height
      ⟨descent (fun page => InternalPage.valueAt page 0) tree.data height tree.rootPageId, 0, true⟩ := by
  intro rounds enough
  have valid : tree.rootPageId ≠ invalidPageId := wellFormed.valid .refl
  have opened : After tree tree.calls tree := ⟨rfl, rfl, rfl⟩
  cases granted : tree.grants tree.calls with
  | true =>
    obtain ⟨pinned, fetched, afterFetch⟩ := opened.fetched granted tree.rootPageId
    have further := afterFetch.descends (fun page => InternalPage.valueAt page 0) wellFormed.uniform
      (fun q => wellFormed.first_child (q := q)) .refl enough
    simp only [granted_succ, granted, true_and]
    split_ifs at further ⊢
    · obtain ⟨s, ran, after⟩ := further
      obtain ⟨released, unpinned, afterUnpin⟩ := after.unpinned
        (descent (fun page => InternalPage.valueAt page 0) tree.data height tree.rootPageId)
      refine ⟨released, ?_, by rwa [Nat.add_comm height, ← Nat.add_assoc]⟩
      simp [begin, valid, stateT_bind, stateT_map, fetched, ran, unpinned]
    · obtain ⟨s, ran⟩ := further
      exact ⟨s, by simp [begin, valid, stateT_bind, fetched, ran, stateT_pure]⟩
  | false =>
    obtain ⟨s, missed, -⟩ := opened.refused granted tree.rootPageId
    simp only [granted_succ, granted, Bool.false_eq_true, false_and, if_false]
    exact ⟨s, by simp [begin, valid, stateT_bind, missed, stateT_pure]⟩

theorem WellFormedAt.startsAt_beginAt (wellFormed : tree.WellFormedAt height) (key : K) :
    StartsAt tree (beginAt pagePool key) height
      (if (tree.data (route tree.data key height tree.rootPageId)).size ≤
          LeafPage.keyIndex (tree.data (route tree.data key height tree.rootPageId)) key then
        ⟨(tree.data (route tree.data key height tree.rootPageId)).nextPageId, 0, true⟩
      else ⟨route tree.data key height tree.rootPageId,
        LeafPage.keyIndex (tree.data (route tree.data key height tree.rootPageId)) key, true⟩) := by
  intro rounds enough
  have valid : tree.rootPageId ≠ invalidPageId := wellFormed.valid .refl
  have opened : After tree tree.calls tree := ⟨rfl, rfl, rfl⟩
  cases granted : tree.grants tree.calls with
  | true =>
    obtain ⟨pinned, fetched, afterFetch⟩ := opened.fetched granted tree.rootPageId
    have further := afterFetch.descends (fun page => InternalPage.lookup page key) wellFormed.uniform
      (fun q => wellFormed.lookup_child key (q := q)) .refl enough
    rw [descent_lookup] at further
    simp only [granted_succ, granted, true_and]
    split_ifs at further ⊢ with all exhausted
    · obtain ⟨s, ran, after⟩ := further
      obtain ⟨released, unpinned, afterUnpin⟩ := after.unpinned (route tree.data key height tree.rootPageId)
      refine ⟨released, ?_, by rwa [Nat.add_comm height, ← Nat.add_assoc]⟩
      simp [beginAt, valid, stateT_bind, fetched, ran, unpinned, exhausted, stateT_pure]
    · obtain ⟨s, ran, after⟩ := further
      obtain ⟨released, unpinned, afterUnpin⟩ := after.unpinned (route tree.data key height tree.rootPageId)
      refine ⟨released, ?_, by rwa [Nat.add_comm height, ← Nat.add_assoc]⟩
      simp [beginAt, valid, stateT_bind, fetched, ran, unpinned, exhausted, stateT_pure]
    · obtain ⟨s, ran⟩ := further
      exact ⟨s, by simp [beginAt, valid, stateT_bind, fetched, ran, stateT_pure]⟩
  | false =>
    obtain ⟨s, missed, -⟩ := opened.refused granted tree.rootPageId
    simp only [granted_succ, granted, Bool.false_eq_true, false_and, if_false]
    exact ⟨s, by simp [beginAt, valid, stateT_bind, missed, stateT_pure]⟩

end Starts

section Main

variable {tree : BPlusTree K V}
    {start : PageId → ℕ → StateT (BPlusTree K V) Option BPlusTreeIterator} {height : ℕ}
  {it : BPlusTreeIterator} {indices : List ℕ}

/-- A loop from a known start. -/
theorem StartsAt.ends_iff (starts : StartsAt tree start height it) (passes : Passes tree.data it indices) :
    tree.LoopEnds start ↔ ((∀ call < height + 1, tree.grants (tree.calls + call) = true) →
      refusedAtFirst tree.grants (tree.calls + (height + 1)) indices = true) := by
  constructor
  · rintro ⟨enough, ends⟩ granted
    by_contra inside
    have found := starts (max enough (height + 1)) (by omega)
    rw [if_pos granted] at found
    obtain ⟨s, begun, after⟩ := found
    obtain ⟨steps, it', s', advanced, last, different⟩ :=
      stranded_of_passes passes (Bool.eq_false_iff.mpr inside) after
    have recognised := (ends (max enough (height + 1)) (le_max_left _ _)).2 steps it' s'
      (by simp [stateT_bind, begun, advanced]) last
    exact Bool.false_ne_true (different.symm.trans recognised)
  · intro atFirst
    refine ⟨height + indices.length + 1, fun rounds enough => ?_⟩
    have found := starts rounds (by omega)
    split_ifs at found with granted
    · obtain ⟨s, begun, after⟩ := found
      obtain ⟨s', ended⟩ := loop_ends_of_passes passes (atFirst granted) after (by omega : indices.length < rounds)
      refine ⟨⟨s', by simp [stateT_bind, begun, ended]⟩, fun steps it' s' ran last => ?_⟩
      simp only [stateT_bind, begun, Option.bind_some] at ran
      exact recognised_of_passes passes (atFirst granted) after ran last
    · obtain ⟨s, begun⟩ := found
      refine ⟨⟨s, ?_⟩, fun steps it' s' ran last => ?_⟩
      · simp only [stateT_bind, begun, Option.bind_some]
        exact loop_end rfl (by omega) s
      · simp only [stateT_bind, begun, Option.bind_some, advance_end (show endIterator.isEnd = true from rfl)] at ran
        cases ran
        rfl

theorem loopEnds_of_empty (start : PageId → ℕ → StateT (BPlusTree K V) Option BPlusTreeIterator)
    (empty : ∀ rounds, start tree.rootPageId rounds tree = some (endIterator, tree)) : tree.LoopEnds start := by
  refine ⟨1, fun rounds enough => ⟨⟨tree, ?_⟩, fun steps it' s' ran last => ?_⟩⟩
  · simp only [stateT_bind, empty, Option.bind_some]
    exact loop_end rfl enough tree
  · simp only [stateT_bind, empty, Option.bind_some, advance_end (show endIterator.isEnd = true from rfl)] at ran
    cases ran
    rfl

/-- A descent ends at a leaf of its subtree. -/
theorem descent_mem_leavesOf {child : BPlusTreePage K V → PageId} {d : PageStore K V}
    {known : PageId → Prop} {p : PageId}
    (uniform : UniformDepth d height p)
    (below : ∀ q, known q → (d q).pageType = .internalPage → child (d q) ∈ (d q).children ∧
      known (child (d q)))
    (here : known p) : descent child d height p ∈ leavesOf d height p := by
  induction height generalizing p with
  | zero => exact List.mem_singleton_self p
  | succ height ih =>
    obtain ⟨member, here'⟩ := below p here uniform.1
    obtain ⟨link, linked, same⟩ := mem_children.mp member
    rw [leavesOf_succ, leavesIn, List.mem_flatMap]
    exact ⟨link, linked, same ▸ ih (uniform.2 _ member) here'⟩

variable [LinearOrder K]

/-- Where the loop from `Begin(key)` stands: in the leaf of the key from the key on, then in the leaves after it. -/
def indicesFrom (tree : BPlusTree K V) (key : K) (height : ℕ) : List ℕ :=
  let leaf := route tree.data key height tree.rootPageId
  (List.range (tree.data leaf).size).drop (LeafPage.keyIndex (tree.data leaf) key) ++
    indicesOf tree.data ((leavesOf tree.data height tree.rootPageId).dropWhile (· ≠ leaf)).tail

/-- If `Begin` gets through, with one call a level, the first increment that is refused its page stands at index
zero, if there is one. -/
def RefusedAtFirst (tree : BPlusTree K V) (indices : ℕ → List ℕ) : Prop :=
  ∀ height, tree.WellFormedAt height → (∀ call < height + 1, tree.grants (tree.calls + call) = true) →
    refusedAtFirst tree.grants (tree.calls + (height + 1)) (indices height) = true

/-- The loop from `Begin()` passes the leaves from the first one on. -/
theorem WellFormedAt.passes_begin (wellFormed : tree.WellFormedAt height) :
    Passes tree.data ⟨descent (fun page => InternalPage.valueAt page 0) tree.data height tree.rootPageId, 0, true⟩
      (indicesOf tree.data (leavesOf tree.data height tree.rootPageId)) := by
  rw [← leavesOf_head wellFormed.uniform (fun q => wellFormed.internal_positive (q := q)) invalidPageId]
  exact passes_chain wellFormed.leafChain fun q leaf => wellFormed.valid (wellFormed.reaches_leaf leaf).1

theorem WellFormedAt.passes_beginAt (wellFormed : tree.WellFormedAt height) (key : K) :
    Passes tree.data (if (tree.data (route tree.data key height tree.rootPageId)).size ≤
          LeafPage.keyIndex (tree.data (route tree.data key height tree.rootPageId)) key then
        ⟨(tree.data (route tree.data key height tree.rootPageId)).nextPageId, 0, true⟩
      else ⟨route tree.data key height tree.rootPageId,
        LeafPage.keyIndex (tree.data (route tree.data key height tree.rootPageId)) key, true⟩)
      (tree.indicesFrom key height) := by
  have inside : route tree.data key height tree.rootPageId ∈ leavesOf tree.data height tree.rootPageId := by
    rw [← descent_lookup]
    exact descent_mem_leavesOf wellFormed.uniform (fun q => wellFormed.lookup_child key (q := q)) .refl
  have chain := wellFormed.leafChain
  have each (q : PageId) (leaf : q ∈ leavesOf tree.data height tree.rootPageId) : q ≠ invalidPageId :=
    wellFormed.valid (wellFormed.reaches_leaf leaf).1
  rw [indicesFrom]
  generalize route tree.data key height tree.rootPageId = leaf at *
  generalize leavesOf tree.data height tree.rootPageId = leaves at *
  obtain ⟨front, back, rfl, notBefore⟩ := List.eq_append_cons_of_mem inside
  have cut : (front ++ leaf :: back).dropWhile (· ≠ leaf) = leaf :: back := by
    rw [List.dropWhile_append_of_pos]
    · simp
    · intro q member
      have different : q ≠ leaf := fun same => notBefore (same ▸ member)
      simp [different]
  rw [cut, List.tail_cons]
  obtain ⟨follows, chainBack⟩ := chain.drop.tail
  have later := passes_chain chainBack fun q member => each q (by simp [member])
  rw [← follows] at later
  split
  · next exhausted =>
    rw [List.drop_of_length_le (by rw [List.length_range]; exact exhausted)]
    exact later
  · next more =>
    have positive : max 1 (tree.data leaf).size = (tree.data leaf).size := by omega
    rw [← positive]
    exact Passes.leaf (each leaf inside) later (by omega)

/-- The loop from `Begin()` ends exactly if its first refused increment stands at index zero, and so does the one from
`Begin(key)`. -/
theorem loopEnds_iff (wellFormed : tree.WellFormed) :
    (tree.LoopEnds (begin pagePool) ↔
      tree.RefusedAtFirst fun height => indicesOf tree.data (leavesOf tree.data height tree.rootPageId)) ∧
    ∀ key, tree.LoopEnds (beginAt pagePool key) ↔ tree.RefusedAtFirst (tree.indicesFrom key) := by
  by_cases empty : tree.rootPageId = invalidPageId
  · have none (indices : ℕ → List ℕ) : tree.RefusedAtFirst indices :=
      fun height wellFormedAt => absurd empty (wellFormedAt.valid .refl)
    constructor
    · refine iff_of_true (loopEnds_of_empty _ fun rounds => ?_) (none _)
      simp [begin, empty, stateT_pure]
    · refine fun key => iff_of_true (loopEnds_of_empty _ fun rounds => ?_) (none _)
      simp [beginAt, empty, stateT_pure]
  · obtain ⟨height, wellFormedAt⟩ := wellFormed.rooted empty
    constructor
    · constructor
      · exact fun ends other wellFormedOther =>
          (wellFormedOther.startsAt_begin.ends_iff wellFormedOther.passes_begin).mp ends
      · exact fun atFirst =>
          (wellFormedAt.startsAt_begin.ends_iff wellFormedAt.passes_begin).mpr (atFirst height wellFormedAt)
    · intro key
      constructor
      · exact fun ends other wellFormedOther =>
          ((wellFormedOther.startsAt_beginAt key).ends_iff (wellFormedOther.passes_beginAt key)).mp ends
      · exact fun atFirst => ((wellFormedAt.startsAt_beginAt key).ends_iff
          (wellFormedAt.passes_beginAt key)).mpr (atFirst height wellFormedAt)

/-- Which calls are granted does not matter to the shape. -/
theorem WellFormedAt.withGrants (wellFormed : tree.WellFormedAt height) (grants : ℕ → Bool) :
    WellFormedAt { tree with grants := grants } height :=
  ⟨wellFormed.uniform, wellFormed.leafKeys, wellFormed.internalKeys, wellFormed.separators, wellFormed.capacity,
    wellFormed.notOverfull, wellFormed.notUnderfull, wellFormed.rootLeaf, wellFormed.rootInternal, wellFormed.parents,
    wellFormed.leafChain, wellFormed.distinct, wellFormed.allocated⟩

/-- Two entries in one leaf on page 0. -/
def pairTree (grants : ℕ → Bool) : BPlusTree ℕ ℕ :=
  { sampleTree [sampleLeaf (-1) (-1) [(1, 10), (2, 20)]] with grants := grants }

theorem pairTree_wellFormed (grants : ℕ → Bool) : (pairTree grants).WellFormed := by
  have base : (sampleTree [sampleLeaf (-1) (-1) [(1, 10), (2, 20)]]).WellFormedAt 0 :=
    wellFormedAt_of_rooted (by decide) (by decide)
      ⟨by decide, by decide, by decide, by decide, by decide, by unfold LeafChain; decide⟩ (by decide) (by decide)
      (by decide)
  exact ⟨Int.natCast_nonneg _, fun _ => ⟨0, base.withGrants grants⟩⟩

/-- Refused at once, the increment stands at index zero. -/
theorem loopEnds_pairTree : (pairTree (· != 1)).LoopEnds (begin pagePool) := by
  refine (loopEnds_iff (pairTree_wellFormed _)).1.mpr fun height wellFormedAt _ => ?_
  cases height with
  | zero => decide
  | succ height => exact absurd wellFormedAt.uniform.1 (by decide)

/-- The second increment is refused inside the leaf, and the loop does not end. -/
theorem loop_strands_pairTree :
    (pairTree (· != 2)).WellFormed ∧ ¬ (pairTree (· != 2)).LoopEnds (begin pagePool) := by
  refine ⟨pairTree_wellFormed _, ?_⟩
  rintro ⟨enough, ends⟩
  have stranded := (ends (enough + 1) (Nat.le_succ enough)).2 2 ⟨invalidPageId, 1, true⟩ _ rfl rfl
  exact absurd stranded (by decide)

end Main

end BPlusTree

end OneBase
