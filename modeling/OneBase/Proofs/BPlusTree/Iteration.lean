import OneBase.Model.BPlusTreeIterator
import OneBase.Proofs.BPlusTree.Search

/-! # What an iteration reads

A pool lends a page when a fetch of it gives the page as the store has it, and the unpin that follows restores all
that was held before. The end of a leaf takes more, since `operator++` then unpins another page than it fetched: a
pool that releases goes on with all it held whatever page is unpinned. Over a pool that does both, every step of an
iterator is a step along the leaf chain, so a whole loop visits what the chain shows: the entries of each leaf, and
one stale cell of a leaf that has none. -/

namespace OneBase

open BPlusTreePage PageStore ArrayLoops

variable {σ K V : Type}

section Steps

variable {α β : Type} (s : σ)

theorem stateT_bind (m : StateT σ Option α) (f : α → StateT σ Option β) :
    (m >>= f) s = (m s).bind fun result => f result.1 result.2 := rfl

theorem stateT_pure (a : α) : (pure a : StateT σ Option α) s = some (a, s) := rfl

theorem stateT_map (f : α → β) (m : StateT σ Option α) :
    (f <$> m) s = (m s).map fun result => (f result.1, result.2) := by
  rw [map_eq_pure_bind, stateT_bind]
  cases m s <;> rfl

end Steps

/-- From every state that holds, the pool lends each known page of the store and takes it back. -/
def Lends (pool : PagePool σ K V) (holds : σ → Prop) (d : PageStore K V) (known : PageId → Prop) : Prop :=
  ∀ p, known p → ∀ s, holds s → ∃ pinned released, pool.fetchPage p s = some (some (d p), pinned) ∧
    pool.unpinPage p false pinned = some ((), released) ∧ holds released

/-- After a fetch, the pool takes back any page. -/
def Releases (pool : PagePool σ K V) (holds : σ → Prop) : Prop :=
  ∀ p s got pinned, holds s → pool.fetchPage p s = some (got, pinned) → ∀ q, ∃ released,
    pool.unpinPage q false pinned = some ((), released) ∧ holds released

/-- The cells of a leaf that an iterator starting at its first one dereferences. -/
def BPlusTreePage.shown (page : BPlusTreePage K V) : List (K × V) := slice page.leafArray (max 1 page.size)

theorem BPlusTreePage.shown_of_positive {page : BPlusTreePage K V} (positive : 1 ≤ page.size) :
    page.shown = page.entries := by
  rw [shown, entries, max_eq_right positive]

theorem BPlusTreePage.length_shown (page : BPlusTreePage K V) : page.shown.length = max 1 page.size := by
  simp [shown]

/-- The first link of a chain and the chain after it. -/
theorem PageStore.LeafChain.tail {d : PageStore K V} {p last : PageId} {rest : List PageId}
    (chain : LeafChain d (p :: rest) last) : (d p).nextPageId = rest.headD last ∧ LeafChain d rest last := by
  cases rest with
  | nil => simp_all [LeafChain]
  | cons q rest =>
    rw [LeafChain, List.cons_append, List.cons_append, List.isChain_cons_cons] at chain
    exact chain

theorem PageStore.LeafChain.drop {d : PageStore K V} {last : PageId} {front back : List PageId}
    (chain : LeafChain d (front ++ back) last) : LeafChain d back last := by
  rw [LeafChain, List.append_assoc] at chain
  exact chain.right_of_append

namespace BPlusTreeIterator

variable {pool : PagePool σ K V} {holds : σ → Prop} {d : PageStore K V} {known : PageId → Prop}
  {it : BPlusTreeIterator}

/-- Where `operator++` goes on the pages of the store. -/
def next (d : PageStore K V) (it : BPlusTreeIterator) : BPlusTreeIterator :=
  if (d it.pageId).size ≤ it.index + 1 then { it with pageId := (d it.pageId).nextPageId, index := 0 }
  else { it with index := it.index + 1 }

/-- The pin counts after a step that fetched `p` and unpinned `q`. -/
def handedOn (pinCount : PageId → ℕ) (p q : PageId) : PageId → ℕ :=
  let fetched := Function.update pinCount p (pinCount p + 1)
  Function.update fetched q (fetched q - 1)

theorem handedOn_self (pinCount : PageId → ℕ) (p : PageId) : handedOn pinCount p p = pinCount := by
  simp [handedOn]

/-- A step keeps all pins if it unpins what it fetched, and only then. -/
theorem handedOn_eq_iff (pinCount : PageId → ℕ) (p q : PageId) : handedOn pinCount p q = pinCount ↔ q = p := by
  constructor
  · intro same
    by_contra different
    have grown := congrFun same p
    simp [handedOn, Function.update_of_ne (Ne.symm different)] at grown
  · rintro rfl
    exact handedOn_self pinCount q

section Steps

variable (lends : Lends pool holds d known) (releases : Releases pool holds)

include lends

theorem run_dereference (valid : it.pageId ≠ invalidPageId) (set : it.hasPool = true) (here : known it.pageId)
    {s : σ} (held : holds s) :
    ∃ s', dereference pool it s = some (.ok ((d it.pageId).leafArray it.index), s') ∧ holds s' := by
  obtain ⟨pinned, released, fetched, unpinned, held'⟩ := lends it.pageId here s held
  refine ⟨released, ?_, held'⟩
  simp [dereference, isEnd, valid, set, stateT_bind, stateT_map, fetched, unpinned]

include releases in
theorem run_increment (valid : it.pageId ≠ invalidPageId) (set : it.hasPool = true) (here : known it.pageId)
    {s : σ} (held : holds s) : ∃ s', increment pool it s = some (next d it, s') ∧ holds s' := by
  obtain ⟨pinned, -, fetched, -, -⟩ := lends it.pageId here s held
  obtain ⟨released, unpinned, held'⟩ := releases _ s _ pinned held fetched (next d it).pageId
  refine ⟨released, ?_, held'⟩
  rw [next, set] at unpinned
  simp [increment, isEnd, valid, set, stateT_bind, stateT_map, fetched, unpinned, next]

end Steps

/-- The loop from `it` ends after visiting `visited`, and all that was held before is held again. -/
def ScansTo (pool : PagePool σ K V) (holds : σ → Prop) (it : BPlusTreeIterator) (visited : List (K × V)) : Prop :=
  ∀ rounds > visited.length, ∀ s, holds s → ∃ s', scan pool rounds it s = some (.ok visited, s') ∧ holds s'

theorem scansTo_end (last : it.equals endIterator = true) : ScansTo pool holds it [] := by
  intro rounds enough s held
  obtain ⟨rounds, rfl⟩ := Nat.exists_eq_succ_of_ne_zero (Nat.ne_zero_of_lt enough)
  refine ⟨s, ?_, held⟩
  simp [scan, last, stateT_pure]

section Chain

variable (lends : Lends pool holds d known) (releases : Releases pool holds)

include lends releases

/-- One round of the loop. -/
theorem ScansTo.step (valid : it.pageId ≠ invalidPageId) (set : it.hasPool = true) (here : known it.pageId)
    {rest : List (K × V)} (later : ScansTo pool holds (next d it) rest) :
    ScansTo pool holds it ((d it.pageId).leafArray it.index :: rest) := by
  intro rounds enough s held
  obtain ⟨rounds, rfl⟩ := Nat.exists_eq_succ_of_ne_zero (Nat.ne_zero_of_lt enough)
  obtain ⟨afterRead, read, heldRead⟩ := run_dereference lends valid set here held
  obtain ⟨afterStep, stepped, heldStep⟩ := run_increment lends releases valid set here heldRead
  obtain ⟨last, scanned, heldLast⟩ := later rounds (by simpa using enough) afterStep heldStep
  refine ⟨last, ?_, heldLast⟩
  have notEnd : it.equals endIterator = false := by simp [equals, endIterator, valid]
  simp [scan, notEnd, stateT_bind, stateT_map, read, stepped, scanned, Except.map]

/-- The rest of one leaf, the loop going on at the next. -/
theorem ScansTo.leaf {p : PageId} (valid : p ≠ invalidPageId) (here : known p) {rest : List (K × V)}
    (later : ScansTo pool holds ⟨(d p).nextPageId, 0, true⟩ rest) {index : ℕ}
    (inside : index < max 1 (d p).size) :
    ScansTo pool holds ⟨p, index, true⟩ ((d p).shown.drop index ++ rest) := by
  -- by induction on the cells that are left
  obtain ⟨left, cells⟩ : ∃ left, index + left + 1 = max 1 (d p).size :=
    ⟨max 1 (d p).size - index - 1, by omega⟩
  have cut : (d p).shown.drop index = (d p).leafArray index :: (d p).shown.drop (index + 1) := by
    rw [List.drop_eq_getElem_cons (by rw [length_shown]; exact inside)]
    simp [shown]
  induction left generalizing index with
  | zero =>
    have last : (d p).size ≤ index + 1 := by omega
    rw [cut, List.drop_of_length_le (by rw [length_shown]; omega)]
    apply ScansTo.step lends releases valid rfl here
    simpa [next, last] using later
  | succ left ih =>
    have more : ¬ (d p).size ≤ index + 1 := by omega
    have inside' : index + 1 < max 1 (d p).size := by omega
    rw [cut]
    apply ScansTo.step lends releases valid rfl here
    have goOn := ih inside' (by omega) (by
      rw [List.drop_eq_getElem_cons (by rw [length_shown]; exact inside')]
      simp [shown])
    simpa [next, more] using goOn

/-- A whole chain of leaves. -/
theorem scansTo_chain {leaves : List PageId} (chain : LeafChain d leaves invalidPageId)
    (each : ∀ q ∈ leaves, known q ∧ q ≠ invalidPageId) :
    ScansTo pool holds ⟨leaves.headD invalidPageId, 0, true⟩ (leaves.flatMap fun q => (d q).shown) := by
  induction leaves with
  | nil =>
    apply scansTo_end
    simp [equals, endIterator]
  | cons p rest ih =>
    obtain ⟨here, valid⟩ := each p List.mem_cons_self
    obtain ⟨follows, chain'⟩ := chain.tail
    have later := ih chain' fun q member => each q (List.mem_cons_of_mem _ member)
    rw [← follows] at later
    have first : 0 < max 1 (d p).size := by simp
    simpa using ScansTo.leaf lends releases valid here later first

end Chain

/-- Where a descent that takes `child` ends. -/
def descent (child : BPlusTreePage K V → PageId) (d : PageStore K V) : ℕ → PageId → PageId
  | 0, p => p
  | height + 1, p => descent child d height (child (d p))

theorem descent_lookup [LinearOrder K] (d : PageStore K V) (key : K) (height : ℕ) (p : PageId) :
    descent (fun page => InternalPage.lookup page key) d height p = route d key height p := by
  induction height generalizing p with
  | zero => rfl
  | succ height ih => exact ih _

section Descent

variable {height rounds : ℕ} {p : PageId}

/-- The descent runs along known pages and ends with the leaf pinned. -/
theorem run_descend (child : BPlusTreePage K V → PageId) (lends : Lends pool holds d known)
    (uniform : UniformDepth d height p)
    (below : ∀ q, known q → (d q).pageType = .internalPage → child (d q) ∈ (d q).children ∧
      known (child (d q)))
    (here : known p) (enough : height < rounds) {pinned released : σ}
    (unpinned : pool.unpinPage p false pinned = some ((), released)) (held : holds released) :
    ∃ pinned' released', known (descent child d height p) ∧
      descend pool child rounds p (d p) pinned =
        some (some (descent child d height p, d (descent child d height p)), pinned') ∧
      pool.unpinPage (descent child d height p) false pinned' = some ((), released') ∧ holds released' := by
  induction height generalizing p rounds pinned released with
  | zero =>
    obtain ⟨rounds, rfl⟩ := Nat.exists_eq_succ_of_ne_zero (Nat.ne_zero_of_lt enough)
    rw [UniformDepth] at uniform
    refine ⟨pinned, released, here, ?_, unpinned, held⟩
    simp [descend, isLeafPage, uniform, descent, stateT_pure]
  | succ height ih =>
    obtain ⟨rounds, rfl⟩ := Nat.exists_eq_succ_of_ne_zero (Nat.ne_zero_of_lt enough)
    have enough' : height < rounds := Nat.lt_of_succ_lt_succ enough
    obtain ⟨member, here'⟩ := below p here uniform.1
    obtain ⟨pinned', released', fetched, unpinned', held'⟩ := lends _ here' released held
    obtain ⟨last, freed, knownLeaf, ran, unpinnedLast, heldLast⟩ :=
      ih (uniform.2 _ member) here' enough' unpinned' held'
    refine ⟨last, freed, knownLeaf, ?_, unpinnedLast, heldLast⟩
    simp [descend, isLeafPage, uniform.1, descent, stateT_bind, unpinned, fetched, ran]

/-- `Begin()` gives the first entry of the leftmost leaf. -/
theorem run_begin (lends : Lends pool holds d known) (uniform : UniformDepth d height p)
    (below : ∀ q, known q → (d q).pageType = .internalPage →
      InternalPage.valueAt (d q) 0 ∈ (d q).children ∧ known (InternalPage.valueAt (d q) 0))
    (valid : p ≠ invalidPageId) (here : known p) (enough : height < rounds) {s : σ} (held : holds s) :
    ∃ s', begin pool p rounds s =
      some (⟨descent (fun page => InternalPage.valueAt page 0) d height p, 0, true⟩, s') ∧ holds s' := by
  obtain ⟨pinned, released, fetched, unpinned, held'⟩ := lends p here s held
  obtain ⟨last, freed, -, ran, unpinnedLast, heldLast⟩ :=
    run_descend (fun page => InternalPage.valueAt page 0) lends uniform below here enough unpinned held'
  refine ⟨freed, ?_, heldLast⟩
  simp [begin, valid, stateT_bind, stateT_map, fetched, ran, unpinnedLast]

/-- `Begin(key)` gives the first entry of the leaf that is not below `key`, or the next leaf if there
is none. -/
theorem run_beginAt [LinearOrder K] (lends : Lends pool holds d known) (uniform : UniformDepth d height p) {key : K}
    (below : ∀ q, known q → (d q).pageType = .internalPage →
      InternalPage.lookup (d q) key ∈ (d q).children ∧ known (InternalPage.lookup (d q) key))
    (valid : p ≠ invalidPageId) (here : known p) (enough : height < rounds) {s : σ} (held : holds s) :
    ∃ s', beginAt pool key p rounds s =
      some (if (d (route d key height p)).size ≤ LeafPage.keyIndex (d (route d key height p)) key then
          ⟨(d (route d key height p)).nextPageId, 0, true⟩
        else ⟨route d key height p, LeafPage.keyIndex (d (route d key height p)) key, true⟩, s') ∧ holds s' := by
  obtain ⟨pinned, released, fetched, unpinned, held'⟩ := lends p here s held
  obtain ⟨last, freed, -, ran, unpinnedLast, heldLast⟩ :=
    run_descend (fun page => InternalPage.lookup page key) lends uniform below here enough unpinned held'
  rw [descent_lookup] at ran unpinnedLast
  refine ⟨freed, ?_, heldLast⟩
  by_cases exhausted : (d (route d key height p)).size ≤ LeafPage.keyIndex (d (route d key height p)) key
  · simp [beginAt, valid, stateT_bind, fetched, ran, unpinnedLast, exhausted, stateT_pure]
  · simp [beginAt, valid, stateT_bind, fetched, ran, unpinnedLast, exhausted, stateT_pure]

end Descent

end BPlusTreeIterator

end OneBase
