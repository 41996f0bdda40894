import Mathlib.Data.Fintype.Card
import OneBase.Proofs.BufferPool.Transparent

/-! # Pins

What the pool says about pins, page by page. A fetch is granted if the page is pinned already or fewer pages are pinned
than there are frames; it pins its page once more and no other, and `UnpinPage` takes a pin from the page it names, if
there is one. The frames themselves, and which page is evicted, do not matter to the counts.
-/

namespace OneBase.BufferPoolManager

variable {n : ℕ} {D : Type} {pool pool' : BufferPoolManager n D} {pageId : PageId} {frameId : Fin n}

/-- The pin count of a page, none if it is not in the pool. -/
def pins (pool : BufferPoolManager n D) (pageId : PageId) : ℕ :=
  match pool.pageTable.lookup pageId with
  | some frameId => (pool.pages frameId).pinCount
  | none => 0

/-- Some frame is free or may be evicted. -/
def Available (pool : BufferPoolManager n D) : Prop :=
  ∃ frameId, frameId ∈ pool.freeList ∨ pool.replacer.flag frameId = some true

theorem Bookkeeping.available_iff (book : Bookkeeping pool) :
    Available pool ↔ ∃ frameId, (pool.pages frameId).pinCount = 0 := by
  apply exists_congr
  intro frameId
  rw [book.mem_free, book.flags]
  by_cases holds : pool.Holds frameId
  · simp [holds]
  · simp [holds, (book.clean frameId holds).1]

/-- Unpinning a pinned page lowers the count of its frame. -/
theorem unpinPage_pages (held : pool.pageTable.lookup pageId = some frameId)
    (pinned : (pool.pages frameId).pinCount ≠ 0) (isDirty : Bool) :
    (pool.unpinPage pageId isDirty).1.pageTable = pool.pageTable ∧ ∀ other,
      ((pool.unpinPage pageId isDirty).1.pages other).pinCount =
        if other = frameId then (pool.pages frameId).pinCount - 1 else (pool.pages other).pinCount := by
  rw [unpinPage, held]
  dsimp only
  rw [if_neg pinned]
  refine ⟨by split <;> rfl, fun other => ?_⟩
  by_cases same : other = frameId
  · subst same
    split <;> simp [setPage]
  · split <;> simp [setPage, same]

theorem unpinPage_of_not_pinned (unpinned : pins pool pageId = 0) (isDirty : Bool) :
    (pool.unpinPage pageId isDirty).1 = pool := by
  rw [unpinPage]
  rw [pins] at unpinned
  cases held : pool.pageTable.lookup pageId with
  | none => rfl
  | some frameId =>
    rw [held] at unpinned
    dsimp only
    rw [if_pos unpinned]

/-- Fetching a page that is in the pool raises the count of its frame. -/
theorem fetchPage_hit (held : pool.pageTable.lookup pageId = some frameId) :
    (pool.fetchPage pageId).2 = some frameId ∧ (pool.fetchPage pageId).1.pageTable = pool.pageTable ∧
      ∀ other, ((pool.fetchPage pageId).1.pages other).pinCount =
        if other = frameId then (pool.pages frameId).pinCount + 1 else (pool.pages other).pinCount := by
  rw [fetchPage, held]
  refine ⟨rfl, rfl, fun other => ?_⟩
  by_cases same : other = frameId
  · subst same
    simp [setPage]
  · simp [setPage, same]

/-- The pages that are pinned. -/
def pinnedPages (pool : BufferPoolManager n D) : Finset PageId :=
  (Finset.univ.filter fun frameId => (pool.pages frameId).pinCount ≠ 0).image fun frameId =>
    (pool.pages frameId).pageId

section Counts

variable (book : Bookkeeping pool)

include book

/-- A frame with a pin holds a page, in its place in the table. -/
theorem Bookkeeping.lookup_of_pinned (pinned : (pool.pages frameId).pinCount ≠ 0) :
    pool.pageTable.lookup (pool.pages frameId).pageId = some frameId := by
  refine (book.table _ _).mpr ⟨rfl, ?_⟩
  by_contra unheld
  exact pinned (book.clean frameId unheld).1

theorem Bookkeeping.mem_pinnedPages : pageId ∈ pinnedPages pool ↔ 0 < pins pool pageId := by
  simp only [pinnedPages, Finset.mem_image, Finset.mem_filter, Finset.mem_univ, true_and]
  constructor
  · rintro ⟨frameId, pinned, rfl⟩
    rw [pins, book.lookup_of_pinned pinned]
    exact Nat.pos_of_ne_zero pinned
  · intro pinned
    rw [pins] at pinned
    cases held : pool.pageTable.lookup pageId with
    | none => simp [held] at pinned
    | some frameId =>
      rw [held] at pinned
      exact ⟨frameId, pinned.ne', ((book.table _ _).mp held).1⟩

/-- Every pinned page takes one frame. -/
theorem Bookkeeping.card_pinnedPages :
    (pinnedPages pool).card = (Finset.univ.filter fun frameId => (pool.pages frameId).pinCount ≠ 0).card := by
  apply Finset.card_image_of_injOn
  intro frameId pinned other pinned' same
  have here := book.lookup_of_pinned (Finset.mem_filter.mp pinned).2
  have there := book.lookup_of_pinned (Finset.mem_filter.mp pinned').2
  exact Option.some.inj (here.symm.trans ((congrArg pool.pageTable.lookup same).trans there))

theorem Bookkeeping.card_pinnedPages_le : (pinnedPages pool).card ≤ n := by
  rw [book.card_pinnedPages]
  exact (Finset.card_le_univ _).trans_eq (Fintype.card_fin n)

theorem Bookkeeping.available_iff_card : Available pool ↔ (pinnedPages pool).card < n := by
  have frames := Finset.card_lt_iff_ne_univ (Finset.univ.filter fun frameId => (pool.pages frameId).pinCount ≠ 0)
  rw [Fintype.card_fin] at frames
  rw [book.available_iff, book.card_pinnedPages, frames, ne_eq, Finset.filter_eq_self]
  simp

/-- What is pinned, and with it whether a frame can be had, depends on the counts alone. -/
theorem Bookkeeping.pinnedPages_congr (book' : Bookkeeping pool') (same : pins pool' = pins pool) :
    pinnedPages pool' = pinnedPages pool := by
  ext pageId
  rw [book.mem_pinnedPages, book'.mem_pinnedPages, same]

/-- A page that is neither pinned nor finds a frame is refused. -/
theorem Bookkeeping.fetchPage_refused (unpinned : pins pool pageId = 0) (unavailable : ¬ Available pool) :
    pool.fetchPage pageId = (pool, none) := by
  rw [book.available_iff] at unavailable
  cases held : pool.pageTable.lookup pageId with
  | some frameId =>
    rw [pins, held] at unpinned
    exact absurd ⟨frameId, unpinned⟩ unavailable
  | none =>
    rcases book.fetchPage_cases held with ⟨failed, -⟩ | ⟨pool', frameId, vacates, -⟩
    · exact failed
    · exact absurd ⟨frameId, vacates.unpinned⟩ unavailable

/-- Any other page is fetched. -/
theorem Bookkeeping.fetchPage_granted (granted : 0 < pins pool pageId ∨ Available pool) :
    ∃ frameId, (pool.fetchPage pageId).2 = some frameId := by
  cases held : pool.pageTable.lookup pageId with
  | some frameId => exact ⟨frameId, (fetchPage_hit held).1⟩
  | none =>
    rcases book.fetchPage_cases held with ⟨-, pinned⟩ | ⟨pool', frameId, -, done⟩
    · rw [pins, held, book.available_iff] at granted
      obtain ⟨frameId, unpinned⟩ := granted.resolve_left (lt_irrefl 0)
      exact absurd unpinned (pinned frameId).2.ne'
    · exact ⟨frameId, by rw [done]⟩

theorem Bookkeeping.pins_fetchPage (fetched : (pool.fetchPage pageId).2 = some frameId) :
    pins (pool.fetchPage pageId).1 = Function.update (pins pool) pageId (pins pool pageId + 1) := by
  funext q
  rw [Function.update_apply]
  cases held : pool.pageTable.lookup pageId with
  | some frame =>
    obtain ⟨-, table, counts⟩ := fetchPage_hit held
    rw [pins, table]
    split_ifs with asked
    · rw [asked, pins, held]
      exact (counts frame).trans (if_pos rfl)
    · rw [pins]
      cases was : pool.pageTable.lookup q with
      | none => rfl
      | some other =>
        have different : other ≠ frame := by
          rintro rfl
          exact asked (((book.table q other).mp was).1.symm.trans ((book.table pageId other).mp held).1)
        exact (counts other).trans (if_neg different)
  | none =>
    rcases book.fetchPage_cases held with ⟨failed, -⟩ | ⟨pool', frame, vacates, done⟩
    · rw [failed] at fetched
      cases fetched
    · have table := lookup_install vacates pool'.nextPageId pageId (pool'.disk pageId) q
      have frames (other : Fin n) := pages_install vacates pool'.nextPageId pageId (pool'.disk pageId) other
      have installed : (pool.fetchPage pageId).1 =
          { pool' with nextPageId := pool'.nextPageId }.install frame pageId (pool'.disk pageId) := by rw [done]
      rw [← installed] at table frames
      rw [pins, table]
      split_ifs with asked victim
      · rw [pins, held]
        exact congrArg Page.pinCount ((frames frame).trans (if_pos rfl))
      · -- the page that was in the frame had no pin
        rw [pins]
        cases was : pool.pageTable.lookup q with
        | none => rfl
        | some other =>
          obtain ⟨named, holds⟩ := (book.table q other).mp was
          have inFrame := (book.table q frame).mpr ⟨victim.symm, by rwa [Holds, ← victim, ← named]⟩
          obtain rfl := Option.some.inj (was.symm.trans inFrame)
          exact vacates.unpinned.symm
      · rw [pins]
        cases was : pool.pageTable.lookup q with
        | none => rfl
        | some other =>
          have different : other ≠ frame := by
            rintro rfl
            exact victim ((book.table q other).mp was).1.symm
          exact congrArg Page.pinCount ((frames other).trans (if_neg different))

/-- `UnpinPage` of a page that is not pinned does nothing. -/
theorem Bookkeeping.pins_unpinPage (pageId : PageId) (isDirty : Bool) :
    pins (pool.unpinPage pageId isDirty).1 = Function.update (pins pool) pageId (pins pool pageId - 1) := by
  rcases Nat.eq_zero_or_pos (pins pool pageId) with unpinned | pinned
  · rw [unpinPage_of_not_pinned unpinned, unpinned]
    exact (Function.update_eq_self_iff.mpr unpinned.symm).symm
  · rw [pins] at pinned
    cases held : pool.pageTable.lookup pageId with
    | none => simp [held] at pinned
    | some frameId =>
      rw [held] at pinned
      obtain ⟨table, counts⟩ := unpinPage_pages held pinned.ne' isDirty
      funext q
      rw [Function.update_apply, pins, table]
      split_ifs with asked
      · rw [asked, pins, held]
        exact (counts frameId).trans (if_pos rfl)
      · rw [pins]
        cases was : pool.pageTable.lookup q with
        | none => rfl
        | some other =>
          have different : other ≠ frameId := by
            rintro rfl
            exact asked (((book.table q other).mp was).1.symm.trans ((book.table pageId other).mp held).1)
          exact (counts other).trans (if_neg different)

end Counts

theorem nextPageId_unpinPage (pool : BufferPoolManager n D) (pageId : PageId) (isDirty : Bool) :
    (pool.unpinPage pageId isDirty).1.nextPageId = pool.nextPageId := by
  rw [unpinPage]
  cases pool.pageTable.lookup pageId with
  | none => rfl
  | some frameId =>
    dsimp only
    split
    · rfl
    · split <;> rfl

theorem Bookkeeping.nextPageId_fetchPage (book : Bookkeeping pool) (pageId : PageId) :
    (pool.fetchPage pageId).1.nextPageId = pool.nextPageId := by
  cases held : pool.pageTable.lookup pageId with
  | some frameId =>
    rw [BufferPoolManager.fetchPage, held]
    rfl
  | none =>
    rcases book.fetchPage_cases held with ⟨failed, -⟩ | ⟨pool', frameId, vacates, done⟩
    · rw [failed]
    · rw [done]
      exact vacates.next

variable [Zero D] {s : Clients n D}

/-- After a visit the pool still is a map from pages to the same contents. -/
theorem Clients.Simulates.visit (simulates : s.Simulates) (valid : 0 ≤ pageId)
    (exists' : pageId < s.pool.nextPageId) :
    Simulates { s with pool := ((s.pool.fetchPage pageId).1.unpinPage pageId false).1 } := by
  have fetched : Simulates (s.step (.fetchPage pageId)) := simulates.fetchPage valid exists'
  apply fetched.unpinPage (show (s.step (.fetchPage pageId)).Legal (.unpinPage pageId false) from ?_)
  intro frameId held last
  -- a client with a pending write has a pin of its own
  by_contra unsaved
  obtain ⟨frame, before, pinned⟩ := simulates.unsaved pageId (eq_true_of_ne_false unsaved)
  obtain ⟨-, table, counts⟩ := fetchPage_hit before
  have here : some frameId = some frame := by
    rw [← held]
    exact (congrArg (AList.lookup pageId) table).trans before
  obtain rfl := Option.some.inj here
  have count := counts frameId
  rw [if_pos rfl] at count
  have last' : ((s.pool.fetchPage pageId).1.pages frameId).pinCount = 1 := last
  omega

/-- A page that loses a pin and is fetched back is as before, even if its last pin went and a client had yet to save
what it wrote. -/
theorem Clients.Simulates.refetch (simulates : s.Simulates) (pinned : 0 < pins s.pool pageId) (valid : 0 ≤ pageId)
    (exists' : pageId < s.pool.nextPageId) :
    Simulates { s with pool := ((s.pool.unpinPage pageId false).1.fetchPage pageId).1 } := by
  have next := nextPageId_unpinPage s.pool pageId false
  have book : Bookkeeping ((s.pool.unpinPage pageId false).1.fetchPage pageId).1 :=
    (simulates.book.unpinPage pageId false).fetchPage valid (next ▸ exists')
  rw [pins] at pinned
  cases held : s.pool.pageTable.lookup pageId with
  | none => simp [held] at pinned
  | some frameId =>
    rw [held] at pinned
    obtain ⟨table, -⟩ := unpinPage_pages held pinned.ne' false
    have held' : (s.pool.unpinPage pageId false).1.pageTable.lookup pageId = some frameId := by rw [table, held]
    obtain ⟨-, table', counts⟩ := fetchPage_hit held'
    have left : ((s.pool.unpinPage pageId false).1.fetchPage pageId).1.disk = s.pool.disk ∧
        (∀ other ≠ frameId, ((s.pool.unpinPage pageId false).1.fetchPage pageId).1.pages other =
          s.pool.pages other) ∧
        (((s.pool.unpinPage pageId false).1.fetchPage pageId).1.pages frameId).data = (s.pool.pages frameId).data ∧
        (((s.pool.unpinPage pageId false).1.fetchPage pageId).1.pages frameId).isDirty =
          (s.pool.pages frameId).isDirty := by
      rw [BufferPoolManager.fetchPage, held']
      simp only [BufferPoolManager.unpinPage, held, pinned.ne', if_false]
      split <;> simp +contextual [BufferPoolManager.setPage]
    obtain ⟨disk, pages, data, dirty⟩ := left
    refine simulates.setPage book held (table'.trans table) disk ?_ pages data (fun clean => dirty.symm.trans clean)
      (fun _ _ => rfl) (fun _ => ?_) fun _ => id
    · rw [(simulates.book.unpinPage pageId false).nextPageId_fetchPage, next]
    · rw [counts, if_pos rfl]
      exact Nat.succ_pos _

end OneBase.BufferPoolManager
