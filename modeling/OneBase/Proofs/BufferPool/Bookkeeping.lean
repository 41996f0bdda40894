import Mathlib.Algebra.GroupWithZero.Nat
import OneBase.Model.BufferPoolManager
import OneBase.Proofs.BufferPool.Replacer
import OneBase.ToMathlib.Traces

/-! # The bookkeeping of the buffer pool

Page table, free list and replacer say the same about each frame. `NewPage` and a miss in `FetchPage`
first vacate a frame, which is then in none of the three, and install a page in it, which must not be
in the pool already. `FetchPage` looks; `NewPage` relies on page ids being new, which they are as long
as no page is fetched before it exists.
-/

namespace OneBase.BufferPoolManager

open LruKReplacer Traces

variable {n : ℕ} {D : Type} {pool pool' : BufferPoolManager n D} {frameId : Fin n} {pageId : PageId}

/-- A frame holds a page. -/
def Holds (pool : BufferPoolManager n D) (frameId : Fin n) : Prop := (pool.pages frameId).pageId ≠ invalidPageId

instance : Decidable (pool.Holds frameId) := inferInstanceAs (Decidable (_ ≠ _))

/-- Page table, free list, frames and replacer are in step. -/
structure Bookkeeping (pool : BufferPoolManager n D) : Prop where
  table : ∀ pageId frameId, pool.pageTable.lookup pageId = some frameId ↔
    (pool.pages frameId).pageId = pageId ∧ pool.Holds frameId
  free : pool.freeList.Nodup
  mem_free : ∀ frameId, frameId ∈ pool.freeList ↔ ¬ pool.Holds frameId
  flags : ∀ frameId, pool.replacer.flag frameId =
    if pool.Holds frameId then some (decide ((pool.pages frameId).pinCount = 0)) else none
  clean : ∀ frameId, ¬ pool.Holds frameId →
    (pool.pages frameId).pinCount = 0 ∧ (pool.pages frameId).isDirty = false
  counted : Counted pool.replacer
  allocated : ∀ frameId, (pool.pages frameId).pageId < pool.nextPageId
  next : 0 ≤ pool.nextPageId

theorem invalidPageId_neg : invalidPageId < 0 := by decide

@[simp] theorem replacer_setPage {page : Page D} : (pool.setPage frameId page).replacer = pool.replacer := rfl

@[simp] theorem pageId_flushFrame {other : Fin n} :
    ((pool.flushFrame pageId frameId).pages other).pageId = (pool.pages other).pageId := by
  by_cases same : other = frameId <;> simp [flushFrame, writePage, setPage, same]

/-- A frame was taken out of page table, free list and replacer, and its page saved if it was dirty. -/
structure Vacates (pool pool' : BufferPoolManager n D) (frameId : Fin n) : Prop where
  unpinned : (pool.pages frameId).pinCount = 0
  pages : ∀ other ≠ frameId, pool'.pages other = pool.pages other
  lookup : ∀ pageId, pool'.pageTable.lookup pageId =
    if pageId = (pool.pages frameId).pageId then none else pool.pageTable.lookup pageId
  free : pool'.freeList.Nodup
  mem_free : ∀ other, other ∈ pool'.freeList ↔ other ∈ pool.freeList ∧ other ≠ frameId
  flags : ∀ other, pool'.replacer.flag other = if other = frameId then none else pool.replacer.flag other
  counted : Counted pool'.replacer
  disk : ∀ pageId, pool'.disk pageId =
    if pageId = (pool.pages frameId).pageId ∧ (pool.pages frameId).isDirty then (pool.pages frameId).data
    else pool.disk pageId
  next : pool'.nextPageId = pool.nextPageId

namespace Bookkeeping

theorem lookup_invalid (book : Bookkeeping pool) : pool.pageTable.lookup invalidPageId = none := by
  cases held : pool.pageTable.lookup invalidPageId with
  | none => rfl
  | some frameId =>
    obtain ⟨invalid, holds⟩ := (book.table _ _).mp held
    exact absurd invalid holds

/-- A frame that was taken off the free list or evicted. -/
theorem vacates_dropVictim (book : Bookkeeping pool) (freeList : List (Fin n)) (replacer : LruKReplacer (Fin n))
    (unpinned : (pool.pages frameId).pinCount = 0) (free : freeList.Nodup)
    (mem_free : ∀ other, other ∈ freeList ↔ other ∈ pool.freeList ∧ other ≠ frameId)
    (flags : ∀ other, replacer.flag other = if other = frameId then none else pool.replacer.flag other)
    (counted : Counted replacer) :
    Vacates pool ({ pool with freeList := freeList, replacer := replacer }.dropVictim frameId) frameId := by
  by_cases holds : pool.Holds frameId
  · have valid : (pool.pages frameId).pageId ≠ invalidPageId := holds
    have lookup (pageId : PageId) : (pool.pageTable.erase (pool.pages frameId).pageId).lookup pageId =
        if pageId = (pool.pages frameId).pageId then none else pool.pageTable.lookup pageId := by
      split
      · next same => rw [same, AList.lookup_erase]
      · next different => rw [AList.lookup_erase_ne different]
    cases dirty : (pool.pages frameId).isDirty with
    | true =>
      simp only [dropVictim, dirty, if_true, valid, ne_eq, not_false_iff]
      refine ⟨unpinned, fun other different => ?_, lookup, free, mem_free, flags, counted, fun pageId => ?_, rfl⟩
      · simp [setPage, writePage, different]
      · simp [setPage, writePage, dirty, Function.update_apply]
    | false =>
      simp only [dropVictim, dirty, Bool.false_eq_true, if_false, valid, ne_eq, not_false_iff, if_true]
      refine ⟨unpinned, fun other different => rfl, lookup, free, mem_free, flags, counted, fun pageId => ?_, rfl⟩
      simp [dirty]
  · have invalid : (pool.pages frameId).pageId = invalidPageId := not_not.mp holds
    have dirty := (book.clean frameId holds).2
    simp only [dropVictim, dirty, Bool.false_eq_true, if_false, invalid, ne_eq, not_true_eq_false]
    refine ⟨unpinned, fun other different => rfl, fun pageId => ?_, free, mem_free, flags, counted,
      fun pageId => ?_, rfl⟩
    · split
      · next same => rw [same, invalid, book.lookup_invalid]
      · rfl
    · simp [dirty]

/-- Everything the search for a frame can do. -/
theorem acquireFrame_cases (book : Bookkeeping pool) :
    (pool.acquireFrame = (pool, none) ∧ ∀ frameId, pool.Holds frameId ∧ 0 < (pool.pages frameId).pinCount) ∨
    ∃ pool' frameId, pool.acquireFrame = (pool', some frameId) ∧
      Vacates pool (pool'.dropVictim frameId) frameId := by
  rw [acquireFrame]
  cases listed : pool.freeList with
  | cons frameId rest =>
    have nodup := book.free
    rw [listed, List.nodup_cons] at nodup
    have unheld : ¬ pool.Holds frameId := (book.mem_free frameId).mp (by simp [listed])
    refine .inr ⟨_, frameId, rfl, ?_⟩
    refine book.vacates_dropVictim rest pool.replacer (book.clean frameId unheld).1 nodup.2 (fun other => ?_)
      (fun other => ?_) book.counted
    · rw [listed, List.mem_cons]
      constructor
      · intro member
        exact ⟨.inr member, fun same => nodup.1 (same ▸ member)⟩
      · rintro ⟨same | member, different⟩
        · exact absurd same different
        · exact member
    · split
      · next same => rw [same, book.flags, if_neg unheld]
      · rfl
  | nil =>
    have holds (frameId : Fin n) : pool.Holds frameId := by
      by_contra unheld
      simpa [listed] using (book.mem_free frameId).mpr unheld
    rcases book.counted.evict_cases with
      ⟨failed, none⟩ | ⟨victim, replacer', evicted, flagged, counted, gone, others⟩
    · refine .inl ⟨by simp only [failed, ← listed], fun frameId => ⟨holds frameId, ?_⟩⟩
      have notEvictable := none frameId
      rw [book.flags, if_pos (holds frameId)] at notEvictable
      simpa [Nat.pos_iff_ne_zero] using notEvictable
    · refine .inr ⟨_, victim, by rw [evicted], ?_⟩
      rw [book.flags, if_pos (holds victim)] at flagged
      refine book.vacates_dropVictim [] replacer' (by simpa using flagged) List.nodup_nil (fun other => ?_)
        (fun other => ?_) counted
      · simp [listed]
      · split
        · next same => rw [same, gone]
        · next different => exact others other different

/-- What the frames hold after a page is installed. -/
theorem pages_install (vacates : Vacates pool pool' frameId) (next pageId : PageId) (data : D) (other : Fin n) :
    ({ pool' with nextPageId := next }.install frameId pageId data).pages other =
      if other = frameId then ⟨data, pageId, 1, false⟩ else pool.pages other := by
  by_cases same : other = frameId
  · simp [BufferPoolManager.install, BufferPoolManager.setPage, same]
  · simp [BufferPoolManager.install, BufferPoolManager.setPage, same, vacates.pages other same]

theorem lookup_install (vacates : Vacates pool pool' frameId) (next pageId : PageId) (data : D) (other : PageId) :
    ({ pool' with nextPageId := next }.install frameId pageId data).pageTable.lookup other =
      if other = pageId then some frameId
      else if other = (pool.pages frameId).pageId then none else pool.pageTable.lookup other := by
  rw [← vacates.lookup]
  split
  · next same =>
    subst same
    exact AList.lookup_insert _
  · next different => exact AList.lookup_insert_ne different

/-- A page that is not in the pool is installed in the vacated frame. -/
theorem install (book : Bookkeeping pool) (vacates : Vacates pool pool' frameId) {next : PageId} (data : D)
    (valid : 0 ≤ pageId) (absent : ∀ other ≠ frameId, (pool.pages other).pageId ≠ pageId)
    (later : pool.nextPageId ≤ next) (exists' : pageId < next) :
    Bookkeeping ({ pool' with nextPageId := next }.install frameId pageId data) := by
  have valid' : pageId ≠ invalidPageId := by
    rintro rfl
    exact absurd valid (by decide)
  have pages := pages_install vacates next pageId data
  have holds (other : Fin n) : ({ pool' with nextPageId := next }.install frameId pageId data).Holds other ↔
      other = frameId ∨ pool.Holds other := by
    rw [Holds, pages]
    by_cases same : other = frameId
    · simp [same, valid']
    · simp [same, Holds]
  have lookup := lookup_install vacates next pageId data
  have flags (other : Fin n) : ({ pool' with nextPageId := next }.install frameId pageId data).replacer.flag other =
      if other = frameId then some false else pool.replacer.flag other := by
    simp only [BufferPoolManager.install, setPage, flag_setEvictable, flag_recordAccess, vacates.flags]
    by_cases same : other = frameId <;> simp [same]
  constructor
  · intro other frame
    rw [lookup, pages, holds]
    have old := book.table other frame
    have held := book.table other frameId
    have given := absent frame
    simp only [Holds] at old held ⊢
    grind
  · exact vacates.free
  · intro other
    rw [holds, not_or, ← book.mem_free]
    exact (vacates.mem_free other).trans and_comm
  · intro other
    rw [flags, pages, book.flags]
    by_cases same : other = frameId
    · simp [same, holds]
    · simp [same, holds]
  · intro other unheld
    rw [holds, not_or] at unheld
    rw [pages, if_neg unheld.1]
    exact book.clean other unheld.2
  · exact (vacates.counted.recordAccess frameId).setEvictable frameId false
  · intro other
    rw [pages]
    split
    · exact exists'
    · exact lt_of_lt_of_le (book.allocated other) later
  · exact le_trans book.next later

/-- The page in a frame changes its pin count, dirty bit or data. -/
theorem setPage (book : Bookkeeping pool) (holds : pool.Holds frameId) {page : Page D}
    {replacer : LruKReplacer (Fin n)} (same : page.pageId = (pool.pages frameId).pageId) (counted : Counted replacer)
    (flags : ∀ other, replacer.flag other =
      if other = frameId then some (decide (page.pinCount = 0)) else pool.replacer.flag other) :
    Bookkeeping { pool.setPage frameId page with replacer := replacer } := by
  have pages (other : Fin n) : ({ pool.setPage frameId page with replacer := replacer } : BufferPoolManager n D).pages
      other = if other = frameId then page else pool.pages other := Function.update_apply ..
  have holds' (other : Fin n) :
      ({ pool.setPage frameId page with replacer := replacer } : BufferPoolManager n D).Holds other ↔
        pool.Holds other := by
    rw [Holds, pages]
    split
    · next self => rw [same, self, Holds]
    · rfl
  have pageId (other : Fin n) : (({ pool.setPage frameId page with replacer := replacer } : BufferPoolManager n D).pages
      other).pageId = (pool.pages other).pageId := by
    rw [pages]
    split
    · next self => rw [same, self]
    · rfl
  constructor
  · intro other frame
    rw [holds', pageId]
    exact book.table other frame
  · exact book.free
  · intro other
    rw [holds']
    exact book.mem_free other
  · intro other
    rw [pages]
    simp only [holds', flags]
    by_cases self : other = frameId
    · simp [self, holds]
    · simp [self, book.flags]
  · intro other unheld
    rw [holds'] at unheld
    rw [pages, if_neg (by rintro rfl; exact unheld holds)]
    exact book.clean other unheld
  · exact counted
  · intro other
    rw [pageId]
    exact book.allocated other
  · exact book.next

/-- The same with an unchanged pin count. -/
theorem setPage' (book : Bookkeeping pool) (holds : pool.Holds frameId) {page : Page D}
    (same : page.pageId = (pool.pages frameId).pageId) (pinCount : page.pinCount = (pool.pages frameId).pinCount) :
    Bookkeeping (pool.setPage frameId page) := by
  refine book.setPage holds same book.counted fun other => ?_
  split
  · next self => rw [self, book.flags, if_pos holds, pinCount]
  · rfl

theorem of_disk (book : Bookkeeping pool) (disk : PageId → D) : Bookkeeping { pool with disk := disk } :=
  ⟨book.table, book.free, book.mem_free, book.flags, book.clean, book.counted, book.allocated, book.next⟩

/-- Everything `NewPage` can do. -/
theorem newPage_cases [Zero D] (book : Bookkeeping pool) :
    (pool.newPage = (pool, none) ∧ ∀ frameId, pool.Holds frameId ∧ 0 < (pool.pages frameId).pinCount) ∨
    ∃ pool' frameId, Vacates pool pool' frameId ∧
      pool.newPage = ({ pool' with nextPageId := pool.nextPageId + 1 }.install frameId pool.nextPageId 0,
        some (pool.nextPageId, frameId)) := by
  rcases book.acquireFrame_cases with ⟨failed, pinned⟩ | ⟨pool', frameId, acquired, vacates⟩
  · exact .inl ⟨by rw [newPage, failed], pinned⟩
  · refine .inr ⟨pool'.dropVictim frameId, frameId, vacates, ?_⟩
    rw [newPage, acquired]
    simp only [vacates.next]

/-- Everything a miss in `FetchPage` can do. -/
theorem fetchPage_cases (book : Bookkeeping pool) (miss : pool.pageTable.lookup pageId = none) :
    (pool.fetchPage pageId = (pool, none) ∧ ∀ frameId, pool.Holds frameId ∧ 0 < (pool.pages frameId).pinCount) ∨
    ∃ pool' frameId, Vacates pool pool' frameId ∧
      pool.fetchPage pageId = (pool'.install frameId pageId (pool'.disk pageId), some frameId) := by
  rcases book.acquireFrame_cases with ⟨failed, pinned⟩ | ⟨pool', frameId, acquired, vacates⟩
  · exact .inl ⟨by rw [fetchPage, miss, failed], pinned⟩
  · refine .inr ⟨pool'.dropVictim frameId, frameId, vacates, ?_⟩
    rw [fetchPage, miss, acquired]

theorem newPage [Zero D] (book : Bookkeeping pool) : Bookkeeping pool.newPage.1 := by
  rcases book.newPage_cases with ⟨failed, -⟩ | ⟨pool', frameId, vacates, done⟩
  · rwa [failed]
  · rw [done]
    exact book.install vacates 0 book.next (fun other _ => (book.allocated other).ne) (Int.le_add_one le_rfl)
      (Int.lt_succ _)

/-- No frame holds a page that is not in the page table. -/
theorem absent_of_miss (book : Bookkeeping pool) (miss : pool.pageTable.lookup pageId = none) (valid : 0 ≤ pageId)
    (frameId : Fin n) : (pool.pages frameId).pageId ≠ pageId := by
  rintro rfl
  have held := (book.table (pool.pages frameId).pageId frameId).mpr ⟨rfl, fun invalid => by
    rw [invalid] at valid
    exact absurd valid (by decide)⟩
  rw [miss] at held
  cases held

theorem fetchPage (book : Bookkeeping pool) (valid : 0 ≤ pageId) (exists' : pageId < pool.nextPageId) :
    Bookkeeping (pool.fetchPage pageId).1 := by
  cases held : pool.pageTable.lookup pageId with
  | some frameId =>
    obtain ⟨-, holds⟩ := (book.table _ _).mp held
    simp only [BufferPoolManager.fetchPage, held]
    refine book.setPage holds rfl ((book.counted.recordAccess frameId).setEvictable frameId false) fun other => ?_
    rw [replacer_setPage, flag_setEvictable, flag_recordAccess, flag_recordAccess]
    by_cases self : other = frameId <;> simp [self]
  | none =>
    rcases book.fetchPage_cases held with ⟨failed, -⟩ | ⟨pool', frameId, vacates, done⟩
    · rwa [failed]
    · rw [done]
      exact book.install vacates _ valid (fun other _ => book.absent_of_miss held valid other) vacates.next.ge
        (vacates.next ▸ exists')

theorem unpinPage (book : Bookkeeping pool) (pageId : PageId) (isDirty : Bool) :
    Bookkeeping (pool.unpinPage pageId isDirty).1 := by
  rw [BufferPoolManager.unpinPage]
  cases held : pool.pageTable.lookup pageId with
  | none => exact book
  | some frameId =>
    obtain ⟨-, holds⟩ := (book.table _ _).mp held
    dsimp only
    by_cases unpinned : (pool.pages frameId).pinCount = 0
    · rwa [if_pos unpinned]
    · rw [if_neg unpinned]
      by_cases last : (pool.pages frameId).pinCount - 1 = 0
      · rw [if_pos last]
        refine book.setPage holds rfl (book.counted.setEvictable frameId true) fun other => ?_
        rw [replacer_setPage, flag_setEvictable, book.flags frameId, if_pos holds]
        simp [last]
      · rw [if_neg last]
        refine book.setPage holds rfl book.counted fun other => ?_
        split
        · next self => simp [self, book.flags, holds, unpinned, last]
        · rfl

/-- A frame goes back to the free list. -/
theorem release [Zero D] {replacer : LruKReplacer (Fin n)} (book : Bookkeeping pool) (holds : pool.Holds frameId)
    (same : (pool.pages frameId).pageId = pageId) (counted : Counted replacer) (gone : replacer.flag frameId = none)
    (others : ∀ other ≠ frameId, replacer.flag other = pool.replacer.flag other) :
    Bookkeeping { pool.setPage frameId { data := 0 } with
      pageTable := pool.pageTable.erase pageId
      replacer := replacer
      freeList := pool.freeList ++ [frameId] } := by
  have pages (other : Fin n) : Function.update pool.pages frameId { data := 0 } other =
      if other = frameId then { data := 0 } else pool.pages other := Function.update_apply ..
  have lookup (other : PageId) : (pool.pageTable.erase pageId).lookup other =
      if other = pageId then none else pool.pageTable.lookup other := by
    split
    · next here => rw [here, AList.lookup_erase]
    · next different => rw [AList.lookup_erase_ne different]
  have listed : frameId ∉ pool.freeList := fun member => (book.mem_free frameId).mp member holds
  constructor <;> simp only [Holds, BufferPoolManager.setPage, pages]
  · intro other frame
    have held := book.table pageId frameId
    have old := book.table other frame
    rw [lookup]
    simp only [Holds] at held old
    grind
  · rw [List.nodup_append]
    refine ⟨book.free, List.nodup_singleton _, ?_⟩
    intro other member last single same'
    rw [List.mem_singleton] at single
    exact listed (single ▸ same' ▸ member)
  · intro other
    have old := book.mem_free other
    simp only [Holds] at old
    rw [List.mem_append, List.mem_singleton]
    grind
  · intro other
    have old := book.flags other
    simp only [Holds] at old
    grind
  · intro other unheld
    have old := book.clean other
    simp only [Holds] at old
    grind
  · exact counted
  · intro other
    split
    · exact lt_of_lt_of_le invalidPageId_neg book.next
    · exact book.allocated other
  · exact book.next

/-- An unpinned page can be deleted: the replacer does not object. -/
theorem deletePage_of_unpinned [Zero D] (book : Bookkeeping pool) (held : pool.pageTable.lookup pageId = some frameId)
    (unpinned : (pool.pages frameId).pinCount = 0) :
    ∃ replacer, pool.deletePage pageId = ({ pool.setPage frameId { data := 0 } with
        pageTable := pool.pageTable.erase pageId
        replacer := replacer
        freeList := pool.freeList ++ [frameId] }, .ok true) ∧
      Bookkeeping (pool.deletePage pageId).1 := by
  obtain ⟨same, holds⟩ := (book.table _ _).mp held
  have evictable : pool.replacer.flag frameId = some true := by simp [book.flags, holds, unpinned]
  obtain ⟨replacer', removed, counted, gone, others⟩ := book.counted.remove evictable
  have deleted : pool.deletePage pageId = ({ pool.setPage frameId { data := 0 } with
      pageTable := pool.pageTable.erase pageId
      replacer := replacer'
      freeList := pool.freeList ++ [frameId] }, .ok true) := by
    simp only [BufferPoolManager.deletePage, held, unpinned, lt_irrefl, if_false, removed]
    rfl
  refine ⟨replacer', deleted, ?_⟩
  rw [deleted]
  exact book.release holds same counted gone others

theorem deletePage [Zero D] (book : Bookkeeping pool) (pageId : PageId) :
    Bookkeeping (pool.deletePage pageId).1 ∧ ∃ deleted, (pool.deletePage pageId).2 = .ok deleted := by
  cases held : pool.pageTable.lookup pageId with
  | none =>
    simp only [BufferPoolManager.deletePage, held]
    exact ⟨book, true, rfl⟩
  | some frameId =>
    by_cases pinned : 0 < (pool.pages frameId).pinCount
    · simp only [BufferPoolManager.deletePage, held, pinned, if_true]
      exact ⟨book, false, rfl⟩
    · obtain ⟨replacer, deleted, book'⟩ := book.deletePage_of_unpinned held (Nat.eq_zero_of_not_pos pinned)
      exact ⟨book', true, by rw [deleted]⟩

theorem flushFrame (book : Bookkeeping pool) (holds : pool.Holds frameId) (pageId : PageId) :
    Bookkeeping (pool.flushFrame pageId frameId) :=
  (book.of_disk (Function.update pool.disk pageId (pool.pages frameId).data)).setPage' holds rfl rfl

theorem flushPage (book : Bookkeeping pool) (pageId : PageId) : Bookkeeping (pool.flushPage pageId).1 := by
  rw [BufferPoolManager.flushPage]
  cases held : pool.pageTable.lookup pageId with
  | none => exact book
  | some frameId => exact book.flushFrame ((book.table _ _).mp held).2 pageId

theorem writeData (book : Bookkeeping pool) (pageId : PageId) (data : D) :
    Bookkeeping (pool.writeData pageId data) := by
  rw [BufferPoolManager.writeData]
  cases held : pool.pageTable.lookup pageId with
  | none => exact book
  | some frameId => exact book.setPage' ((book.table _ _).mp held).2 rfl rfl

/-- `FlushAllPages` goes over frames that hold pages. -/
theorem flushAllPages (book : Bookkeeping pool) : Bookkeeping pool.flushAllPages := by
  have walked (entries : List (Sigma fun _ : PageId => Fin n)) (pool : BufferPoolManager n D) (book : Bookkeeping pool)
      (held : ∀ entry ∈ entries, pool.Holds entry.2) :
      Bookkeeping (entries.foldl (fun pool entry => pool.flushFrame entry.1 entry.2) pool) := by
    induction entries generalizing pool with
    | nil => exact book
    | cons entry rest ih =>
      rw [List.forall_mem_cons] at held
      refine ih _ (book.flushFrame held.1 entry.1) fun other member => ?_
      rw [Holds, pageId_flushFrame]
      exact held.2 other member
  exact walked _ pool book fun entry member => ((book.table _ _).mp (AList.mem_lookup_iff.mpr member)).2

end Bookkeeping

/-- `FetchPage` is called for a page that exists. -/
def Existing (pool : BufferPoolManager n D) : Action D → Prop
  | .fetchPage pageId => 0 ≤ pageId ∧ pageId < pool.nextPageId
  | _ => True

instance : (a : Action D) → Decidable (pool.Existing a)
  | .fetchPage _ => inferInstanceAs (Decidable (_ ∧ _))
  | .newPage | .unpinPage _ _ | .deletePage _ | .flushPage _ | .flushAllPages | .writeData _ _ =>
    inferInstanceAs (Decidable True)

variable [Zero D]

theorem Bookkeeping.step (book : Bookkeeping pool) {a : Action D} (existing : pool.Existing a) :
    Bookkeeping (pool.step a) := by
  cases a with
  | newPage => exact book.newPage
  | fetchPage pageId => exact book.fetchPage existing.1 existing.2
  | unpinPage pageId isDirty => exact book.unpinPage pageId isDirty
  | deletePage pageId => exact (book.deletePage pageId).1
  | flushPage pageId => exact book.flushPage pageId
  | flushAllPages => exact book.flushAllPages
  | writeData pageId data => exact book.writeData pageId data

theorem bookkeeping_new {k : ℕ} (k_pos : 1 ≤ k) (disk : PageId → D) {nextPageId : PageId}
    (start : 0 ≤ nextPageId) :
    Bookkeeping (new k disk nextPageId : BufferPoolManager n D) := by
  constructor
  · intro pageId frameId
    simp [new, Holds]
  · exact List.nodup_finRange n
  · intro frameId
    simp [new, Holds]
  · intro frameId
    simp [new, Holds, flag]
  · exact fun frameId _ => ⟨rfl, rfl⟩
  · refine ⟨⟨k_pos, ?_⟩, ?_⟩
    · simp [new]
    · simp [new, evictable, flag]
  · exact fun frameId => lt_of_lt_of_le invalidPageId_neg start
  · exact start

/-- What the clients of the pool can rely on. -/
structure InStep (pool : BufferPoolManager n D) : Prop where
  table : ∀ pageId frameId, pool.pageTable.lookup pageId = some frameId ↔
    (pool.pages frameId).pageId = pageId ∧ pool.Holds frameId
  apart : ∀ p q frameId, pool.pageTable.lookup p = some frameId → pool.pageTable.lookup q = some frameId → p = q
  frames : ∀ frameId,
    (pool.freeList.count frameId = 1 ∧ ¬ pool.Holds frameId ∧ pool.replacer.entries.lookup frameId = none) ∨
    (frameId ∉ pool.freeList ∧ pool.Holds frameId ∧
      ∃ entry, pool.replacer.entries.lookup frameId = some entry ∧
      (entry.isEvictable ↔ (pool.pages frameId).pinCount = 0))
  size : pool.replacer.size =
    (Finset.univ.filter fun frameId => pool.Holds frameId ∧ (pool.pages frameId).pinCount = 0).card
  deletable : ∀ pageId, ∃ deleted, (pool.deletePage pageId).2 = .ok deleted
  newPage : (pool.newPage.2 = none ↔ ∀ frameId, 0 < (pool.pages frameId).pinCount) ∧
    (pool.newPage.2 = none → pool.newPage.1 = pool)
  fetchPage : ∀ pageId, pool.pageTable.lookup pageId = none →
    ((pool.fetchPage pageId).2 = none ↔ ∀ frameId, 0 < (pool.pages frameId).pinCount) ∧
    ((pool.fetchPage pageId).2 = none → (pool.fetchPage pageId).1 = pool)

theorem Bookkeeping.inStep (book : Bookkeeping pool) : InStep pool := by
  constructor
  · exact book.table
  · intro p q frameId heldP heldQ
    exact ((book.table p frameId).mp heldP).1.symm.trans ((book.table q frameId).mp heldQ).1
  · intro frameId
    have flags := book.flags frameId
    by_cases holds : pool.Holds frameId
    · rw [if_pos holds] at flags
      obtain ⟨entry, held, evictable⟩ := Option.map_eq_some_iff.mp flags
      exact .inr ⟨fun member => (book.mem_free frameId).mp member holds, holds, entry, held, by simp [evictable]⟩
    · rw [if_neg holds] at flags
      exact .inl ⟨List.count_eq_one_of_mem book.free ((book.mem_free frameId).mpr holds), holds,
        Option.map_eq_none_iff.mp flags⟩
  · rw [LruKReplacer.size, book.counted.size, evictable]
    congr 1
    apply Finset.filter_congr
    intro frameId _
    rw [book.flags]
    split
    · next holds => simp [holds]
    · next unheld => simp [unheld]
  · exact fun pageId => (book.deletePage pageId).2
  · rcases book.newPage_cases with ⟨failed, pinned⟩ | ⟨pool', frameId, vacates, done⟩
    · rw [failed]
      exact ⟨iff_of_true rfl fun frameId => (pinned frameId).2, fun _ => rfl⟩
    · rw [done]
      refine ⟨iff_of_false (by simp) fun pinned => ?_, by simp⟩
      exact (pinned frameId).ne' vacates.unpinned
  · intro pageId miss
    rcases book.fetchPage_cases miss with ⟨failed, pinned⟩ | ⟨pool', frameId, vacates, done⟩
    · rw [failed]
      exact ⟨iff_of_true rfl fun frameId => (pinned frameId).2, fun _ => rfl⟩
    · rw [done]
      refine ⟨iff_of_false (by simp) fun pinned => ?_, by simp⟩
      exact (pinned frameId).ne' vacates.unpinned

/-- In every run whose `FetchPage` calls name existing pages, page table, free list, frames and replacer
stay in step. -/
theorem run_inStep {k : ℕ} (k_pos : 1 ≤ k) (disk : PageId → D) {nextPageId : PageId} (start : 0 ≤ nextPageId)
    (run : List (Action D))
    (along : Along Existing step (new k disk nextPageId : BufferPoolManager n D) run) :
    InStep (run.foldl step (new k disk nextPageId : BufferPoolManager n D)) :=
  (along.invariant (fun _ _ book existing => book.step existing) (bookkeeping_new k_pos disk start)).inStep

/-- Two pages in two frames, one of them deleted and its frame used again. -/
def mixedRun : List (Action ℕ) :=
  [.newPage, .newPage, .fetchPage 1, .unpinPage 0 true, .deletePage 0, .newPage, .unpinPage 1 false]

theorem run_inStep_mixedRun :
    Along Existing step (new 2 (fun _ => 0) 0 : BufferPoolManager 2 ℕ) mixedRun ∧
      InStep (mixedRun.foldl step (new 2 (fun _ => 0) 0 : BufferPoolManager 2 ℕ)) :=
  ⟨by decide, run_inStep (by decide) _ le_rfl mixedRun (by decide)⟩

/-- A page fetched before it exists, and then allocated. -/
def earlyFetch : List (Action ℕ) := [.fetchPage 0, .newPage]

/-- Both frames hold the page; the page table knows the second one. -/
theorem earlyFetch_shares_page :
    let pool := earlyFetch.foldl step (new 2 (fun _ => 0) 0 : BufferPoolManager 2 ℕ)
    (pool.pages 0).pageId = 0 ∧ (pool.pages 1).pageId = 0 ∧ pool.pageTable.lookup 0 = some 1 := by
  decide

end OneBase.BufferPoolManager
