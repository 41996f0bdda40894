import OneBase.Proofs.BufferPool.Bookkeeping

/-! # The buffer pool as a page map

To its clients the pool is a map from pages to contents. The contents of a page in the pool are those
of its frame; the disk has them too unless the frame is dirty or a client has written to the pinned
page and not yet unpinned it as dirty. A frame is vacated only when it is unpinned, so by then its
dirty bit knows of every write, and the page is complete on disk when it leaves the pool.
-/

namespace OneBase.BufferPoolManager

open Traces

/-- A pool with what its clients know: the contents of each page, which pages are deleted, and which were
written to since they were last unpinned as dirty. -/
structure Clients (n : ℕ) (D : Type) where
  pool : BufferPoolManager n D
  contents : PageId → D
  deleted : PageId → Bool
  unsaved : PageId → Bool

namespace Clients

variable {n : ℕ} {D : Type} [Zero D] {s : Clients n D} {frameId : Fin n} {pageId : PageId}

/-- One action, and what the clients make of its answer. -/
def step (s : Clients n D) (a : Action D) : Clients n D :=
  let s' := { s with pool := s.pool.step a }
  match a with
  | .newPage =>
    match s.pool.newPage.2 with
    | none => s'
    | some (pageId, _) =>
      { s' with
        contents := Function.update s.contents pageId 0
        deleted := Function.update s.deleted pageId false }
  | .unpinPage pageId isDirty =>
    if isDirty then { s' with unsaved := Function.update s.unsaved pageId false } else s'
  | .deletePage pageId =>
    match (s.pool.deletePage pageId).2 with
    | .ok true => { s' with deleted := Function.update s.deleted pageId true }
    | _ => s'
  | .writeData pageId data =>
    { s' with
      contents := Function.update s.contents pageId data
      unsaved := Function.update s.unsaved pageId true }
  | _ => s'

/-- A page is in the pool and pinned. -/
def Pinned (pool : BufferPoolManager n D) (pageId : PageId) : Prop :=
  ∃ frameId ∈ pool.pageTable.lookup pageId, 0 < (pool.pages frameId).pinCount

/-- Clients fetch existing pages, write to pinned pages, and unpin as dirty after they wrote: the last
client to unpin a page does not leave a write behind. -/
def Legal (s : Clients n D) : Action D → Prop
  | .fetchPage pageId => 0 ≤ pageId ∧ pageId < s.pool.nextPageId
  | .writeData pageId _ => Pinned s.pool pageId
  | .unpinPage pageId false =>
    ∀ frameId ∈ s.pool.pageTable.lookup pageId, (s.pool.pages frameId).pinCount = 1 → s.unsaved pageId = false
  | _ => True

instance : Decidable (Pinned s.pool pageId) :=
    inferInstanceAs (Decidable (∃ frameId ∈ s.pool.pageTable.lookup pageId, _))

instance : (a : Action D) → Decidable (s.Legal a)
  | .fetchPage _ => inferInstanceAs (Decidable (_ ∧ _))
  | .writeData pageId _ => inferInstanceAs (Decidable (Pinned s.pool pageId))
  | .unpinPage pageId false => inferInstanceAs (Decidable (∀ frameId ∈ s.pool.pageTable.lookup pageId, _ → _))
  | .unpinPage _ true | .newPage | .deletePage _ | .flushPage _ | .flushAllPages => inferInstanceAs (Decidable True)

/-- The pool, its disk and the contents agree. -/
structure Simulates (s : Clients n D) : Prop where
  book : Bookkeeping s.pool
  resident : ∀ pageId frameId, s.pool.pageTable.lookup pageId = some frameId → s.deleted pageId = false →
    (s.pool.pages frameId).data = s.contents pageId
  saved : ∀ pageId frameId, s.pool.pageTable.lookup pageId = some frameId → s.deleted pageId = false →
    (s.pool.pages frameId).isDirty = false → s.unsaved pageId = false → s.pool.disk pageId = s.contents pageId
  absent : ∀ pageId, s.pool.pageTable.lookup pageId = none → s.deleted pageId = false →
    s.pool.disk pageId = s.contents pageId
  unsaved : ∀ pageId, s.unsaved pageId = true → Pinned s.pool pageId
  unallocated : ∀ pageId, s.pool.nextPageId ≤ pageId → s.pool.disk pageId = 0

namespace Simulates

omit [Zero D] in
/-- A frame that is vacated leaves its page complete on disk. -/
theorem disk_vacates {pool' : BufferPoolManager n D} (book : Bookkeeping s.pool)
    (vacates : Vacates s.pool pool' frameId) (pageId : PageId) (absent : s.pool.pageTable.lookup pageId = none) :
    pool'.disk pageId = s.pool.disk pageId := by
  rw [vacates.disk]
  split
  · next same =>
    by_cases holds : s.pool.Holds frameId
    · have held := (book.table pageId frameId).mpr ⟨same.1.symm, holds⟩
      rw [absent] at held
      cases held
    · have clean := (book.clean frameId holds).2
      rw [same.2] at clean
      cases clean
  · rfl

/-- A page that is not in the pool comes in from disk. -/
theorem install {pool' : BufferPoolManager n D} {next : PageId} (contents : PageId → D) (deleted : PageId → Bool)
    (simulates : Simulates s) (vacates : Vacates s.pool pool' frameId) (valid : 0 ≤ pageId)
    (miss : s.pool.pageTable.lookup pageId = none) (later : s.pool.nextPageId ≤ next) (exists' : pageId < next)
    (sameContents : ∀ other ≠ pageId, contents other = s.contents other)
    (sameDeleted : ∀ other ≠ pageId, deleted other = s.deleted other)
    (own : deleted pageId = false → contents pageId = pool'.disk pageId) :
    Simulates { s with
      pool := { pool' with nextPageId := next }.install frameId pageId (pool'.disk pageId)
      contents := contents
      deleted := deleted } := by
  obtain ⟨book, resident, saved, absent, unsaved, unallocated⟩ := simulates
  have pages := Bookkeeping.pages_install vacates next pageId (pool'.disk pageId)
  have lookup := Bookkeeping.lookup_install vacates next pageId (pool'.disk pageId)
  have book' := book.install vacates (pool'.disk pageId) valid
    (fun other _ => book.absent_of_miss miss valid other) later exists'
  have disk : ({ pool' with nextPageId := next }.install frameId pageId (pool'.disk pageId)).disk = pool'.disk := rfl
  have nextPageId : ({ pool' with nextPageId := next }.install frameId pageId (pool'.disk pageId)).nextPageId = next :=
    rfl
  generalize { pool' with nextPageId := next }.install frameId pageId (pool'.disk pageId) = pool'' at *
  -- what is in the pool besides the new page was there before, in another frame
  have kept (other : PageId) (frame : Fin n) (different : other ≠ pageId)
      (held : pool''.pageTable.lookup other = some frame) :
      s.pool.pageTable.lookup other = some frame ∧ pool''.pages frame = s.pool.pages frame ∧
        pool'.disk other = s.pool.disk other := by
    rw [lookup, if_neg different] at held
    split at held
    · cases held
    · next elsewhere =>
      have same := ((book.table other frame).mp held).1
      refine ⟨held, ?_, ?_⟩
      · rw [pages, if_neg (by rintro rfl; exact elsewhere same.symm)]
      · rw [vacates.disk, if_neg fun here => elsewhere here.1]
  refine ⟨book', ?_, ?_, ?_, ?_, ?_⟩
  · intro other frame held alive
    by_cases new : other = pageId
    · subst new
      rw [lookup, if_pos rfl, Option.some.injEq] at held
      rw [pages, if_pos held.symm]
      exact (own alive).symm
    · obtain ⟨held', page, -⟩ := kept other frame new held
      simp only [page, sameContents other new]
      exact resident other frame held' (sameDeleted other new ▸ alive)
  · intro other frame held alive dirty clean
    simp only [disk]
    by_cases new : other = pageId
    · subst new
      exact (own alive).symm
    · obtain ⟨held', page, same⟩ := kept other frame new held
      rw [same, sameContents other new]
      exact saved other frame held' (sameDeleted other new ▸ alive) (page ▸ dirty) clean
  · intro other held alive
    rw [lookup] at held
    split at held
    · cases held
    · next new =>
      have alive : s.deleted other = false := sameDeleted other new ▸ alive
      simp only [disk, sameContents other new]
      cases old : s.pool.pageTable.lookup other with
      | none =>
        rw [disk_vacates book vacates other old]
        exact absent other old alive
      | some frame =>
        -- the page that had to leave
        split at held
        · next left =>
          obtain ⟨same, holds⟩ := (book.table other frame).mp old
          have here : s.pool.pageTable.lookup other = some frameId :=
            (book.table other frameId).mpr ⟨left.symm, fun invalid => holds (same.trans (left.trans invalid))⟩
          rw [vacates.disk]
          split
          · exact resident other frameId here alive
          · next clean =>
            refine saved other frameId here alive (by simpa [left] using clean) ?_
            by_contra wrote
            obtain ⟨frame', held', pinned⟩ := unsaved other (by simpa using wrote)
            rw [Option.mem_def, here, Option.some.injEq] at held'
            rw [← held', vacates.unpinned] at pinned
            exact lt_irrefl 0 pinned
        · rw [old] at held
          cases held
  · intro other wrote
    obtain ⟨frame, held, pinned⟩ := unsaved other wrote
    rw [Option.mem_def] at held
    have new : other ≠ pageId := by
      rintro rfl
      rw [miss] at held
      cases held
    have moved : frame ≠ frameId := by
      rintro rfl
      rw [vacates.unpinned] at pinned
      exact lt_irrefl 0 pinned
    obtain ⟨same, holds⟩ := (book.table other frame).mp held
    have elsewhere : other ≠ (s.pool.pages frameId).pageId := by
      intro here
      have held' := (book.table other frameId).mpr ⟨here.symm, fun invalid =>
        holds (same.trans (here.trans invalid))⟩
      rw [held, Option.some.injEq] at held'
      exact moved held'
    refine ⟨frame, ?_, ?_⟩
    · rw [Option.mem_def, lookup, if_neg new, if_neg elsewhere, held]
    · rw [pages, if_neg moved]
      exact pinned
  · intro other unborn
    rw [nextPageId] at unborn
    have unborn := le_trans later unborn
    have elsewhere : other ≠ (s.pool.pages frameId).pageId := by
      rintro rfl
      exact absurd (book.allocated frameId) (not_lt.mpr unborn)
    simp only [disk, vacates.disk, elsewhere, false_and, if_false]
    exact unallocated other unborn

/-- A page in the pool changes its pin count and dirty bit. -/
theorem setPage {pool' : BufferPoolManager n D} {unsaved' : PageId → Bool} (simulates : Simulates s)
    (book' : Bookkeeping pool') (held : s.pool.pageTable.lookup pageId = some frameId)
    (lookup : pool'.pageTable = s.pool.pageTable) (disk : pool'.disk = s.pool.disk)
    (next : pool'.nextPageId = s.pool.nextPageId)
    (pages : ∀ other ≠ frameId, pool'.pages other = s.pool.pages other)
    (data : (pool'.pages frameId).data = (s.pool.pages frameId).data)
    (dirty : (pool'.pages frameId).isDirty = false → (s.pool.pages frameId).isDirty = false)
    (fewer : ∀ other ≠ pageId, unsaved' other = s.unsaved other)
    (mine : unsaved' pageId = true → 0 < (pool'.pages frameId).pinCount)
    (clean : (pool'.pages frameId).isDirty = false → unsaved' pageId = false → s.unsaved pageId = false) :
    Simulates { s with pool := pool', unsaved := unsaved' } := by
  obtain ⟨book, resident, saved, absent, unsaved, unallocated⟩ := simulates
  have apart (other : PageId) (different : other ≠ pageId) (frame : Fin n)
      (held' : s.pool.pageTable.lookup other = some frame) : frame ≠ frameId := by
    rintro rfl
    exact different (((book.table _ _).mp held').1.symm.trans ((book.table _ _).mp held).1)
  refine ⟨book', ?_, ?_, ?_, ?_, ?_⟩ <;> simp only [lookup, disk, next]
  · intro other frame held' alive
    by_cases same : frame = frameId
    · rw [same, data]
      exact resident other frameId (same ▸ held') alive
    · rw [pages frame same]
      exact resident other frame held' alive
  · intro other frame held' alive notDirty wrote
    by_cases same : other = pageId
    · subst same
      have here : frame = frameId := Option.some.inj (held'.symm.trans held)
      subst here
      exact saved other frame held alive (dirty notDirty) (clean notDirty wrote)
    · rw [pages frame (apart other same frame held')] at notDirty
      exact saved other frame held' alive notDirty (fewer other same ▸ wrote)
  · exact absent
  · intro other wrote
    by_cases same : other = pageId
    · subst same
      exact ⟨frameId, by rw [lookup]; exact held, mine wrote⟩
    · obtain ⟨frame, held', pinned⟩ := unsaved other (fewer other same ▸ wrote)
      refine ⟨frame, by rw [lookup]; exact held', ?_⟩
      rw [pages frame (apart other same frame held')]
      exact pinned
  · exact unallocated

theorem fetchPage (simulates : Simulates s) (valid : 0 ≤ pageId) (exists' : pageId < s.pool.nextPageId) :
    Simulates (s.step (.fetchPage pageId)) := by
  change Simulates { s with pool := (s.pool.fetchPage pageId).1 }
  have book' := simulates.book.fetchPage valid exists'
  cases held : s.pool.pageTable.lookup pageId with
  | some frameId =>
    simp only [BufferPoolManager.fetchPage, held] at book' ⊢
    refine simulates.setPage book' held rfl rfl rfl (fun other different => ?_) ?_ ?_ (fun _ _ => rfl) ?_ (fun _ => id)
    · simp [BufferPoolManager.setPage, different]
    · simp [BufferPoolManager.setPage]
    · simp [BufferPoolManager.setPage]
    · simp [BufferPoolManager.setPage]
  | none =>
    rcases simulates.book.fetchPage_cases held with ⟨failed, -⟩ | ⟨pool', frameId, vacates, done⟩
    · rw [failed]
      exact simulates
    · rw [done]
      exact simulates.install s.contents s.deleted vacates valid held vacates.next.ge (vacates.next ▸ exists')
        (fun _ _ => rfl)
        (fun _ _ => rfl) fun alive =>
          (simulates.absent pageId held alive).symm.trans (disk_vacates simulates.book vacates pageId held).symm

theorem newPage (simulates : Simulates s) : Simulates (s.step .newPage) := by
  rcases simulates.book.newPage_cases with ⟨failed, -⟩ | ⟨pool', frameId, vacates, done⟩
  · simp only [Clients.step, BufferPoolManager.step, failed]
    exact simulates
  · have miss : s.pool.pageTable.lookup s.pool.nextPageId = none := by
      cases held : s.pool.pageTable.lookup s.pool.nextPageId with
      | none => rfl
      | some frame => exact absurd ((simulates.book.table _ _).mp held).1 (simulates.book.allocated frame).ne
    have zeros : pool'.disk s.pool.nextPageId = 0 :=
      (disk_vacates simulates.book vacates _ miss).trans (simulates.unallocated _ le_rfl)
    have installed := simulates.install (Function.update s.contents s.pool.nextPageId 0)
      (Function.update s.deleted s.pool.nextPageId false) vacates simulates.book.next miss (Int.le_add_one le_rfl)
      (Int.lt_succ _) (fun _ different => Function.update_of_ne different ..) (fun _ different =>
        Function.update_of_ne different ..)
      (fun _ => (Function.update_self ..).trans zeros.symm)
    rw [zeros] at installed
    simp only [Clients.step, BufferPoolManager.step, done]
    exact installed

/-- A page with a pending write is pinned. -/
theorem saved_of_not_pinned (simulates : Simulates s) (unpinned : ¬ Pinned s.pool pageId) :
    s.unsaved pageId = false := by
  by_contra wrote
  exact unpinned (simulates.unsaved pageId (by simpa using wrote))

theorem unpinPage {isDirty : Bool} (simulates : Simulates s) (legal : s.Legal (.unpinPage pageId isDirty)) :
    Simulates (s.step (.unpinPage pageId isDirty)) := by
  have book' := simulates.book.unpinPage pageId isDirty
  have refused (unpinned : ¬ Pinned s.pool pageId) (same : (s.pool.unpinPage pageId isDirty).1 = s.pool) :
      Simulates (s.step (.unpinPage pageId isDirty)) := by
    have already : Function.update s.unsaved pageId false = s.unsaved :=
      Function.update_eq_self_iff.mpr (simulates.saved_of_not_pinned unpinned).symm
    simp only [Clients.step, BufferPoolManager.step, same, already, ite_self]
    exact simulates
  cases held : s.pool.pageTable.lookup pageId with
  | none =>
    refine refused ?_ (by simp only [BufferPoolManager.unpinPage, held])
    rintro ⟨frame, held', -⟩
    rw [Option.mem_def, held] at held'
    cases held'
  | some frameId =>
    by_cases unpinned : (s.pool.pages frameId).pinCount = 0
    · refine refused ?_ (by simp only [BufferPoolManager.unpinPage, held, unpinned, if_true])
      rintro ⟨frame, held', pinned⟩
      rw [Option.mem_def, held, Option.some.injEq] at held'
      rw [← held', unpinned] at pinned
      exact lt_irrefl 0 pinned
    · have pool' : (s.pool.unpinPage pageId isDirty).1.pageTable = s.pool.pageTable ∧
          (s.pool.unpinPage pageId isDirty).1.disk = s.pool.disk ∧
          (s.pool.unpinPage pageId isDirty).1.nextPageId = s.pool.nextPageId ∧
          (s.pool.unpinPage pageId isDirty).1.pages = Function.update s.pool.pages frameId
            { s.pool.pages frameId with
              isDirty := (s.pool.pages frameId).isDirty || isDirty
              pinCount := (s.pool.pages frameId).pinCount - 1 } := by
        simp only [BufferPoolManager.unpinPage, held, unpinned, if_false]
        split <;> exact ⟨rfl, rfl, rfl, rfl⟩
      obtain ⟨table, disk, next, pages⟩ := pool'
      cases isDirty with
      | true =>
        simp only [Clients.step, BufferPoolManager.step, if_true]
        refine simulates.setPage book' held table disk next (fun other different => ?_) ?_ ?_
          (fun other different => Function.update_of_ne different ..) ?_ ?_
        · simp [pages, different]
        · simp [pages]
        · simp [pages]
        · simp
        · simp [pages]
      | false =>
        simp only [Clients.step, BufferPoolManager.step, Bool.false_eq_true, if_false]
        refine simulates.setPage book' held table disk next (fun other different => ?_) ?_ ?_ (fun _ _ => rfl) ?_
          (fun _ => id)
        · simp [pages, different]
        · simp [pages]
        · simp [pages]
        · intro wrote
          have last := legal frameId held
          rw [wrote] at last
          simp only [pages, Function.update_self]
          have : (s.pool.pages frameId).pinCount ≠ 1 := fun one => absurd (last one) (by simp)
          omega

/-- More pages are deleted. -/
theorem delete {deleted : PageId → Bool} (simulates : Simulates s)
    (more : ∀ pageId, deleted pageId = false → s.deleted pageId = false) :
    Simulates { s with deleted := deleted } :=
  ⟨simulates.book, fun p f held alive => simulates.resident p f held (more p alive),
    fun p f held alive => simulates.saved p f held (more p alive),
    fun p held alive => simulates.absent p held (more p alive), simulates.unsaved, simulates.unallocated⟩

theorem deletePage (simulates : Simulates s) (pageId : PageId) : Simulates (s.step (.deletePage pageId)) := by
  have book' := (simulates.book.deletePage pageId).1
  have more (other : PageId) (alive : Function.update s.deleted pageId true other = false) :
      other ≠ pageId ∧ s.deleted other = false := by
    by_cases same : other = pageId
    · rw [same, Function.update_self] at alive
      cases alive
    · exact ⟨same, by rwa [Function.update_of_ne same] at alive⟩
  cases held : s.pool.pageTable.lookup pageId with
  | none =>
    simp only [Clients.step, BufferPoolManager.step, BufferPoolManager.deletePage, held]
    exact simulates.delete fun other alive => (more other alive).2
  | some frameId =>
    by_cases pinned : 0 < (s.pool.pages frameId).pinCount
    · simp only [Clients.step, BufferPoolManager.step, BufferPoolManager.deletePage, held, pinned, if_true]
      exact simulates
    · obtain ⟨replacer, deleted, -⟩ := simulates.book.deletePage_of_unpinned held (Nat.eq_zero_of_not_pos pinned)
      simp only [Clients.step, BufferPoolManager.step, deleted] at book' ⊢
      obtain ⟨book, resident, saved, absent, unsaved, unallocated⟩ := simulates
      -- the other pages are where they were
      have kept (other : PageId) (different : other ≠ pageId) :
          (s.pool.pageTable.erase pageId).lookup other = s.pool.pageTable.lookup other ∧
            ∀ frame, s.pool.pageTable.lookup other = some frame →
              Function.update s.pool.pages frameId { data := 0 } frame = s.pool.pages frame := by
        refine ⟨AList.lookup_erase_ne different, fun frame there => Function.update_of_ne ?_ ..⟩
        rintro rfl
        exact different (((book.table _ _).mp there).1.symm.trans ((book.table _ _).mp held).1)
      refine ⟨book', ?_, ?_, ?_, ?_, unallocated⟩
      · intro other frame there alive
        obtain ⟨different, alive⟩ := more other alive
        obtain ⟨table, pages⟩ := kept other different
        rw [table] at there
        simp only [BufferPoolManager.setPage, pages frame there]
        exact resident other frame there alive
      · intro other frame there alive
        obtain ⟨different, alive⟩ := more other alive
        obtain ⟨table, pages⟩ := kept other different
        rw [table] at there
        simp only [BufferPoolManager.setPage, pages frame there]
        exact saved other frame there alive
      · intro other there alive
        obtain ⟨different, alive⟩ := more other alive
        rw [(kept other different).1] at there
        exact absent other there alive
      · intro other wrote
        obtain ⟨frame, there, pinned'⟩ := unsaved other wrote
        have different : other ≠ pageId := by
          rintro rfl
          rw [Option.mem_def, held, Option.some.injEq] at there
          exact pinned (there ▸ pinned')
        obtain ⟨table, pages⟩ := kept other different
        refine ⟨frame, by rw [table]; exact there, ?_⟩
        simp only [BufferPoolManager.setPage, pages frame there]
        exact pinned'

/-- The contents of a frame go to disk. -/
theorem flushFrame (simulates : Simulates s) (held : s.pool.pageTable.lookup pageId = some frameId) :
    Simulates { s with pool := s.pool.flushFrame pageId frameId } := by
  have book' := simulates.book.flushFrame ((simulates.book.table _ _).mp held).2 pageId
  obtain ⟨book, resident, saved, absent, unsaved, unallocated⟩ := simulates
  have same := ((book.table _ _).mp held).1
  have pages (other : Fin n) : (s.pool.flushFrame pageId frameId).pages other =
      if other = frameId then { s.pool.pages frameId with isDirty := false } else s.pool.pages other :=
    Function.update_apply ..
  have disk (other : PageId) : (s.pool.flushFrame pageId frameId).disk other =
      if other = pageId then (s.pool.pages frameId).data else s.pool.disk other := Function.update_apply ..
  have table : (s.pool.flushFrame pageId frameId).pageTable = s.pool.pageTable := rfl
  have next : (s.pool.flushFrame pageId frameId).nextPageId = s.pool.nextPageId := rfl
  generalize s.pool.flushFrame pageId frameId = pool' at *
  have apart (other : PageId) (different : other ≠ pageId) (frame : Fin n)
      (held' : s.pool.pageTable.lookup other = some frame) : frame ≠ frameId := by
    rintro rfl
    exact different (((book.table _ _).mp held').1.symm.trans same)
  refine ⟨book', ?_, ?_, ?_, ?_, ?_⟩ <;> simp only [table, next]
  · intro other frame there alive
    have old := resident other frame there alive
    rw [pages]
    split
    · next here => exact here ▸ old
    · exact old
  · intro other frame there alive clean wrote
    rw [disk]
    split
    · next here =>
      subst here
      exact resident other frameId held alive
    · next different =>
      rw [pages, if_neg (apart other different frame there)] at clean
      exact saved other frame there alive clean wrote
  · intro other there alive
    rw [disk, if_neg (by rintro rfl; rw [held] at there; cases there)]
    exact absent other there alive
  · intro other wrote
    obtain ⟨frame, there, pinned⟩ := unsaved other wrote
    refine ⟨frame, by rw [table]; exact there, ?_⟩
    rw [pages]
    split
    · next here => exact here ▸ pinned
    · exact pinned
  · intro other unborn
    rw [disk, if_neg (by rintro rfl; exact absurd (same ▸ book.allocated frameId) (not_lt.mpr unborn))]
    exact unallocated other unborn

theorem flushPage (simulates : Simulates s) (pageId : PageId) : Simulates (s.step (.flushPage pageId)) := by
  change Simulates { s with pool := (s.pool.flushPage pageId).1 }
  cases held : s.pool.pageTable.lookup pageId with
  | none =>
    simp only [BufferPoolManager.flushPage, held]
    exact simulates
  | some frameId =>
    simp only [BufferPoolManager.flushPage, held]
    exact simulates.flushFrame held

theorem flushAllPages (simulates : Simulates s) : Simulates (s.step .flushAllPages) := by
  change Simulates { s with pool := s.pool.flushAllPages }
  have walked (entries : List (Sigma fun _ : PageId => Fin n)) (s : Clients n D) (simulates : Simulates s)
      (held : ∀ entry ∈ entries, s.pool.pageTable.lookup entry.1 = some entry.2) :
      Simulates { s with pool := entries.foldl (fun pool entry => pool.flushFrame entry.1 entry.2) s.pool } := by
    induction entries generalizing s with
    | nil => exact simulates
    | cons entry rest ih =>
      rw [List.forall_mem_cons] at held
      exact ih { s with pool := s.pool.flushFrame entry.1 entry.2 } (simulates.flushFrame held.1) held.2
  exact walked _ s simulates fun entry member => AList.mem_lookup_iff.mpr member

/-- A client writes to a page it has pinned. -/
theorem writeData {data : D} (simulates : Simulates s) (pinned : Pinned s.pool pageId) :
    Simulates (s.step (.writeData pageId data)) := by
  have book' := simulates.book.writeData pageId data
  obtain ⟨book, resident, saved, absent, unsaved, unallocated⟩ := simulates
  obtain ⟨frameId, held, positive⟩ := pinned
  rw [Option.mem_def] at held
  simp only [Clients.step, BufferPoolManager.step, BufferPoolManager.writeData, held] at book' ⊢
  have apart (other : PageId) (different : other ≠ pageId) (frame : Fin n)
      (held' : s.pool.pageTable.lookup other = some frame) : frame ≠ frameId := by
    rintro rfl
    exact different (((book.table _ _).mp held').1.symm.trans ((book.table _ _).mp held).1)
  refine ⟨book', ?_, ?_, ?_, ?_, unallocated⟩
  · intro other frame there alive
    by_cases same : other = pageId
    · subst same
      obtain rfl : frame = frameId := Option.some.inj (there.symm.trans held)
      simp [BufferPoolManager.setPage]
    · simp only [BufferPoolManager.setPage, Function.update_of_ne (apart other same frame there),
        Function.update_of_ne same]
      exact resident other frame there alive
  · intro other frame there alive clean wrote
    by_cases same : other = pageId
    · simp [same] at wrote
    · simp only [Function.update_of_ne same] at wrote ⊢
      simp only [BufferPoolManager.setPage, Function.update_of_ne (apart other same frame there)] at clean
      exact saved other frame there alive clean wrote
  · intro other there alive
    have same : other ≠ pageId := by
      rintro rfl
      rw [show s.pool.pageTable.lookup other = none from there] at held
      cases held
    simp only [Function.update_of_ne same]
    exact absent other there alive
  · intro other wrote
    by_cases same : other = pageId
    · subst same
      refine ⟨frameId, held, ?_⟩
      simpa [BufferPoolManager.setPage] using positive
    · simp only [Function.update_of_ne same] at wrote
      obtain ⟨frame, there, positive'⟩ := unsaved other wrote
      refine ⟨frame, there, ?_⟩
      simpa [BufferPoolManager.setPage, apart other same frame there] using positive'

theorem step (simulates : Simulates s) {a : Action D} (legal : s.Legal a) : Simulates (s.step a) := by
  cases a with
  | newPage => exact simulates.newPage
  | fetchPage pageId => exact simulates.fetchPage legal.1 legal.2
  | unpinPage pageId isDirty => exact simulates.unpinPage legal
  | deletePage pageId => exact simulates.deletePage pageId
  | flushPage pageId => exact simulates.flushPage pageId
  | flushAllPages => exact simulates.flushAllPages
  | writeData pageId data => exact simulates.writeData legal

end Simulates

/-- The pool with the contents of an opened disk. -/
def opened (k : ℕ) (disk : PageId → D) (nextPageId : PageId) : Clients n D :=
  ⟨new k disk nextPageId, disk, fun _ => false, fun _ => false⟩

theorem simulates_opened {k : ℕ} (k_pos : 1 ≤ k) {disk : PageId → D} {nextPageId : PageId}
    (start : 0 ≤ nextPageId)
    (zeros : ∀ pageId, nextPageId ≤ pageId → disk pageId = 0) :
    Simulates (opened k disk nextPageId : Clients n D) :=
  ⟨bookkeeping_new k_pos disk start, fun _ _ held => (nomatch held), fun _ _ held => (nomatch held), fun _ _ _ => rfl,
    fun _ wrote => (nomatch wrote), zeros⟩

end Clients

section Stable

variable {n : ℕ} {D : Type} {pool pool' : BufferPoolManager n D} {frameId other : Fin n} {pageId : PageId}

/-- A pinned page stays in its frame with its data. -/
def Keeps (pool pool' : BufferPoolManager n D) : Prop :=
  ∀ pageId frameId, pool.pageTable.lookup pageId = some frameId → 0 < (pool.pages frameId).pinCount →
    pool'.pageTable.lookup pageId = some frameId ∧ (pool'.pages frameId).data = (pool.pages frameId).data

theorem Keeps.refl (pool : BufferPoolManager n D) : Keeps pool pool := fun _ _ held _ => ⟨held, rfl⟩

theorem Bookkeeping.keeps_install (book : Bookkeeping pool) (vacates : Vacates pool pool' frameId) (next : PageId)
    (data : D) (absent : ∀ other, (pool.pages other).pageId ≠ pageId) :
    Keeps pool ({ pool' with nextPageId := next }.install frameId pageId data) := by
  intro p frame held pinned
  have moved : frame ≠ frameId := by
    rintro rfl
    rw [vacates.unpinned] at pinned
    exact lt_irrefl 0 pinned
  obtain ⟨same, holds⟩ := (book.table p frame).mp held
  have elsewhere : p ≠ (pool.pages frameId).pageId := by
    intro here
    have held' := (book.table p frameId).mpr ⟨here.symm, fun invalid => holds (same.trans (here.trans invalid))⟩
    rw [held, Option.some.injEq] at held'
    exact moved held'
  constructor
  · rw [Bookkeeping.lookup_install vacates, if_neg (fun new => absent frame (same.trans new)), if_neg elsewhere, held]
  · rw [Bookkeeping.pages_install vacates, if_neg moved]

/-- A change of the pin count, the dirty bit or the disk. -/
theorem keeps_of_data (table : pool'.pageTable = pool.pageTable)
    (data : ∀ frameId, (pool'.pages frameId).data = (pool.pages frameId).data) : Keeps pool pool' :=
  fun _ frameId held _ => ⟨table ▸ held, data frameId⟩

theorem keeps_flushFrame : Keeps pool (pool.flushFrame pageId frameId) := by
  refine keeps_of_data rfl fun other => ?_
  by_cases same : other = frameId <;> simp [flushFrame, writePage, setPage, same]

theorem keeps_flushAllPages (entries : List (Sigma fun _ : PageId => Fin n)) (pool : BufferPoolManager n D) :
    (entries.foldl (fun pool entry => pool.flushFrame entry.1 entry.2) pool).pageTable = pool.pageTable ∧
      ∀ frameId, ((entries.foldl (fun pool entry => pool.flushFrame entry.1 entry.2) pool).pages frameId).data =
        (pool.pages frameId).data := by
  induction entries generalizing pool with
  | nil => exact ⟨rfl, fun _ => rfl⟩
  | cons entry rest ih =>
    obtain ⟨table, data⟩ := ih (pool.flushFrame entry.1 entry.2)
    refine ⟨table, fun frameId => (data frameId).trans ?_⟩
    by_cases same : frameId = entry.2 <;> simp [flushFrame, writePage, setPage, same]

/-- The action is a call on the pool, not a client at work on its page. -/
def Action.isPoolCall : Action D → Bool
  | .writeData _ _ => false
  | _ => true

/-- No call on the pool moves a pinned page or touches its data. -/
theorem Bookkeeping.keeps [Zero D] (book : Bookkeeping pool) {a : Action D} (existing : pool.Existing a)
    (call : a.isPoolCall) : Keeps pool (pool.step a) := by
  cases a with
  | newPage =>
    simp only [BufferPoolManager.step]
    rcases book.newPage_cases with ⟨failed, -⟩ | ⟨pool', frameId, vacates, done⟩
    · rw [failed]
      exact Keeps.refl pool
    · rw [done]
      exact book.keeps_install vacates _ 0 fun other => (book.allocated other).ne
  | fetchPage pageId =>
    simp only [BufferPoolManager.step]
    cases held : pool.pageTable.lookup pageId with
    | some frameId =>
      simp only [BufferPoolManager.fetchPage, held]
      refine keeps_of_data rfl fun other => ?_
      by_cases same : other = frameId <;> simp [BufferPoolManager.setPage, same]
    | none =>
      rcases book.fetchPage_cases held with ⟨failed, -⟩ | ⟨pool', frameId, vacates, done⟩
      · rw [failed]
        exact Keeps.refl pool
      · rw [done]
        exact book.keeps_install vacates _ _ fun other => book.absent_of_miss held existing.1 other
  | unpinPage pageId isDirty =>
    simp only [BufferPoolManager.step, BufferPoolManager.unpinPage]
    cases held : pool.pageTable.lookup pageId with
    | none => exact Keeps.refl pool
    | some frameId =>
      dsimp only
      split
      · exact Keeps.refl pool
      · split
        all_goals
          refine keeps_of_data rfl fun other => ?_
          by_cases same : other = frameId <;> simp [BufferPoolManager.setPage, same]
  | deletePage pageId =>
    simp only [BufferPoolManager.step]
    cases held : pool.pageTable.lookup pageId with
    | none =>
      simp only [BufferPoolManager.deletePage, held]
      exact Keeps.refl pool
    | some frameId =>
      by_cases pinned : 0 < (pool.pages frameId).pinCount
      · simp only [BufferPoolManager.deletePage, held, pinned, if_true]
        exact Keeps.refl pool
      · obtain ⟨replacer, deleted, -⟩ := book.deletePage_of_unpinned held (Nat.eq_zero_of_not_pos pinned)
        rw [deleted]
        intro p frame held' pinned'
        have moved : frame ≠ frameId := by
          rintro rfl
          exact pinned pinned'
        have different : p ≠ pageId := by
          rintro rfl
          exact moved (Option.some.inj (held'.symm.trans held))
        refine ⟨(AList.lookup_erase_ne different).trans held', ?_⟩
        simp [BufferPoolManager.setPage, moved]
  | flushPage pageId =>
    simp only [BufferPoolManager.step, BufferPoolManager.flushPage]
    cases held : pool.pageTable.lookup pageId with
    | none => exact Keeps.refl pool
    | some frameId => exact keeps_flushFrame
  | flushAllPages =>
    obtain ⟨table, data⟩ := keeps_flushAllPages pool.pageTable.entries pool
    exact keeps_of_data table data
  | writeData pageId data => cases call

end Stable

section Promises

variable {n : ℕ} {D : Type} [Zero D] {s : Clients n D}

/-- What the clients are promised. -/
structure Transparent (s : Clients n D) : Prop where
  fetchPage : ∀ pageId frameId, 0 ≤ pageId → pageId < s.pool.nextPageId → s.deleted pageId = false →
    (s.pool.fetchPage pageId).2 = some frameId →
      ((s.pool.fetchPage pageId).1.pages frameId).data = s.contents pageId
  keeps : ∀ a, s.Legal a → a.isPoolCall → Keeps s.pool (s.pool.step a)
  flushPage : ∀ pageId frameId, s.pool.pageTable.lookup pageId = some frameId → s.deleted pageId = false →
    (s.pool.flushPage pageId).1.disk pageId = s.contents pageId
  flushAllPages : ∀ pageId frameId, s.pool.pageTable.lookup pageId = some frameId → s.deleted pageId = false →
    s.pool.flushAllPages.disk pageId = s.contents pageId

omit [Zero D] in
/-- A page that was fetched is in the page table. -/
theorem Bookkeeping.lookup_fetchPage {pool : BufferPoolManager n D} {frameId : Fin n} {pageId : PageId}
    (book : Bookkeeping pool) (fetched : (pool.fetchPage pageId).2 = some frameId) :
    (pool.fetchPage pageId).1.pageTable.lookup pageId = some frameId := by
  cases held : pool.pageTable.lookup pageId with
  | some frame =>
    simp only [BufferPoolManager.fetchPage, held, Option.some.injEq] at fetched ⊢
    subst fetched
    exact held
  | none =>
    rcases book.fetchPage_cases held with ⟨failed, -⟩ | ⟨pool', frame, vacates, done⟩
    · rw [failed] at fetched
      cases fetched
    · rw [done, Option.some.injEq] at fetched
      subst fetched
      rw [done]
      exact AList.lookup_insert _

omit [Zero D] in
/-- A page on the list of the flushed ones ends up on disk. -/
theorem disk_foldl_flushFrame (entries : List (Sigma fun _ : PageId => Fin n)) {pool : BufferPoolManager n D}
    {frameId : Fin n} {pageId : PageId} (same : ∀ entry ∈ entries, entry.1 = pageId → entry.2 = frameId)
    (written : ⟨pageId, frameId⟩ ∈ entries ∨ pool.disk pageId = (pool.pages frameId).data) :
    (entries.foldl (fun pool entry => pool.flushFrame entry.1 entry.2) pool).disk pageId =
      (pool.pages frameId).data := by
  induction entries generalizing pool with
  | nil => exact written.resolve_left List.not_mem_nil
  | cons entry rest ih =>
    rw [List.forall_mem_cons] at same
    have data : ((pool.flushFrame entry.1 entry.2).pages frameId).data = (pool.pages frameId).data := by
      by_cases here : frameId = entry.2 <;> simp [flushFrame, writePage, setPage, here]
    rw [List.foldl_cons, ← data]
    refine ih same.2 ?_
    rw [data]
    by_cases here : entry.1 = pageId
    · right
      simp [flushFrame, writePage, setPage, here, same.1 here]
    · rcases written with member | stored
      · refine .inl ((List.mem_cons.mp member).resolve_left ?_)
        rintro rfl
        exact here rfl
      · right
        simpa [flushFrame, writePage, setPage, Ne.symm here] using stored

theorem Clients.Simulates.transparent (simulates : Simulates s) : Transparent s := by
  constructor
  · intro pageId frameId valid exists' alive fetched
    have after : Simulates (s.step (.fetchPage pageId)) := simulates.fetchPage valid exists'
    exact after.resident pageId frameId (simulates.book.lookup_fetchPage fetched) alive
  · intro a legal call
    refine simulates.book.keeps ?_ call
    cases a with
    | fetchPage pageId => exact legal
    | newPage | unpinPage | deletePage | flushPage | flushAllPages | writeData => trivial
  · intro pageId frameId held alive
    rw [← simulates.resident pageId frameId held alive]
    simp [BufferPoolManager.flushPage, held, BufferPoolManager.flushFrame, writePage, BufferPoolManager.setPage]
  · intro pageId frameId held alive
    rw [← simulates.resident pageId frameId held alive]
    refine disk_foldl_flushFrame _ (fun entry member here => ?_) (.inl (AList.mem_lookup_iff.mp held))
    have there := AList.mem_lookup_iff.mpr member
    rw [here] at there
    exact Option.some.inj (there.symm.trans held)

/-- In every run in which clients fetch existing pages, write to pinned pages and unpin them as dirty, the
pool behaves as a map from pages to contents. -/
theorem run_transparent {k : ℕ} (k_pos : 1 ≤ k) {disk : PageId → D} {nextPageId : PageId}
    (start : 0 ≤ nextPageId)
    (zeros : ∀ pageId, nextPageId ≤ pageId → disk pageId = 0) (run : List (Action D))
    (along : Along Clients.Legal Clients.step (Clients.opened k disk nextPageId : Clients n D) run) :
    Transparent (run.foldl Clients.step (Clients.opened k disk nextPageId : Clients n D)) :=
  (along.invariant (fun _ _ simulates legal => simulates.step legal)
    (Clients.simulates_opened k_pos start zeros)).transparent

/-- A page written, evicted by another and fetched back. -/
def evictingRun : List (Action ℕ) :=
  [.newPage, .writeData 0 7, .unpinPage 0 true, .newPage, .unpinPage 1 false, .fetchPage 0]

theorem run_transparent_evictingRun :
    Along Clients.Legal Clients.step (Clients.opened 2 (fun _ => 0) 0 : Clients 1 ℕ) evictingRun ∧
      Transparent (evictingRun.foldl Clients.step (Clients.opened 2 (fun _ => 0) 0 : Clients 1 ℕ)) :=
  ⟨by decide, run_transparent (by decide) le_rfl (fun _ _ => rfl) evictingRun (by decide)⟩

/-- A page fetched, written and unpinned before it exists, then allocated and evicted clean. -/
def staleRun : List (Action ℕ) :=
  [.fetchPage 0, .writeData 0 7, .unpinPage 0 true, .newPage, .unpinPage 0 false, .newPage, .unpinPage 1 false]

/-- After `NewPage` the page should hold zeros, but it is fetched with what was written before. -/
theorem staleRun_fetches_old_data :
    let s := staleRun.foldl Clients.step (Clients.opened 2 (fun _ => 0) 0 : Clients 1 ℕ)
    s.contents 0 = 0 ∧ s.deleted 0 = false ∧ (s.pool.fetchPage 0).2 = some 0 ∧
      ((s.pool.fetchPage 0).1.pages 0).data = 7 := by
  decide

end Promises

end OneBase.BufferPoolManager
