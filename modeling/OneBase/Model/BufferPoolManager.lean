import OneBase.Model.LruKReplacer
import OneBase.Model.Types
import Mathlib.Data.Fintype.Basic

/-! # The buffer pool

`buffer/buffer_pool_manager.cpp` over `n` frames. Page data is any type `D` with a value for zeroed
memory: the pool moves it and never looks inside. Below the pool is a disk that gives back what was
last written to a page, and hands out page ids one after another. A `Page *` is its frame.
-/

namespace OneBase

/-- `Page`. -/
structure Page (D : Type) where
  data : D
  pageId : PageId := invalidPageId
  pinCount : ℕ := 0
  isDirty : Bool := false

/-- `BufferPoolManager`, with the disk and the next page id of its `DiskManager`. -/
structure BufferPoolManager (n : ℕ) (D : Type) where
  pages : Fin n → Page D
  pageTable : AList fun _ : PageId => Fin n
  freeList : List (Fin n)
  replacer : LruKReplacer (Fin n)
  disk : PageId → D
  nextPageId : PageId

namespace BufferPoolManager

variable {n : ℕ} {D : Type} [Zero D]

/-- The constructor. -/
def new (replacerK : ℕ) (disk : PageId → D) (nextPageId : PageId) : BufferPoolManager n D where
  pages := fun _ => { data := 0 }
  pageTable := ∅
  freeList := List.finRange n
  replacer := { k := replacerK }
  disk := disk
  nextPageId := nextPageId

variable (pool : BufferPoolManager n D)

def setPage (frameId : Fin n) (page : Page D) : BufferPoolManager n D :=
  { pool with pages := Function.update pool.pages frameId page }

/-- `DiskManager::WritePage`. -/
def writePage (pageId : PageId) (data : D) : BufferPoolManager n D :=
  { pool with disk := Function.update pool.disk pageId data }

/-- A frame from the free list, or else a victim of the replacer. -/
def acquireFrame : BufferPoolManager n D × Option (Fin n) :=
  match pool.freeList with
  | frameId :: rest => ({ pool with freeList := rest }, some frameId)
  | [] =>
    let result := pool.replacer.evict
    ({ pool with replacer := result.1 }, result.2)

/-- What a frame held before goes to disk if it is dirty, and leaves the page table. -/
def dropVictim (frameId : Fin n) : BufferPoolManager n D :=
  let victim := pool.pages frameId
  let pool :=
    if victim.isDirty then
      (pool.writePage victim.pageId victim.data).setPage frameId { victim with isDirty := false }
    else pool
  if victim.pageId ≠ invalidPageId then { pool with pageTable := pool.pageTable.erase victim.pageId } else pool

/-- The end of `NewPage` and of a miss in `FetchPage`. -/
def install (frameId : Fin n) (pageId : PageId) (data : D) : BufferPoolManager n D :=
  let pool := pool.setPage frameId ⟨data, pageId, 1, false⟩
  { pool with
    pageTable := pool.pageTable.insert pageId frameId
    replacer := (pool.replacer.recordAccess frameId).setEvictable frameId false }

/-- `NewPage`: the id of the page and its frame, `none` for `nullptr`. -/
def newPage : BufferPoolManager n D × Option (PageId × Fin n) :=
  match pool.acquireFrame with
  | (pool, none) => (pool, none)
  | (pool, some frameId) =>
    let pool := pool.dropVictim frameId
    -- `AllocatePage`
    let pageId := pool.nextPageId
    let pool := { pool with nextPageId := pool.nextPageId + 1 }
    (pool.install frameId pageId 0, some (pageId, frameId))

/-- `FetchPage`. -/
def fetchPage (pageId : PageId) : BufferPoolManager n D × Option (Fin n) :=
  match pool.pageTable.lookup pageId with
  | some frameId =>
    let page := pool.pages frameId
    let pool := pool.setPage frameId { page with pinCount := page.pinCount + 1 }
    ({ pool with replacer := (pool.replacer.recordAccess frameId).setEvictable frameId false }, some frameId)
  | none =>
    match pool.acquireFrame with
    | (pool, none) => (pool, none)
    | (pool, some frameId) =>
      let pool := pool.dropVictim frameId
      -- `ReadPage`
      (pool.install frameId pageId (pool.disk pageId), some frameId)

/-- `UnpinPage`. -/
def unpinPage (pageId : PageId) (isDirty : Bool) : BufferPoolManager n D × Bool :=
  match pool.pageTable.lookup pageId with
  | none => (pool, false)
  | some frameId =>
    let page := pool.pages frameId
    if page.pinCount = 0 then (pool, false)
    else
      let pool := pool.setPage frameId
        { page with isDirty := page.isDirty || isDirty, pinCount := page.pinCount - 1 }
      if page.pinCount - 1 = 0 then
        ({ pool with replacer := pool.replacer.setEvictable frameId true }, true)
      else (pool, true)

/-- `DeletePage`; the exception is that of `LRUKReplacer::Remove`, thrown after the page table changed. -/
def deletePage (pageId : PageId) : BufferPoolManager n D × Except String Bool :=
  match pool.pageTable.lookup pageId with
  | none => (pool, .ok true)
  | some frameId =>
    if (pool.pages frameId).pinCount > 0 then (pool, .ok false)
    else
      let pool := { pool with pageTable := pool.pageTable.erase pageId }
      match pool.replacer.remove frameId with
      | .error message => (pool, .error message)
      | .ok replacer =>
        let pool := pool.setPage frameId { data := 0 }
        ({ pool with replacer := replacer, freeList := pool.freeList ++ [frameId] }, .ok true)

/-- The body of `FlushPage` and of the loop of `FlushAllPages`. -/
def flushFrame (pageId : PageId) (frameId : Fin n) : BufferPoolManager n D :=
  let page := pool.pages frameId
  (pool.writePage pageId page.data).setPage frameId { page with isDirty := false }

/-- `FlushPage`. -/
def flushPage (pageId : PageId) : BufferPoolManager n D × Bool :=
  match pool.pageTable.lookup pageId with
  | none => (pool, false)
  | some frameId => (pool.flushFrame pageId frameId, true)

/-- `FlushAllPages`. -/
def flushAllPages : BufferPoolManager n D :=
  pool.pageTable.entries.foldl (fun pool entry => pool.flushFrame entry.1 entry.2) pool

/-- A client writes to the data of a page in the pool. -/
def writeData (pageId : PageId) (data : D) : BufferPoolManager n D :=
  match pool.pageTable.lookup pageId with
  | none => pool
  | some frameId => pool.setPage frameId { pool.pages frameId with data := data }

/-- The calls on the pool, and writes of clients to page data. -/
inductive Action (D : Type) where
  | newPage
  | fetchPage (pageId : PageId)
  | unpinPage (pageId : PageId) (isDirty : Bool)
  | deletePage (pageId : PageId)
  | flushPage (pageId : PageId)
  | flushAllPages
  | writeData (pageId : PageId) (data : D)

def step : Action D → BufferPoolManager n D
  | .newPage => pool.newPage.1
  | .fetchPage pageId => (pool.fetchPage pageId).1
  | .unpinPage pageId isDirty => (pool.unpinPage pageId isDirty).1
  | .deletePage pageId => (pool.deletePage pageId).1
  | .flushPage pageId => (pool.flushPage pageId).1
  | .flushAllPages => pool.flushAllPages
  | .writeData pageId data => pool.writeData pageId data

end BufferPoolManager

end OneBase
