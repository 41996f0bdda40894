import OneBase.Proofs.Storage.HeapScan

/-! # Changes to one row

`DeleteTuple` and `UpdateTuple` change one slot of one page. The heap stays well-formed, one row of the chain is dropped
or replaced, and the rows behind it are as they were.
-/

namespace OneBase.TableHeap

open TablePage

/-- The page of a RID holds other bytes in its slot, or none; everything else is as before. -/
structure Rewrites (data data' : PageId → TablePage) (rid : Rid) (bytes : Option (List UInt8)) : Prop where
  others : ∀ p ≠ rid.pageId, data' p = data p
  laid : WellLaid (data' rid.pageId)
  live : (data' rid.pageId).live = Function.update (data rid.pageId).live rid.slotNum bytes
  number : (data' rid.pageId).getNumTuples = (data rid.pageId).getNumTuples
  link : (data' rid.pageId).getNextPageId = (data rid.pageId).getNextPageId

/-- The row at a RID with other bytes, or no row there. -/
def rewriteRow (rid : Rid) (bytes : Option (List UInt8)) (row : Rid × List UInt8) : Option (Rid × List UInt8) :=
  if row.1 = rid then bytes.map (Prod.mk rid) else some row

section Rewrites

variable {data data' : PageId → TablePage} {heap : TableHeap} {chain : List PageId} {rid : Rid} {old : List UInt8}
  {bytes : Option (List UInt8)} {rest : Rows}

theorem WellFormed.rewrite (formed : WellFormed heap chain) (rewrites : Rewrites heap.data data' rid bytes)
    (calls : ℕ) :
    WellFormed { heap with calls, data := data' } chain := by
  refine ⟨formed.linked.congr ?_, formed.nonempty, formed.nodup, formed.allocated, ?_⟩
  · intro p _
    by_cases here : p = rid.pageId
    · rw [here]
      exact rewrites.link
    · exact congrArg TablePage.getNextPageId (rewrites.others p here)
  · intro p mem
    by_cases here : p = rid.pageId
    · rw [here]
      exact rewrites.laid
    · dsimp only
      rw [rewrites.others p here]
      exact formed.laid p mem

/-- The rows of a page are rewritten one by one. -/
theorem rowsFrom_rewrite (rewrites : Rewrites data data' rid bytes)
    (held : (data rid.pageId).live rid.slotNum = some old)
    (p : PageId) (slot : ℕ) :
    rowsFrom (data' p) p slot = (rowsFrom (data p) p slot).filterMap (rewriteRow rid bytes) := by
  by_cases here : p = rid.pageId
  · subst here
    rw [rowsFrom, rowsFrom, rewrites.number, rewrites.live, List.filterMap_filterMap]
    apply List.filterMap_congr
    intro other _
    by_cases same : other = rid.slotNum
    · subst same
      rw [Function.update_self, held, Option.map_some, Option.bind_some, rewriteRow, if_pos rfl]
    · rw [Function.update_of_ne same]
      cases (data rid.pageId).live other with
      | none => rfl
      | some kept =>
        have differs : (⟨rid.pageId, other⟩ : Rid) ≠ rid := fun equal => same (congrArg Rid.slotNum equal)
        rw [Option.map_some, Option.bind_some, rewriteRow, if_neg differs]
  · rw [rewrites.others p here]
    have kept : (rowsFrom (data p) p slot).filterMap (rewriteRow rid bytes) =
        (rowsFrom (data p) p slot).filterMap some := by
      apply List.filterMap_congr
      intro row mem
      have differs : row.1 ≠ rid := fun equal => here (equal ▸ (mem_rowsFrom_iff.mp mem).1.symm)
      rw [rewriteRow, if_neg differs]
    rw [kept, List.filterMap_some]

theorem contents_rewrite (rewrites : Rewrites data data' rid bytes)
    (held : (data rid.pageId).live rid.slotNum = some old) :
    contents data' chain = (contents data chain).filterMap (rewriteRow rid bytes) := by
  rw [contents, contents, List.filterMap_flatMap]
  exact List.flatMap_congr fun p _ => rowsFrom_rewrite rewrites held p 0

/-- Rows at other RIDs stay. -/
theorem filterMap_rewriteRow_of_notMem {rows : Rows} (absent : rid ∉ rows.map Prod.fst) :
    rows.filterMap (rewriteRow rid bytes) = rows := by
  have kept : rows.filterMap (rewriteRow rid bytes) = rows.filterMap some := by
    apply List.filterMap_congr
    intro row mem
    have differs : row.1 ≠ rid := fun equal => absent (List.mem_map.mpr ⟨row, mem, equal⟩)
    rw [rewriteRow, if_neg differs]
  rw [kept, List.filterMap_some]

/-- In the rows of the chain, the one at the RID is replaced. -/
theorem contents_rewrite_split (rewrites : Rewrites data data' rid bytes) (nodup : chain.Nodup) {earlier later : Rows}
    (split : contents data chain = earlier ++ (rid, old) :: later) :
    contents data' chain = earlier ++ (bytes.map (Prod.mk rid)).toList ++ later := by
  have mem : (rid, old) ∈ contents data chain := by simp [split]
  have rids := nodup_of_ordered (contents_ordered data nodup)
  rw [split, List.map_append, List.map_cons, List.nodup_middle, List.nodup_cons, List.mem_append, not_or] at rids
  obtain ⟨⟨notEarlier, notLater⟩, -⟩ := rids
  rw [contents_rewrite rewrites (mem_contents_iff.mp mem).2, split, List.filterMap_append,
    filterMap_rewriteRow_of_notMem notEarlier, List.append_assoc]
  refine congrArg (earlier ++ ·) ?_
  rw [List.filterMap_cons, filterMap_rewriteRow_of_notMem notLater, rewriteRow, if_pos rfl]
  cases bytes <;> rfl

/-- The rows behind the changed one stay. -/
theorem Rest.rewrite (ahead : Rest data chain ((rid, old) :: rest)) (nodup : chain.Nodup)
    (rewrites : Rewrites data data' rid bytes) : Rest data' chain rest := by
  obtain ⟨before, after, split, held, rfl⟩ := ahead.cons
  refine ⟨before, _, rid.slotNum + 1, split, ?_⟩
  rw [split, List.nodup_middle, List.nodup_cons, List.mem_append, not_or] at nodup
  have later : contents data' after = contents data after := by
    apply contents_congr
    intro p mem
    rw [rewrites.others p (ne_of_mem_of_not_mem mem nodup.1.2)]
  rw [remaining, remaining, later, rowsFrom_rewrite rewrites held, filterMap_rewriteRow_of_notMem]
  intro mem
  obtain ⟨row, inside, equal⟩ := List.mem_map.mp mem
  have behind := (mem_rowsFrom_iff.mp inside).2.1
  rw [equal] at behind
  exact absurd behind (Nat.not_succ_le_self _)

/-- A tuple on a page is not longer than the page. -/
theorem live_short {page : TablePage} {slot : ℕ} (laid : WellLaid page) (held : page.live slot = some old) :
    old.length ≤ pageSize := by
  rw [live_length held]
  exact (Nat.le_add_left _ _).trans (laid.inside slot old held).2

/-- `DeleteTuple` of a live row drops it. -/
theorem rewrites_delete (laid : WellLaid (data rid.pageId)) (held : (data rid.pageId).live rid.slotNum = some old) :
    Rewrites data (Function.update data rid.pageId ((data rid.pageId).deleteTuple rid.slotNum)) rid none := by
  obtain ⟨laid', live, number, link⟩ := laid.delete held
  refine ⟨fun p other => Function.update_of_ne other _ _, ?_, ?_, ?_, ?_⟩ <;> rw [Function.update_self]
  · exact laid'
  · exact live
  · exact number
  · exact link

end Rewrites

end OneBase.TableHeap
