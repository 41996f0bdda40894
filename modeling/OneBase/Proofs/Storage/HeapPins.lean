import OneBase.Proofs.Storage.HeapStore

/-! # The pins of a table heap

The pool keeps the pins in the same frames as the bytes of the pages. Calls that callers may make drop every pin they
take, whichever pages are refused, and they store nothing behind the end of a page.
-/

namespace OneBase.TableHeap

open TablePage Traces

/-- The page ids that were not handed out yet have no pins and no bytes. -/
def Untouched (heap : TableHeap) : Prop :=
    ∀ p, heap.nextPageId ≤ p → heap.pinCount p = 0 ∧ heap.data p = fun _ => 0

/-- The pool has the same pins, and the bytes behind the pages are the same. -/
structure SamePool (heap heap' : TableHeap) : Prop where
  pins : heap'.pinCount = heap.pinCount
  behind : ∀ p, SameBehind (heap.data p) (heap'.data p)
  untouched : Untouched heap'

theorem SamePool.trans {heap heap' heap'' : TableHeap} (first : SamePool heap heap') (second : SamePool heap' heap'') :
    SamePool heap heap'' :=
  ⟨second.pins.trans first.pins, fun p => (first.behind p).trans (second.behind p), second.untouched⟩

variable {heap heap' : TableHeap} {chain : List PageId} {tuple : List UInt8} {rid : Rid} {s : Session}

/-- A call that only reads. -/
theorem Untouched.reads (untouched : Untouched heap) (calls : ℕ) : SamePool heap { heap with calls } :=
  ⟨rfl, fun _ => .refl _, untouched⟩

/-- A call that stores within a page that was handed out. -/
theorem Untouched.writes {p : PageId} {page : TablePage} (untouched : Untouched heap) (below : p < heap.nextPageId)
    (behind : SameBehind (heap.data p) page) (calls : ℕ) :
    SamePool heap { heap with calls, data := Function.update heap.data p page } := by
  refine ⟨rfl, fun q => ?_, fun q above => ?_⟩
  · dsimp only
    rcases eq_or_ne q p with rfl | other
    · rwa [Function.update_self]
    · rw [Function.update_of_ne other]
      exact .refl _
  · dsimp only at above ⊢
    rw [Function.update_of_ne (below.trans_le above).ne']
    exact untouched q above

/-- `InsertTuple`: the new page, if there is one, is unpinned again. -/
theorem Insertion.samePool {result : Option Rid} (insertion : Insertion tuple heap chain result heap')
    (formed : WellFormed heap chain) (untouched : Untouched heap) : SamePool heap heap' := by
  cases insertion with
  | placed before after pageId slot page calls split took =>
    have mem : pageId ∈ chain := by simp [split]
    have behind := (formed.laid pageId mem).sameBehind_insert tuple
    rw [took] at behind
    exact untouched.writes (formed.allocated pageId mem).2 behind calls
  | refused calls call early refused => exact untouched.reads calls
  | extended before last page slot calls split fresh full _ =>
    obtain ⟨unpinned, blank⟩ := untouched heap.nextPageId le_rfl
    have mem : last ∈ chain := by simp [split]
    have other : last ≠ heap.nextPageId := (formed.allocated last mem).2.ne
    have behind : SameBehind (fun _ => 0) page := by
      have inserted := (wellLaid_init fun _ => 0).1.sameBehind_insert tuple
      rw [← freshPage, fresh] at inserted
      exact (sameBehind_init _ _).trans inserted
    refine ⟨?_, fun q => ?_, fun q above => ?_⟩
    · dsimp only
      rw [← unpinned, Function.update_eq_self]
    · dsimp only
      rcases eq_or_ne q last with rfl | notLast
      · rw [Function.update_self]
        exact sameBehind_setNextPageId _ _
      · rw [Function.update_of_ne notLast]
        rcases eq_or_ne q heap.nextPageId with rfl | notNew
        · rw [Function.update_self, blank]
          exact behind
        · rw [Function.update_of_ne notNew]
          exact .refl _
    · dsimp only at above ⊢
      have beyond : heap.nextPageId < q := above
      rw [Function.update_of_ne beyond.ne', Function.update_of_ne ((formed.allocated last mem).2.trans beyond).ne',
        Function.update_of_ne beyond.ne']
      exact untouched q beyond.le

/-- The walk of an iterator along the chain only reads. -/
theorem WellFormed.seek_reads {before after : List PageId} {p : PageId}
    (formed : WellFormed heap (before ++ p :: after))
    (slot : ℕ) : ∃ rid calls, seek (roundsFor heap) p slot heap = some (rid, { heap with calls }) := by
  have enough := formed.enough
  have shorter : Enough (roundsFor heap) (p :: after) := by
    simp only [Enough, List.length_append] at enough ⊢
    omega
  obtain ⟨rid, calls, ran, -⟩ := seek_run slot formed.linked.suffix
    (fun q mem => formed.laid q (List.mem_append_right _ mem)) shorter
  exact ⟨rid, calls, ran⟩

/-- A call that callers may make returns and keeps the pool. -/
theorem Session.Sound.samePool (sound : s.Sound chain) (untouched : Untouched s.heap) {request : Request}
    (legal : s.Legal request) : ∃ response heap', s.serve request = some (response, heap') ∧
    SamePool s.heap heap' := by
  have formed := sound.1
  cases request with
  | insertTuple tuple =>
    obtain ⟨result, heap', ran, insertion⟩ :=
      insertFrom_run (tuple.data.take tuple.getLength) formed.linked formed.nonempty
      (fun p mem => (formed.allocated p mem).2.ne) ((Nat.le_add_right _ _).trans_lt formed.enough)
    exact ⟨_, heap', wrapped_run .inserted ran, insertion.samePool formed untouched⟩
  | getTuple rid => exact ⟨_, _, wrapped_run .got (getTuple_run rid s.heap), untouched.reads _⟩
  | updateTuple rid tuple =>
    obtain ⟨old, held, notEmpty, positive, room⟩ := legal
    rw [sound.2] at held
    obtain ⟨mem, inSlot⟩ := stores_eq_some_iff.mp held
    have live := slotBytes_eq_some_live notEmpty inSlot
    have run := updateTupleBy_run updateBytes rid tuple s.heap
    dsimp only at run
    split at run
    · refine ⟨_, _, wrapped_run .updated run, untouched.writes (formed.allocated _ mem).2 ?_ _⟩
      apply (formed.laid _ mem).sameBehind_update (slotBytes_numbered inSlot)
      rw [length_payload]
      refine room.imp_right fun ⟨grows, full⟩ => ?_
      rw [updateBytes, ← live_length live, length_payload]
      exact if_pos ⟨grows, full⟩
    · exact ⟨_, _, wrapped_run .updated run, untouched.reads _⟩
  | deleteTuple rid =>
    have mem := sound.mem_chain legal
    obtain ⟨bytes, held⟩ := Option.ne_none_iff_exists'.mp legal
    rw [sound.2] at held
    have numbered := slotBytes_numbered (stores_eq_some_iff.mp held).2
    refine ⟨_, _, wrapped_run (fun _ => .deleted) (deleteTuple_run rid s.heap), ?_⟩
    split
    · exact untouched.writes (formed.allocated _ mem).2
        (sameBehind_deleteTuple ((formed.laid _ mem).slot_inside numbered)) _
    · exact untouched.reads _
  | begin =>
    cases pages : chain with
    | nil => exact absurd pages formed.nonempty
    | cons first after =>
      subst pages
      obtain rfl : s.heap.firstPageId = first := formed.linked.1
      have whole : WellFormed s.heap ([] ++ s.heap.firstPageId :: after) := formed
      obtain ⟨rid, calls, ran⟩ := whole.seek_reads 0
      exact ⟨_, _, wrapped_run .iterator ran, untouched.reads calls⟩
  | increment rid =>
    rcases legal with issued | rfl
    · obtain ⟨before, after, rfl⟩ := List.append_of_mem (sound.mem_chain issued)
      obtain ⟨found, calls, ran⟩ := formed.seek_reads ((rid.slotNum + 1) % 2 ^ 16)
      exact ⟨_, _, wrapped_run .iterator ran, untouched.reads calls⟩
    · have ran : TableHeap.increment (roundsFor s.heap) endRid s.heap = some (endRid, s.heap) := by
        rw [TableHeap.increment, roundsFor, seek, if_pos (show endRid.pageId = invalidPageId from rfl)]
        rfl
      exact ⟨_, _, wrapped_run .iterator ran, untouched.reads _⟩

/-- After any run of calls on a well-formed heap, whichever pages are refused, the next call returns; all pages are
pinned as they were before the run, and nothing was stored behind the end of a page. -/
theorem heap_calls_keep_pins (sound : s.Sound chain) (untouched : Untouched s.heap) {requests : List Request}
    (legal : Along Session.Legal Session.step s requests) {request : Request}
    (next : (requests.foldl Session.step s).Legal request) : ∃ response heap',
      (requests.foldl Session.step s).serve request = some (response, heap') ∧
      heap'.pinCount = s.heap.pinCount ∧ ∀ p, SameBehind (s.heap.data p) (heap'.data p) := by
  obtain ⟨⟨chain', sound'⟩, same⟩ := legal.invariant
    (I := fun reached => (∃ chain, reached.Sound chain) ∧ SamePool s.heap reached.heap)
    (fun reached request ⟨⟨chain, sound⟩, same⟩ legal => by
      obtain ⟨chain', sound', -⟩ := sound.step legal
      obtain ⟨response, heap', served, same'⟩ := sound.samePool same.untouched legal
      refine ⟨⟨chain', sound'⟩, ?_⟩
      rw [reached.step_of_serve served]
      exact same.trans same') ⟨⟨chain, sound⟩, untouched.reads _⟩
  obtain ⟨response, heap', served, same'⟩ := sound'.samePool same.untouched next
  exact ⟨response, heap', served, (same.trans same').pins, (same.trans same').behind⟩

/-- After an insertion on the heap with gaps, a row of its last page is deleted. -/
theorem heap_calls_keep_pins_gaps : ∃ response heap',
    ([Request.insertTuple ⟨default, [7], []⟩].foldl Session.step gapsSession).serve (.deleteTuple ⟨2, 0⟩) =
        some (response, heap') ∧
      heap'.pinCount = gapsSession.heap.pinCount ∧ ∀ p, SameBehind (gapsSession.heap.data p) (heap'.data p) := by
  have untouched : Untouched gapsSession.heap := by
    intro p above
    have beyond : (3 : ℤ) ≤ p := above
    refine ⟨rfl, ?_⟩
    have other (q : ℤ) (below : q < 3) : p ≠ q := (below.trans_le beyond).ne'
    dsimp only [gapsSession, gaps]
    rw [if_neg (other 0 (by decide)), if_neg (other 1 (by decide)), if_neg (other 2 (by decide))]
  exact @heap_calls_keep_pins _ _ gapsSession_sound untouched [.insertTuple ⟨default, [7], []⟩]
    ⟨show (3 : ℤ) < 2 ^ 31 by decide, trivial⟩ _
    (Session.run_issued (gapsSession_live ⟨2, 0⟩ (by simp)).issued [.insertTuple ⟨default, [7], []⟩])

end OneBase.TableHeap
