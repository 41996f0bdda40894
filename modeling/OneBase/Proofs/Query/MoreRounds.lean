import OneBase.Model.TableExecutors

/-! # More rounds

What the calls of a scan and of an insertion come to in a number of rounds, they come to in more of them.
-/

namespace OneBase

open ExceptRuns

namespace TableHeap

theorem insertFrom_more (tuple : List UInt8) (rounds : ℕ) (pageId : PageId) :
    Extends (insertFrom tuple rounds pageId) (insertFrom tuple (rounds + 1) pageId) := by
  induction rounds generalizing pageId with
  | zero => exact .none _
  | succ rounds ih =>
    rw [insertFrom, insertFrom, insertRound, insertRound]
    split_ifs with none
    · exact .refl _
    · refine .stateT_bind (.refl _) fun granted => ?_
      split_ifs with fetched
      · refine .stateT_bind (.refl _) fun tablePage => ?_
        rw [insertTried, insertTried]
        refine .stateT_bind (.refl _) fun _ => ?_
        rcases tablePage.insertBytes tuple with ⟨page, _ | slot⟩
        · dsimp only
          split_ifs with last
          · exact .refl _
          · exact .stateT_bind (.refl _) fun _ => ih _
        · exact .refl _
      · exact .refl _

theorem findSlot_more (tablePage : TablePage) (rounds slot : ℕ) :
    Extends (findSlot tablePage rounds slot) (findSlot tablePage (rounds + 1) slot) := by
  induction rounds generalizing slot with
  | zero => exact .none _
  | succ rounds ih =>
    rw [findSlot, findSlot]
    split_ifs
    · exact .refl _
    · exact ih _
    · exact .refl _

theorem seek_more (rounds : ℕ) (pageId : PageId) (slot : ℕ) :
    Extends (seek rounds pageId slot) (seek (rounds + 1) pageId slot) := by
  induction rounds generalizing pageId slot with
  | zero => exact .none _
  | succ rounds ih =>
    rw [seek, seek]
    split_ifs with none
    · exact .refl _
    · refine .stateT_bind (.refl _) fun granted => ?_
      split_ifs with fetched
      · refine .stateT_bind (.refl _) fun tablePage => ?_
        refine .stateT_bind (findSlot_more tablePage (rounds + 1) slot) fun found => ?_
        cases found with
        | none => exact .stateT_bind (.refl _) fun _ => ih _ _
        | some found => exact .refl _
      · exact .refl _

theorem heapCode_extends {α : Type} {m m' : HeapM α} (more : Extends m m') :
    Extends (heapCode m) (heapCode m') := by
  intro heap out ran
  obtain ⟨done, came, rfl⟩ := Option.map_eq_some_iff.mp ran
  rw [heapCode, more _ _ came]
  rfl

end TableHeap

open TableHeap

variable {F : Type} [StoresFloat F] [Field F] [LinearOrder F]

theorem TableScan.next_more (schema : Schema) (predicate : Option (Expression F)) (rounds : ℕ) :
    Extends (TableScan.next schema predicate rounds) (TableScan.next schema predicate (rounds + 1)) := by
  induction rounds with
  | zero => exact .none _
  | succ rounds ih =>
    rw [TableScan.next, TableScan.next]
    refine .bind (.refl _) fun s => ?_
    dsimp only
    split_ifs with atEnd
    · exact .refl _
    · refine .bind (.refl _) fun tuple => .bind (.on (heapCode_extends (seek_more _ _ _))) fun iter =>
        .bind (.refl _) fun _ => .bind (.refl _) fun selected => ?_
      cases selected with
      | false => exact ih
      | true => exact .refl _

theorem InsertExecutor.insertRow_more {σ : Type} (table : TargetTable σ) (rounds : ℕ) (count : Int32)
    (tuple : Tuple) :
    Extends (insertRow table rounds count tuple) (insertRow table (rounds + 1) count tuple) := by
  rw [insertRow, insertRow]
  refine .bind (.on (.on (heapCode_extends ?_))) fun _ => .refl _
  rw [insertTuple, insertTuple]
  exact .stateT_bind (.refl _) fun heap => insertFrom_more _ rounds _

end OneBase
