import OneBase.Model.DiskManager
import OneBase.ToMathlib.Traces

/-! # The disk manager as a page store

As long as every page read so far lay inside the file, the stream is in order and the file holds what
was last written to each page. The first read that meets the end of the file sets `failbit`, which
nothing clears: from then on writes are dropped and reads give zeros.
-/

namespace OneBase.DiskManager

open Bytes Traces

/-- The calls of a client, on page ids from zero on. -/
inductive Call where
  | readPage (pageId : ℕ)
  | writePage (pageId : ℕ) (pageData : PageBytes)

/-- A disk manager with the record of what each page holds for its clients. -/
structure Store where
  disk : DiskManager
  contents : ℕ → List UInt8

/-- One call. -/
def step (s : Store) : Call → Store
  | .readPage pageId => { s with disk := (s.disk.readPage pageId).1 }
  | .writePage pageId pageData =>
    ⟨s.disk.writePage pageId pageData, Function.update s.contents pageId pageData.val⟩

/-- The opened file: a page that is not in it holds zeros. -/
def store (file : List UInt8) : Store := ⟨opened file, fun pageId => slice file (pageId * pageSize) pageSize⟩

/-- A page that is read lies inside the file. -/
def Inside (s : Store) : Call → Prop
  | .readPage pageId => (pageId + 1) * pageSize ≤ s.disk.dbIo.file.length
  | .writePage _ _ => True

/-- The stream is in order and the file holds what the clients wrote. -/
structure InOrder (s : Store) : Prop where
  failbit : s.disk.dbIo.failbit = false
  eofbit : s.disk.dbIo.eofbit = false
  stored : ∀ pageId, slice s.disk.dbIo.file (pageId * pageSize) pageSize = s.contents pageId

variable {s : Store} {pageId : ℕ}

theorem inOrder_store (file : List UInt8) : InOrder (store file) := by
  constructor <;> simp only [store, opened, implies_true]

/-- A read of a stream in order, wherever it goes. -/
theorem InOrder.readPage (order : InOrder s) (pageId : ℕ) :
    (s.disk.readPage pageId).2 = s.contents pageId ∧
    (s.disk.readPage pageId).1.dbIo.file = s.disk.dbIo.file ∧
    (s.disk.readPage pageId).1.dbIo.failbit = decide (s.disk.dbIo.file.length < (pageId + 1) * pageSize) ∧
    (s.disk.readPage pageId).1.dbIo.eofbit = decide (s.disk.dbIo.file.length < (pageId + 1) * pageSize) := by
  have ended : ((s.disk.dbIo.file.drop (pageId * pageSize)).take pageSize).length < pageSize ↔
      s.disk.dbIo.file.length < (pageId + 1) * pageSize := by
    rw [List.length_take, List.length_drop, add_one_mul]
    have : 0 < pageSize := by decide
    omega
  simp only [DiskManager.readPage, FStream.seekg, FStream.read, order.failbit, Bool.false_or, Bool.false_eq_true,
    if_false, take_drop_append_replicate, order.stored, ended, and_self]

/-- A stream in order stays so unless a read meets the end of the file. -/
theorem InOrder.step (order : InOrder s) {call : Call} (inside : Inside s call) : InOrder (step s call) := by
  cases call with
  | readPage pageId =>
    obtain ⟨-, file, failbit, eofbit⟩ := order.readPage pageId
    have fits : ¬ s.disk.dbIo.file.length < (pageId + 1) * pageSize := not_lt.mpr inside
    constructor
    · simp only [DiskManager.step, failbit, fits, decide_false]
    · simp only [DiskManager.step, eofbit, fits, decide_false]
    · simp only [DiskManager.step, file]
      exact order.stored
  | writePage pageId pageData =>
    have file : (s.disk.writePage pageId pageData).dbIo.file =
        overwrite s.disk.dbIo.file (pageId * pageSize) pageData.val := by
      simp [writePage, FStream.seekp, FStream.write, order.failbit, order.eofbit]
    constructor
    · simp [DiskManager.step, writePage, FStream.seekp, FStream.write, order.failbit, order.eofbit]
    · simp [DiskManager.step, writePage, FStream.seekp, FStream.write, order.failbit, order.eofbit]
    · intro other
      simp only [DiskManager.step, file]
      by_cases same : other = pageId
      · rw [same, Function.update_self]
        have self := slice_overwrite_self s.disk.dbIo.file (pageId * pageSize) pageData.val
        rwa [pageData.property] at self
      · rw [Function.update_of_ne same, slice_overwrite_of_disjoint, order.stored]
        rw [pageData.property, ← add_one_mul, ← add_one_mul]
        rcases Nat.lt_or_gt_of_ne same with below | above
        · exact .inl (Nat.mul_le_mul_right pageSize below)
        · exact .inr (Nat.mul_le_mul_right pageSize above)

/-- Nothing clears `failbit`. -/
theorem failbit_step (failed : s.disk.dbIo.failbit = true) (call : Call) :
    (step s call).disk.dbIo.failbit = true := by
  cases call with
  | readPage pageId => simp [step, readPage, FStream.seekg, FStream.read, failed]
  | writePage pageId pageData => simp [step, writePage, FStream.seekp, FStream.write, failed]

theorem failbit_foldl (failed : s.disk.dbIo.failbit = true) (calls : List Call) :
    (calls.foldl step s).disk.dbIo.failbit = true := by
  induction calls generalizing s with
  | nil => exact failed
  | cons call rest ih => exact ih (failbit_step failed call)

/-- A run that reads past the end ends with `failbit` set. -/
theorem InOrder.failbit_of_not_along (order : InOrder s) {calls : List Call}
    (outside : ¬ Along Inside DiskManager.step s calls) :
    (calls.foldl DiskManager.step s).disk.dbIo.failbit = true := by
  induction calls generalizing s with
  | nil => exact absurd trivial outside
  | cons call rest ih =>
    by_cases inside : Inside s call
    · exact ih (order.step inside) fun along => outside ⟨inside, along⟩
    · cases call with
      | writePage pageId pageData => exact absurd trivial inside
      | readPage pageId =>
        rw [List.foldl_cons]
        apply failbit_foldl
        obtain ⟨-, -, failbit, -⟩ := order.readPage pageId
        simp only [DiskManager.step, failbit, decide_eq_true_eq]
        exact not_le.mp inside

/-- A stream with `failbit` reads zeros. -/
theorem readPage_of_failbit (failed : s.disk.dbIo.failbit = true) (pageId : ℕ) :
    (s.disk.readPage pageId).2 = List.replicate pageSize 0 := by
  simp [readPage, FStream.seekg, FStream.read, failed]

/-- After any calls on any opened file, `ReadPage` gives what the page holds exactly if no page read
before met the end of the file, or if the page holds zeros. -/
theorem readPage_correct_iff (file : List UInt8) (calls : List Call) (pageId : ℕ) :
    ((calls.foldl step (store file)).disk.readPage pageId).2 = (calls.foldl step (store file)).contents pageId ↔
      Along Inside step (store file) calls ∨
        (calls.foldl step (store file)).contents pageId = List.replicate pageSize 0 := by
  by_cases along : Along Inside step (store file) calls
  · have order : InOrder (calls.foldl step (store file)) :=
      along.invariant (fun _ _ order inside => order.step inside) (inOrder_store file)
    exact iff_of_true (order.readPage pageId).1 (.inl along)
  · rw [readPage_of_failbit ((inOrder_store file).failbit_of_not_along along)]
    simp only [along, false_or, eq_comm]

/-- A page of ones. -/
def ones : PageBytes := ⟨List.replicate pageSize 1, List.length_replicate⟩

/-- Write page zero, then read a page that does not exist. -/
def readsPastEnd : List Call := [.writePage 0 ones, .readPage 5]

/-- The page written is lost to its reader. -/
theorem readsPastEnd_misread : (readsPastEnd.foldl step (store [])).contents 0 = ones.val ∧
    ((readsPastEnd.foldl step (store [])).disk.readPage 0).2 ≠ ones.val := by
  have outside : ¬ Along Inside step (store []) readsPastEnd := by
    rintro ⟨-, inside, -⟩
    simp only [Inside, step, store, opened, writePage, FStream.seekp, FStream.write, Bool.false_eq_true, if_false,
      Bool.or_self, overwrite, List.length_append, ones, List.length_replicate, List.length_take, List.length_drop,
      List.length_nil, pageSize] at inside
    omega
  refine ⟨?_, ?_⟩
  · simp [readsPastEnd, step]
  · rw [readPage_of_failbit ((inOrder_store []).failbit_of_not_along outside), ones]
    intro same
    have := (List.replicate_inj.mp same).2.resolve_left (by decide)
    exact absurd this (by decide)

end OneBase.DiskManager
