import Mathlib.Data.List.Basic
import Mathlib.Logic.Function.Basic

/-! # Element loops over array memory

A C array is a total map from indices to cells, and its used part is a list of given length.
The three element loops that page code is made of (open a gap, close a gap, copy a run) are
written as the loops they are; each is then read back as one operation on the used part.
-/

namespace ArrayLoops

variable {α : Type*}

/-- The first `n` cells. -/
def slice (a : ℕ → α) (n : ℕ) : List α := (List.range n).map a

@[simp] theorem slice_length (a : ℕ → α) (n : ℕ) : (slice a n).length = n := by simp [slice]

@[simp] theorem slice_zero (a : ℕ → α) : slice a 0 = [] := rfl

@[simp] theorem slice_getElem (a : ℕ → α) (n i : ℕ) (bound : i < (slice a n).length) :
    (slice a n)[i] = a i := by simp [slice]

/-- Two used parts agree when their cells do. -/
theorem slice_congr {a b : ℕ → α} {n : ℕ} (same : ∀ i < n, a i = b i) : slice a n = slice b n := by
  apply List.map_congr_left
  intro i member
  exact same i (List.mem_range.mp member)

theorem slice_succ (a : ℕ → α) (n : ℕ) : slice a (n + 1) = slice a n ++ [a n] := by
  simp [slice, List.range_succ]

/-- `for (i = hi; i > lo; i--) a[i] = a[i - 1];` -/
def shiftUp (lo : ℕ) : ℕ → (ℕ → α) → ℕ → α
  | 0, a => a
  | hi + 1, a => if lo < hi + 1 then shiftUp lo hi (Function.update a (hi + 1) (a hi)) else a

/-- `for (i = lo; i < lo + n; i++) a[i] = a[i + 1];` -/
def shiftDown : ℕ → ℕ → (ℕ → α) → ℕ → α
  | _, 0, a => a
  | lo, n + 1, a => shiftDown (lo + 1) n (Function.update a lo (a (lo + 1)))

/-- `for (i = 0; i < n; i++) dst[d + i] = src[s + i];` -/
def copyRun (src : ℕ → α) (s d : ℕ) : ℕ → (ℕ → α) → ℕ → α
  | 0, dst => dst
  | n + 1, dst => Function.update (copyRun src s d n dst) (d + n) (src (s + n))

theorem shiftUp_apply (lo hi : ℕ) (a : ℕ → α) (j : ℕ) :
    shiftUp lo hi a j = if lo < j ∧ j ≤ hi then a (j - 1) else a j := by
  induction hi generalizing a with
  | zero => rw [shiftUp, if_neg (by omega)]
  | succ hi ih =>
    rw [shiftUp]
    split
    · rw [ih]
      simp only [Function.update_apply]
      split_ifs <;> first | rfl | (congr 1; omega)
    · rw [if_neg (by omega)]

theorem shiftDown_apply (lo n : ℕ) (a : ℕ → α) (j : ℕ) :
    shiftDown lo n a j = if lo ≤ j ∧ j < lo + n then a (j + 1) else a j := by
  induction n generalizing a lo with
  | zero => rw [shiftDown, if_neg (by omega)]
  | succ n ih =>
    rw [shiftDown, ih]
    simp only [Function.update_apply]
    split_ifs <;> first | rfl | (congr 1; omega)

theorem copyRun_apply (src : ℕ → α) (s d n : ℕ) (dst : ℕ → α) (j : ℕ) :
    copyRun src s d n dst j = if d ≤ j ∧ j < d + n then src (s + (j - d)) else dst j := by
  induction n with
  | zero => rw [copyRun, if_neg (by omega)]
  | succ n ih =>
    rw [copyRun, Function.update_apply, ih]
    split_ifs <;> first | rfl | (congr 1; omega)

/-- Opening a gap at `i` and writing `x` there inserts `x`. -/
theorem slice_insert (a : ℕ → α) (n i : ℕ) (x : α) (bound : i ≤ n) :
    slice (Function.update (shiftUp i n a) i x) (n + 1) =
      (slice a n).take i ++ x :: (slice a n).drop i := by
  apply List.ext_getElem
  · simp; omega
  · intro j inside _
    simp only [slice_length] at inside
    simp only [slice_getElem, Function.update_apply, shiftUp_apply, List.getElem_append,
      List.getElem_take, List.length_take, slice_length, List.getElem_cons, List.getElem_drop]
    split_ifs <;> first | rfl | (congr 1; omega)

/-- Closing the gap at `i` erases cell `i`. -/
theorem slice_erase (a : ℕ → α) (n i : ℕ) (bound : i < n) :
    slice (shiftDown i (n - 1 - i) a) (n - 1) = (slice a n).take i ++ (slice a n).drop (i + 1) := by
  apply List.ext_getElem
  · simp; omega
  · intro j inside _
    simp only [slice_length] at inside
    simp only [slice_getElem, shiftDown_apply, List.getElem_append,
      List.getElem_take, List.length_take, slice_length, List.getElem_drop]
    split_ifs <;> first | rfl | (congr 1; omega)

/-- Copying a run behind the used part appends it. -/
theorem slice_copyRun (src dst : ℕ → α) (s d n : ℕ) :
    slice (copyRun src s d n dst) (d + n) = slice dst d ++ (slice src (s + n)).drop s := by
  apply List.ext_getElem
  · simp
  · intro j inside _
    simp only [slice_length] at inside
    simp only [slice_getElem, copyRun_apply, List.getElem_append, slice_length, List.getElem_drop]
    split_ifs <;> first | rfl | omega

/-- A shorter used part is an initial part of a longer one. -/
theorem slice_take (a : ℕ → α) (n i : ℕ) (bound : i ≤ n) : (slice a n).take i = slice a i := by
  apply List.ext_getElem
  · simp [bound]
  · intro j _ _
    simp

end ArrayLoops
