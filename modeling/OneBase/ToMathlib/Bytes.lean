import Mathlib.Data.List.Basic
import Mathlib.Tactic.Ring
import Mathlib.Tactic.Common

/-! # Little-endian bytes

Fixed-width unsigned numbers as byte lists, least significant byte first, bounds-checked reads and
writes of a byte buffer, and the bytes of a file, which a write behind the end fills up with zeros.
Encoding a number that is too large keeps it modulo the width, as a narrowing conversion does.
-/

namespace Bytes

/-- The low `width` bytes of a number. -/
def encode : ℕ → ℕ → List UInt8
  | 0, _ => []
  | width + 1, x => UInt8.ofNat x :: encode width (x / 256)

/-- The number a byte list stands for. -/
def decode : List UInt8 → ℕ
  | [] => 0
  | byte :: rest => byte.toNat + 256 * decode rest

@[simp] theorem encode_length (width x : ℕ) : (encode width x).length = width := by
  induction width generalizing x with
  | zero => rfl
  | succ width ih => simp [encode, ih]

theorem decode_encode (width x : ℕ) : decode (encode width x) = x % 256 ^ width := by
  induction width generalizing x with
  | zero => simp [encode, decode, Nat.mod_one]
  | succ width ih =>
    rw [encode, decode, ih, pow_succ', Nat.mod_mul]
    simp

theorem decode_encode_of_lt {width x : ℕ} (small : x < 256 ^ width) : decode (encode width x) = x := by
  rw [decode_encode, Nat.mod_eq_of_lt small]

/-- The bytes `[offset, offset + width)` of a buffer, which must lie inside it. -/
def readAt (data : List UInt8) (offset width : ℕ) : Option (List UInt8) :=
  if offset + width ≤ data.length then some ((data.drop offset).take width) else none

/-- Overwrite bytes of a buffer from `offset` on; they must lie inside it. -/
def writeAt (data : List UInt8) (offset : ℕ) (bytes : List UInt8) : Option (List UInt8) :=
  if offset + bytes.length ≤ data.length then
    some (data.take offset ++ bytes ++ data.drop (offset + bytes.length))
  else none

theorem readAt_eq_none {data : List UInt8} {offset width : ℕ} (outside : data.length < offset + width) :
    readAt data offset width = none := if_neg (by omega)

/-- A block is read back from its place. -/
theorem readAt_block (before block after : List UInt8) :
    readAt (before ++ (block ++ after)) before.length block.length = some block := by
  rw [readAt, if_pos (by simp)]
  simp

/-- A block that fills freshly grown space. -/
theorem writeAt_grown (data bytes : List UInt8) (filler : UInt8) :
    writeAt (data ++ List.replicate bytes.length filler) data.length bytes = some (data ++ bytes) := by
  rw [writeAt, if_pos (by simp)]
  simp

/-- The bytes `[offset, offset + width)` of a file, zeros where it has ended. -/
def slice (data : List UInt8) (offset width : ℕ) : List UInt8 :=
    (List.range width).map fun i => data.getD (offset + i) 0

/-- Write to a file at any position. -/
def overwrite (data : List UInt8) (offset : ℕ) (bytes : List UInt8) : List UInt8 :=
  data.take offset ++ List.replicate (offset - data.length) 0 ++ bytes ++ data.drop (offset + bytes.length)

@[simp] theorem slice_length (data : List UInt8) (offset width : ℕ) : (slice data offset width).length = width := by
  simp [slice]

theorem getD_overwrite (data : List UInt8) (offset : ℕ) (bytes : List UInt8) (i : ℕ) :
    (overwrite data offset bytes).getD i 0 =
      if offset ≤ i ∧ i < offset + bytes.length then bytes.getD (i - offset) 0 else data.getD i 0 := by
  have before : (data.take offset ++ List.replicate (offset - data.length) (0 : UInt8)).length = offset := by
    rw [List.length_append, List.length_take, List.length_replicate]
    omega
  rw [overwrite, List.append_assoc]
  generalize started : data.take offset ++ List.replicate (offset - data.length) (0 : UInt8) = start at before
  simp only [List.getD_eq_getElem?_getD, List.getElem?_append, before, List.getElem?_drop]
  by_cases low : i < offset
  · rw [if_pos low, if_neg (by omega), ← started]
    simp only [List.getElem?_append, List.length_take, List.getElem?_take, List.getElem?_replicate]
    grind
  · rw [if_neg low]
    by_cases high : i < offset + bytes.length
    · rw [if_pos (by omega), if_pos (by omega)]
    · rw [if_neg (by omega), if_neg (by omega)]
      congr 2
      omega

theorem slice_overwrite_self (data : List UInt8) (offset : ℕ) (bytes : List UInt8) :
    slice (overwrite data offset bytes) offset bytes.length = bytes := by
  apply List.ext_getElem
  · simp
  · intro i inside bound
    simp only [slice, List.getElem_map, List.getElem_range]
    rw [getD_overwrite, if_pos (by omega), Nat.add_sub_cancel_left, List.getD_eq_getElem?_getD,
      List.getElem?_eq_getElem bound, Option.getD_some]

theorem slice_overwrite_of_disjoint {data bytes : List UInt8} {offset a width : ℕ}
    (apart : a + width ≤ offset ∨ offset + bytes.length ≤ a) :
    slice (overwrite data offset bytes) a width = slice data a width := by
  apply List.map_congr_left
  intro i member
  rw [List.mem_range] at member
  rw [getD_overwrite, if_neg (by omega)]

/-- What a read gives, filled up with zeros. -/
theorem take_drop_append_replicate (data : List UInt8) (offset width : ℕ) :
    (data.drop offset).take width ++ List.replicate (width - ((data.drop offset).take width).length) 0 =
      slice data offset width := by
  apply List.ext_getElem
  · simp only [List.length_append, List.length_take, List.length_drop, List.length_replicate, slice_length]
    omega
  · intro i inside bound
    rw [slice_length] at bound
    simp only [slice, List.getElem_map, List.getElem_range, List.getElem_append, List.getElem_take, List.getElem_drop,
      List.getElem_replicate, List.length_take, List.length_drop]
    grind

end Bytes
