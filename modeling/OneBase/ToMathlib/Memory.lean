import OneBase.ToMathlib.Bytes

/-! # Byte memory

Memory is a total map from addresses to bytes, read and written in runs of bytes or in fixed-width
little-endian fields. A write shows where it was made and nowhere else.
-/

namespace Bytes

/-- Byte-addressed memory. -/
abbrev Memory := ℕ → UInt8

namespace Memory

variable (m : Memory)

/-- The bytes `[address, address + length)`. -/
def load (address length : ℕ) : List UInt8 := (List.range length).map fun i => m (address + i)

/-- `memcpy` into memory. -/
def store (address : ℕ) (bytes : List UInt8) : Memory := fun a =>
  if address ≤ a ∧ a < address + bytes.length then bytes.getD (a - address) 0 else m a

/-- An unsigned field of `width` bytes. -/
def loadField (address width : ℕ) : ℕ := decode (m.load address width)

/-- Assign to an unsigned field of `width` bytes. -/
def storeField (address width x : ℕ) : Memory := m.store address (encode width x)

@[simp] theorem load_length (address length : ℕ) : (m.load address length).length = length := by simp [load]

theorem load_store_self (address : ℕ) (bytes : List UInt8) :
    (m.store address bytes).load address bytes.length = bytes := by
  apply List.ext_getElem
  · simp
  · intro i inside bound
    simp [load, store, bound]

variable {m}

theorem load_store_of_disjoint {address a length : ℕ} {bytes : List UInt8}
    (apart : a + length ≤ address ∨ address + bytes.length ≤ a) :
    (m.store address bytes).load a length = m.load a length := by
  apply List.map_congr_left
  intro i member
  rw [List.mem_range] at member
  rw [store, if_neg (by omega)]

theorem store_of_le {address a : ℕ} {bytes : List UInt8} (behind : address + bytes.length ≤ a) :
    m.store address bytes a = m a := if_neg (by omega)

theorem storeField_of_le {address a width x : ℕ} (behind : address + width ≤ a) :
    m.storeField address width x a = m a :=
  store_of_le (by simpa using behind)

theorem loadField_storeField_self {address width x : ℕ} (small : x < 256 ^ width) :
    (m.storeField address width x).loadField address width = x := by
  have block := load_store_self m address (encode width x)
  rw [encode_length] at block
  rw [loadField, storeField, block, decode_encode_of_lt small]

theorem load_storeField_of_disjoint {address a length width x : ℕ}
    (apart : a + length ≤ address ∨ address + width ≤ a) :
    (m.storeField address width x).load a length = m.load a length :=
  load_store_of_disjoint (by simpa using apart)

theorem loadField_store_of_disjoint {address a width : ℕ} {bytes : List UInt8}
    (apart : a + width ≤ address ∨ address + bytes.length ≤ a) :
    (m.store address bytes).loadField a width = m.loadField a width := by
  rw [loadField, loadField, load_store_of_disjoint apart]

theorem loadField_storeField_of_disjoint {address a width' width x : ℕ}
    (apart : a + width' ≤ address ∨ address + width ≤ a) :
    (m.storeField address width x).loadField a width' = m.loadField a width' := by
  rw [loadField, loadField, load_storeField_of_disjoint apart]

end Memory

end Bytes
