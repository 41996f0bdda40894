import Mathlib.Data.Int.Basic
import Mathlib.Order.Lattice

/-! # Identifiers shared by storage, catalog and execution

The fixed-width identifiers of `common/types.h` and the record identifier of `common/rid.h`.
-/

namespace OneBase

/-- `ONEBASE_PAGE_SIZE`. -/
def pageSize : ℕ := 4096

/-- `page_id_t`; page ids are handed out from zero on. -/
abbrev PageId := ℤ

/-- `INVALID_PAGE_ID`. -/
def invalidPageId : PageId := -1

/-- `TypeId`. -/
inductive TypeId where
  | invalid
  | boolean
  | integer
  | float
  | varchar
deriving DecidableEq, Repr

/-- `RID`: the page and slot of a stored tuple. -/
structure Rid where
  pageId : PageId
  slotNum : ℕ
deriving DecidableEq, Repr

/-- `RID() = default`. -/
instance : Inhabited Rid := ⟨⟨invalidPageId, 0⟩⟩

end OneBase
