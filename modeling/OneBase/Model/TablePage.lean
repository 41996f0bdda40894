import OneBase.Model.Types
import OneBase.ToMathlib.Memory

/-! # Slotted pages

`storage/page/table_page.cpp`, as operations on the bytes from `data_` on. The header holds the next
page id, the number of tuples and the free space pointer; slot `i` is an offset and a length of two
bytes each; tuple data grows down from the end of the page. Unsigned arithmetic wraps around at the
width the source computes it in: `size_t` for slot positions, `uint32_t` for the free space pointer.
-/

namespace OneBase

open Bytes

/-- The bytes from `data_` on. The page has the first `pageSize` of them; behind them the source has `page_id_` and
`pin_count_`, which the pool keeps apart here. Whether a call stores there is for the results about it to say. -/
abbrev TablePage := Memory

/-- Tuple bytes with their size, which is a positive `uint32_t`. -/
abbrev Payload := { bytes : List UInt8 // 1 ≤ bytes.length ∧ bytes.length < 2 ^ 32 }

namespace TablePage

/-- `SIZE_TABLE_PAGE_HEADER`. -/
def sizeTablePageHeader : ℕ := 16

/-- `SIZE_TUPLE_SLOT`. -/
def sizeTupleSlot : ℕ := 4

variable (page : TablePage)

/-- `GetNextPageId`: the first four bytes, with their sign. -/
def getNextPageId : PageId := (BitVec.ofNat 32 (page.loadField 0 4)).toInt

def setNextPageId (nextPageId : PageId) : TablePage := page.storeField 0 4 (nextPageId % 2 ^ 32).toNat

def getNumTuples : ℕ := page.loadField 4 4

def setNumTuples (numTuples : ℕ) : TablePage := page.storeField 4 4 numTuples

def getFreeSpacePointer : ℕ := page.loadField 8 4

def setFreeSpacePointer (fsp : ℕ) : TablePage := page.storeField 8 4 fsp

/-- Where slot `slot_num` starts. -/
def slotOffset (slotNum : ℕ) : ℕ := sizeTablePageHeader + slotNum * sizeTupleSlot

def getTupleOffsetAtSlot (slotNum : ℕ) : ℕ := page.loadField (slotOffset slotNum) 2

def getTupleLengthAtSlot (slotNum : ℕ) : ℕ := page.loadField (slotOffset slotNum + 2) 2

def setTupleOffsetAtSlot (slotNum offset : ℕ) : TablePage := page.storeField (slotOffset slotNum) 2 offset

def setTupleLengthAtSlot (slotNum length : ℕ) : TablePage := page.storeField (slotOffset slotNum + 2) 2 length

/-- `Init`. -/
def init (pageId : PageId) : TablePage :=
  let zeroed := page.store 0 (List.replicate pageSize 0)
  let linked := zeroed.storeField 0 4 (pageId % 2 ^ 32).toNat
  setFreeSpacePointer (linked.storeField 4 4 0) pageSize

/-- `GetFreeSpaceRemaining`: a `size_t` subtraction, returned as `uint32_t`. -/
def getFreeSpaceRemaining : ℕ :=
  let slotEnd := sizeTablePageHeader + page.getNumTuples * sizeTupleSlot
  (page.getFreeSpacePointer + 2 ^ 64 - slotEnd) % 2 ^ 64 % 2 ^ 32

/-- `InsertTuple`: the page and the slot, `none` when it does not fit. Slot numbers are `uint16_t`. -/
def insertBytes (tuple : List UInt8) : TablePage × Option ℕ :=
  let tupleSize := tuple.length
  if page.getFreeSpaceRemaining < tupleSize + sizeTupleSlot then (page, none)
  else
    let numTuples := page.getNumTuples
    let fsp := page.getFreeSpacePointer
    let newFsp := (fsp + 2 ^ 32 - tupleSize) % 2 ^ 32
    let moved := page.setFreeSpacePointer newFsp
    let copied := moved.store newFsp tuple
    let placed := setTupleOffsetAtSlot copied (numTuples % 2 ^ 16) newFsp
    let sized := setTupleLengthAtSlot placed (numTuples % 2 ^ 16) tupleSize
    (setNumTuples sized ((numTuples + 1) % 2 ^ 32), some (numTuples % 2 ^ 16))

/-- `InsertTuple` of a tuple that has bytes. -/
def insertTuple (tuple : Payload) : TablePage × Option ℕ := page.insertBytes tuple.val

/-- `GetTuple`: the bytes copied out. -/
def getTuple (slotNum : ℕ) : List UInt8 :=
  page.load (page.getTupleOffsetAtSlot slotNum) (page.getTupleLengthAtSlot slotNum)

/-- `GetTupleSize`. -/
def getTupleSize (slotNum : ℕ) : ℕ := page.getTupleLengthAtSlot slotNum

/-- `DeleteTuple`. -/
def deleteTuple (slotNum : ℕ) : TablePage :=
  setTupleOffsetAtSlot (page.setTupleLengthAtSlot slotNum 0) slotNum 0

/-- `UpdateTuple`: the page and whether it was accepted. The test asks for the growth only; the
copy that follows takes the whole new size. -/
def updateBytes (slotNum : ℕ) (tuple : List UInt8) : TablePage × Bool :=
  let newSize := tuple.length
  let oldSize := page.getTupleLengthAtSlot slotNum
  if oldSize < newSize ∧ page.getFreeSpaceRemaining < newSize - oldSize then (page, false)
  else
    let deleted := page.deleteTuple slotNum
    let fsp := getFreeSpacePointer deleted
    let newFsp := (fsp + 2 ^ 32 - newSize) % 2 ^ 32
    let moved := setFreeSpacePointer deleted newFsp
    let copied := moved.store newFsp tuple
    let placed := setTupleOffsetAtSlot copied slotNum newFsp
    (setTupleLengthAtSlot placed slotNum newSize, true)

/-- `UpdateTuple` to a tuple that has bytes. -/
def updateTuple (slotNum : ℕ) (tuple : Payload) : TablePage × Bool := page.updateBytes slotNum tuple.val

end TablePage

end OneBase
