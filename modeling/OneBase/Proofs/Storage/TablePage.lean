import OneBase.Model.TablePage
import OneBase.ToMathlib.Traces

/-! # Slotted pages under runs of calls

Next to the page runs a ghost record of what each live slot was last given. Inserts and updates both
end in writing a tuple at the new free space pointer and describing it in a slot, and that write is
harmless as long as the new pointer stays above the slots. `InsertTuple` makes sure of it.
`UpdateTuple` does not: it tests the growth of the tuple and then takes room for all of it.
-/

namespace OneBase.TablePage

open Bytes Memory Traces

/-- What the live slots were last given. -/
abbrev Contents := ℕ → Option (List UInt8)

/-- The live tuples lie between the free space pointer and the end of the page, apart from each other,
and hold their bytes; their slots lie below the pointer. -/
structure Laid (page : TablePage) (contents : Contents) : Prop where
  pointer : getFreeSpacePointer page ≤ pageSize
  slots : ∀ slot bytes, contents slot = some bytes → slotOffset (slot + 1) ≤ getFreeSpacePointer page
  inside : ∀ slot bytes, contents slot = some bytes →
    getFreeSpacePointer page ≤ getTupleOffsetAtSlot page slot ∧
    getTupleOffsetAtSlot page slot + getTupleLengthAtSlot page slot ≤ pageSize
  apart : ∀ a b bytes bytes', a ≠ b → contents a = some bytes → contents b = some bytes' →
    getTupleOffsetAtSlot page a + getTupleLengthAtSlot page a ≤ getTupleOffsetAtSlot page b ∨
      getTupleOffsetAtSlot page b + getTupleLengthAtSlot page b ≤ getTupleOffsetAtSlot page a
  stored : ∀ slot bytes, contents slot = some bytes → getTuple page slot = bytes

section Place

variable {page : TablePage} {slot newFsp : ℕ} {bytes : List UInt8}

/-- The writes that `InsertTuple` and `UpdateTuple` share. -/
def place (page : TablePage) (slot newFsp : ℕ) (bytes : List UInt8) : TablePage :=
  setTupleLengthAtSlot (setTupleOffsetAtSlot ((page.setFreeSpacePointer newFsp).store newFsp bytes) slot newFsp)
    slot bytes.length

theorem insertBytes_eq_place (page : TablePage) (tuple : List UInt8) : page.insertBytes tuple =
    if page.getFreeSpaceRemaining < tuple.length + sizeTupleSlot then (page, none)
    else (setNumTuples (place page (page.getNumTuples % 2 ^ 16)
      ((page.getFreeSpacePointer + 2 ^ 32 - tuple.length) % 2 ^ 32) tuple)
        ((page.getNumTuples + 1) % 2 ^ 32), some (page.getNumTuples % 2 ^ 16)) := by
  simp only [insertBytes, place]

theorem updateTuple_eq_place (page : TablePage) (slot : ℕ) (tuple : Payload) : page.updateTuple slot tuple =
    if page.getTupleLengthAtSlot slot < tuple.val.length ∧
      page.getFreeSpaceRemaining < tuple.val.length - page.getTupleLengthAtSlot slot then (page, false)
    else (place (page.deleteTuple slot) slot
      ((getFreeSpacePointer (page.deleteTuple slot) + 2 ^ 32 - tuple.val.length) % 2 ^ 32) tuple.val, true) := by
  simp only [updateTuple, updateBytes, place]

/-- The header after the shared writes, as long as the tuple does not cover it. -/
theorem place_header (page : TablePage) (slot : ℕ) (bytes : List UInt8) (clear : 12 ≤ newFsp)
    (small : newFsp < 2 ^ 32) :
    getNumTuples (place page slot newFsp bytes) = getNumTuples page ∧
      getFreeSpacePointer (place page slot newFsp bytes) = newFsp := by
  unfold place setTupleLengthAtSlot setTupleOffsetAtSlot setFreeSpacePointer getNumTuples getFreeSpacePointer
  simp only [slotOffset, sizeTablePageHeader, sizeTupleSlot]
  constructor
  · rw [loadField_storeField_of_disjoint (by omega), loadField_storeField_of_disjoint (by omega),
      loadField_store_of_disjoint (by omega), loadField_storeField_of_disjoint (by omega)]
  · rw [loadField_storeField_of_disjoint (by omega), loadField_storeField_of_disjoint (by omega),
      loadField_store_of_disjoint (by omega), loadField_storeField_self (by omega)]

/-- What the accessors see after the shared writes. -/
theorem place_spec (page : TablePage) (below : slotOffset (slot + 1) ≤ newFsp)
    (fits : newFsp + bytes.length ≤ pageSize) :
    getNumTuples (place page slot newFsp bytes) = getNumTuples page ∧
      getFreeSpacePointer (place page slot newFsp bytes) = newFsp ∧
      getTupleOffsetAtSlot (place page slot newFsp bytes) slot = newFsp ∧
      getTupleLengthAtSlot (place page slot newFsp bytes) slot = bytes.length ∧
      (place page slot newFsp bytes).load newFsp bytes.length = bytes := by
  simp only [slotOffset, sizeTablePageHeader, sizeTupleSlot, pageSize] at below fits
  obtain ⟨number, pointer⟩ := place_header page slot bytes (show 12 ≤ newFsp by omega) (by omega)
  refine ⟨number, pointer, ?_⟩
  unfold place setTupleLengthAtSlot setTupleOffsetAtSlot setFreeSpacePointer getTupleOffsetAtSlot
    getTupleLengthAtSlot
  simp only [slotOffset, sizeTablePageHeader, sizeTupleSlot]
  refine ⟨?_, ?_, ?_⟩
  · rw [loadField_storeField_of_disjoint (by omega), loadField_storeField_self (by omega)]
  · rw [loadField_storeField_self (by omega)]
  · rw [load_storeField_of_disjoint (by omega), load_storeField_of_disjoint (by omega), load_store_self]

/-- The shared writes touch neither other slots nor tuples above the new one. -/
theorem place_frame (page : TablePage) (bytes : List UInt8) (below : slotOffset (slot + 1) ≤ newFsp) :
    (∀ other ≠ slot, slotOffset (other + 1) ≤ newFsp →
      getTupleOffsetAtSlot (place page slot newFsp bytes) other = getTupleOffsetAtSlot page other ∧
        getTupleLengthAtSlot (place page slot newFsp bytes) other = getTupleLengthAtSlot page other) ∧
      ∀ address length, newFsp + bytes.length ≤ address →
        (place page slot newFsp bytes).load address length = page.load address length := by
  simp only [slotOffset, sizeTablePageHeader, sizeTupleSlot] at below ⊢
  unfold place setTupleLengthAtSlot setTupleOffsetAtSlot setFreeSpacePointer getTupleOffsetAtSlot
    getTupleLengthAtSlot
  simp only [slotOffset, sizeTablePageHeader, sizeTupleSlot]
  refine ⟨fun other different under => ⟨?_, ?_⟩, fun address length above => ?_⟩
  · rw [loadField_storeField_of_disjoint (by omega), loadField_storeField_of_disjoint (by omega),
      loadField_store_of_disjoint (by omega), loadField_storeField_of_disjoint (by omega)]
  · rw [loadField_storeField_of_disjoint (by omega), loadField_storeField_of_disjoint (by omega),
      loadField_store_of_disjoint (by omega), loadField_storeField_of_disjoint (by omega)]
  · rw [load_storeField_of_disjoint (by omega), load_storeField_of_disjoint (by omega),
      load_store_of_disjoint (by omega), load_storeField_of_disjoint (by omega)]

variable {contents : Contents}

/-- Writing a tuple for a dead slot just below the free space pointer keeps the page laid out. -/
theorem Laid.place (laid : Laid page contents) (dead : contents slot = none)
    (room : newFsp + bytes.length = getFreeSpacePointer page) (below : slotOffset (slot + 1) ≤ newFsp)
    (others : ∀ other old, contents other = some old → slotOffset (other + 1) ≤ newFsp) :
    Laid (TablePage.place page slot newFsp bytes) (Function.update contents slot (some bytes)) := by
  have fits : newFsp + bytes.length ≤ pageSize := room ▸ laid.pointer
  obtain ⟨-, pointer, offset, length, written⟩ := place_spec page below fits
  obtain ⟨frame, frameLoad⟩ := place_frame page bytes below
  -- a live slot is the new one, or one that looks as before
  have cases_live : ∀ other new, Function.update contents slot (some bytes) other = some new →
      (other = slot ∧ new = bytes) ∨ (other ≠ slot ∧ contents other = some new ∧
        getTupleOffsetAtSlot (TablePage.place page slot newFsp bytes) other = getTupleOffsetAtSlot page other ∧
        getTupleLengthAtSlot (TablePage.place page slot newFsp bytes) other = getTupleLengthAtSlot page other) := by
    intro other new live
    by_cases same : other = slot
    · subst same
      rw [Function.update_self, Option.some.injEq] at live
      exact .inl ⟨rfl, live.symm⟩
    · rw [Function.update_of_ne same] at live
      exact .inr ⟨same, live, frame other same (others other new live)⟩
  refine ⟨by omega, ?_, ?_, ?_, ?_⟩
  · intro other new live
    rw [pointer]
    rcases cases_live other new live with ⟨rfl, -⟩ | ⟨-, old, -⟩
    · exact below
    · exact others other new old
  · intro other new live
    rw [pointer]
    rcases cases_live other new live with ⟨rfl, -⟩ | ⟨-, old, sameOffset, sameLength⟩
    · rw [offset, length]
      exact ⟨le_rfl, fits⟩
    · rw [sameOffset, sameLength]
      have := laid.inside other new old
      exact ⟨by omega, this.2⟩
  · intro a b new new' different liveA liveB
    rcases cases_live a new liveA with ⟨rfl, -⟩ | ⟨notA, oldA, offsetA, lengthA⟩ <;>
      rcases cases_live b new' liveB with ⟨rfl, -⟩ | ⟨notB, oldB, offsetB, lengthB⟩
    · exact absurd rfl different
    · rw [offset, length, offsetB, lengthB]
      have := laid.inside b new' oldB
      omega
    · rw [offset, length, offsetA, lengthA]
      have := laid.inside a new oldA
      omega
    · rw [offsetA, lengthA, offsetB, lengthB]
      exact laid.apart a b new new' different oldA oldB
  · intro other new live
    rcases cases_live other new live with ⟨rfl, rfl⟩ | ⟨-, old, sameOffset, sameLength⟩
    · rw [getTuple, offset, length]
      exact written
    · rw [getTuple, sameOffset, sameLength, frameLoad _ _ (by have := laid.inside other new old; omega)]
      exact laid.stored other new old

/-- Writes that leave the pointer, the live slots and the tuple data alone. -/
theorem Laid.of_same {page' : TablePage} {contents' : Contents} (laid : Laid page contents)
    (pointer : getFreeSpacePointer page' = getFreeSpacePointer page)
    (fewer : ∀ slot bytes, contents' slot = some bytes → contents slot = some bytes)
    (sameSlot : ∀ slot bytes, contents' slot = some bytes →
      getTupleOffsetAtSlot page' slot = getTupleOffsetAtSlot page slot ∧
        getTupleLengthAtSlot page' slot = getTupleLengthAtSlot page slot)
    (sameData : ∀ address length, getFreeSpacePointer page ≤ address →
      page'.load address length = page.load address length) : Laid page' contents' := by
  refine ⟨by rw [pointer]; exact laid.pointer, ?_, ?_, ?_, ?_⟩
  · rw [pointer]
    exact fun slot bytes live => laid.slots slot bytes (fewer slot bytes live)
  · intro slot bytes live
    rw [pointer, (sameSlot slot bytes live).1, (sameSlot slot bytes live).2]
    exact laid.inside slot bytes (fewer slot bytes live)
  · intro a b bytes bytes' different liveA liveB
    rw [(sameSlot a bytes liveA).1, (sameSlot a bytes liveA).2, (sameSlot b bytes' liveB).1,
      (sameSlot b bytes' liveB).2]
    exact laid.apart a b bytes bytes' different (fewer a bytes liveA) (fewer b bytes' liveB)
  · intro slot bytes live
    have old := fewer slot bytes live
    rw [getTuple, (sameSlot slot bytes live).1, (sameSlot slot bytes live).2,
      sameData _ _ (laid.inside slot bytes old).1]
    exact laid.stored slot bytes old

/-- The number of tuples stands apart from everything else. -/
theorem Laid.setNumTuples (laid : Laid page contents) (header : sizeTablePageHeader ≤ getFreeSpacePointer page)
    (numTuples : ℕ) : Laid (page.setNumTuples numTuples) contents := by
  simp only [sizeTablePageHeader] at header
  refine laid.of_same (loadField_storeField_of_disjoint (by omega)) (fun _ _ => id) (fun slot _ _ => ⟨?_, ?_⟩) ?_
  · exact loadField_storeField_of_disjoint (by simp only [slotOffset, sizeTablePageHeader, sizeTupleSlot]; omega)
  · exact loadField_storeField_of_disjoint (by simp only [slotOffset, sizeTablePageHeader, sizeTupleSlot]; omega)
  · exact fun address length above => load_storeField_of_disjoint (by omega)

/-- `DeleteTuple` clears its slot and nothing else. -/
theorem deleteTuple_frame (page : TablePage) (slot : ℕ) :
    getFreeSpacePointer (page.deleteTuple slot) = getFreeSpacePointer page ∧
      getNumTuples (page.deleteTuple slot) = getNumTuples page ∧
      (∀ other ≠ slot, getTupleOffsetAtSlot (page.deleteTuple slot) other = getTupleOffsetAtSlot page other ∧
        getTupleLengthAtSlot (page.deleteTuple slot) other = getTupleLengthAtSlot page other) ∧
      ∀ address length, slotOffset (slot + 1) ≤ address →
        (page.deleteTuple slot).load address length = page.load address length := by
  unfold deleteTuple setTupleLengthAtSlot setTupleOffsetAtSlot getFreeSpacePointer getNumTuples
    getTupleOffsetAtSlot getTupleLengthAtSlot
  simp only [slotOffset, sizeTablePageHeader, sizeTupleSlot]
  refine ⟨?_, ?_, fun other different => ⟨?_, ?_⟩, fun address length above => ?_⟩
  · rw [loadField_storeField_of_disjoint (by omega), loadField_storeField_of_disjoint (by omega)]
  · rw [loadField_storeField_of_disjoint (by omega), loadField_storeField_of_disjoint (by omega)]
  · rw [loadField_storeField_of_disjoint (by omega), loadField_storeField_of_disjoint (by omega)]
  · rw [loadField_storeField_of_disjoint (by omega), loadField_storeField_of_disjoint (by omega)]
  · rw [load_storeField_of_disjoint (by omega), load_storeField_of_disjoint (by omega)]

theorem Laid.deleteTuple (laid : Laid page contents) (below : slotOffset (slot + 1) ≤ getFreeSpacePointer page) :
    Laid (page.deleteTuple slot) (Function.update contents slot none) := by
  obtain ⟨pointer, -, sameSlot, sameData⟩ := deleteTuple_frame page slot
  have other {a : ℕ} {bytes : List UInt8} (live : Function.update contents slot none a = some bytes) :
      a ≠ slot ∧ contents a = some bytes := by
    by_cases same : a = slot
    · simp [same] at live
    · rw [Function.update_of_ne same] at live
      exact ⟨same, live⟩
  exact laid.of_same pointer (fun a bytes live => (other live).2) (fun a bytes live => sameSlot a (other live).1)
    fun address length above => sameData address length (below.trans above)

end Place

/-- Everything the page promises, with the ghost record of its live slots. -/
structure Sound (page : TablePage) (contents : Contents) : Prop extends Laid page contents where
  above : slotOffset (getNumTuples page) ≤ getFreeSpacePointer page
  numbered : ∀ slot bytes, contents slot = some bytes → slot < getNumTuples page

section Calls

variable {page : TablePage} {contents : Contents}

theorem init_header (page : TablePage) (pageId : PageId) :
    getNumTuples (page.init pageId) = 0 ∧ getFreeSpacePointer (page.init pageId) = pageSize := by
  constructor
  · rw [init, setFreeSpacePointer, getNumTuples, loadField_storeField_of_disjoint (by omega),
      loadField_storeField_self (by omega)]
  · exact loadField_storeField_self (by decide)

/-- No slot is live on a fresh page. -/
theorem sound_init (page : TablePage) (pageId : PageId) : Sound (page.init pageId) fun _ => none := by
  obtain ⟨number, pointer⟩ := init_header page pageId
  refine ⟨⟨by rw [pointer], ?_, ?_, ?_, ?_⟩, by rw [pointer, number]; decide, ?_⟩ <;> simp

theorem Sound.freeSpace (sound : Sound page contents) :
    getFreeSpaceRemaining page = getFreeSpacePointer page - slotOffset (getNumTuples page) := by
  have low := sound.above
  have high := sound.pointer
  simp only [slotOffset, pageSize, sizeTablePageHeader, sizeTupleSlot] at low high
  simp only [getFreeSpaceRemaining, slotOffset, sizeTablePageHeader, sizeTupleSlot]
  omega

/-- `InsertTuple` either does nothing or places the tuple in the next slot. -/
theorem Sound.insertBytes_cases (sound : Sound page contents) (tuple : List UInt8) :
    (page.insertBytes tuple = (page, none) ∧ getFreeSpaceRemaining page < tuple.length + sizeTupleSlot) ∨
      ∃ page', page.insertBytes tuple = (page', some (getNumTuples page)) ∧
        Sound page' (Function.update contents (getNumTuples page) (some tuple)) ∧
        getNumTuples page' = getNumTuples page + 1 ∧
        getFreeSpacePointer page' = getFreeSpacePointer page - tuple.length := by
  have low := sound.above
  have high := sound.pointer
  have free := sound.freeSpace
  have fresh : contents (getNumTuples page) = none := by
    cases held : contents (getNumTuples page) with
    | none => rfl
    | some bytes => exact absurd (sound.numbered _ _ held) (lt_irrefl _)
  simp only [slotOffset, sizeTablePageHeader, sizeTupleSlot, pageSize] at low high free
  rw [insertBytes_eq_place]
  by_cases full : getFreeSpaceRemaining page < tuple.length + sizeTupleSlot
  · exact .inl ⟨if_pos full, full⟩
  · right
    rw [sizeTupleSlot, free] at full
    have slot : getNumTuples page % 2 ^ 16 = getNumTuples page := Nat.mod_eq_of_lt (by omega)
    have number : (getNumTuples page + 1) % 2 ^ 32 = getNumTuples page + 1 := Nat.mod_eq_of_lt (by omega)
    have pointer : (getFreeSpacePointer page + 2 ^ 32 - tuple.length) % 2 ^ 32 =
        getFreeSpacePointer page - tuple.length := by omega
    rw [if_neg (by rw [sizeTupleSlot, free]; exact full), slot, number, pointer]
    have below : slotOffset (getNumTuples page + 1) ≤ getFreeSpacePointer page - tuple.length := by
      simp only [slotOffset, sizeTablePageHeader, sizeTupleSlot]
      omega
    have others (other : ℕ) (bytes : List UInt8) (live : contents other = some bytes) :
        slotOffset (other + 1) ≤ getFreeSpacePointer page - tuple.length := by
      have := sound.numbered other bytes live
      simp only [slotOffset, sizeTablePageHeader, sizeTupleSlot] at below ⊢
      omega
    have placed := sound.toLaid.place fresh (show _ + tuple.length = _ by omega) below others
    obtain ⟨-, pointer', -⟩ := place_spec page below (show _ + tuple.length ≤ pageSize by rw [pageSize]; omega)
    have number' : getNumTuples (setNumTuples (TablePage.place page (getNumTuples page)
        (getFreeSpacePointer page - tuple.length) tuple) (getNumTuples page + 1)) = getNumTuples page + 1 :=
      loadField_storeField_self (by omega)
    have pointer'' : getFreeSpacePointer (setNumTuples (TablePage.place page (getNumTuples page)
        (getFreeSpacePointer page - tuple.length) tuple) (getNumTuples page + 1)) =
        getFreeSpacePointer page - tuple.length :=
      (loadField_storeField_of_disjoint (by omega)).trans pointer'
    refine ⟨_, rfl, ⟨placed.setNumTuples (by rw [pointer', sizeTablePageHeader]; omega) _, ?_, ?_⟩,
      number', pointer''⟩
    · rw [number', pointer'']
      exact below
    · intro other bytes live
      rw [number']
      by_cases same : other = getNumTuples page
      · omega
      · rw [Function.update_of_ne same] at live
        have := sound.numbered other bytes live
        omega

theorem Sound.deleteTuple {slot : ℕ} {bytes : List UInt8} (sound : Sound page contents)
    (live : contents slot = some bytes) : Sound (page.deleteTuple slot) (Function.update contents slot none) := by
  obtain ⟨pointer, number, -, -⟩ := deleteTuple_frame page slot
  refine ⟨sound.toLaid.deleteTuple (sound.slots slot bytes live), ?_, ?_⟩
  · rw [pointer, number]
    exact sound.above
  · intro other old held
    rw [number]
    by_cases same : other = slot
    · simp [same] at held
    · rw [Function.update_of_ne same] at held
      exact sound.numbered other old held

/-- An accepted `UpdateTuple` with room for the whole new tuple. -/
theorem Sound.updateTuple {slot : ℕ} {old : List UInt8} (sound : Sound page contents)
    (live : contents slot = some old) (tuple : Payload) (room : tuple.val.length ≤ getFreeSpaceRemaining page) :
    ∃ page', page.updateTuple slot tuple = (page', true) ∧
      Sound page' (Function.update contents slot (some tuple.val)) := by
  have low := sound.above
  have high := sound.pointer
  have free := sound.freeSpace
  have deleted := sound.deleteTuple live
  obtain ⟨pointer, number, -, -⟩ := deleteTuple_frame page slot
  have slotNumber := sound.numbered slot old live
  simp only [slotOffset, sizeTablePageHeader, sizeTupleSlot, pageSize] at low high free
  have newFsp : (getFreeSpacePointer (page.deleteTuple slot) + 2 ^ 32 - tuple.val.length) % 2 ^ 32 =
      getFreeSpacePointer page - tuple.val.length := by
    rw [pointer]
    omega
  rw [updateTuple_eq_place, if_neg (by omega), newFsp]
  refine ⟨_, rfl, ?_⟩
  have below (other : ℕ) (numbered : other < getNumTuples page) :
      slotOffset (other + 1) ≤ getFreeSpacePointer page - tuple.val.length := by
    simp only [slotOffset, sizeTablePageHeader, sizeTupleSlot]
    omega
  have placed := deleted.toLaid.place (Function.update_self slot none contents)
    (show _ + tuple.val.length = _ by rw [pointer]; omega) (below slot slotNumber)
    (fun other bytes held => below other (number ▸ deleted.numbered other bytes held))
  rw [Function.update_idem] at placed
  obtain ⟨number', pointer', -⟩ := place_spec (page.deleteTuple slot) (below slot slotNumber)
    (show _ + tuple.val.length ≤ pageSize by rw [pageSize]; omega)
  refine ⟨placed, ?_, ?_⟩
  · rw [number', pointer', number]
    simp only [slotOffset, sizeTablePageHeader, sizeTupleSlot]
    omega
  · intro other bytes held
    rw [number', number]
    by_cases same : other = slot
    · exact same ▸ slotNumber
    · rw [Function.update_of_ne same] at held
      exact sound.numbered other bytes held

end Calls

section Runs

/-- The calls of a client. -/
inductive Call where
  | insertTuple (tuple : Payload)
  | deleteTuple (slotNum : ℕ)
  | updateTuple (slotNum : ℕ) (tuple : Payload)

/-- A page with the record of what its live slots were last given. -/
structure State where
  page : TablePage
  contents : Contents

/-- One call, and what its answer does to the record. -/
def step (s : State) : Call → State
  | .insertTuple tuple =>
    let result := s.page.insertTuple tuple
    ⟨result.1, result.2.elim s.contents fun slot => Function.update s.contents slot (some tuple.val)⟩
  | .deleteTuple slot => ⟨s.page.deleteTuple slot, Function.update s.contents slot none⟩
  | .updateTuple slot tuple =>
    let result := s.page.updateTuple slot tuple
    ⟨result.1, if result.2 then Function.update s.contents slot (some tuple.val) else s.contents⟩

/-- Deletes and updates name slots returned earlier and not deleted. -/
def Legal (s : State) : Call → Prop
  | .insertTuple _ => True
  | .deleteTuple slot => (s.contents slot).isSome
  | .updateTuple slot _ => (s.contents slot).isSome

/-- The free space holds the whole new tuple of an update, or not even its growth. -/
def HasRoom (s : State) : Call → Prop
  | .updateTuple slot tuple => tuple.val.length ≤ s.page.getFreeSpaceRemaining ∨
      (s.page.getTupleLengthAtSlot slot < tuple.val.length ∧
        s.page.getFreeSpaceRemaining < tuple.val.length - s.page.getTupleLengthAtSlot slot)
  | _ => True

/-- The call reports failure. -/
def Fails (s : State) : Call → Prop
  | .insertTuple tuple => (s.page.insertTuple tuple).2 = none
  | .deleteTuple _ => False
  | .updateTuple slot tuple => (s.page.updateTuple slot tuple).2 = false

/-- One call keeps the page sound. -/
theorem step_sound {s : State} (sound : Sound s.page s.contents) {call : Call} (legal : Legal s call)
    (room : HasRoom s call) : Sound (step s call).page (step s call).contents := by
  cases call with
  | insertTuple tuple =>
    rcases sound.insertBytes_cases tuple.val with ⟨failed, -⟩ | ⟨page', done, sound', -⟩
    · simp only [step, insertTuple, failed]
      exact sound
    · simp only [step, insertTuple, done]
      exact sound'
  | deleteTuple slot =>
    simp only [Legal, step] at legal ⊢
    obtain ⟨bytes, live⟩ := Option.isSome_iff_exists.mp legal
    exact sound.deleteTuple live
  | updateTuple slot tuple =>
    simp only [Legal, HasRoom] at legal room
    obtain ⟨bytes, live⟩ := Option.isSome_iff_exists.mp legal
    rcases room with fits | refused
    · obtain ⟨page', done, sound'⟩ := sound.updateTuple live tuple fits
      simp only [step, done]
      exact sound'
    · have failed : s.page.updateTuple slot tuple = (s.page, false) := by
        rw [updateTuple_eq_place, if_pos refused]
      simp only [step, failed, Bool.false_eq_true, if_false]
      exact sound

/-- A call that reports failure changes nothing. -/
theorem step_of_fails {s : State} {call : Call} (fails : Fails s call) : step s call = s := by
  cases call with
  | insertTuple tuple =>
    simp only [Fails, insertTuple, insertBytes_eq_place] at fails
    split at fails
    · next full => simp only [step, insertTuple, insertBytes_eq_place, if_pos full, Option.elim_none]
    · simp at fails
  | deleteTuple slot => exact fails.elim
  | updateTuple slot tuple =>
    simp only [Fails, updateTuple_eq_place] at fails
    split at fails
    · next refused => simp only [step, updateTuple_eq_place, if_pos refused, Bool.false_eq_true, if_false]
    · simp at fails

/-- A fresh page without live slots. -/
def fresh (page : TablePage) (pageId : PageId) : State := ⟨page.init pageId, fun _ => none⟩

/-- In every run from a fresh page whose updates find room for the whole new tuple, or not even for its
growth: the slots end below the free space pointer, live tuples lie above it, inside the page, apart from
each other and as last written, and a call that fails changes nothing. -/
theorem run_sound (page : TablePage) (pageId : PageId) (calls : List Call)
    (along : Along (fun s call => Legal s call ∧ HasRoom s call) step (fresh page pageId) calls) :
    let s := calls.foldl step (fresh page pageId)
    (16 + 4 * getNumTuples s.page ≤ getFreeSpacePointer s.page ∧ getFreeSpacePointer s.page ≤ 4096) ∧
      (∀ slot bytes, s.contents slot = some bytes →
        getFreeSpacePointer s.page ≤ getTupleOffsetAtSlot s.page slot ∧
          getTupleOffsetAtSlot s.page slot + getTupleLengthAtSlot s.page slot ≤ 4096 ∧
          getTuple s.page slot = bytes) ∧
      (∀ a b bytes bytes', a ≠ b → s.contents a = some bytes → s.contents b = some bytes' →
        getTupleOffsetAtSlot s.page a + getTupleLengthAtSlot s.page a ≤ getTupleOffsetAtSlot s.page b ∨
          getTupleOffsetAtSlot s.page b + getTupleLengthAtSlot s.page b ≤ getTupleOffsetAtSlot s.page a) ∧
      ∀ call, Fails s call → step s call = s := by
  intro s
  have sound : Sound s.page s.contents := along.invariant (I := fun s => Sound s.page s.contents)
    (fun s call sound allowed => step_sound sound allowed.1 allowed.2) (sound_init page pageId)
  have low := sound.above
  simp only [slotOffset, sizeTablePageHeader, sizeTupleSlot] at low
  refine ⟨⟨by omega, sound.pointer⟩, fun slot bytes live => ?_, sound.apart, fun call => step_of_fails⟩
  obtain ⟨lower, upper⟩ := sound.inside slot bytes live
  exact ⟨lower, upper, sound.stored slot bytes live⟩

/-- The first insert into a fresh page. -/
theorem step_fresh (page : TablePage) (pageId : PageId) (tuple : Payload) (small : tuple.val.length ≤ 4076) :
    ∃ page', step (fresh page pageId) (.insertTuple tuple) =
        ⟨page', Function.update (fun _ => none) 0 (some tuple.val)⟩ ∧
      Sound page' (Function.update (fun _ => none) 0 (some tuple.val)) ∧ getNumTuples page' = 1 ∧
      getFreeSpacePointer page' = 4096 - tuple.val.length := by
  have sound := sound_init page pageId
  obtain ⟨number, pointer⟩ := init_header page pageId
  have free := sound.freeSpace
  rw [pointer, number, slotOffset, sizeTablePageHeader, pageSize, zero_mul] at free
  rcases sound.insertBytes_cases tuple.val with ⟨-, full⟩ | ⟨page', done, sound', number', pointer'⟩
  · rw [sizeTupleSlot] at full
    omega
  · rw [number] at done sound' number'
    rw [pointer] at pointer'
    refine ⟨page', ?_, sound', number', pointer'⟩
    simp only [step, fresh, insertTuple, done, Option.elim_some]

/-- Insert three bytes, then update them to four. -/
def roomyRun : List Call :=
  [.insertTuple ⟨[1, 2, 3], by decide⟩, .updateTuple 0 ⟨[5, 6, 7, 8], by decide⟩]

theorem roomyRun_along :
    Along (fun s call => Legal s call ∧ HasRoom s call) step (fresh (fun _ => 0) (-1)) roomyRun := by
  obtain ⟨page', done, sound, number, pointer⟩ :=
    step_fresh (fun _ => 0) (-1) ⟨[1, 2, 3], by decide⟩ (by decide)
  refine ⟨⟨trivial, trivial⟩, ?_⟩
  rw [done]
  refine ⟨⟨rfl, .inl ?_⟩, trivial⟩
  rw [sound.freeSpace, pointer, number]
  decide

theorem run_sound_roomyRun :
    Along (fun s call => Legal s call ∧ HasRoom s call) step (fresh (fun _ => 0) (-1)) roomyRun ∧
      let s := roomyRun.foldl step (fresh (fun _ => 0) (-1))
      (16 + 4 * getNumTuples s.page ≤ getFreeSpacePointer s.page ∧ getFreeSpacePointer s.page ≤ 4096) ∧
        (∀ slot bytes, s.contents slot = some bytes →
          getFreeSpacePointer s.page ≤ getTupleOffsetAtSlot s.page slot ∧
            getTupleOffsetAtSlot s.page slot + getTupleLengthAtSlot s.page slot ≤ 4096 ∧
            getTuple s.page slot = bytes) ∧
        (∀ a b bytes bytes', a ≠ b → s.contents a = some bytes → s.contents b = some bytes' →
          getTupleOffsetAtSlot s.page a + getTupleLengthAtSlot s.page a ≤ getTupleOffsetAtSlot s.page b ∨
            getTupleOffsetAtSlot s.page b + getTupleLengthAtSlot s.page b ≤ getTupleOffsetAtSlot s.page a) ∧
        ∀ call, Fails s call → step s call = s :=
  ⟨roomyRun_along, run_sound (fun _ => 0) (-1) roomyRun roomyRun_along⟩

/-- A tuple that fills a page. -/
def fullTuple : Payload := ⟨List.replicate 4076 0, by rw [List.length_replicate]; decide⟩

theorem fullTuple_length : fullTuple.val.length = 4076 := List.length_replicate

/-- A tuple that fills the page, shrunk to four bytes. -/
def shrinkingRun : List Call := [.insertTuple fullTuple, .updateTuple 0 ⟨[1, 2, 3, 4], by decide⟩]

/-- The update passes the test for growth, and its copy overwrites its own slot. -/
theorem shrinkingRun_overlaps :
    Along Legal step (fresh (fun _ => 0) (-1)) shrinkingRun ∧
      let s := shrinkingRun.foldl step (fresh (fun _ => 0) (-1))
      ¬ (16 + 4 * getNumTuples s.page ≤ getFreeSpacePointer s.page) := by
  obtain ⟨page', done, sound, number, pointer⟩ :=
    step_fresh (fun _ => 0) (-1) fullTuple fullTuple_length.le
  rw [fullTuple_length] at pointer
  have length : getTupleLengthAtSlot page' 0 = 4076 := by
    have stored := congrArg List.length (sound.stored 0 _ (Function.update_self ..))
    rwa [getTuple, load_length, fullTuple_length] at stored
  obtain ⟨pointer', number', -⟩ := deleteTuple_frame page' 0
  rw [pointer] at pointer'
  rw [number] at number'
  obtain ⟨number'', pointer''⟩ :=
    place_header (deleteTuple page' 0) 0 [1, 2, 3, 4] (show 12 ≤ 16 by omega) (by omega)
  have accepted : updateTuple page' 0 ⟨[1, 2, 3, 4], by decide⟩ =
      (place (deleteTuple page' 0) 0 16 [1, 2, 3, 4], true) := by
    rw [updateTuple_eq_place, if_neg (by rw [length]; exact fun grows => absurd grows.1 (by decide)), pointer']
    rfl
  refine ⟨⟨trivial, ?_⟩, ?_⟩
  · rw [done]
    exact ⟨rfl, trivial⟩
  · rw [shrinkingRun, List.foldl_cons, done, List.foldl_cons, List.foldl_nil]
    simp only [step, accepted, number'', number', pointer'']
    decide

end Runs

end OneBase.TablePage
