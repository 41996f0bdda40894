import OneBase.Proofs.Storage.TablePage

/-! # The live tuples of a page

A slot is live if it is numbered and not empty. On a well-laid page the bytes alone say which tuples are live, with no
record next to them, and every call of the heap says what it does to them.
-/

namespace OneBase.TablePage

open Bytes Memory

/-- The tuples in the numbered slots that are not empty. -/
def live (page : TablePage) : Contents := fun slot =>
  if slot < page.getNumTuples ∧ 0 < page.getTupleLengthAtSlot slot then some (page.getTuple slot) else none

/-- The page keeps the slotted layout for its live tuples. -/
def WellLaid (page : TablePage) : Prop := Sound page page.live

/-- A page for which the next page is not read. -/
theorem getNextPageId_eq {page page' : TablePage} (same : page'.loadField 0 4 = page.loadField 0 4) :
    getNextPageId page' = getNextPageId page := by rw [getNextPageId, getNextPageId, same]

section Live

variable {page : TablePage} {contents : Contents} {slot : ℕ} {bytes : List UInt8}

theorem live_eq_some_iff : page.live slot = some bytes ↔
    slot < page.getNumTuples ∧ 0 < page.getTupleLengthAtSlot slot ∧ page.getTuple slot = bytes := by
  rw [live]
  split_ifs with here
  · simp [here]
  · constructor
    · intro impossible
      cases impossible
    · exact fun held => absurd ⟨held.1, held.2.1⟩ here

theorem live_length (held : page.live slot = some bytes) : bytes.length = page.getTupleLengthAtSlot slot := by
  obtain ⟨-, -, rfl⟩ := live_eq_some_iff.mp held
  exact load_length _ _ _

theorem live_ne_nil (held : page.live slot = some bytes) : bytes ≠ [] := by
  rw [← List.length_pos_iff, live_length held]
  exact (live_eq_some_iff.mp held).2.1

/-- A record of nonempty tuples that leaves out the empty slots is what the bytes say. -/
theorem Sound.live_eq (sound : Sound page contents)
    (positive : ∀ slot bytes, contents slot = some bytes → bytes ≠ [])
    (dead : ∀ slot < page.getNumTuples, contents slot = none → page.getTupleLengthAtSlot slot = 0) :
    page.live = contents := by
  funext slot
  cases held : contents slot with
  | some bytes =>
    have stored := sound.stored slot bytes held
    have length : page.getTupleLengthAtSlot slot = bytes.length := by
      rw [← stored]
      exact (load_length _ _ _).symm
    rw [live_eq_some_iff, length]
    exact ⟨sound.numbered slot bytes held, List.length_pos_iff.mpr (positive slot bytes held), stored⟩
  | none =>
    rw [live, if_neg]
    rintro ⟨numbered, notEmpty⟩
    exact absurd (dead slot numbered held) notEmpty.ne'

theorem dead_length (numbered : slot < page.getNumTuples) (dead : page.live slot = none) :
    page.getTupleLengthAtSlot slot = 0 := by
  by_contra positive
  rw [live, if_pos ⟨numbered, Nat.pos_of_ne_zero positive⟩] at dead
  cases dead

theorem WellLaid.numTuples_lt (laid : WellLaid page) : page.getNumTuples ≤ 1020 := by
  have low := laid.above
  have high := laid.pointer
  simp only [slotOffset, sizeTablePageHeader, sizeTupleSlot, pageSize] at low high
  omega

end Live

section Calls

variable {page : TablePage} {slot : ℕ} {bytes : List UInt8}

/-- A fresh page has no tuples and no next page. -/
theorem wellLaid_init (page : TablePage) : WellLaid (page.init invalidPageId) ∧
    (page.init invalidPageId).live = (fun _ => none) ∧ getNumTuples (page.init invalidPageId) = 0 ∧
    getNextPageId (page.init invalidPageId) = invalidPageId := by
  obtain ⟨number, -⟩ := init_header page invalidPageId
  have live : (page.init invalidPageId).live = fun _ => none := by
    funext slot
    rw [TablePage.live, number, if_neg fun here => absurd here.1 (Nat.not_lt_zero slot)]
  refine ⟨by rw [WellLaid, live]; exact sound_init page invalidPageId, live, number, ?_⟩
  have first : (page.init invalidPageId).loadField 0 4 = 4294967295 := by
    rw [init, setFreeSpacePointer, loadField_storeField_of_disjoint (by omega),
      loadField_storeField_of_disjoint (by omega), loadField_storeField_self (by decide)]
    decide
  rw [getNextPageId, first]
  decide

/-- The writes that end an insertion leave the header's first field alone. -/
theorem place_nextPageId (page : TablePage) (slot : ℕ) {newFsp : ℕ} (bytes : List UInt8) (clear : 12 ≤ newFsp) :
    (place page slot newFsp bytes).loadField 0 4 = page.loadField 0 4 := by
  unfold place setTupleLengthAtSlot setTupleOffsetAtSlot setFreeSpacePointer
  simp only [slotOffset, sizeTablePageHeader, sizeTupleSlot]
  rw [loadField_storeField_of_disjoint (by omega), loadField_storeField_of_disjoint (by omega),
    loadField_store_of_disjoint (by omega), loadField_storeField_of_disjoint (by omega)]

/-- The rows of an empty tuple: none. -/
def asRow (bytes : List UInt8) : Option (List UInt8) := if bytes = [] then none else some bytes

/-- A record of fewer tuples. -/
theorem Sound.fewer {contents contents' : Contents} (sound : Sound page contents)
    (fewer : ∀ slot bytes, contents' slot = some bytes → contents slot = some bytes) : Sound page contents' :=
  ⟨sound.toLaid.of_same rfl fewer (fun _ _ _ => ⟨rfl, rfl⟩) (fun _ _ _ => rfl), sound.above,
    fun slot bytes held => sound.numbered slot bytes (fewer slot bytes held)⟩

/-- `InsertTuple` does nothing, or makes the next slot live unless the tuple is empty. -/
theorem WellLaid.insert (laid : WellLaid page) (tuple : List UInt8) :
    (page.insertBytes tuple = (page, none) ∧ page.getFreeSpaceRemaining < tuple.length + sizeTupleSlot) ∨
      ∃ page', page.insertBytes tuple = (page', some page.getNumTuples) ∧ WellLaid page' ∧
        page'.live = Function.update page.live page.getNumTuples (asRow tuple) ∧
        page'.getNumTuples = page.getNumTuples + 1 ∧ page'.getNextPageId = page.getNextPageId := by
  rcases Sound.insertBytes_cases laid tuple with ⟨refused, full⟩ | ⟨page', done, sound, number, pointer⟩
  · exact .inl ⟨refused, full⟩
  · right
    have low := laid.above
    have low' := sound.above
    have high := laid.pointer
    rw [number, pointer] at low'
    simp only [slotOffset, sizeTablePageHeader, sizeTupleSlot, pageSize] at low low' high
    have room : tuple.length ≤ page.getFreeSpacePointer := by
      by_contra more
      omega
    -- the page is the one that the shared writes make
    have made := done
    rw [insertBytes_eq_place] at made
    split at made
    · cases made
    have fsp : (page.getFreeSpacePointer + 2 ^ 32 - tuple.length) % 2 ^ 32 =
        page.getFreeSpacePointer - tuple.length := by omega
    have slotNumber : page.getNumTuples % 2 ^ 16 = page.getNumTuples := Nat.mod_eq_of_lt (by omega)
    have count : (page.getNumTuples + 1) % 2 ^ 32 = page.getNumTuples + 1 := Nat.mod_eq_of_lt (by omega)
    rw [fsp, slotNumber, count] at made
    obtain ⟨rfl, -⟩ := Prod.mk.inj made
    have below : slotOffset (page.getNumTuples + 1) ≤ page.getFreeSpacePointer - tuple.length := by
      simp only [slotOffset, sizeTablePageHeader, sizeTupleSlot]
      omega
    obtain ⟨frame, -⟩ := place_frame page tuple below
    obtain ⟨-, -, -, length, -⟩ :=
      place_spec page below (show _ + tuple.length ≤ pageSize by rw [pageSize]; omega)
    have recorded : Sound _ (Function.update page.live page.getNumTuples (asRow tuple)) := sound.fewer (by
      intro slot bytes held
      by_cases same : slot = page.getNumTuples
      · subst same
        rw [Function.update_self, asRow] at held
        split_ifs at held
        rw [Function.update_self, held]
      · rwa [Function.update_of_ne same] at held ⊢)
    have live : TablePage.live (setNumTuples (place page page.getNumTuples
        (page.getFreeSpacePointer - tuple.length) tuple) (page.getNumTuples + 1)) =
          Function.update page.live page.getNumTuples (asRow tuple) := by
      apply recorded.live_eq
      · intro other old held
        by_cases same : other = page.getNumTuples
        · subst same
          rw [Function.update_self, asRow] at held
          split_ifs at held with empty
          exact Option.some.inj held ▸ empty
        · rw [Function.update_of_ne same] at held
          exact live_ne_nil held
      · intro other numbered dead
        rw [number] at numbered
        have slotSame : getTupleLengthAtSlot (setNumTuples (place page page.getNumTuples
            (page.getFreeSpacePointer - tuple.length) tuple) (page.getNumTuples + 1)) other =
              getTupleLengthAtSlot
                (place page page.getNumTuples (page.getFreeSpacePointer - tuple.length) tuple) other :=
          loadField_storeField_of_disjoint (by simp only [slotOffset, sizeTablePageHeader, sizeTupleSlot]; omega)
        rw [slotSame]
        by_cases same : other = page.getNumTuples
        · subst same
          rw [Function.update_self, asRow] at dead
          split_ifs at dead with empty
          rw [length, empty]
          rfl
        · rw [Function.update_of_ne same] at dead
          have before : other < page.getNumTuples := by omega
          rw [← dead_length before dead]
          refine (frame other same ?_).2
          simp only [slotOffset, sizeTablePageHeader, sizeTupleSlot]
          omega
    refine ⟨_, done, by rw [WellLaid, live]; exact recorded, live, number, getNextPageId_eq ?_⟩
    exact (loadField_storeField_of_disjoint (by omega)).trans (place_nextPageId page _ _ (by omega))

/-- `InsertTuple` takes the tuple and its slot from the free space. -/
theorem WellLaid.insertBytes_freeSpace {page' : TablePage} (laid : WellLaid page)
    (took : page.insertBytes bytes = (page', some slot)) :
    page'.getFreeSpaceRemaining = page.getFreeSpaceRemaining - (bytes.length + sizeTupleSlot) := by
  rcases Sound.insertBytes_cases laid bytes with ⟨refused, -⟩ | ⟨page', done, sound, number, pointer⟩
  · rw [took] at refused
    cases refused
  · rw [took] at done
    obtain ⟨rfl, -⟩ := Prod.mk.inj done
    rw [sound.freeSpace, laid.freeSpace, number, pointer]
    simp only [slotOffset, sizeTablePageHeader, sizeTupleSlot]
    omega

/-- `DeleteTuple` of a live slot makes it dead. -/
theorem WellLaid.delete (laid : WellLaid page) (held : page.live slot = some bytes) :
    WellLaid (page.deleteTuple slot) ∧ live (page.deleteTuple slot) = Function.update page.live slot none ∧
      getNumTuples (page.deleteTuple slot) = page.getNumTuples ∧
      getNextPageId (page.deleteTuple slot) = page.getNextPageId := by
  obtain ⟨-, number, frame, -⟩ := deleteTuple_frame page slot
  have sound := Sound.deleteTuple laid held
  have cleared : getTupleLengthAtSlot (page.deleteTuple slot) slot = 0 := by
    unfold deleteTuple setTupleLengthAtSlot setTupleOffsetAtSlot getTupleLengthAtSlot
    rw [loadField_storeField_of_disjoint (by omega), loadField_storeField_self (by decide)]
  have live : TablePage.live (page.deleteTuple slot) = Function.update page.live slot none := by
    apply sound.live_eq
    · intro other old held
      by_cases same : other = slot
      · simp [same] at held
      · rw [Function.update_of_ne same] at held
        exact live_ne_nil held
    · intro other numbered dead
      by_cases same : other = slot
      · rw [same, cleared]
      · rw [Function.update_of_ne same] at dead
        rw [(frame other same).2, dead_length (number ▸ numbered) dead]
  refine ⟨by rw [WellLaid, live]; exact sound, live, number, getNextPageId_eq ?_⟩
  unfold deleteTuple setTupleLengthAtSlot setTupleOffsetAtSlot
  simp only [slotOffset, sizeTablePageHeader, sizeTupleSlot]
  rw [loadField_storeField_of_disjoint (by omega), loadField_storeField_of_disjoint (by omega)]

/-- `DeleteTuple` of a slot that is dead already changes no tuple. -/
theorem WellLaid.deleteAgain (laid : WellLaid page) (numbered : slot < page.getNumTuples)
    (dead : page.live slot = none) :
    WellLaid (page.deleteTuple slot) ∧ live (page.deleteTuple slot) = page.live ∧
      getNumTuples (page.deleteTuple slot) = page.getNumTuples ∧
      getNextPageId (page.deleteTuple slot) = page.getNextPageId := by
  obtain ⟨pointer, number, frame, data⟩ := deleteTuple_frame page slot
  have above := laid.above
  have below : slotOffset (slot + 1) ≤ page.getFreeSpacePointer := by
    simp only [slotOffset, sizeTablePageHeader, sizeTupleSlot] at above ⊢
    omega
  have other {a : ℕ} {bytes : List UInt8} (held : page.live a = some bytes) : a ≠ slot := by
    rintro rfl
    rw [dead] at held
    cases held
  have sound : Sound (page.deleteTuple slot) page.live := by
    refine ⟨laid.of_same pointer (fun _ _ => id) (fun a bytes held => frame a (other held))
      (fun address length high => data address length (below.trans high)), ?_, ?_⟩
    · rw [number, pointer]
      exact above
    · rw [number]
      exact laid.numbered
  have cleared : getTupleLengthAtSlot (page.deleteTuple slot) slot = 0 := by
    unfold deleteTuple setTupleLengthAtSlot setTupleOffsetAtSlot getTupleLengthAtSlot
    rw [loadField_storeField_of_disjoint (by omega), loadField_storeField_self (by decide)]
  have live : TablePage.live (page.deleteTuple slot) = page.live := by
    apply sound.live_eq
    · exact fun a bytes held => live_ne_nil held
    · intro a inside gone
      rcases eq_or_ne a slot with rfl | different
      · exact cleared
      · rw [(frame a different).2, dead_length (number ▸ inside) gone]
  refine ⟨by rw [WellLaid, live]; exact sound, live, number, getNextPageId_eq ?_⟩
  unfold deleteTuple setTupleLengthAtSlot setTupleOffsetAtSlot
  simp only [slotOffset, sizeTablePageHeader, sizeTupleSlot]
  rw [loadField_storeField_of_disjoint (by omega), loadField_storeField_of_disjoint (by omega)]

/-- `UpdateTuple` of a live slot that finds room for the whole new tuple replaces it. -/
theorem WellLaid.update {tuple : List UInt8} (laid : WellLaid page) (held : page.live slot = some bytes)
    (notEmpty : tuple ≠ []) (room : tuple.length ≤ page.getFreeSpaceRemaining) :
    ∃ page', page.updateBytes slot tuple = (page', true) ∧ WellLaid page' ∧
      page'.live = Function.update page.live slot (some tuple) ∧ page'.getNumTuples = page.getNumTuples ∧
      page'.getNextPageId = page.getNextPageId ∧
      page'.getFreeSpaceRemaining = page.getFreeSpaceRemaining - tuple.length := by
  have low := laid.above
  have high := laid.pointer
  have free := laid.freeSpace
  have numbered := laid.numbered slot bytes held
  simp only [slotOffset, sizeTablePageHeader, sizeTupleSlot, pageSize] at low high free
  have positive : 1 ≤ tuple.length := List.length_pos_iff.mpr notEmpty
  obtain ⟨page', done, sound⟩ := Sound.updateTuple laid held ⟨tuple, positive, by omega⟩ room
  -- the page is the one that the shared writes make
  have made := done
  obtain ⟨pointer, number, frame, -⟩ := deleteTuple_frame page slot
  have fsp : (page.getFreeSpacePointer + 2 ^ 32 - tuple.length) % 2 ^ 32 =
      page.getFreeSpacePointer - tuple.length := by omega
  have fits : ¬ (page.getTupleLengthAtSlot slot < tuple.length ∧
      page.getFreeSpaceRemaining < tuple.length - page.getTupleLengthAtSlot slot) := by omega
  rw [updateTuple_eq_place, if_neg fits, pointer] at made
  rw [fsp] at made
  obtain ⟨rfl, -⟩ := Prod.mk.inj made
  have below : slotOffset (slot + 1) ≤ page.getFreeSpacePointer - tuple.length := by
    simp only [slotOffset, sizeTablePageHeader, sizeTupleSlot]
    omega
  obtain ⟨others, -⟩ := place_frame (page.deleteTuple slot) tuple below
  obtain ⟨number', pointer', -, length, -⟩ := place_spec (page.deleteTuple slot) below
    (show _ + tuple.length ≤ pageSize by rw [pageSize]; omega)
  have live : TablePage.live (place (page.deleteTuple slot) slot (page.getFreeSpacePointer - tuple.length) tuple) =
      Function.update page.live slot (some tuple) := by
    apply sound.live_eq
    · intro a old inside
      rcases eq_or_ne a slot with rfl | different
      · rw [Function.update_self] at inside
        exact Option.some.inj inside ▸ notEmpty
      · rw [Function.update_of_ne different] at inside
        exact live_ne_nil inside
    · intro a inside gone
      rcases eq_or_ne a slot with rfl | different
      · rw [Function.update_self] at gone
        cases gone
      · rw [Function.update_of_ne different] at gone
        rw [number', number] at inside
        rw [← dead_length inside gone, ← (frame a different).2]
        refine (others a different ?_).2
        simp only [slotOffset, sizeTablePageHeader, sizeTupleSlot]
        omega
  refine ⟨_, done, by rw [WellLaid, live]; exact sound, live, number'.trans number, getNextPageId_eq ?_, ?_⟩
  · refine (place_nextPageId _ _ _ (by omega)).trans ?_
    unfold deleteTuple setTupleLengthAtSlot setTupleOffsetAtSlot
    simp only [slotOffset, sizeTablePageHeader, sizeTupleSlot]
    rw [loadField_storeField_of_disjoint (by omega), loadField_storeField_of_disjoint (by omega)]
  · rw [sound.freeSpace, laid.freeSpace, pointer', number', number]
    omega

/-- `SetNextPageId` changes nothing else. -/
theorem WellLaid.setNext (laid : WellLaid page) {nextPageId : ℤ} (low : 0 ≤ nextPageId)
    (high : nextPageId < 2 ^ 31) : WellLaid (page.setNextPageId nextPageId) ∧
      live (page.setNextPageId nextPageId) = page.live ∧
      getNumTuples (page.setNextPageId nextPageId) = page.getNumTuples ∧
      getNextPageId (page.setNextPageId nextPageId) = nextPageId := by
  have number : getNumTuples (page.setNextPageId nextPageId) = page.getNumTuples :=
    loadField_storeField_of_disjoint (by omega)
  have pointer : getFreeSpacePointer (page.setNextPageId nextPageId) = page.getFreeSpacePointer :=
    loadField_storeField_of_disjoint (by omega)
  have slots (slot : ℕ) : getTupleOffsetAtSlot (page.setNextPageId nextPageId) slot =
      page.getTupleOffsetAtSlot slot ∧
      getTupleLengthAtSlot (page.setNextPageId nextPageId) slot = page.getTupleLengthAtSlot slot := by
    constructor
    · exact loadField_storeField_of_disjoint (by simp only [slotOffset, sizeTablePageHeader, sizeTupleSlot]; omega)
    · exact loadField_storeField_of_disjoint (by simp only [slotOffset, sizeTablePageHeader, sizeTupleSlot]; omega)
  have header := laid.above
  simp only [slotOffset, sizeTablePageHeader, sizeTupleSlot] at header
  have sound : Sound (page.setNextPageId nextPageId) page.live := by
    refine ⟨laid.of_same pointer (fun _ _ => id) (fun slot _ _ => slots slot) ?_, ?_, ?_⟩
    · exact fun address length above => load_storeField_of_disjoint (by omega)
    · rw [number, pointer]
      exact laid.above
    · rw [number]
      exact laid.numbered
  have live : TablePage.live (page.setNextPageId nextPageId) = page.live := by
    apply sound.live_eq
    · exact fun slot bytes held => live_ne_nil held
    · intro slot numbered dead
      rw [(slots slot).2, dead_length (number ▸ numbered) dead]
  refine ⟨by rw [WellLaid, live]; exact sound, live, number, ?_⟩
  have reduced : nextPageId % 2 ^ 32 = nextPageId := Int.emod_eq_of_lt low (by omega)
  have stored : (page.setNextPageId nextPageId).loadField 0 4 = nextPageId.toNat := by
    rw [setNextPageId, reduced, loadField_storeField_self (by omega)]
  have signed : (BitVec.ofNat 32 nextPageId.toNat).toInt = nextPageId := by
    rw [BitVec.toInt_eq_toNat_cond, BitVec.toNat_ofNat]
    split <;> omega
  rw [getNextPageId, stored]
  exact signed

theorem setNextPageId_freeSpace (page : TablePage) (nextPageId : PageId) :
    getFreeSpaceRemaining (page.setNextPageId nextPageId) = page.getFreeSpaceRemaining := by
  have number : getNumTuples (page.setNextPageId nextPageId) = page.getNumTuples :=
    Bytes.Memory.loadField_storeField_of_disjoint (by omega)
  have pointer : getFreeSpacePointer (page.setNextPageId nextPageId) = page.getFreeSpacePointer :=
    Bytes.Memory.loadField_storeField_of_disjoint (by omega)
  rw [getFreeSpaceRemaining, getFreeSpaceRemaining, number, pointer]

end Calls

section Behind

/-- The bytes behind a page are the same; in the source they belong to the members of `Page` that follow `data_`. -/
def SameBehind (page page' : TablePage) : Prop := ∀ address, pageSize ≤ address → page' address = page address

variable {page : TablePage} {slot newFsp : ℕ} {bytes tuple : List UInt8}

theorem SameBehind.refl (page : TablePage) : SameBehind page page := fun _ _ => rfl

theorem SameBehind.trans {page' page'' : TablePage} (first : SameBehind page page') (second : SameBehind page' page'') :
    SameBehind page page'' := fun address behind => (second address behind).trans (first address behind)

theorem sameBehind_init (page : TablePage) (pageId : PageId) : SameBehind page (page.init pageId) := by
  intro address behind
  have size : pageSize = 4096 := rfl
  rw [init, setFreeSpacePointer, storeField_of_le (by omega), storeField_of_le (by omega), storeField_of_le (by omega),
    store_of_le (by rw [List.length_replicate]; omega)]

theorem sameBehind_setNextPageId (page : TablePage) (nextPageId : PageId) :
    SameBehind page (page.setNextPageId nextPageId) := by
  intro address behind
  have size : pageSize = 4096 := rfl
  exact storeField_of_le (by omega)

theorem sameBehind_deleteTuple (inside : slotOffset (slot + 1) ≤ pageSize) :
    SameBehind page (page.deleteTuple slot) := by
  intro address behind
  simp only [slotOffset, sizeTablePageHeader, sizeTupleSlot] at inside
  rw [deleteTuple, setTupleOffsetAtSlot, setTupleLengthAtSlot, storeField_of_le, storeField_of_le]
  · simp only [slotOffset, sizeTablePageHeader, sizeTupleSlot]
    omega
  · simp only [slotOffset, sizeTablePageHeader, sizeTupleSlot]
    omega

theorem sameBehind_place (inside : slotOffset (slot + 1) ≤ pageSize) (fits : newFsp + bytes.length ≤ pageSize) :
    SameBehind page (place page slot newFsp bytes) := by
  intro address behind
  have size : pageSize = 4096 := rfl
  simp only [slotOffset, sizeTablePageHeader, sizeTupleSlot] at inside
  rw [place, setTupleLengthAtSlot, setTupleOffsetAtSlot, setFreeSpacePointer, storeField_of_le, storeField_of_le,
    store_of_le (by omega), storeField_of_le (by omega)]
  · simp only [slotOffset, sizeTablePageHeader, sizeTupleSlot]
    omega
  · simp only [slotOffset, sizeTablePageHeader, sizeTupleSlot]
    omega

/-- The slots that are numbered lie in the page. -/
theorem WellLaid.slot_inside (laid : WellLaid page) (numbered : slot < page.getNumTuples) :
    slotOffset (slot + 1) ≤ pageSize := by
  have low := laid.above
  have high := laid.pointer
  simp only [slotOffset, sizeTablePageHeader, sizeTupleSlot] at low ⊢
  omega

/-- `InsertTuple` stores nothing behind the page. -/
theorem WellLaid.sameBehind_insert (laid : WellLaid page) (tuple : List UInt8) :
    SameBehind page (page.insertBytes tuple).1 := by
  have low := laid.above
  have high := laid.pointer
  have free := laid.freeSpace
  have size : pageSize = 4096 := rfl
  simp only [slotOffset, sizeTablePageHeader, sizeTupleSlot] at low free
  rw [insertBytes_eq_place]
  split_ifs with full
  · exact .refl page
  · simp only [sizeTupleSlot] at full
    have fsp : (page.getFreeSpacePointer + 2 ^ 32 - tuple.length) % 2 ^ 32 =
        page.getFreeSpacePointer - tuple.length := by omega
    have number : page.getNumTuples % 2 ^ 16 = page.getNumTuples := Nat.mod_eq_of_lt (by omega)
    rw [fsp, number]
    refine SameBehind.trans (sameBehind_place ?_ (by omega)) fun address behind => storeField_of_le (by omega)
    simp only [slotOffset, sizeTablePageHeader, sizeTupleSlot]
    omega

/-- Neither does an `UpdateTuple` that is refused or finds room for the whole new tuple. -/
theorem WellLaid.sameBehind_update (laid : WellLaid page) (numbered : slot < page.getNumTuples)
    (room : tuple.length ≤ page.getFreeSpaceRemaining ∨ page.updateBytes slot tuple = (page, false)) :
    SameBehind page (page.updateBytes slot tuple).1 := by
  rcases room with enough | refused
  · have low := laid.above
    have high := laid.pointer
    have free := laid.freeSpace
    have size : pageSize = 4096 := rfl
    have inside := laid.slot_inside numbered
    obtain ⟨pointer, -⟩ := deleteTuple_frame page slot
    simp only [slotOffset, sizeTablePageHeader, sizeTupleSlot] at low free
    have fsp : (page.getFreeSpacePointer + 2 ^ 32 - tuple.length) % 2 ^ 32 =
        page.getFreeSpacePointer - tuple.length := by omega
    have done : page.updateBytes slot tuple =
        (place (page.deleteTuple slot) slot (page.getFreeSpacePointer - tuple.length) tuple, true) := by
      rw [updateBytes, if_neg (by omega)]
      dsimp only
      rw [pointer, fsp]
      rfl
    rw [done]
    exact (sameBehind_deleteTuple inside).trans (sameBehind_place inside (by omega))
  · rw [refused]
    exact .refl page

end Behind

end OneBase.TablePage
