import OneBase.Model.BPlusTreePage
import Mathlib.Tactic.Common

/-! # Page operations as operations on their used parts

Each page-local loop is read back once as an operation on the list of entries or links. Searches
are specified by where they cut that list.
-/

namespace OneBase

open ArrayLoops BPlusTreePage

variable {K V : Type}

namespace BPlusTreePage

@[simp] theorem entries_length (page : BPlusTreePage K V) : page.entries.length = page.size := by
  simp [entries]

@[simp] theorem links_length (page : BPlusTreePage K V) : page.links.length = page.size := by
  simp [links]

@[simp] theorem children_length (page : BPlusTreePage K V) : page.children.length = page.size := by
  simp [children]

/-- The children that a loop over all positions reads. -/
theorem map_valueAt (page : BPlusTreePage K V) :
    (List.range' 0 page.size).map (InternalPage.valueAt page) = page.children := by
  simp [children, links, slice, List.range_eq_range', InternalPage.valueAt, Function.comp_def]

@[simp] theorem setParentPageId_entries (page : BPlusTreePage K V) (parent : PageId) :
    (page.setParentPageId parent).entries = page.entries := rfl

@[simp] theorem setParentPageId_links (page : BPlusTreePage K V) (parent : PageId) :
    (page.setParentPageId parent).links = page.links := rfl

@[simp] theorem setNextPageId_entries (page : BPlusTreePage K V) (next : PageId) :
    (page.setNextPageId next).entries = page.entries := rfl

theorem entries_getElem (page : BPlusTreePage K V) (i : ℕ) (bound : i < page.entries.length) :
    page.entries[i] = page.leafArray i := slice_getElem _ _ _ bound

theorem links_getElem (page : BPlusTreePage K V) (i : ℕ) (bound : i < page.links.length) :
    page.links[i] = page.internalArray i := slice_getElem _ _ _ bound

/-- Two pages with the same header. -/
def SameHeader (a b : BPlusTreePage K V) : Prop :=
  a.pageType = b.pageType ∧ a.maxSize = b.maxSize ∧ a.parentPageId = b.parentPageId ∧ a.nextPageId = b.nextPageId

theorem SameHeader.getMinSize {a b : BPlusTreePage K V} (same : SameHeader a b) :
    a.getMinSize = b.getMinSize := by
  rw [BPlusTreePage.getMinSize, BPlusTreePage.getMinSize, isLeafPage, isLeafPage, same.1, same.2.1]

/-- The cell at a cut of the used part. -/
theorem internalArray_of_links {page : BPlusTreePage K V} {before after : List (K × PageId)}
    {link : K × PageId} (cut : page.links = before ++ link :: after) :
    page.internalArray before.length = link := by
  have bound : before.length < page.links.length := by rw [cut]; simp
  rw [← links_getElem page _ bound]
  simp [cut]

theorem leafArray_of_entries {page : BPlusTreePage K V} {before after : List (K × V)}
    {entry : K × V} (cut : page.entries = before ++ entry :: after) :
    page.leafArray before.length = entry := by
  have bound : before.length < page.entries.length := by rw [cut]; simp
  rw [← entries_getElem page _ bound]
  simp [cut]

end BPlusTreePage

namespace LeafPage

section Search

variable [LinearOrder K]

private theorem keyIndexLoop_spec (page : BPlusTreePage K V) (key : K)
    (ordered : ∀ i j, i < j → j < page.size → keyAt page i < keyAt page j) (rounds : ℕ) :
    ∀ low high, low ≤ high → high ≤ page.size → high - low ≤ rounds →
      (∀ j < low, keyAt page j < key) → (∀ j, high ≤ j → j < page.size → key ≤ keyAt page j) →
      keyIndexLoop page key rounds low high ≤ page.size ∧
        (∀ j < keyIndexLoop page key rounds low high, keyAt page j < key) ∧
        ∀ j, keyIndexLoop page key rounds low high ≤ j → j < page.size → key ≤ keyAt page j := by
  induction rounds with
  | zero =>
    intro low high order bound done below above
    have same : low = high := by omega
    exact ⟨by simpa [keyIndexLoop, same] using bound, by simpa [keyIndexLoop] using below,
      by simpa [keyIndexLoop, same] using above⟩
  | succ rounds ih =>
    intro low high order bound left below above
    rw [keyIndexLoop]
    by_cases more : low < high
    · rw [if_pos more]
      have inside : low + (high - low) / 2 < high := by omega
      by_cases smaller : keyAt page (low + (high - low) / 2) < key
      · simp only [smaller, ↓reduceIte]
        refine ih _ _ (by omega) bound (by omega) ?_ above
        intro j small
        rcases Nat.lt_or_eq_of_le (Nat.le_of_lt_succ small) with before | rfl
        · exact (ordered j _ before (by omega)).trans smaller
        · exact smaller
      · simp only [smaller, ↓reduceIte]
        refine ih _ _ (by omega) (by omega) (by omega) below ?_
        intro j from_mid inPage
        rcases Nat.lt_or_eq_of_le from_mid with after | rfl
        · exact (not_lt.mp smaller).trans (ordered _ j after inPage).le
        · exact not_lt.mp smaller
    · rw [if_neg more]
      have same : low = high := by omega
      exact ⟨by omega, below, by simpa [same] using above⟩

private theorem ordered_of_sorted {page : BPlusTreePage K V}
    (sorted : page.entries.Pairwise (fun a b => a.1 < b.1)) :
    ∀ i j, i < j → j < page.size → keyAt page i < keyAt page j := by
  intro i j order bound
  have pair := List.pairwise_iff_getElem.mp sorted i j (by simp; omega) (by simpa using bound) order
  rw [entries_getElem, entries_getElem] at pair
  exact pair

/-- Binary search cuts the sorted entries into those below the key and the rest. -/
theorem keyIndex_spec {page : BPlusTreePage K V} (key : K)
    (sorted : page.entries.Pairwise (fun a b => a.1 < b.1)) :
    keyIndex page key ≤ page.size ∧
      (∀ e ∈ page.entries.take (keyIndex page key), e.1 < key) ∧
      ∀ e ∈ page.entries.drop (keyIndex page key), key ≤ e.1 := by
  obtain ⟨bound, below, above⟩ := keyIndexLoop_spec page key (ordered_of_sorted sorted) page.size
    0 page.size (Nat.zero_le _) le_rfl (by omega) (by omega) (by omega)
  refine ⟨bound, ?_, ?_⟩
  · intro e member
    obtain ⟨i, inside, rfl⟩ := List.mem_take_iff_getElem.mp member
    rw [entries_getElem]
    exact below i (by unfold keyIndex at inside; omega)
  · intro e member
    obtain ⟨i, inside, rfl⟩ := List.mem_drop_iff_getElem.mp member
    rw [entries_getElem]
    exact above _ (by unfold keyIndex; omega) (by rw [entries_length] at inside; omega)

/-- The position test answers whether the entry at the cut carries the key. -/
theorem matchesAt_iff (page : BPlusTreePage K V) (key : K) (index : ℕ) :
    matchesAt page key index = true ↔ index < page.size ∧ keyAt page index = key := by
  simp only [matchesAt, Bool.and_eq_true, decide_eq_true_eq, Bool.not_eq_true', decide_eq_false_iff_not,
    not_lt, and_assoc]
  exact and_congr_right fun _ => ⟨fun both => le_antisymm both.1 both.2, fun same => by simp [same]⟩

/-- How a search for a key sees a sorted leaf: the key is absent and belongs at the cut, or it is
the first entry after the cut. -/
theorem search_cases {page : BPlusTreePage K V} (key : K)
    (sorted : page.entries.Pairwise (fun a b => a.1 < b.1)) :
    (∃ before after, page.entries = before ++ after ∧ before.length = keyIndex page key ∧
        (∀ e ∈ before, e.1 < key) ∧ (∀ e ∈ after, key < e.1) ∧
        matchesAt page key (keyIndex page key) = false) ∨
      ∃ before value after, page.entries = before ++ (key, value) :: after ∧
        before.length = keyIndex page key ∧ (∀ e ∈ before, e.1 < key) ∧ (∀ e ∈ after, key < e.1) ∧
        matchesAt page key (keyIndex page key) = true := by
  obtain ⟨bound, below, above⟩ := keyIndex_spec key sorted
  have length : (page.entries.take (keyIndex page key)).length = keyIndex page key := by
    simp [bound]
  have whole := (List.take_append_drop (keyIndex page key) page.entries).symm
  cases rest : page.entries.drop (keyIndex page key) with
  | nil =>
    left
    refine ⟨_, [], rest ▸ whole, length, below, by simp, ?_⟩
    rw [Bool.eq_false_iff, Ne, matchesAt_iff]
    have := congrArg List.length rest
    simp at this
    omega
  | cons entry after =>
    have cut : page.entries = page.entries.take (keyIndex page key) ++ entry :: after := by
      rw [← rest]; exact whole
    have inside : keyIndex page key < page.size := by
      have := congrArg List.length rest
      simp at this
      omega
    have here : keyAt page (keyIndex page key) = entry.1 := by
      have := leafArray_of_entries cut
      rw [length] at this
      rw [keyAt, this]
    have later : ∀ e ∈ after, entry.1 < e.1 := by
      rw [cut] at sorted
      exact (List.pairwise_cons.mp (List.pairwise_append.mp sorted).2.1).1
    have least : key ≤ entry.1 := above entry (by rw [rest]; exact List.mem_cons_self)
    rcases eq_or_lt_of_le least with same | smaller
    · right
      obtain ⟨entryKey, value⟩ := entry
      subst same
      exact ⟨_, value, after, cut, length, below, later, (matchesAt_iff _ _ _).mpr ⟨inside, here⟩⟩
    · left
      refine ⟨_, entry :: after, cut, length, below, ?_, ?_⟩
      · intro e member
        rcases List.mem_cons.mp member with rfl | member
        · exact smaller
        · exact smaller.trans (later e member)
      · rw [Bool.eq_false_iff, Ne, matchesAt_iff, here]
        exact fun both => absurd both.2 smaller.ne'

/-- `Lookup` finds exactly what a sorted leaf stores. -/
theorem lookup_eq_some_iff {page : BPlusTreePage K V} (key : K) (value : V)
    (sorted : page.entries.Pairwise (fun a b => a.1 < b.1)) :
    lookup page key = some value ↔ (key, value) ∈ page.entries := by
  rcases search_cases key sorted with ⟨before, after, cut, length, below, above, miss⟩ |
    ⟨before, found, after, cut, length, below, above, hit⟩
  · simp only [lookup, miss, Bool.false_eq_true, ↓reduceIte, reduceCtorEq, false_iff, cut, List.mem_append,
      not_or]
    exact ⟨fun member => lt_irrefl _ (below _ member), fun member => lt_irrefl _ (above _ member)⟩
  · have here := leafArray_of_entries cut
    rw [length] at here
    simp only [lookup, hit, ↓reduceIte, here, Option.some.injEq, cut, List.mem_append, List.mem_cons,
      Prod.mk.injEq, true_and]
    constructor
    · rintro rfl
      exact .inr (.inl rfl)
    · rintro (member | same | member)
      · exact absurd (below _ member) (lt_irrefl _)
      · exact same.symm
      · exact absurd (above _ member) (lt_irrefl _)

theorem insert_header (page : BPlusTreePage K V) (key : K) (value : V) :
    SameHeader (insert page key value).1 page := by
  unfold insert
  dsimp only
  split <;> exact ⟨rfl, rfl, rfl, rfl⟩

/-- The binary search stays on the page, sorted or not. -/
theorem keyIndexLoop_le (page : BPlusTreePage K V) (key : K) (left low high : ℕ) (ordered : low ≤ high) :
    keyIndexLoop page key left low high ≤ high := by
  induction left generalizing low high with
  | zero => exact ordered
  | succ left ih =>
    rw [keyIndexLoop]
    split
    · dsimp only
      split
      · exact ih _ _ (by omega)
      · exact (ih _ _ (by omega)).trans (by omega)
    · exact ordered

/-- The fields of the page after an insertion; the slot behind the used ones is always written. -/
theorem insert_fields (leaf : BPlusTreePage K V) (key : K) (value : V) :
    (lookup leaf key ≠ none ∧ insert leaf key value = (leaf, leaf.size)) ∨
    ∃ page, lookup leaf key = none ∧ insert leaf key value = (page, leaf.size + 1) ∧
      page.size = leaf.size + 1 ∧ page.maxSize = leaf.maxSize ∧ page.pageType = leaf.pageType ∧
      page.parentPageId = leaf.parentPageId ∧ page.written = max leaf.written (slotOffset (leaf.size + 1)) := by
  have bound : keyIndex leaf key ≤ leaf.size := keyIndexLoop_le leaf key leaf.size 0 leaf.size (Nat.zero_le _)
  have inside : keyIndex leaf key < leaf.size + 1 := by omega
  cases found : matchesAt leaf key (keyIndex leaf key) with
  | true => exact .inl ⟨by simp [lookup, found], by simp [insert, found]⟩
  | false =>
    refine .inr ⟨(insert leaf key value).1, by simp [lookup, found], ?_, ?_⟩
    · simp [insert, found]
    · simp [insert, found, wrote, inside]

/-- `Insert` leaves a page alone when the key is there, and otherwise puts the pair at its place. -/
theorem insert_cases {page : BPlusTreePage K V} (key : K) (value : V)
    (sorted : page.entries.Pairwise (fun a b => a.1 < b.1)) :
    (insert page key value = (page, page.size) ∧ ∃ old, (key, old) ∈ page.entries) ∨
      ∃ before after, page.entries = before ++ after ∧
        (∀ e ∈ before, e.1 < key) ∧ (∀ e ∈ after, key < e.1) ∧
        (insert page key value).1.entries = before ++ (key, value) :: after ∧
        (insert page key value).2 = page.size + 1 := by
  rcases search_cases key sorted with ⟨before, after, cut, length, below, above, miss⟩ |
    ⟨before, found, after, cut, length, below, above, hit⟩
  · right
    refine ⟨before, after, cut, below, above, ?_, by simp [insert, miss]⟩
    simp only [insert, miss, Bool.false_eq_true, ↓reduceIte, entries]
    rw [slice_insert _ _ _ _ (by have := congrArg List.length cut; simp at this; omega)]
    change page.entries.take _ ++ _ :: page.entries.drop _ = _
    rw [cut, ← length, List.take_left, List.drop_left]
  · left
    exact ⟨by simp [insert, hit], found, by simp [cut]⟩

/-- `RemoveAndDeleteRecord` leaves a page alone when the key is absent, and otherwise takes its
entry out. -/
theorem remove_cases {page : BPlusTreePage K V} (key : K)
    (sorted : page.entries.Pairwise (fun a b => a.1 < b.1)) :
    (removeAndDeleteRecord page key = (page, page.size) ∧ ∀ e ∈ page.entries, e.1 ≠ key) ∨
      ∃ before value after, page.entries = before ++ (key, value) :: after ∧
        (∀ e ∈ before, e.1 < key) ∧ (∀ e ∈ after, key < e.1) ∧
        (removeAndDeleteRecord page key).1.entries = before ++ after ∧
        (removeAndDeleteRecord page key).2 + 1 = page.size := by
  rcases search_cases key sorted with ⟨before, after, cut, length, below, above, miss⟩ |
    ⟨before, found, after, cut, length, below, above, hit⟩
  · left
    refine ⟨by simp [removeAndDeleteRecord, miss], ?_⟩
    intro e member
    rw [cut] at member
    rcases List.mem_append.mp member with member | member
    · exact (below e member).ne
    · exact (above e member).ne'
  · right
    have inside : before.length < page.size := by
      have := congrArg List.length cut; simp at this; omega
    refine ⟨before, found, after, cut, below, above, ?_, ?_⟩
    · simp only [removeAndDeleteRecord, hit, Bool.not_true, Bool.false_eq_true, ↓reduceIte, entries]
      rw [← length, slice_erase _ _ _ inside]
      change page.entries.take _ ++ page.entries.drop _ = _
      rw [cut, List.take_left]
      simp
    · simp only [removeAndDeleteRecord, hit, Bool.not_true, Bool.false_eq_true, ↓reduceIte]
      omega

end Search

theorem moveHalfTo_entries (page recipient : BPlusTreePage K V) :
    (moveHalfTo page recipient).1.entries = page.entries.take (page.size / 2) ∧
      (moveHalfTo page recipient).2.entries = page.entries.drop (page.size / 2) := by
  constructor
  · exact (slice_take _ _ _ (Nat.div_le_self _ _)).symm
  · have copied := slice_copyRun page.leafArray recipient.leafArray (page.size / 2) 0 (page.size - page.size / 2)
    simpa [moveHalfTo, entries, Nat.add_sub_cancel' (Nat.div_le_self page.size 2)] using copied

theorem moveAllTo_entries (page recipient : BPlusTreePage K V) :
    (moveAllTo page recipient).2.entries = recipient.entries ++ page.entries := by
  have copied := slice_copyRun page.leafArray recipient.leafArray 0 recipient.size page.size
  simpa [moveAllTo, entries] using copied

theorem moveFirstToEndOf_entries {page : BPlusTreePage K V} (recipient : BPlusTreePage K V) {entry : K × V}
    {rest : List (K × V)} (cut : page.entries = entry :: rest) :
    (moveFirstToEndOf page recipient).1.entries = rest ∧
      (moveFirstToEndOf page recipient).2.entries = recipient.entries ++ [entry] := by
  have positive : 0 < page.size := by have := congrArg List.length cut; simp at this; omega
  have first : page.leafArray 0 = entry := leafArray_of_entries (show page.entries = [] ++ entry :: rest from cut)
  constructor
  · have closed := slice_erase page.leafArray page.size 0 positive
    have tail : (slice page.leafArray page.size).drop 1 = rest := by
      change page.entries.drop 1 = rest
      rw [cut]; rfl
    simpa [moveFirstToEndOf, entries, tail] using closed
  · simp only [moveFirstToEndOf, entries, slice_succ, Function.update_self, first]
    rw [slice_congr (b := recipient.leafArray)]
    intro i small
    exact Function.update_of_ne small.ne _ _

theorem moveLastToFrontOf_entries {page : BPlusTreePage K V} (recipient : BPlusTreePage K V) {entry : K × V}
    {rest : List (K × V)} (cut : page.entries = rest ++ [entry]) :
    (moveLastToFrontOf page recipient).1.entries = rest ∧
      (moveLastToFrontOf page recipient).2.entries = entry :: recipient.entries := by
  have length : page.size = rest.length + 1 := by have := congrArg List.length cut; simpa using this
  have last : page.leafArray (page.size - 1) = entry := by
    rw [length]; exact leafArray_of_entries cut
  constructor
  · have shorter := slice_take page.leafArray page.size (page.size - 1) (Nat.sub_le _ _)
    have front : (slice page.leafArray page.size).take (page.size - 1) = rest := by
      change page.entries.take _ = rest
      rw [cut, length]; simp
    exact shorter.symm.trans front
  · have opened := slice_insert recipient.leafArray recipient.size 0 entry (Nat.zero_le _)
    simpa [moveLastToFrontOf, entries, last] using opened

end LeafPage

namespace InternalPage

section Search

variable [LinearOrder K]

private theorem lookupLoop_cut (page : BPlusTreePage K V) (key : K) (left : ℕ) :
    ∀ i, i + left = page.size → 0 < i → (1 < i → keyAt page (i - 1) ≤ key) →
      ∃ j, i ≤ j + 1 ∧ j < page.size ∧ lookupLoop page key i (valueAt page (i - 1)) left = valueAt page j ∧
        (0 < j → keyAt page j ≤ key) ∧ (j + 1 < page.size → key < keyAt page (j + 1)) := by
  induction left with
  | zero =>
    intro i total positive reached
    exact ⟨i - 1, by omega, by omega, rfl, fun later => reached (by omega), by omega⟩
  | succ left ih =>
    intro i total positive reached
    rw [lookupLoop]
    split
    · next stop =>
      refine ⟨i - 1, by omega, by omega, rfl, fun later => reached (by omega), fun _ => ?_⟩
      rw [Nat.sub_add_cancel positive]
      exact stop
    · next go =>
      obtain ⟨j, order, inside, result, lower, upper⟩ := ih (i + 1) (by omega) (by omega)
        (fun _ => not_lt.mp go)
      exact ⟨j, by omega, inside, result, lower, upper⟩

/-- `Lookup` cuts the links at the child it returns: its key is not above `key` unless it is the
first, and the next key is above it. -/
theorem lookup_cut {page : BPlusTreePage K V} (key : K) (positive : 0 < page.size) :
    ∃ before link after, page.links = before ++ link :: after ∧ lookup page key = link.2 ∧
      (before ≠ [] → link.1 ≤ key) ∧ ∀ next ∈ after.head?, key < next.1 := by
  obtain ⟨j, -, inside, result, lower, upper⟩ := lookupLoop_cut page key (page.size - 1) 1
    (by omega) Nat.one_pos (by omega)
  refine ⟨page.links.take j, page.internalArray j, page.links.drop (j + 1), ?_, result, ?_, ?_⟩
  · rw [← links_getElem page j (by simpa using inside)]
    simp
  · intro nonempty
    apply lower
    rcases Nat.eq_zero_or_pos j with rfl | later
    · simp at nonempty
    · exact later
  · intro next head
    rw [List.head?_drop, Option.mem_def, List.getElem?_eq_some_iff] at head
    obtain ⟨bound, rfl⟩ := head
    rw [links_getElem]
    exact upper (by simpa using bound)

end Search

private theorem valueIndexLoop_eq {page : BPlusTreePage K V} {value : PageId} {k : ℕ}
    (here : valueAt page k = value) (left : ℕ) :
    ∀ i, i ≤ k → k < i + left → (∀ j, i ≤ j → j < k → valueAt page j ≠ value) →
      valueIndexLoop page value i left = k := by
  induction left with
  | zero => intro i order bound; omega
  | succ left ih =>
    intro i order bound missing
    rw [valueIndexLoop]
    rcases Nat.eq_or_lt_of_le order with rfl | earlier
    · rw [if_pos here]
    · rw [if_neg (missing i le_rfl earlier)]
      exact ih (i + 1) earlier (by omega) (fun j from_i before => missing j (by omega) before)

private theorem valueIndexLoop_lt (page : BPlusTreePage K V) (value : PageId) (left i : ℕ) :
    valueIndexLoop page value i left < i + left := by
  induction left generalizing i with
  | zero =>
    rw [valueIndexLoop]
    omega
  | succ left ih =>
    rw [valueIndexLoop]
    split
    · omega
    · have later := ih (i + 1)
      omega

/-- `InsertNodeAfter` writes the slot behind the used ones. -/
theorem insertNodeAfter_written (page : BPlusTreePage K V) (oldValue : PageId) (key : K) (newValue : PageId) :
    (insertNodeAfter page oldValue key newValue).1.written = max page.written (slotOffset (page.size + 1)) := by
  have bound : valueIndex page oldValue < 0 + page.size := valueIndexLoop_lt page oldValue page.size 0
  have inside : (valueIndex page oldValue + 1).toNat < page.size + 1 := by omega
  simp [insertNodeAfter, wrote, inside]

/-- `ValueIndex` finds a child at its first position. -/
theorem valueIndex_of_cut {page : BPlusTreePage K V} {before after : List (K × PageId)}
    {link : K × PageId} (cut : page.links = before ++ link :: after)
    (first : link.2 ∉ before.map Prod.snd) : valueIndex page link.2 = before.length := by
  have length := congrArg List.length cut
  simp only [links_length, List.length_append, List.length_cons] at length
  refine valueIndexLoop_eq ?_ _ 0 (Nat.zero_le _) (by omega) ?_
  · rw [valueAt, internalArray_of_links cut]
  · intro j _ small same
    apply first
    have bound : j < page.links.length := by simp; omega
    have at_j := links_getElem page j bound
    simp only [cut, List.getElem_append_left small] at at_j
    rw [← same, valueAt, ← at_j]
    exact List.mem_map_of_mem (List.getElem_mem small)

theorem setKeyAt_links {page : BPlusTreePage K V} {before after : List (K × PageId)}
    {link : K × PageId} (key : K) (cut : page.links = before ++ link :: after) :
    (setKeyAt page before.length key).links = before ++ (key, link.2) :: after := by
  have here := internalArray_of_links cut
  have written : (setKeyAt page before.length key).links = page.links.set before.length (key, link.2) := by
    apply List.ext_getElem
    · simp [setKeyAt, links]
    · intro j inside _
      rw [links_getElem, List.getElem_set, links_getElem]
      simp only [setKeyAt, Function.update_apply, here, eq_comm]
  rw [written, cut]
  simp

theorem populateNewRoot_links (page : BPlusTreePage K V) (old new : PageId) (key : K) :
    (populateNewRoot page old key new).links = [((page.internalArray 0).1, old), (key, new)] := by
  simp [populateNewRoot, links, slice, List.range_succ]

theorem insertNodeAfter_links {page : BPlusTreePage K V} {before after : List (K × PageId)}
    {link : K × PageId} (key : K) (new : PageId) (cut : page.links = before ++ link :: after)
    (first : link.2 ∉ before.map Prod.snd) :
    (insertNodeAfter page link.2 key new).1.links = before ++ link :: (key, new) :: after := by
  have length := congrArg List.length cut
  simp only [links_length, List.length_append, List.length_cons] at length
  have gap : (valueIndex page link.2 + 1).toNat = before.length + 1 := by
    rw [valueIndex_of_cut cut first]; omega
  simp only [insertNodeAfter, links, gap]
  rw [slice_insert _ _ _ _ (by omega)]
  change page.links.take _ ++ _ :: page.links.drop _ = _
  have whole : page.links = (before ++ [link]) ++ after := by simp [cut]
  have width : before.length + 1 = (before ++ [link]).length := by simp
  rw [whole, width, List.take_left, List.drop_left]
  simp

theorem remove_links {page : BPlusTreePage K V} {before after : List (K × PageId)}
    {link : K × PageId} (cut : page.links = before ++ link :: after) :
    (remove page before.length).links = before ++ after := by
  have length := congrArg List.length cut
  simp only [links_length, List.length_append, List.length_cons] at length
  simp only [remove, links]
  rw [slice_erase _ _ _ (by omega)]
  change page.links.take _ ++ page.links.drop _ = _
  simp [cut, List.drop_append]

theorem moveAllTo_links {page : BPlusTreePage K V} (recipient : BPlusTreePage K V) {link : K × PageId}
    {rest : List (K × PageId)} (middleKey : K) (cut : page.links = link :: rest) :
    (moveAllTo page recipient middleKey).2.links = recipient.links ++ (middleKey, link.2) :: rest := by
  have keyed := setKeyAt_links middleKey (show page.links = [] ++ link :: rest from cut)
  have copied := slice_copyRun (setKeyAt page 0 middleKey).internalArray recipient.internalArray 0
    recipient.size page.size
  simp only [Nat.zero_add, List.drop_zero] at copied
  exact copied.trans (congrArg (recipient.links ++ ·) keyed)

theorem moveHalfTo_links {page : BPlusTreePage K V} (recipient : BPlusTreePage K V) {before after : List (K × PageId)}
    {link : K × PageId} (middleKey : K) (cut : page.links = before ++ link :: after)
    (half : before.length = page.size / 2) :
    (moveHalfTo page recipient middleKey).1.links = before ∧
      (moveHalfTo page recipient middleKey).2.links =
        ((recipient.internalArray 0).1, link.2) :: after := by
  have length := congrArg List.length cut
  simp only [links_length, List.length_append, List.length_cons] at length
  constructor
  · have shorter := slice_take page.internalArray page.size (page.size / 2) (Nat.div_le_self _ _)
    have front : page.links.take (page.size / 2) = before := by rw [cut, ← half, List.take_left]
    exact shorter.symm.trans front
  · have here := internalArray_of_links cut
    have copied := slice_copyRun page.internalArray (Function.update recipient.internalArray 0
      ((recipient.internalArray 0).1, link.2)) (page.size / 2 + 1) 1 (page.size - page.size / 2 - 1)
    have total : page.size / 2 + 1 + (page.size - page.size / 2 - 1) = page.size := by omega
    rw [total] at copied
    have tail : (slice page.internalArray page.size).drop (page.size / 2 + 1) = after := by
      change page.links.drop _ = after
      rw [cut, ← half]; simp [List.drop_append]
    rw [tail] at copied
    simp only [moveHalfTo, links, valueAt, ← half, here]
    rw [← half] at copied
    rw [Nat.add_comm 1] at copied
    rw [copied]
    simp [slice]

/-- `MoveHalfTo` moves children of the page only. -/
theorem moveHalfTo_children (page recipient : BPlusTreePage K V) (middleKey : K) (positive : 1 ≤ page.size) :
    (moveHalfTo page recipient middleKey).2.children ⊆ page.children := by
  obtain ⟨link, after, cut⟩ := List.exists_cons_of_ne_nil
    (show page.links.drop (page.size / 2) ≠ [] by simp; omega)
  have whole : page.links = page.links.take (page.size / 2) ++ link :: after := by
    rw [← cut, List.take_append_drop]
  have half : (page.links.take (page.size / 2)).length = page.size / 2 := by simp; omega
  have links := (moveHalfTo_links recipient middleKey whole half).2
  rw [BPlusTreePage.children, links, BPlusTreePage.children, whole, List.map_append]
  exact List.subset_append_right _ _

theorem moveFirstToEndOf_links {page : BPlusTreePage K V} (recipient : BPlusTreePage K V) {link : K × PageId}
    {rest : List (K × PageId)} (middleKey : K) (cut : page.links = link :: rest) :
    (moveFirstToEndOf page recipient middleKey).1.links = rest ∧
      (moveFirstToEndOf page recipient middleKey).2.links = recipient.links ++ [(middleKey, link.2)] := by
  have positive : 0 < page.size := by have := congrArg List.length cut; simp at this; omega
  have first : page.internalArray 0 = link := internalArray_of_links (show page.links = [] ++ link :: rest from cut)
  constructor
  · have closed := slice_erase page.internalArray page.size 0 positive
    have tail : (slice page.internalArray page.size).drop 1 = rest := by
      change page.links.drop 1 = rest
      rw [cut]; rfl
    simpa [moveFirstToEndOf, links, tail] using closed
  · simp only [moveFirstToEndOf, links, slice_succ, Function.update_self, valueAt, first]
    rw [slice_congr (b := recipient.internalArray)]
    intro i small
    exact Function.update_of_ne small.ne _ _

theorem moveLastToFrontOf_links {page recipient : BPlusTreePage K V} {link head : K × PageId}
    {rest tail : List (K × PageId)} (middleKey : K) (cut : page.links = rest ++ [link])
    (target : recipient.links = head :: tail) :
    (moveLastToFrontOf page recipient middleKey).1.links = rest ∧
      (moveLastToFrontOf page recipient middleKey).2.links =
        (head.1, link.2) :: (middleKey, head.2) :: tail := by
  have length : page.size = rest.length + 1 := by have := congrArg List.length cut; simpa using this
  have size : recipient.size = tail.length + 1 := by
    have := congrArg List.length target; simpa using this
  have last : page.internalArray (page.size - 1) = link := by
    rw [length]; exact internalArray_of_links cut
  have front : recipient.internalArray 0 = head :=
    internalArray_of_links (show recipient.links = [] ++ head :: tail from target)
  constructor
  · have shorter := slice_take page.internalArray page.size (page.size - 1) (Nat.sub_le _ _)
    have initial : (slice page.internalArray page.size).take (page.size - 1) = rest := by
      change page.links.take _ = rest
      rw [cut, length]; simp
    exact shorter.symm.trans initial
  · apply List.ext_getElem
    · simp [moveLastToFrontOf, links, size]
    · intro j inside bound
      rw [links_getElem]
      have others : ∀ i (small : i < tail.length), recipient.internalArray (i + 1) = tail[i] := by
        intro i small
        rw [← links_getElem recipient (i + 1) (by simp [size, small])]
        simp [target]
      match j with
      | 0 => simp [moveLastToFrontOf, valueAt, last, shiftUp_apply, front]
      | 1 => simp [moveLastToFrontOf, shiftUp_apply, size, front]
      | j + 2 =>
        have small : j < tail.length := by simpa using bound
        simp only [moveLastToFrontOf, Function.update_apply, shiftUp_apply, size]
        rw [if_neg (by omega), if_neg (by omega), if_pos (by omega)]
        exact others j small

end InternalPage

end OneBase
