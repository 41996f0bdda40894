import OneBase.Proofs.Storage.HeapChanges
import OneBase.ToMathlib.Traces

/-! # A table heap is a store

Under every RID that it has handed out, a table heap holds the bytes that were last stored there, whatever calls were
made in between and whichever pages were refused during them. A new heap stores nothing.
-/

namespace OneBase.TableHeap

open TablePage Traces

/-- The bytes under each RID that was handed out, none of them once they are deleted. -/
abbrev Store := Rid → Option (List UInt8)

namespace Store

/-- The RID holds a row. -/
def Live (store : Store) (rid : Rid) : Prop := ∃ bytes, store rid = some bytes ∧ bytes ≠ []

/-- An iterator stands at the first row ahead of it, or at the end if there is none. -/
def Stands (store : Store) (before : Rid → Rid → Prop) (ahead : Rid → Prop) (rid : Rid) : Prop :=
  (rid = endRid ∧ ∀ other, ahead other → ¬ store.Live other) ∨
    (store.Live rid ∧ ahead rid ∧ ∀ other, ahead other → store.Live other → other ≠ rid →
      before rid other)

end Store

/-- What a page holds under a slot. -/
def slotBytes (page : TablePage) (slot : ℕ) : Option (List UInt8) :=
  if slot < page.getNumTuples then some ((page.live slot).getD []) else none

/-- What the pages of a chain hold under their slots. -/
def stores (data : PageId → TablePage) (chain : List PageId) : Store := fun rid =>
  if rid.pageId ∈ chain then slotBytes (data rid.pageId) rid.slotNum else none

section SlotBytes

variable {page page' : TablePage} {slot : ℕ} {bytes : List UInt8}

theorem slotBytes_congr (live : page'.live = page.live) (number : page'.getNumTuples = page.getNumTuples) :
    slotBytes page' = slotBytes page := by
  funext slot
  rw [slotBytes, slotBytes, live, number]

/-- A numbered slot gets other bytes. -/
theorem slotBytes_update {row : Option (List UInt8)} (numbered : slot < page.getNumTuples)
    (live : page'.live = Function.update page.live slot row) (number : page'.getNumTuples = page.getNumTuples) :
    slotBytes page' = Function.update (slotBytes page) slot (some (row.getD [])) := by
  funext other
  rw [slotBytes, live, number]
  rcases eq_or_ne other slot with rfl | different
  · rw [Function.update_self, Function.update_self, if_pos numbered]
  · rw [Function.update_of_ne different, Function.update_of_ne different, slotBytes]

theorem asRow_getD (bytes : List UInt8) : (asRow bytes).getD [] = bytes := by
  rw [asRow]
  split_ifs with empty
  · exact empty.symm
  · rfl

/-- The next slot is numbered. -/
theorem slotBytes_insert (live : page'.live = Function.update page.live page.getNumTuples (asRow bytes))
    (number : page'.getNumTuples = page.getNumTuples + 1) :
    slotBytes page' = Function.update (slotBytes page) page.getNumTuples (some bytes) := by
  funext other
  rw [slotBytes, live, number]
  rcases eq_or_ne other page.getNumTuples with rfl | different
  · rw [Function.update_self, Function.update_self, if_pos (Nat.lt_succ_self _), asRow_getD]
  · rw [Function.update_of_ne different, Function.update_of_ne different, slotBytes]
    split_ifs with a b b
    · rfl
    · omega
    · omega
    · rfl

theorem slotBytes_none : slotBytes page page.getNumTuples = none := if_neg (lt_irrefl _)

/-- `GetTuple` reads what the slot holds. -/
theorem getTuple_of_slotBytes (held : slotBytes page slot = some bytes) : page.getTuple slot = bytes := by
  rw [slotBytes] at held
  split_ifs at held with numbered
  obtain rfl := Option.some.inj held
  cases live : page.live slot with
  | some bytes => exact (live_eq_some_iff.mp live).2.2
  | none =>
    rw [TablePage.getTuple, dead_length numbered live]
    rfl

theorem slotBytes_eq_some_live (notEmpty : bytes ≠ []) (held : slotBytes page slot = some bytes) :
    page.live slot = some bytes := by
  rw [slotBytes] at held
  split_ifs at held
  cases live : page.live slot with
  | some old =>
    rw [live] at held
    exact held
  | none =>
    rw [live] at held
    exact absurd (Option.some.inj held).symm notEmpty

theorem slotBytes_numbered (held : slotBytes page slot = some bytes) : slot < page.getNumTuples := by
  rw [slotBytes] at held
  split_ifs at held with numbered
  exact numbered

theorem slotBytes_of_live (live : page.live slot = some bytes) : slotBytes page slot = some bytes := by
  rw [slotBytes, if_pos (live_eq_some_iff.mp live).1, live]
  rfl

end SlotBytes

section Stores

variable {data data' : PageId → TablePage} {chain : List PageId} {rid : Rid} {bytes : List UInt8}

theorem stores_eq_some_iff : stores data chain rid = some bytes ↔
    rid.pageId ∈ chain ∧ slotBytes (data rid.pageId) rid.slotNum = some bytes := by
  rw [stores]
  split_ifs with mem
  · simp [mem]
  · simp [mem]

theorem live_stores_iff : (stores data chain).Live rid ↔
    rid.pageId ∈ chain ∧ ∃ bytes, (data rid.pageId).live rid.slotNum = some bytes := by
  constructor
  · rintro ⟨bytes, held, notEmpty⟩
    obtain ⟨mem, held⟩ := stores_eq_some_iff.mp held
    exact ⟨mem, bytes, slotBytes_eq_some_live notEmpty held⟩
  · rintro ⟨mem, bytes, live⟩
    exact ⟨bytes, stores_eq_some_iff.mpr ⟨mem, slotBytes_of_live live⟩, live_ne_nil live⟩

/-- The rows of a chain are what its store has live. -/
theorem live_stores_iff_mem : (stores data chain).Live rid ↔ rid ∈ (contents data chain).map Prod.fst := by
  rw [live_stores_iff, List.mem_map]
  constructor
  · rintro ⟨mem, bytes, live⟩
    exact ⟨(rid, bytes), mem_contents_iff.mpr ⟨mem, live⟩, rfl⟩
  · rintro ⟨⟨rid, bytes⟩, mem, rfl⟩
    exact ⟨(mem_contents_iff.mp mem).1, bytes, (mem_contents_iff.mp mem).2⟩

theorem stores_congr (same : ∀ p ∈ chain, slotBytes (data' p) = slotBytes (data p)) :
    stores data' chain = stores data chain := by
  funext rid
  rw [stores, stores]
  split_ifs with mem
  · rw [same _ mem]
  · rfl

/-- One slot of one page of the chain holds other bytes. -/
theorem stores_update (mem : rid.pageId ∈ chain)
    (others : ∀ p ∈ chain, p ≠ rid.pageId → slotBytes (data' p) = slotBytes (data p))
    (here : slotBytes (data' rid.pageId) = Function.update (slotBytes (data rid.pageId)) rid.slotNum (some bytes)) :
    stores data' chain = Function.update (stores data chain) rid (some bytes) := by
  funext other
  rcases eq_or_ne other rid with rfl | different
  · rw [Function.update_self, stores, if_pos mem, here, Function.update_self]
  · rw [Function.update_of_ne different, stores, stores]
    split_ifs with inside
    · rcases eq_or_ne other.pageId rid.pageId with samePage | otherPage
      · have otherSlot : other.slotNum ≠ rid.slotNum := fun sameSlot => different (by
          cases other
          cases rid
          simp_all)
        rw [samePage, here, Function.update_of_ne otherSlot]
      · rw [others _ inside otherPage]
    · rfl

/-- A page that joins the chain without slots. -/
theorem stores_append_empty {p : PageId} (empty : ∀ slot, slotBytes (data p) slot = none) :
    stores data (chain ++ [p]) = stores data chain := by
  funext rid
  rw [stores, stores]
  by_cases mem : rid.pageId ∈ chain
  · rw [if_pos mem, if_pos (List.mem_append_left _ mem)]
  · rw [if_neg mem]
    split_ifs with inside
    · obtain same : rid.pageId = p := by simpa [mem] using inside
      rw [same, empty]
    · rfl

/-- A page that joins the chain with its first slot taken. -/
theorem stores_append_first {p : PageId} (fresh : p ∉ chain)
    (same : ∀ q ∈ chain, slotBytes (data' q) = slotBytes (data q))
    (held : slotBytes (data' p) = Function.update (fun _ => none) 0 (some bytes)) :
    stores data' (chain ++ [p]) = Function.update (stores data chain) ⟨p, 0⟩ (some bytes) := by
  funext rid
  rw [stores]
  rcases eq_or_ne rid ⟨p, 0⟩ with rfl | different
  · rw [if_pos (by simp), held, Function.update_self, Function.update_self]
  · rw [Function.update_of_ne different, stores]
    rcases eq_or_ne rid.pageId p with here | other
    · have otherSlot : rid.slotNum ≠ 0 := fun zero => different (by rw [← here, ← zero])
      rw [if_pos (by simp [here]), if_neg (here ▸ fresh), here, held, Function.update_of_ne otherSlot]
    · by_cases mem : rid.pageId ∈ chain
      · rw [if_pos (List.mem_append_left _ mem), if_pos mem, same _ mem]
      · rw [if_neg (by simp [mem, other]), if_neg mem]

end Stores

/-- The page that `InsertTuple` adds holds the tuple or nothing. -/
theorem freshPage_slotBytes {tuple : List UInt8} {page : TablePage} {slot : Option ℕ}
    (fresh : freshPage tuple = (page, slot)) :
    (slot = none ∧ 4076 < tuple.length ∧ ∀ other, slotBytes page other = none) ∨
      (slot = some 0 ∧ slotBytes page = Function.update (fun _ => none) 0 (some tuple)) := by
  obtain ⟨laid, -, number, -⟩ := wellLaid_init fun _ => 0
  have blank : slotBytes (TablePage.init (fun _ => 0) invalidPageId) = fun _ => none := by
    funext other
    rw [slotBytes, number, if_neg (Nat.not_lt_zero other)]
  rw [freshPage] at fresh
  rcases laid.insert tuple with ⟨refused, -⟩ | ⟨page', took, -, live, count, -⟩
  · have big : 4076 < tuple.length := by
      by_contra small
      have fits := freshPage_fits (Nat.le_of_not_lt small)
      rw [freshPage, refused] at fits
      cases fits
    rw [refused] at fresh
    obtain ⟨rfl, rfl⟩ := Prod.mk.inj fresh
    exact .inl ⟨rfl, big, fun other => congrFun blank other⟩
  · rw [took] at fresh
    obtain ⟨rfl, rfl⟩ := Prod.mk.inj fresh
    refine .inr ⟨by rw [number], ?_⟩
    rw [slotBytes_insert live count, number, blank]

section Order

variable {data : PageId → TablePage} {chain before after : List PageId} {p : PageId} {slot : ℕ} {rid : Rid}
  {bytes : List UInt8}

theorem mem_remaining_iff : (rid, bytes) ∈ remaining data slot (p :: after) ↔
    (rid.pageId = p ∧ slot ≤ rid.slotNum ∨ rid.pageId ∈ after) ∧
    (data rid.pageId).live rid.slotNum = some bytes := by
  rw [remaining, List.mem_append, mem_rowsFrom_iff, mem_contents_iff]
  constructor
  · rintro (⟨rfl, above, live⟩ | ⟨mem, live⟩)
    · exact ⟨.inl ⟨rfl, above⟩, live⟩
    · exact ⟨.inr mem, live⟩
  · rintro ⟨⟨rfl, above⟩ | mem, live⟩
    · exact .inl ⟨rfl, above, live⟩
    · exact .inr ⟨mem, live⟩

/-- What comes after a RID of the chain: the later slots of its page and the later pages. -/
theorem before_iff (nodup : (before ++ p :: after).Nodup) (mem : rid.pageId ∈ before ++ p :: after) :
    Before (before ++ p :: after) ⟨p, slot⟩ rid ↔ rid.pageId = p ∧ slot < rid.slotNum ∨
    rid.pageId ∈ after := by
  obtain ⟨-, second, apart⟩ := List.nodup_append.mp nodup
  have absent : p ∉ before := fun inside => apart p inside p (List.mem_cons_self ..) rfl
  have index : (before ++ p :: after).idxOf p = before.length := by
    rw [List.idxOf_append_of_notMem absent, List.idxOf_cons_self, Nat.add_zero]
  rw [Before, index]
  rcases List.mem_append.mp mem with early | late
  · have less := List.idxOf_lt_length_of_mem early
    have differs : rid.pageId ≠ p := fun same => absent (same ▸ early)
    have notAfter : rid.pageId ∉ after := fun inside => apart _ early _ (List.mem_cons_of_mem _ inside) rfl
    rw [List.idxOf_append_of_mem early]
    constructor
    · rintro (more | ⟨same, -⟩)
      · omega
      · exact absurd same.symm differs
    · rintro (⟨same, -⟩ | inside)
      · exact absurd same differs
      · exact absurd inside notAfter
  · have notBefore : rid.pageId ∉ before := fun inside => apart _ inside _ late rfl
    rw [List.idxOf_append_of_notMem notBefore]
    rcases eq_or_ne rid.pageId p with here | differs
    · rw [here, List.idxOf_cons_self]
      constructor
      · rintro (more | ⟨-, above⟩)
        · omega
        · exact .inl ⟨rfl, above⟩
      · rintro (⟨-, above⟩ | inside)
        · exact .inr ⟨rfl, above⟩
        · exact absurd inside (List.nodup_cons.mp second).1
    · rw [List.idxOf_cons_ne after differs.symm]
      constructor
      · rintro (- | ⟨same, -⟩)
        · exact .inr ((List.mem_cons.mp late).resolve_left differs)
        · exact absurd same.symm differs
      · intro _
        exact .inl (by omega)

theorem before_trans {a b c : Rid} (first : Before chain a b) (second : Before chain b c) : Before chain a c := by
  rcases first with less | ⟨same, less⟩
  · rcases second with less' | ⟨same', -⟩
    · exact .inl (less.trans less')
    · exact .inl (same' ▸ less)
  · rcases second with less' | ⟨same', less'⟩
    · exact .inl (same ▸ less')
    · exact .inr ⟨same.trans same', less.trans less'⟩

theorem not_before_self : ¬ Before chain rid rid := by
  rintro (less | ⟨-, less⟩)
  · exact lt_irrefl _ less
  · exact lt_irrefl _ less

/-- Pages that join the chain come last. -/
theorem before_longer {chain' : List PageId} {a b : Rid} (longer : chain <+: chain') (first : a.pageId ∈ chain)
    (second : b.pageId ∈ chain) : Before chain' a b ↔ Before chain a b := by
  obtain ⟨added, rfl⟩ := longer
  rw [Before, Before, List.idxOf_append_of_mem first, List.idxOf_append_of_mem second]

/-- The first of the rows ahead. -/
theorem stands_standing {rows : Rows} {ahead : Rid → Prop} (ordered : rows.Pairwise fun a b => Before chain a.1 b.1)
    (listed : ∀ other, other ∈ rows.map Prod.fst ↔ ahead other ∧ (stores data chain).Live other) :
    (stores data chain).Stands (Before chain) ahead (standing rows) := by
  cases rows with
  | nil => exact .inl ⟨rfl, fun other isAhead live => List.not_mem_nil ((listed other).mpr ⟨isAhead, live⟩)⟩
  | cons row rest =>
    obtain ⟨isAhead, live⟩ := (listed row.1).mp (List.mem_cons_self ..)
    refine .inr ⟨live, isAhead, fun other isAhead' live' different => ?_⟩
    obtain ⟨found, mem, rfl⟩ := List.mem_map.mp ((listed other).mpr ⟨isAhead', live'⟩)
    rcases List.mem_cons.mp mem with rfl | mem
    · exact absurd rfl different
    · exact (List.pairwise_cons.mp ordered).1 found mem

end Order

/-- The pool refuses a page at some call. -/
def Refuses (heap : TableHeap) : Prop := ∃ call, heap.grants call = false

/-- What a call on a heap may answer when this is what the chain stores. -/
def Answers (heap : TableHeap) (chain : List PageId) (store : Store) : Request → Response → Prop
  | .insertTuple _, .inserted (some rid) => store rid = none
  | .insertTuple tuple, .inserted none => Refuses heap ∨ 4076 < tuple.getLength
  | .getTuple rid, .got (.ok tuple) => ∃ bytes, store rid = some bytes ∧ tuple = stored (rid, bytes)
  | .getTuple _, .got (.error message) =>
    heap.grants heap.calls = false ∧ message = "Cannot fetch page for GetTuple"
  | .updateTuple rid tuple, .updated success => success = false →
    heap.grants heap.calls = false ∨ ∃ old, store rid = some old ∧ old.length < tuple.getLength
  | .deleteTuple _, .deleted => True
  | .begin, .iterator rid => store.Stands (Before chain) (fun _ => True) rid ∨ rid = endRid ∧ Refuses heap
  | .increment passed, .iterator rid => if passed = endRid then rid = endRid else
    store.Stands (Before chain) (Before chain passed) rid ∨ rid = endRid ∧ Refuses heap
  | _, _ => False

/-- What is stored after a call: a deletion takes effect if the page is granted. -/
def record (heap : TableHeap) (store : Store) : Request → Response → Store
  | .insertTuple tuple, .inserted (some rid) => Function.update store rid (some (tuple.data.take tuple.getLength))
  | .updateTuple rid tuple, .updated true => Function.update store rid (some (tuple.data.take tuple.getLength))
  | .deleteTuple rid, .deleted => if heap.grants heap.calls then Function.update store rid (some []) else store
  | _, _ => store

/-- A heap beside the record of what was stored in it. -/
structure Session where
  heap : TableHeap
  store : Store

/-- Rounds for every chain of pages that are allocated. -/
def roundsFor (heap : TableHeap) : ℕ := heap.nextPageId.toNat + 1021

/-- The heap of the session serves a request. -/
def Session.serve (s : Session) (request : Request) : Option (Response × TableHeap) :=
  respond (roundsFor s.heap) request s.heap

def Session.step (s : Session) (request : Request) : Session :=
  match s.serve request with
  | some (response, heap) => ⟨heap, record s.heap s.store request response⟩
  | none => s

/-- The requests that callers may make: with RIDs that were handed out, and updates of a row to a tuple that the page
has room for besides the row, or no room even for its growth. -/
def Session.Legal (s : Session) : Request → Prop
  | .insertTuple _ => s.heap.nextPageId < 2 ^ 31
  | .getTuple rid => s.store rid ≠ none
  | .updateTuple rid tuple => ∃ old, s.store rid = some old ∧ old ≠ [] ∧ 1 ≤ tuple.getLength ∧
    (tuple.getLength ≤ (s.heap.data rid.pageId).getFreeSpaceRemaining ∨
      old.length < tuple.getLength ∧ (s.heap.data rid.pageId).getFreeSpaceRemaining < tuple.getLength - old.length)
  | .deleteTuple rid => s.store rid ≠ none
  | .begin => True
  | .increment rid => s.store rid ≠ none ∨ rid = endRid

/-- The record is what the pages hold. -/
def Session.Sound (s : Session) (chain : List PageId) : Prop :=
  WellFormed s.heap chain ∧ s.store = stores s.heap.data chain

/-- `DeleteTuple` of a slot that was handed out, whether it is live or not. -/
theorem rewrites_deleteNumbered {data : PageId → TablePage} {rid : Rid} (laid : WellLaid (data rid.pageId))
    (numbered : rid.slotNum < (data rid.pageId).getNumTuples) :
    Rewrites data (Function.update data rid.pageId ((data rid.pageId).deleteTuple rid.slotNum)) rid none := by
  cases live : (data rid.pageId).live rid.slotNum with
  | some bytes => exact rewrites_delete laid live
  | none =>
    obtain ⟨laid', live', number, link⟩ := laid.deleteAgain numbered live
    refine ⟨fun p other => Function.update_of_ne other _ _, ?_, ?_, ?_, ?_⟩
    · rwa [Function.update_self]
    · rw [Function.update_self, live', ← live, Function.update_eq_self]
    · rwa [Function.update_self]
    · rwa [Function.update_self]

theorem Rewrites.stores_eq {data data' : PageId → TablePage} {rid : Rid} {bytes : Option (List UInt8)}
    {chain : List PageId}
    (rewrites : Rewrites data data' rid bytes) (mem : rid.pageId ∈ chain)
    (numbered : rid.slotNum < (data rid.pageId).getNumTuples) :
    stores data' chain = Function.update (stores data chain) rid (some (bytes.getD [])) :=
  stores_update mem (fun p _ other => by rw [rewrites.others p other])
    (slotBytes_update numbered rewrites.live rewrites.number)

section Steps

variable {s : Session} {chain : List PageId} {heap heap' : TableHeap} {rid : Rid} {bytes : List UInt8}

/-- A chain is no longer than the number of pages. -/
theorem WellFormed.length_le (formed : WellFormed heap chain) : chain.length ≤ heap.nextPageId.toNat := by
  have ids : (chain.map Int.toNat).Nodup := by
    refine formed.nodup.map_on fun p mem q mem' same => ?_
    have low := (formed.allocated p mem).1
    have low' := (formed.allocated q mem').1
    exact (Int.toNat_of_nonneg low).symm.trans ((congrArg Nat.cast same).trans (Int.toNat_of_nonneg low'))
  have below : (chain.map Int.toNat).toFinset ⊆ Finset.range heap.nextPageId.toNat := by
    intro n mem
    obtain ⟨p, inside, rfl⟩ := List.mem_map.mp (List.mem_toFinset.mp mem)
    obtain ⟨low, high⟩ := formed.allocated p inside
    exact Finset.mem_range.mpr ((Int.toNat_lt_toNat (low.trans_lt high)).mpr high)
  have counted := Finset.card_le_card below
  rwa [List.toFinset_card_of_nodup ids, List.length_map, Finset.card_range] at counted

theorem WellFormed.enough (formed : WellFormed heap chain) : Enough (roundsFor heap) chain := by
  have length := formed.length_le
  simp only [Enough, roundsFor]
  omega

/-- What `InsertTuple` comes to stores the tuple under a RID that was not handed out, or nothing. -/
theorem Insertion.stores_eq {result : Option Rid} (insertion : Insertion bytes heap chain result heap')
    (formed : WellFormed heap chain) (inRange : heap.nextPageId < 2 ^ 31) : ∃ chain',
      WellFormed heap' chain' ∧ chain <+: chain' ∧ match result with
        | some rid => stores heap.data chain rid = none ∧
          stores heap'.data chain' = Function.update (stores heap.data chain) rid (some bytes)
        | none => stores heap'.data chain' = stores heap.data chain ∧ (Refuses heap ∨ 4076 < bytes.length) := by
  cases insertion with
  | placed before after pageId slot page calls split took =>
    obtain ⟨formed', -⟩ := formed.place calls split took
    have mem : pageId ∈ chain := by simp [split]
    rcases (formed.laid pageId mem).insert bytes with ⟨refused, -⟩ | ⟨page', took', -, live, count, -⟩
    · rw [took] at refused
      cases refused
    rw [took] at took'
    obtain ⟨rfl, same⟩ := Prod.mk.inj took'
    obtain rfl := Option.some.inj same
    refine ⟨chain, formed', List.prefix_rfl, ?_, ?_⟩
    · rw [stores, if_pos mem]
      exact slotBytes_none
    · apply stores_update mem
      · intro p _ other
        dsimp only
        rw [Function.update_of_ne other]
      · dsimp only
        rw [Function.update_self]
        exact slotBytes_insert live count
  | refused calls call early refused =>
    exact ⟨chain, formed.withCalls calls, List.prefix_rfl, rfl, .inl ⟨_, refused⟩⟩
  | extended before last page slot calls split fresh full _ =>
    have mem : last ∈ chain := by simp [split]
    have unlinked : heap.nextPageId ∉ chain := fun inside => absurd (formed.allocated _ inside).2 (lt_irrefl _)
    have other : heap.nextPageId ≠ last := fun same => unlinked (same ▸ mem)
    have low := (formed.allocated last mem).1.trans (formed.allocated last mem).2.le
    obtain ⟨-, live, count, -⟩ := (formed.laid last mem).setNext low inRange
    obtain ⟨page', slot', took, laid, rows, ends, -⟩ := freshPage_run bytes
    rw [fresh] at took
    obtain ⟨rfl, rfl⟩ := Prod.mk.inj took
    obtain ⟨formed', -⟩ := formed.extend inRange calls split laid (rows heap.nextPageId) ends
    refine ⟨_, formed', List.prefix_append _ _, ?_⟩
    have same : ∀ p ∈ chain, slotBytes (Function.update (Function.update heap.data heap.nextPageId page) last
        ((heap.data last).setNextPageId heap.nextPageId) p) = slotBytes (heap.data p) := by
      intro p inside
      rcases eq_or_ne p last with rfl | notLast
      · rw [Function.update_self]
        exact slotBytes_congr live count
      · rw [Function.update_of_ne notLast, Function.update_of_ne (ne_of_mem_of_not_mem inside unlinked)]
    have here : Function.update (Function.update heap.data heap.nextPageId page) last
        ((heap.data last).setNextPageId heap.nextPageId) heap.nextPageId = page := by
      rw [Function.update_of_ne other, Function.update_self]
    rcases freshPage_slotBytes fresh with ⟨rfl, big, empty⟩ | ⟨rfl, held⟩
    · refine ⟨?_, .inr big⟩
      refine (stores_append_empty fun slot => ?_).trans (stores_congr same)
      exact (congrArg (slotBytes · slot) here).trans (empty slot)
    · refine ⟨?_, stores_append_first unlinked same ((congrArg slotBytes here).trans held)⟩
      rw [stores, if_neg unlinked]

/-- A response wraps a result. -/
theorem wrapped_run {α : Type} {m : HeapM α} {a : α} (wrap : α → Response) (ran : m heap = some (a, heap')) :
    (do return wrap (← m) : HeapM Response) heap = some (wrap a, heap') := by
  rw [bind_run, ran]
  rfl

/-- The walk from a page of the chain on finds the first row ahead. -/
theorem WellFormed.seek_stands {before after : List PageId} {p : PageId}
    (formed : WellFormed heap (before ++ p :: after))
    (slot : ℕ) (ahead : Rid → Prop)
    (listed : ∀ other, ahead other ∧ (stores heap.data (before ++ p :: after)).Live other ↔
      (other.pageId = p ∧ slot ≤ other.slotNum ∨ other.pageId ∈ after) ∧
        (stores heap.data (before ++ p :: after)).Live other) :
    ∃ rid calls, seek (roundsFor heap) p slot heap = some (rid, { heap with calls }) ∧
      ((stores heap.data (before ++ p :: after)).Stands (Before (before ++ p :: after)) ahead rid ∨
        rid = endRid ∧ Refuses heap) := by
  have enough := formed.enough
  have shorter : Enough (roundsFor heap) (p :: after) := by
    simp only [Enough, List.length_append] at enough ⊢
    omega
  obtain ⟨rid, calls, ran, stands⟩ := seek_run slot formed.linked.suffix
    (fun q mem => formed.laid q (List.mem_append_right _ mem)) shorter
  refine ⟨rid, calls, ran, stands.imp_left ?_⟩
  rintro rfl
  have part : (remaining heap.data slot (p :: after)).Sublist (contents heap.data (before ++ p :: after)) := by
    rw [contents_append]
    exact (remaining_sublist _ _ _).trans (List.sublist_append_right _ _)
  apply stands_standing ((contents_ordered heap.data formed.nodup).sublist part)
  intro other
  rw [listed, live_stores_iff, List.mem_map]
  constructor
  · rintro ⟨⟨found, bytes⟩, mem, rfl⟩
    obtain ⟨place, live⟩ := mem_remaining_iff.mp mem
    refine ⟨place, ?_, bytes, live⟩
    rcases place with ⟨here, -⟩ | later
    · exact List.mem_append_right _ (here ▸ List.mem_cons_self ..)
    · exact List.mem_append_right _ (List.mem_cons_of_mem _ later)
  · rintro ⟨place, -, bytes, live⟩
    exact ⟨(other, bytes), mem_remaining_iff.mpr ⟨place, live⟩, rfl⟩

theorem Session.Sound.insertTuple (sound : s.Sound chain) (tuple : Tuple) (inRange : s.heap.nextPageId < 2 ^ 31) :
    ∃ response heap' chain', s.serve (.insertTuple tuple) = some (response, heap') ∧
      Answers s.heap chain s.store (.insertTuple tuple) response ∧
      Sound ⟨heap', record s.heap s.store (.insertTuple tuple) response⟩ chain' ∧ chain <+: chain' ∧
      heap'.grants = s.heap.grants := by
  obtain ⟨formed, recorded⟩ := sound
  have enough := formed.enough
  obtain ⟨result, heap', ran, insertion⟩ :=
    insertFrom_run (tuple.data.take tuple.getLength) formed.linked formed.nonempty
    (fun p mem => (formed.allocated p mem).2.ne)
      (by simp only [Enough] at enough; omega : chain.length < roundsFor s.heap)
  obtain ⟨chain', formed', longer, effect⟩ := insertion.stores_eq formed inRange
  refine ⟨.inserted result, heap', chain', wrapped_run .inserted ran, ?_, ?_, longer, insertion.grants_eq⟩
  · rw [recorded]
    cases result with
    | some rid => exact effect.1
    | none =>
      have reason := effect.2
      rw [length_payload] at reason
      exact reason
  · refine ⟨formed', ?_⟩
    cases result with
    | some rid =>
      rw [effect.2, ← recorded]
      rfl
    | none =>
      rw [effect.1, ← recorded]
      rfl

theorem Session.Sound.getTuple (sound : s.Sound chain) (issued : s.store rid ≠ none) :
    ∃ response heap', s.serve (.getTuple rid) = some (response, heap') ∧
      Answers s.heap chain s.store (.getTuple rid) response ∧
      Sound ⟨heap', record s.heap s.store (.getTuple rid) response⟩ chain ∧ heap'.grants = s.heap.grants := by
  obtain ⟨formed, recorded⟩ := sound
  refine ⟨_, _, wrapped_run .got (getTuple_run rid s.heap), ?_, ⟨formed.withCalls _, ?_⟩, rfl⟩
  · cases granted : s.heap.grants s.heap.calls with
    | false => exact ⟨granted, rfl⟩
    | true =>
      obtain ⟨bytes, held⟩ := Option.ne_none_iff_exists'.mp issued
      have stored := held
      rw [recorded] at stored
      refine ⟨bytes, held, ?_⟩
      rw [← getTuple_of_slotBytes (stores_eq_some_iff.mp stored).2]
      rfl
  · rw [← recorded]
    cases s.heap.grants s.heap.calls <;> rfl

theorem Session.Sound.deleteTuple (sound : s.Sound chain) (issued : s.store rid ≠ none) :
    ∃ response heap', s.serve (.deleteTuple rid) = some (response, heap') ∧
      Answers s.heap chain s.store (.deleteTuple rid) response ∧
      Sound ⟨heap', record s.heap s.store (.deleteTuple rid) response⟩ chain ∧ heap'.grants = s.heap.grants := by
  obtain ⟨formed, recorded⟩ := sound
  obtain ⟨bytes, held⟩ := Option.ne_none_iff_exists'.mp issued
  rw [recorded] at held
  obtain ⟨mem, held⟩ := stores_eq_some_iff.mp held
  refine ⟨_, _, wrapped_run (fun _ => .deleted) (deleteTuple_run rid s.heap), trivial, ?_, rfl⟩
  cases granted : s.heap.grants s.heap.calls with
  | false =>
    refine ⟨formed.withCalls _, ?_⟩
    simp [record, granted, recorded]
  | true =>
    have numbered := slotBytes_numbered held
    have rewrites := rewrites_deleteNumbered (formed.laid _ mem) numbered
    refine ⟨formed.rewrite rewrites _, ?_⟩
    simp only [record, granted, if_true, recorded]
    exact (rewrites.stores_eq mem numbered).symm

theorem Session.Sound.updateTuple {tuple : Tuple} (sound : s.Sound chain) (legal : s.Legal (.updateTuple rid tuple)) :
    ∃ response heap', s.serve (.updateTuple rid tuple) = some (response, heap') ∧
      Answers s.heap chain s.store (.updateTuple rid tuple) response ∧
      Sound ⟨heap', record s.heap s.store (.updateTuple rid tuple) response⟩ chain ∧
      heap'.grants = s.heap.grants := by
  obtain ⟨formed, recorded⟩ := sound
  obtain ⟨old, held, notEmpty, positive, room⟩ := legal
  have stored := held
  rw [recorded] at stored
  obtain ⟨mem, inSlot⟩ := stores_eq_some_iff.mp stored
  have live := slotBytes_eq_some_live notEmpty inSlot
  have laid := formed.laid _ mem
  have run := updateTupleBy_run updateBytes rid tuple s.heap
  cases granted : s.heap.grants s.heap.calls with
  | false =>
    rw [granted] at run
    refine ⟨_, _, wrapped_run .updated run, fun _ => .inl granted, ⟨formed.withCalls _, ?_⟩, rfl⟩
    exact recorded
  | true =>
    rw [granted] at run
    rcases room with enough | ⟨grows, full⟩
    · rw [← length_payload] at positive enough
      obtain ⟨page, made, laid', live', number, link, -⟩ :=
        laid.update live (List.length_pos_iff.mp positive) enough
      dsimp only at run
      rw [made] at run
      have rewrites : Rewrites s.heap.data (Function.update s.heap.data rid.pageId page) rid
          (some (tuple.data.take tuple.getLength)) := by
        refine ⟨fun p other => Function.update_of_ne other _ _, ?_, ?_, ?_, ?_⟩
        · rwa [Function.update_self]
        · rwa [Function.update_self]
        · rwa [Function.update_self]
        · rwa [Function.update_self]
      refine ⟨_, _, wrapped_run .updated run, ?_, ⟨formed.rewrite rewrites _, ?_⟩, rfl⟩
      · intro failed
        cases failed
      · simp only [record, recorded]
        exact (rewrites.stores_eq mem (slotBytes_numbered inSlot)).symm
    · have refused : (s.heap.data rid.pageId).updateBytes rid.slotNum (tuple.data.take tuple.getLength) =
          (s.heap.data rid.pageId, false) := by
        rw [updateBytes, ← live_length live, length_payload]
        exact if_pos ⟨grows, full⟩
      dsimp only at run
      rw [refused, if_pos rfl, Function.update_eq_self] at run
      exact ⟨_, _, wrapped_run .updated run, fun _ =>
        .inr ⟨old, held, grows⟩, ⟨formed.withCalls _, recorded⟩, rfl⟩

theorem Session.Sound.begin (sound : s.Sound chain) : ∃ response heap', s.serve .begin = some (response, heap') ∧
    Answers s.heap chain s.store .begin response ∧ Sound ⟨heap', record s.heap s.store .begin response⟩ chain ∧
      heap'.grants = s.heap.grants := by
  obtain ⟨formed, recorded⟩ := sound
  cases pages : chain with
  | nil => exact absurd pages formed.nonempty
  | cons first after =>
    subst pages
    obtain rfl : s.heap.firstPageId = first := formed.linked.1
    have whole : WellFormed s.heap ([] ++ s.heap.firstPageId :: after) := formed
    obtain ⟨rid, calls, ran, stands⟩ := whole.seek_stands 0 (fun _ => True) (by
      intro other
      rw [true_and]
      refine (and_iff_right_of_imp fun live => ?_).symm
      rcases List.mem_cons.mp (live_stores_iff.mp live).1 with here | later
      · exact .inl ⟨here, Nat.zero_le _⟩
      · exact .inr later)
    exact ⟨_, _, wrapped_run .iterator ran, recorded ▸ stands, ⟨formed.withCalls _, recorded⟩, rfl⟩

theorem Session.Sound.increment (sound : s.Sound chain) (issued : s.store rid ≠ none ∨ rid = endRid) :
    ∃ response heap', s.serve (.increment rid) = some (response, heap') ∧
      Answers s.heap chain s.store (.increment rid) response ∧
      Sound ⟨heap', record s.heap s.store (.increment rid) response⟩ chain ∧ heap'.grants = s.heap.grants := by
  obtain ⟨formed, recorded⟩ := sound
  rcases issued with issued | rfl
  · obtain ⟨bytes, held⟩ := Option.ne_none_iff_exists'.mp issued
    rw [recorded] at held
    obtain ⟨mem, inSlot⟩ := stores_eq_some_iff.mp held
    have numbered := slotBytes_numbered inSlot
    have few := (formed.laid _ mem).numTuples_lt
    have next : (rid.slotNum + 1) % 2 ^ 16 = rid.slotNum + 1 := Nat.mod_eq_of_lt (by omega)
    have inside := formed.ne_endRid mem
    obtain ⟨before, after, rfl⟩ := List.append_of_mem mem
    obtain ⟨found, calls, ran, stands⟩ := formed.seek_stands (rid.slotNum + 1)
      (Before (before ++ rid.pageId :: after) rid) (fun other =>
        and_congr_left fun live => before_iff formed.nodup (live_stores_iff.mp live).1)
    rw [← next] at ran
    refine ⟨_, _, wrapped_run .iterator ran, ?_, ⟨formed.withCalls _, recorded⟩, rfl⟩
    rw [Answers, if_neg inside, recorded]
    exact stands
  · have ran : TableHeap.increment (roundsFor s.heap) endRid s.heap = some (endRid, s.heap) := by
      rw [TableHeap.increment, roundsFor, seek, if_pos (show endRid.pageId = invalidPageId from rfl)]
      rfl
    exact ⟨_, _, wrapped_run .iterator ran, by rw [Answers, if_pos rfl], ⟨formed, recorded⟩, rfl⟩

/-- A call that callers may make returns what is stored, and the record stays what the pages hold. -/
theorem Session.Sound.serve (sound : s.Sound chain) {request : Request} (legal : s.Legal request) :
    ∃ response heap' chain', s.serve request = some (response, heap') ∧
      Answers s.heap chain s.store request response ∧
      Sound ⟨heap', record s.heap s.store request response⟩ chain' ∧ chain <+: chain' ∧
      heap'.grants = s.heap.grants := by
  have same (returns : ∃ response heap', s.serve request = some (response, heap') ∧
      Answers s.heap chain s.store request response ∧
      Sound ⟨heap', record s.heap s.store request response⟩ chain ∧ heap'.grants = s.heap.grants) :
      ∃ response heap' chain', s.serve request = some (response, heap') ∧
        Answers s.heap chain s.store request response ∧
        Sound ⟨heap', record s.heap s.store request response⟩ chain' ∧ chain <+: chain' ∧
        heap'.grants = s.heap.grants := by
    obtain ⟨response, heap', served, answers, sound', grants⟩ := returns
    exact ⟨response, heap', chain, served, answers, sound', List.prefix_rfl, grants⟩
  cases request with
  | insertTuple tuple => exact sound.insertTuple tuple legal
  | getTuple rid => exact same (sound.getTuple legal)
  | updateTuple rid tuple => exact same (sound.updateTuple legal)
  | deleteTuple rid => exact same (sound.deleteTuple legal)
  | begin => exact same sound.begin
  | increment rid => exact same (sound.increment legal)

/-- A RID that was handed out stays so. -/
theorem record_issued (heap : TableHeap) {store : Store} (issued : store rid ≠ none) (request : Request)
    (response : Response) : record heap store request response rid ≠ none := by
  have updated (other : Rid) (bytes : List UInt8) : Function.update store other (some bytes) rid ≠ none := by
    rcases eq_or_ne rid other with rfl | different
    · rw [Function.update_self]
      exact Option.some_ne_none bytes
    · rwa [Function.update_of_ne different]
  rw [record.eq_def]
  split
  · exact updated _ _
  · exact updated _ _
  · split
    · exact updated _ _
    · exact issued
  · exact issued

theorem Session.step_issued (issued : s.store rid ≠ none) (request : Request) :
    (s.step request).store rid ≠ none := by
  rw [Session.step]
  split
  · exact record_issued _ issued _ _
  · exact issued

theorem Session.run_issued (issued : s.store rid ≠ none) (requests : List Request) :
    (requests.foldl Session.step s).store rid ≠ none := by
  induction requests generalizing s with
  | nil => exact issued
  | cons request requests ih => exact ih (Session.step_issued issued request)

theorem Session.Sound.mem_chain (sound : s.Sound chain) (issued : s.store rid ≠ none) : rid.pageId ∈ chain := by
  obtain ⟨bytes, held⟩ := Option.ne_none_iff_exists'.mp issued
  rw [sound.2] at held
  exact (stores_eq_some_iff.mp held).1

theorem Store.Live.issued {store : Store} (live : store.Live rid) : store rid ≠ none := by
  obtain ⟨bytes, held, -⟩ := live
  rw [held]
  exact Option.some_ne_none bytes

end Steps

section Runs

variable {pool heap : TableHeap} {s : Session} {chain : List PageId} {requests : List Request} {request : Request}

theorem Session.step_of_serve {response : Response} {heap' : TableHeap}
    (served : s.serve request = some (response, heap')) :
    s.step request = ⟨heap', record s.heap s.store request response⟩ := by rw [Session.step, served]

theorem Session.Sound.step (sound : s.Sound chain) (legal : s.Legal request) :
    ∃ chain', (s.step request).Sound chain' ∧ chain <+: chain' ∧
      (s.step request).heap.grants = s.heap.grants := by
  obtain ⟨response, heap', chain', served, -, sound', longer, grants⟩ := sound.serve legal
  rw [s.step_of_serve served]
  exact ⟨chain', sound', longer, grants⟩

/-- Every legal run keeps the record. -/
theorem Session.Sound.run (sound : s.Sound chain) (legal : Along Session.Legal Session.step s requests) :
    ∃ chain', (requests.foldl Session.step s).Sound chain' :=
  legal.invariant (I := fun s => ∃ chain, s.Sound chain)
    (fun _ _ ⟨_, sound⟩ legal => let ⟨chain', sound', _⟩ := sound.step legal; ⟨chain', sound'⟩)
      ⟨chain, sound⟩

/-- The constructor makes a chain of one blank page. -/
theorem construct_run (pool : TableHeap) (granted : pool.grants pool.calls = true) : construct pool =
    some (.ok (), { pool with
      calls := pool.calls + 1
      nextPageId := pool.nextPageId + 1
      firstPageId := pool.nextPageId
      pinCount := Function.update pool.pinCount pool.nextPageId 0
      data := Function.update pool.data pool.nextPageId (TablePage.init (fun _ => 0) invalidPageId) }) := by
  obtain ⟨blank, initialized⟩ : ∃ blank, TablePage.init (fun _ => 0) invalidPageId = blank := ⟨_, rfl⟩
  rw [initialized, construct, bind_run, newPage_granted granted, Option.bind_some]
  dsimp only
  rw [bind_run]
  change (page pool.nextPageId >>= _) _ = _
  rw [bind_run, page_run, Option.bind_some]
  dsimp only
  rw [Function.update_self, initialized]
  simp only [bind_run, writePage_run, unpinPage_run, pure_run, Option.bind_some, Function.update_idem,
    Function.update_self,
    Nat.sub_self]

/-- A new heap is well-formed and stores nothing. -/
theorem construct_sound (allocated : 0 ≤ pool.nextPageId) (constructed : construct pool = some (.ok (), heap)) :
    Session.Sound ⟨heap, fun _ => none⟩ [pool.nextPageId] := by
  cases granted : pool.grants pool.calls with
  | false =>
    rw [construct, bind_run, newPage_refused granted] at constructed
    cases constructed
  | true =>
    rw [construct_run pool granted] at constructed
    obtain ⟨laid, -, number, ends⟩ := wellLaid_init fun _ => 0
    obtain rfl := (Prod.mk.inj (Option.some.inj constructed)).2
    refine ⟨⟨⟨rfl, ?_, ?_⟩, List.cons_ne_nil _ _, List.nodup_singleton _, ?_, ?_⟩, ?_⟩
    · exact ne_of_gt (lt_of_lt_of_le neg_one_lt_zero allocated)
    · dsimp only
      rw [Function.update_self]
      exact ends
    · intro p mem
      rw [List.mem_singleton.mp mem]
      exact ⟨allocated, Int.lt_succ _⟩
    · intro p mem
      dsimp only
      rw [List.mem_singleton.mp mem, Function.update_self]
      exact laid
    · funext rid
      dsimp only
      rw [stores]
      split_ifs with mem
      · rw [List.mem_singleton.mp mem, Function.update_self, slotBytes, number, if_neg (Nat.not_lt_zero _)]
      · rfl

/-- A new heap is well-formed and stores nothing. After any run of calls on a well-formed heap, whichever pages are
refused, the next call returns, and gives what is stored under the RID that it is asked for, a RID that was not
handed out, or the first row after the iterator. -/
theorem heap_is_store :
    (∀ pool heap : TableHeap, 0 ≤ pool.nextPageId → construct pool = some (.ok (), heap) →
      Session.Sound ⟨heap, fun _ => none⟩ [pool.nextPageId]) ∧
    ∀ (s : Session) chain requests request, s.Sound chain → Along Session.Legal Session.step s requests →
      (requests.foldl Session.step s).Legal request →
        let reached := requests.foldl Session.step s
        ∃ chain response heap', Linked reached.heap.data reached.heap.firstPageId chain ∧
          reached.serve request = some (response, heap') ∧
          Answers reached.heap chain reached.store request response := by
  constructor
  · intro pool heap allocated constructed
    exact construct_sound allocated constructed
  · intro s chain requests request sound legal next
    obtain ⟨chain, sound⟩ := sound.run legal
    obtain ⟨response, heap', -, served, answers, -⟩ := sound.serve next
    exact ⟨chain, response, heap', sound.1.linked, served, answers⟩

/-- The heap with gaps and what it stores. -/
def gapsSession : Session := ⟨gaps [1] [0], stores (gaps [1] [0]).data [0, 1, 2]⟩

theorem gapsSession_sound : gapsSession.Sound [0, 1, 2] := ⟨gaps_wellFormed (by decide) (by decide), rfl⟩

theorem gapsSession_live (rid : Rid) (held : rid ∈ [(⟨0, 0⟩ : Rid), ⟨0, 2⟩, ⟨2, 0⟩, ⟨2, 2⟩]) :
    gapsSession.store.Live rid := by
  rw [gapsSession, live_stores_iff_mem, gaps_contents (by decide) (by decide)]
  simpa using held

/-- Another heap in the pool of the heap with gaps. An insertion and a deletion on the heap with gaps; then an
iterator is advanced. -/
theorem heap_is_store_gaps :
    (∃ heap, construct (gaps [1] [0]) = some (.ok (), heap) ∧ Session.Sound ⟨heap, fun _ => none⟩ [3]) ∧
    let reached := [Request.insertTuple ⟨default, [7], []⟩, .deleteTuple ⟨0, 2⟩].foldl Session.step gapsSession
    ∃ chain response heap', Linked reached.heap.data reached.heap.firstPageId chain ∧
      reached.serve (.increment ⟨0, 0⟩) = some (response, heap') ∧
      Answers reached.heap chain reached.store (.increment ⟨0, 0⟩) response := by
  constructor
  · have constructed := construct_run (gaps [1] [0]) rfl
    exact ⟨_, constructed, heap_is_store.1 _ _ (show (0 : ℤ) ≤ 3 by decide) constructed⟩
  · exact heap_is_store.2 gapsSession [0, 1, 2] _ _ gapsSession_sound
      ⟨show (3 : ℤ) < 2 ^ 31 by decide,
        Session.step_issued (gapsSession_live ⟨0, 2⟩ (by simp)).issued _, trivial⟩
      (.inl (Session.run_issued (gapsSession_live ⟨0, 0⟩ (by simp)).issued _))

end Runs

end OneBase.TableHeap
