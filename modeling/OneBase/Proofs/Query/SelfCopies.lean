import OneBase.Proofs.Query.MoreRounds
import OneBase.Proofs.Query.SelfInsert

/-! # The copies of INSERT … SELECT from the same table

The scan and the insertions share the heap, so the statement ends, with one copy of each row, exactly where no copy
comes ahead of the scan. A loop that ends has gone over the rows ahead and over the copies among them; if it has added
as many rows as there were, there were no copies among them.
-/

namespace OneBase

open ExceptLoops ExceptRuns TableHeap TablePage

/-- Among finitely many values, if a partial function takes some of them to values that cover them all, it is defined
on all. -/
theorem isSome_of_covers {α : Type} {f : α → Option α} {values visited : List α} (inside : visited ⊆ values)
    (covers : values ⊆ visited.filterMap f) : ∀ value ∈ values, (f value).isSome := by
  classical
  have onto : values.toFinset.image some ⊆ values.toFinset.image f := by
    intro image mem
    obtain ⟨value, here, rfl⟩ := Finset.mem_image.mp mem
    obtain ⟨source, from', made⟩ := List.mem_filterMap.mp (covers (List.mem_toFinset.mp here))
    exact Finset.mem_image.mpr ⟨source, List.mem_toFinset.mpr (inside from'), made⟩
  have few : (values.toFinset.image f).card ≤ (values.toFinset.image some).card := by
    rw [Finset.card_image_of_injective _ (Option.some_injective α)]
    exact Finset.card_image_le
  have same := Finset.eq_of_subset_of_card_le onto few
  intro value mem
  have image : f value ∈ values.toFinset.image f := Finset.mem_image_of_mem f (List.mem_toFinset.mpr mem)
  rw [← same] at image
  obtain ⟨other, -, made⟩ := Finset.mem_image.mp image
  rw [← made]
  rfl

namespace TableHeap

variable {heap heap' : TableHeap} {chain : List PageId} {tuple : List UInt8} {result : Option Rid} {behind rest : Rows}

/-- The page that takes a tuple: the first one of the chain that has room for it. -/
def firstFit (data : PageId → TablePage) (chain : List PageId) (tuple : List UInt8) : Option PageId :=
  chain.find? fun p => ((data p).insertBytes tuple).2.isSome

/-- There is such a page, and it comes before the page of a row. -/
def FitsBefore (data : PageId → TablePage) (chain : List PageId) (tuple : List UInt8)
    (row : Rid × List UInt8) : Prop :=
  ∃ p ∈ firstFit data chain tuple, chain.idxOf p < chain.idxOf row.1.pageId

/-- What a tuple adds to the rows, wherever it comes. -/
def fitting (tuple : List UInt8) : Option (List UInt8) := if tuple.length ≤ 4076 then asRow tuple else none

theorem Insertion.added_eq (insertion : Insertion tuple heap chain result heap') (formed : WellFormed heap chain)
    (granted : ∀ call, heap.grants call = true) :
    (added tuple result).map Prod.snd = (fitting tuple).toList := by
  rw [fitting]
  split_ifs with small
  · obtain ⟨rid, rfl⟩ := insertion.succeeds granted small
    rw [added, Option.bind_some]
    cases asRow tuple <;> rfl
  · have big : 4076 < tuple.length := not_le.mp small
    cases insertion with
    | placed before after pageId slot page calls split took =>
      have laid := formed.laid pageId (by simp [split])
      rw [insertBytes_oversized laid big] at took
      cases took
    | refused => rfl
    | extended before last page slot calls split fresh =>
      have failed := freshPage_oversized big
      rw [fresh] at failed
      obtain rfl : slot = none := failed
      rfl

theorem firstFit_eq {before after : List PageId} {data : PageId → TablePage} {pageId : PageId}
    (split : chain = before ++ pageId :: after) (took : ((data pageId).insertBytes tuple).2.isSome)
    (full : ∀ p ∈ before, ((data p).insertBytes tuple).2 = none) : firstFit data chain tuple = some pageId := by
  rw [firstFit, List.find?_eq_some_iff_append]
  exact ⟨took, before, after, split, fun p mem => by rw [full p mem]; rfl⟩

/-- The rows of the pages up to one and those of the pages after it, and the same rows up to an iterator and after
it. -/
theorem cut_cases {before after : List PageId} {data : PageId → TablePage} {pageId : PageId}
    {next : Rid × List UInt8} (nodup : chain.Nodup) (pages : chain = before ++ pageId :: after)
    (split : contents data chain = behind ++ next :: rest) :
    (chain.idxOf pageId < chain.idxOf next.1.pageId ∧ ∃ between,
        behind = contents data (before ++ [pageId]) ++ between ∧ contents data after = between ++ next :: rest) ∨
      ¬ chain.idxOf pageId < chain.idxOf next.1.pageId ∧ ∃ between,
        contents data (before ++ [pageId]) = behind ++ next :: between ∧ rest = between ++ contents data after := by
  rw [pages, List.nodup_middle, List.nodup_cons, List.mem_append, not_or] at nodup
  obtain ⟨⟨offBefore, offAfter⟩, nodup⟩ := nodup
  have apart := (List.nodup_append.mp nodup).2.2
  have here : chain.idxOf pageId = before.length := by
    rw [pages, List.idxOf_append_of_notMem offBefore, List.idxOf_cons_self, Nat.add_zero]
  have whole : contents data (before ++ [pageId]) ++ contents data after = behind ++ next :: rest := by
    rw [← split, ← contents_append, pages, List.append_assoc]
    rfl
  have later (mem : next ∈ contents data after) : chain.idxOf pageId < chain.idxOf next.1.pageId := by
    have onPage := (mem_contents_iff.mp (show (next.1, next.2) ∈ _ from mem)).1
    have notBefore : next.1.pageId ∉ before := fun inside => apart _ inside _ onPage rfl
    have other : pageId ≠ next.1.pageId := (ne_of_mem_of_not_mem onPage offAfter).symm
    rw [here, pages, List.idxOf_append_of_notMem notBefore, List.idxOf_cons_ne _ other]
    omega
  have earlier (mem : next ∈ contents data (before ++ [pageId])) :
      ¬ chain.idxOf pageId < chain.idxOf next.1.pageId := by
    have onPage := (mem_contents_iff.mp (show (next.1, next.2) ∈ _ from mem)).1
    rcases List.mem_append.mp onPage with inside | same
    · rw [here, pages, List.idxOf_append_of_mem inside, not_lt]
      exact (List.idxOf_lt_length_iff.mpr inside).le
    · rw [List.mem_singleton.mp same]
      exact lt_irrefl _
  rcases List.append_eq_append_iff.mp whole with ⟨between, passed, ahead⟩ | ⟨between, passed, ahead⟩
  · exact .inl ⟨later (by simp [ahead]), between, passed, ahead⟩
  · cases between with
    | nil =>
      rw [List.nil_append] at ahead
      exact .inl ⟨later (by simp [← ahead]), [], by simpa using passed.symm, ahead.symm⟩
    | cons first between =>
      obtain ⟨rfl, same⟩ := List.cons.inj ahead
      exact .inr ⟨earlier (by simp [passed]), between, passed, same⟩

/-- Where a new row comes, with these rows in front of an iterator: behind the iterator if a page before that of the
next row takes it, else ahead of it. -/
theorem Insertion.lands (insertion : Insertion tuple heap chain result heap') (formed : WellFormed heap chain)
    (granted : ∀ call, heap.grants call = true) (inRange : heap.nextPageId < 2 ^ 31)
    (split : contents heap.data chain = behind ++ rest) :
    ∃ chain', WellFormed heap' chain' ∧ chain'.length ≤ chain.length + 1 ∧
      ((∃ behind', contents heap'.data chain' = behind' ++ rest ∧ behind'.Perm (behind ++ added tuple result) ∧
          ∀ next ∈ rest.head?, chain' = chain ∧ ∃ p ∈ firstFit heap.data chain tuple,
            chain.idxOf p < chain.idxOf next.1.pageId ∧
            heap'.data = Function.update heap.data p ((heap.data p).insertBytes tuple).1) ∨
        ∃ next front back, rest = next :: (front ++ back) ∧ ¬ FitsBefore heap.data chain tuple next ∧
          contents heap'.data chain' = behind ++ next :: (front ++ added tuple result ++ back)) := by
  cases insertion with
  | placed before after pageId slot page calls pages took full =>
    obtain ⟨formed', rows⟩ := formed.place calls pages took
    have fits : firstFit heap.data chain tuple = some pageId := firstFit_eq pages (by rw [took]; rfl) full
    refine ⟨chain, formed', Nat.le_succ _, ?_⟩
    dsimp only
    rw [rows]
    cases rest with
    | nil =>
      rw [List.append_nil] at split
      refine .inl ⟨_, (List.append_nil _).symm, ?_, by simp⟩
      have whole : contents heap.data (before ++ [pageId]) ++ contents heap.data after = behind := by
        rw [← split, ← contents_append, pages, List.append_assoc]
        rfl
      rw [← whole, List.append_assoc, List.append_assoc]
      exact List.Perm.append_left _ List.perm_append_comm
    | cons next rest =>
      rcases cut_cases formed.nodup pages split with
        ⟨early, between, passed, ahead⟩ | ⟨late, between, passed, ahead⟩
      · refine .inl ⟨contents heap.data (before ++ [pageId]) ++ added tuple (some ⟨pageId, slot⟩) ++
          between, ?_, ?_, ?_⟩
        · rw [ahead]
          simp
        · rw [passed, List.append_assoc, List.append_assoc]
          exact List.Perm.append_left _ List.perm_append_comm
        · rintro _ ⟨⟩
          exact ⟨rfl, pageId, fits, early, by rw [took]⟩
      · refine .inr ⟨next, between, contents heap.data after, by rw [ahead], ?_, ?_⟩
        · rintro ⟨p, fits', early⟩
          rw [fits] at fits'
          cases fits'
          exact late early
        · rw [passed]
          simp
  | refused calls call early refused =>
    rw [granted] at refused
    cases refused
  | extended before last page slot calls pages fresh full _ =>
    obtain ⟨page', slot', took, laid, rows, ends, -⟩ := freshPage_run tuple
    rw [took] at fresh
    obtain ⟨rfl, rfl⟩ := Prod.mk.inj fresh
    obtain ⟨formed', rows'⟩ := formed.extend inRange calls pages laid (rows heap.nextPageId) ends
    refine ⟨_, formed', by simp, ?_⟩
    dsimp only
    rw [rows', split]
    cases rest with
    | nil => exact .inl ⟨_, (List.append_nil _).symm, by simp, by simp⟩
    | cons next rest =>
      refine .inr ⟨next, rest, [], by simp, ?_, by simp⟩
      rintro ⟨p, fits, -⟩
      have refuses := full p (List.mem_of_find?_eq_some fits)
      have takes := List.find?_some fits
      rw [refuses] at takes
      cases takes

end TableHeap

namespace InsertExecutor

variable {F : Type} [StoresFloat F] [Field F] [LinearOrder F] {schema : Schema} {predicate : Option (Expression F)}
  {indexes : List IndexInfo} {s : OneChild TableScan Bool} {chain : List PageId} {rounds : ℕ}
  {behind ahead skipped rest : Rows} {row : Rid × List UInt8}

/-- The bytes of the tuple that the scan makes of a row: its columns are read and written again. -/
def copyOf (schema : Schema) (row : Rid × List UInt8) : Option (List UInt8) :=
  ((stored row).populated schema).toOption.map Tuple.payload

/-- With these rows ahead of the scan: each copy that is made while a row is left ahead goes to a page of the chain
before that of the next row ahead. -/
def CopiesBehind (schema : Schema) (predicate : Option (Expression F)) (chain : List PageId) :
    (PageId → TablePage) → Rows → Prop
  | _, [] => True
  | data, row :: rest =>
    if TableScan.selects schema predicate row then
      ∀ bytes ∈ copyOf schema row, ∀ next ∈ rest.head?, ∃ p ∈ firstFit data chain bytes,
        chain.idxOf p < chain.idxOf next.1.pageId ∧
        CopiesBehind schema predicate chain (Function.update data p ((data p).insertBytes bytes).1) rest
    else CopiesBehind schema predicate chain data rest

theorem copiesBehind_skip {data : PageId → TablePage}
    (skips : ∀ row ∈ skipped, Expression.holdsOn predicate schema (stored row) = .ok false) :
    CopiesBehind schema predicate chain data (skipped ++ rest) ↔ CopiesBehind schema predicate chain data rest := by
  induction skipped with
  | nil => exact Iff.rfl
  | cons row skipped ih =>
    obtain ⟨first, others⟩ := List.forall_mem_cons.mp skips
    have rejected : TableScan.selects schema predicate row = false := by simp [TableScan.selects, first]
    rw [List.cons_append, CopiesBehind, rejected, if_neg Bool.false_ne_true]
    exact ih others

/-- After the insertion of a copy the rows behind the row that was copied are ahead, and the copy among them unless
it came behind the scan. -/
theorem Scanning.insert {tuple : List UInt8} {result : Option Rid} {s' : OneChild TableScan Bool} {calls : ℕ}
    (scanning : Scanning s chain behind (skipped ++ row :: rest)) (inRange : s.child.heap.nextPageId < 2 ^ 31)
    (stands : s'.child.iter = standing rest)
    (insertion : Insertion tuple { s.child.heap with calls } chain result s'.child.heap) :
    ∃ chain', chain'.length ≤ chain.length + 1 ∧
      ((∃ behind', Scanning s' chain' behind' rest ∧
          (behind' ++ rest).Perm (contents s.child.heap.data chain ++ added tuple result) ∧
          ∀ next ∈ rest.head?, chain' = chain ∧ ∃ p ∈ firstFit s.child.heap.data chain tuple,
            chain.idxOf p < chain.idxOf next.1.pageId ∧
            s'.child.heap.data =
              Function.update s.child.heap.data p ((s.child.heap.data p).insertBytes tuple).1) ∨
        ∃ behind' next front back, rest = next :: (front ++ back) ∧
          ¬ FitsBefore s.child.heap.data chain tuple next ∧
          Scanning s' chain' behind' (next :: (front ++ added tuple result ++ back)) ∧
          (behind' ++ next :: (front ++ added tuple result ++ back)).Perm
            (contents s.child.heap.data chain ++ added tuple result)) := by
  have split : contents s.child.heap.data chain = (behind ++ skipped ++ [row]) ++ rest := by
    rw [scanning.split]
    simp
  have granted : ∀ call, s'.child.heap.grants call = true := by
    rw [insertion.grants_eq]
    exact scanning.granted
  obtain ⟨chain', formed', longer, came⟩ :=
    insertion.lands (scanning.formed.withCalls calls) scanning.granted inRange split
  refine ⟨chain', longer, ?_⟩
  rcases came with ⟨behind', rows, moved, early⟩ | ⟨next, front, back, rfl, late, rows⟩
  · refine .inl ⟨behind', ⟨formed', granted, rows, stands⟩, ?_, early⟩
    rw [split]
    refine (moved.append_right rest).trans ?_
    rw [List.append_assoc, List.append_assoc _ rest]
    exact List.Perm.append_left _ List.perm_append_comm
  · refine .inr ⟨_, next, front, back, rfl, late, ⟨formed', granted, rows, stands⟩, ?_⟩
    rw [split, List.append_assoc _ (next :: (front ++ back))]
    refine List.Perm.append_left _ (List.Perm.cons next ?_)
    change List.Perm (front ++ _ ++ back) (front ++ back ++ _)
    rw [List.append_assoc, List.append_assoc]
    exact List.Perm.append_left _ List.perm_append_comm

theorem copyOf_handed {tuple : Tuple} (handed : handOut schema predicate row = .ok (some tuple)) :
    copyOf schema row = some tuple.payload := by
  rw [copyOf, (handOut_eq_some_iff.mp handed).2]
  rfl

theorem selects_handed {tuple : Tuple} (handed : handOut schema predicate row = .ok (some tuple)) :
    TableScan.selects schema predicate row = true := by
  simp [TableScan.selects, (handOut_eq_some_iff.mp handed).1]

/-- What the statement adds to the rows for a row that the scan hands out. -/
def stays (schema : Schema) (row : Rid × List UInt8) : Option (List UInt8) := (copyOf schema row).bind fitting

theorem filter_skipped (skips : ∀ row ∈ skipped, Expression.holdsOn predicate schema (stored row) = .ok false) :
    skipped.filter (TableScan.selects schema predicate) = [] :=
  List.filter_eq_nil_iff.mpr fun row mem => by simp [TableScan.selects, skips row mem]

/-- If no copy comes ahead of the scan, the loop ends, and every row that the predicate holds of was copied once. -/
theorem Scanning.runs {fuel : ℕ} (scanning : Scanning s chain behind ahead)
    (attrs : ∀ info ∈ indexes, ∀ attr ∈ info.keyAttrs, attr < schema.getColumnCount)
    (total : ∀ row ∈ ahead, ∃ handed, handOut schema predicate row = .ok handed)
    (small : ∀ row ∈ ahead, TableScan.selects schema predicate row →
      ∀ bytes ∈ copyOf schema row, bytes.length ≤ 4076)
    (fits : CopiesBehind schema predicate chain s.child.heap.data ahead)
    (inRange : s.child.heap.nextPageId + ahead.length ≤ 2 ^ 31) (everyRow : ahead.length < fuel)
    (enough : chain.length + 1020 + ahead.length < rounds) (count : Int32) :
    ∃ s' chain' copies, loop schema predicate indexes rounds fuel count s =
        some (.ok (count + Int32.ofNat (ahead.filter (TableScan.selects schema predicate)).length), s') ∧
      WellFormed s'.child.heap chain' ∧
      (contents s'.child.heap.data chain').Perm (contents s.child.heap.data chain ++ copies) ∧
      copies.map Prod.snd = (ahead.filter (TableScan.selects schema predicate)).filterMap (stays schema) := by
  induction fuel generalizing s chain behind ahead count with
  | zero => omega
  | succ fuel ih =>
    rcases scanning.step schema predicate attrs enough count with
      ⟨s', ran, formed, same, rejected⟩ | ⟨skipped, row, rest, rfl, before, outcome⟩
    · refine ⟨s', chain, [], ?_, formed, by rw [same, List.append_nil], ?_⟩
      · rw [ran fuel, filter_skipped rejected]
        exact congrArg (fun total => some (Except.ok total, s')) (Int32.add_zero count).symm
      · rw [filter_skipped rejected]
        rfl
    rcases outcome with ⟨message, s', failed, -⟩ | ⟨tuple, result, s', calls, handed, ran, stands, insertion⟩
    · obtain ⟨handed, outcome⟩ := total row (by simp)
      rw [failed] at outcome
      cases outcome
    have copied := copyOf_handed handed
    have selected := selects_handed handed
    obtain ⟨rid, rfl⟩ := insertion.succeeds scanning.granted (small row (by simp) selected _ copied)
    rw [List.length_append, List.length_cons] at everyRow enough inRange
    push_cast at inRange
    have left (next next' : ℤ) (room : next + (skipped.length + (rest.length + 1)) ≤ 2 ^ 31)
        (allocated : next' ≤ next + 1) : next < 2 ^ 31 ∧ next' + rest.length ≤ 2 ^ 31 := by omega
    have behindRest := (copiesBehind_skip before).mp fits
    rw [CopiesBehind, if_pos selected] at behindRest
    obtain ⟨chain', longer, came⟩ := scanning.insert (left _ _ inRange le_rfl).1 stands insertion
    rcases came with ⟨behind', scanning', rows, early⟩ | ⟨-, next, front, back, rfl, late, -⟩
    · have fits' : CopiesBehind schema predicate chain' s'.child.heap.data rest := by
        cases rest with
        | nil => trivial
        | cons next rest =>
          obtain ⟨rfl, p, fit, -, data⟩ := early next rfl
          obtain ⟨p', fit', -, later⟩ := behindRest _ copied next rfl
          obtain rfl := Option.mem_unique fit fit'
          rwa [data]
      obtain ⟨s'', chain'', copies, done, formed, stored, same⟩ := ih scanning'
        (fun row mem => total row (List.mem_append_right _ (List.mem_cons_of_mem _ mem)))
        (fun row mem => small row (List.mem_append_right _ (List.mem_cons_of_mem _ mem))) fits'
        (left _ _ inRange insertion.allocates.2).2 (by omega) (by omega) (count + 1)
      refine ⟨s'', chain'', added tuple.payload (some rid) ++ copies, ?_, formed, ?_, ?_⟩
      · rw [ran fuel, Option.isSome_some, if_pos rfl, done, List.filter_append, filter_skipped before,
          List.filter_cons_of_pos selected, List.nil_append, List.length_cons, count_next]
      · refine stored.trans ?_
        rw [scanning'.split, ← List.append_assoc]
        exact rows.append_right copies
      · rw [List.map_append, insertion.added_eq (scanning.formed.withCalls calls) scanning.granted, same,
          List.filter_append, filter_skipped before, List.filter_cons_of_pos selected, List.nil_append,
          List.filterMap_cons, stays, copied, Option.bind_some]
        cases fitting tuple.payload <;> rfl
    · obtain ⟨p, fit, early, -⟩ := behindRest _ copied next rfl
      exact absurd ⟨p, fit, early⟩ late

/-- What a loop that has come to its end has done: it has gone over the rows ahead that the predicate holds of and,
among the copies, over those that came ahead of the scan. -/
structure Copied (schema : Schema) (predicate : Option (Expression F)) (chain : List PageId)
    (data : PageId → TablePage) (ahead visited met copies : Rows) : Prop where
  seen : visited.Perm ((ahead ++ met).filter (TableScan.selects schema predicate))
  among : met ⊆ copies
  values : copies.map Prod.snd = visited.filterMap (stays schema)
  behind : (∀ row ∈ visited, (stays schema row).isSome) → met = [] →
    CopiesBehind schema predicate chain data ahead

theorem stays_handed {tuple : Tuple} (handed : handOut schema predicate row = .ok (some tuple)) :
    stays schema row = fitting tuple.payload := by
  rw [stays, copyOf_handed handed]
  rfl

section Copied

variable {data data' : PageId → TablePage} {chain' : List PageId} {visited met copies fresh front back : Rows}
  {next : Rid × List UInt8} {tuple : Tuple}

/-- A copy that came behind the scan. -/
theorem Copied.behindScan (copied : Copied schema predicate chain' data' rest visited met copies)
    (skips : ∀ row ∈ skipped, Expression.holdsOn predicate schema (stored row) = .ok false)
    (handed : handOut schema predicate row = .ok (some tuple))
    (values : fresh.map Prod.snd = (fitting tuple.payload).toList)
    (early : ∀ next ∈ rest.head?, chain' = chain ∧ ∃ p ∈ firstFit data chain tuple.payload,
      chain.idxOf p < chain.idxOf next.1.pageId ∧
      data' = Function.update data p ((data p).insertBytes tuple.payload).1) :
    Copied schema predicate chain data (skipped ++ row :: rest) (row :: visited) met (fresh ++ copies) := by
  have selected := selects_handed handed
  refine ⟨?_, List.subset_append_of_subset_right _ copied.among, ?_, fun all none => ?_⟩
  · rw [List.append_assoc, List.filter_append, filter_skipped skips, List.cons_append,
      List.filter_cons_of_pos selected]
    exact copied.seen.cons row
  · rw [List.map_append, values, copied.values, List.filterMap_cons, stays_handed handed]
    cases fitting tuple.payload <;> rfl
  · rw [copiesBehind_skip skips, CopiesBehind, if_pos selected, copyOf_handed handed]
    rintro _ ⟨⟩ next here
    obtain ⟨rfl, p, fit, before, rfl⟩ := early next here
    exact ⟨p, fit, before, copied.behind (List.forall_mem_cons.mp all).2 none⟩

/-- A copy that came ahead of the scan. -/
theorem Copied.aheadOfScan
    (copied : Copied schema predicate chain' data' (next :: (front ++ fresh ++ back)) visited met copies)
    (skips : ∀ row ∈ skipped, Expression.holdsOn predicate schema (stored row) = .ok false)
    (handed : handOut schema predicate row = .ok (some tuple))
    (values : fresh.map Prod.snd = (fitting tuple.payload).toList) :
    Copied schema predicate chain data (skipped ++ row :: next :: (front ++ back)) (row :: visited) (fresh ++ met)
      (fresh ++ copies) := by
  have selected := selects_handed handed
  refine ⟨?_, List.append_subset.mpr ⟨List.subset_append_left _ _,
    List.subset_append_of_subset_right _ copied.among⟩, ?_,
    fun all none => ?_⟩
  · rw [List.append_assoc, List.filter_append, filter_skipped skips, List.cons_append,
      List.filter_cons_of_pos selected]
    refine (copied.seen.trans (List.Perm.filter _ ?_)).cons row
    simp only [List.cons_append, List.append_assoc]
    refine List.Perm.cons next (List.Perm.append_left front ?_)
    rw [← List.append_assoc, ← List.append_assoc]
    exact List.perm_append_comm.append_right met
  · rw [List.map_append, values, copied.values, List.filterMap_cons, stays_handed handed]
    cases fitting tuple.payload <;> rfl
  · have stayed := (List.forall_mem_cons.mp all).1
    rw [stays_handed handed] at stayed
    rw [(List.append_eq_nil_iff.mp none).1] at values
    obtain ⟨bytes, made⟩ := Option.isSome_iff_exists.mp stayed
    rw [made] at values
    cases values

end Copied

/-- A loop that comes to its end has gone over all rows ahead. -/
theorem Scanning.ends {fuel : ℕ} {count total : Int32} {s' : OneChild TableScan Bool}
    (scanning : Scanning s chain behind ahead)
    (attrs : ∀ info ∈ indexes, ∀ attr ∈ info.keyAttrs, attr < schema.getColumnCount)
    (inRange : s.child.heap.nextPageId + fuel ≤ 2 ^ 31)
    (enough : chain.length + 1020 + ahead.length + fuel ≤ rounds)
    (ran : loop schema predicate indexes rounds fuel count s = some (.ok total, s')) :
    ∃ chain' visited met copies, WellFormed s'.child.heap chain' ∧
      (contents s'.child.heap.data chain').Perm (contents s.child.heap.data chain ++ copies) ∧
      Copied schema predicate chain s.child.heap.data ahead visited met copies := by
  induction fuel generalizing s chain behind ahead count with
  | zero => cases ran
  | succ fuel ih =>
    rcases scanning.step schema predicate attrs (by omega : _ < rounds) count with
      ⟨s'', done, formed, same, rejected⟩ | ⟨skipped, row, rest, rfl, before, outcome⟩
    · rw [done fuel] at ran
      obtain ⟨-, rfl⟩ := Prod.mk.inj (Option.some.inj ran)
      refine ⟨chain, [], [], [], formed, by rw [same, List.append_nil], ?_, List.Subset.refl _, rfl, fun _ _ => ?_⟩
      · rw [List.append_nil, filter_skipped rejected]
      · rw [← List.append_nil ahead, copiesBehind_skip rejected]
        trivial
    rcases outcome with
      ⟨message, s'', -, failed⟩ | ⟨tuple, result, s'', calls, handed, goesOn, stands, insertion⟩
    · rw [failed fuel] at ran
      cases ran
    rw [goesOn fuel] at ran
    push_cast at inRange
    have left (next next' : ℤ) (room : next + (fuel + 1) ≤ 2 ^ 31) (allocated : next' ≤ next + 1) :
        next < 2 ^ 31 ∧ next' + fuel ≤ 2 ^ 31 := by omega
    rw [List.length_append, List.length_cons] at enough
    have pages := (left _ _ inRange insertion.allocates.2).2
    have values := insertion.added_eq (scanning.formed.withCalls calls) scanning.granted
    obtain ⟨chain', longer, came⟩ := scanning.insert (left _ _ inRange le_rfl).1 stands insertion
    rcases came with ⟨behind', scanning', rows, early⟩ | ⟨behind', next, front, back, rfl, late,
      scanning', rows⟩
    · obtain ⟨chain'', visited, met, copies, formed, stored, copied⟩ := ih scanning' pages (by omega) ran
      refine ⟨chain'', row :: visited, met, _, formed, stored.trans ?_,
        copied.behindScan before handed values early⟩
      rw [scanning'.split, ← List.append_assoc]
      exact rows.append_right copies
    · have one : (added tuple.payload result).length ≤ 1 := by
        rw [← List.length_map (f := Prod.snd), values]
        cases fitting tuple.payload <;> simp
      simp only [List.length_cons, List.length_append] at enough
      obtain ⟨chain'', visited, met, copies, formed, stored, copied⟩ := ih scanning' pages
        (by simp only [List.length_cons, List.length_append]; omega) ran
      refine ⟨chain'', row :: visited, _, _, formed, stored.trans ?_, copied.aheadOfScan before handed values⟩
      rw [scanning'.split, ← List.append_assoc]
      exact rows.append_right copies

theorem stays_rid (schema : Schema) (rid rid' : Rid) (bytes : List UInt8) :
    stays schema (rid', bytes) = stays schema (rid, bytes) := by
  rw [stays, stays, copyOf, copyOf, populated_rid schema rid rid' bytes]
  cases (stored (rid, bytes)).populated schema <;> rfl

/-- If as many rows were added as there were rows to copy, with the bytes of these, no copy was copied. -/
theorem Copied.once {data : PageId → TablePage} {visited met copies : Rows}
    (copied : Copied schema predicate chain data ahead visited met copies)
    (same : (copies.map Prod.snd).Perm ((ahead.filter (TableScan.selects schema predicate)).map Prod.snd)) :
    met = [] ∧ ∀ row ∈ visited, (stays schema row).isSome := by
  have metAlike (row : Rid × List UInt8) (mem : row ∈ met) :
      row.2 ∈ (ahead.filter (TableScan.selects schema predicate)).map Prod.snd :=
    same.subset (List.mem_map_of_mem (copied.among mem))
  have inside : visited.map Prod.snd ⊆ (ahead.filter (TableScan.selects schema predicate)).map Prod.snd := by
    intro bytes mem
    obtain ⟨row, here, rfl⟩ := List.mem_map.mp mem
    have seen := copied.seen.subset here
    rw [List.filter_append] at seen
    rcases List.mem_append.mp seen with old | new
    · exact List.mem_map_of_mem old
    · exact metAlike row (List.mem_filter.mp new).1
  have values : copies.map Prod.snd = (visited.map Prod.snd).filterMap fun bytes => stays schema (endRid, bytes) := by
    rw [copied.values, List.filterMap_map]
    exact List.filterMap_congr fun row _ => stays_rid schema endRid row.1 row.2
  have stayed (row : Rid × List UInt8) (mem : row ∈ visited) : (stays schema row).isSome := by
    rw [show stays schema row = _ from stays_rid schema endRid row.1 row.2]
    exact isSome_of_covers inside (values ▸ same.symm.subset) row.2 (inside (List.mem_map_of_mem mem))
  refine ⟨?_, stayed⟩
  have number : copies.length = visited.length := by
    rw [← List.length_map (f := Prod.snd), copied.values, List.filterMap_length_eq_length]
    exact stayed
  have listed := copied.seen.length_eq
  have asMany := same.length_eq
  rw [List.filter_append, List.length_append] at listed
  rw [List.length_map, List.length_map] at asMany
  have none : (met.filter (TableScan.selects schema predicate)).length = 0 := by omega
  refine List.eq_nil_iff_forall_not_mem.mpr fun row mem => ?_
  obtain ⟨rid, bytes⟩ := row
  obtain ⟨⟨rid', bytes'⟩, here, same⟩ := List.mem_map.mp (metAlike _ mem)
  obtain rfl : bytes' = bytes := same
  have alike : TableScan.selects schema predicate (rid, bytes') = TableScan.selects schema predicate (rid', bytes') :=
    rfl
  have chosen := List.mem_filter.mpr ⟨mem, alike.trans (List.mem_filter.mp here).2⟩
  rw [List.length_eq_zero_iff.mp none] at chosen
  exact absurd chosen List.not_mem_nil

/-- The statement returns the number of rows that the predicate held of, and a copy of each of them is added. -/
def CopiesOnce (schema : Schema) (predicate : Option (Expression F)) (indexes : List IndexInfo) (rounds : ℕ)
    (s : OneChild TableScan Bool) (chain : List PageId) : Prop :=
  let selected := (contents s.child.heap.data chain).filter (TableScan.selects schema predicate)
  ∃ tuple s' chain' copies, ((selfPlan schema indexes predicate).init rounds >>= fun _ =>
      (selfPlan schema indexes predicate).next rounds) s = some (.ok (some tuple), s') ∧
    tuple.values = [.integer (Int32.ofNat selected.length)] ∧ WellFormed s'.child.heap chain' ∧
    (contents s'.child.heap.data chain').Perm (contents s.child.heap.data chain ++ copies) ∧
    (copies.map Prod.snd).Perm (selected.map Prod.snd)

/-- More rounds for what the loop calls. -/
theorem loop_more (schema : Schema) (predicate : Option (Expression F)) (indexes : List IndexInfo)
    {rounds rounds' : ℕ}
    (more : rounds ≤ rounds') (fuel : ℕ) (count : Int32) :
    Extends (loop schema predicate indexes rounds fuel count) (loop schema predicate indexes rounds' fuel count) :=
  .whileNext (.on (.of_le (TableScan.next_more schema predicate) more))
    (fun count tuple => .of_le (m := fun rounds => insertRow _ rounds count tuple)
      (fun rounds => insertRow_more _ rounds count tuple) more) fuel count

/-- The scan can read the rows, and what it makes of them is, up to order, what is stored of them. -/
def Rereads (schema : Schema) (rows : Rows) : Prop :=
  (rows.map (copyOf schema)).Perm ((rows.map Prod.snd).map some)

theorem map_copyOf {rows : Rows} (stayed : ∀ row ∈ rows, (stays schema row).isSome) :
    rows.map (copyOf schema) = (rows.filterMap (stays schema)).map some := by
  induction rows with
  | nil => rfl
  | cons row rest ih =>
    obtain ⟨here, others⟩ := List.forall_mem_cons.mp stayed
    obtain ⟨bytes, made⟩ := Option.isSome_iff_exists.mp here
    have read : copyOf schema row = some bytes := by
      obtain ⟨bytes', read, fits⟩ := Option.bind_eq_some_iff.mp made
      rw [fitting, asRow] at fits
      split_ifs at fits
      rwa [← Option.some.inj fits]
    rw [List.map_cons, List.filterMap_cons, made, read, ih others]
    rfl

/-- The loop starts with all rows ahead. -/
theorem Scanning.start (formed : WellFormed s.child.heap chain) (granted : ∀ call, s.child.heap.grants call = true)
    (schema : Schema) (predicate : Option (Expression F)) (indexes : List IndexInfo) (enough : Enough rounds chain) :
    ∃ begun, (selfPlan schema indexes predicate).init rounds s = some (.ok (), begun) ∧ begun.fields = false ∧
      begun.child.heap.data = s.child.heap.data ∧ begun.child.heap.nextPageId = s.child.heap.nextPageId ∧
      Scanning { begun with fields := true } chain [] (contents s.child.heap.data chain) := by
  obtain ⟨calls, iter, started, ahead⟩ := TableScan.initModify_run schema predicate formed granted enough
  exact ⟨_, started, rfl, rfl, rfl, formed.withCalls calls, granted, (List.nil_append _).symm, ahead.1⟩

/-- If the statement has copied every row once, then the scan has made of the rows what is stored of them, and no copy
came ahead of it. -/
theorem CopiesOnce.fits (once : CopiesOnce schema predicate indexes rounds s chain)
    (formed : WellFormed s.child.heap chain) (granted : ∀ call, s.child.heap.grants call = true)
    (attrs : ∀ info ∈ indexes, ∀ attr ∈ info.keyAttrs, attr < schema.getColumnCount)
    (inRange : s.child.heap.nextPageId + rounds ≤ 2 ^ 31)
    (enough : chain.length + 1020 + (contents s.child.heap.data chain).length < rounds) :
    Rereads schema ((contents s.child.heap.data chain).filter (TableScan.selects schema predicate)) ∧
      CopiesBehind schema predicate chain s.child.heap.data (contents s.child.heap.data chain) := by
  have everyPage : Enough rounds chain := by
    simp only [Enough]
    omega
  obtain ⟨begun, started, fresh, data, ids, scanning⟩ :=
    Scanning.start formed granted schema predicate indexes everyPage
  obtain ⟨tuple, s', chain', copies, ran, -, formed', stored, same⟩ := once
  rw [Code.bind_ok started] at ran
  obtain ⟨count, looped⟩ := nextModify_loop fresh ran
  -- the chain may grow with each round of the loop, so what the loop calls is given more rounds
  have more : rounds ≤ chain.length + 1020 + (contents s.child.heap.data chain).length + rounds := by omega
  have looped' := loop_more schema predicate indexes more rounds 0 _ _ looped
  obtain ⟨chain'', visited, met, copies', formed'', stored', copied⟩ :=
    scanning.ends attrs (ids ▸ inRange) le_rfl looped'
  obtain rfl := formed''.linked.unique formed'.linked
  rw [data] at stored' copied
  have alike : copies'.Perm copies := (List.perm_append_left_iff _).mp (stored'.symm.trans stored)
  obtain ⟨rfl, stayed⟩ := copied.once ((alike.map Prod.snd).trans same)
  refine ⟨?_, copied.behind stayed rfl⟩
  have seen := copied.seen
  rw [List.append_nil] at seen
  have read : visited.map (copyOf schema) = (copies'.map Prod.snd).map some := by
    rw [copied.values]
    exact map_copyOf stayed
  refine (seen.symm.map _).trans ?_
  rw [read]
  exact ((alike.map Prod.snd).trans same).map some

/-- Where the scan makes of the rows what is stored of them, each selected row has a copy that is stored. -/
theorem Rereads.stays {rows : Rows} (rereads : Rereads schema rows)
    (fit : ∀ row ∈ rows, row.2 ≠ [] ∧ row.2.length ≤ 4076) {row : Rid × List UInt8} (mem : row ∈ rows) :
    ∃ bytes, copyOf schema row = some bytes ∧ bytes.length ≤ 4076 ∧ stays schema row = some bytes := by
  obtain ⟨_, mem', same⟩ := List.mem_map.mp (rereads.subset (List.mem_map_of_mem mem))
  obtain ⟨⟨rid, bytes⟩, chosen, rfl⟩ := List.mem_map.mp mem'
  obtain ⟨notEmpty, small⟩ := fit _ chosen
  have read : copyOf schema row = some bytes := same.symm
  refine ⟨bytes, read, small, ?_⟩
  rw [InsertExecutor.stays, read, Option.bind_some, fitting, if_pos small, asRow, if_neg notEmpty]

/-- `INSERT INTO t SELECT * FROM t WHERE …` with frames and page ids for every page: it ends with one copy of each row
that the predicate held of, and with their number, if and only if the scan makes of these rows, up to their order, what
is stored of them, and each copy that is made while the scan has rows ahead goes to a page before that of the next. -/
theorem self_insert_iff (formed : WellFormed s.child.heap chain) (granted : ∀ call, s.child.heap.grants call = true)
    (attrs : ∀ info ∈ indexes, ∀ attr ∈ info.keyAttrs, attr < schema.getColumnCount)
    (total : ∀ row ∈ contents s.child.heap.data chain, ∃ verdict,
      Expression.holdsOn predicate schema (stored row) = .ok verdict)
    (inRange : s.child.heap.nextPageId + rounds ≤ 2 ^ 31)
    (enough : chain.length + 1020 + (contents s.child.heap.data chain).length < rounds) :
    CopiesOnce schema predicate indexes rounds s chain ↔
      Rereads schema ((contents s.child.heap.data chain).filter (TableScan.selects schema predicate)) ∧
      CopiesBehind schema predicate chain s.child.heap.data (contents s.child.heap.data chain) := by
  refine ⟨fun once => once.fits formed granted attrs inRange enough, ?_⟩
  rintro ⟨rereads, fits⟩
  have everyPage : Enough rounds chain := by
    simp only [Enough]
    omega
  obtain ⟨begun, started, fresh, data, ids, scanning⟩ :=
    Scanning.start formed granted schema predicate indexes everyPage
  have fit (row : Rid × List UInt8)
      (mem : row ∈ (contents s.child.heap.data chain).filter (TableScan.selects schema predicate)) :
      row.2 ≠ [] ∧ row.2.length ≤ 4076 := by
    obtain ⟨onChain, held⟩ :=
      mem_contents_iff.mp (show (row.1, row.2) ∈ _ from (List.mem_filter.mp mem).1)
    exact ⟨live_ne_nil held, live_fits (formed.laid _ onChain) held⟩
  have everyRow (row : Rid × List UInt8) (mem : row ∈ contents s.child.heap.data chain) :
      ∃ handed, handOut schema predicate row = .ok handed := by
    obtain ⟨verdict, found⟩ := total row mem
    cases verdict with
    | false => exact ⟨none, handOut_rejected found⟩
    | true =>
      obtain ⟨bytes, read, -⟩ := rereads.stays fit
        (List.mem_filter.mpr ⟨mem, by simp [TableScan.selects, found]⟩)
      rw [handOut_selected found]
      cases made : (stored row).populated schema with
      | error message =>
        rw [copyOf, made] at read
        cases read
      | ok tuple => exact ⟨some tuple, rfl⟩
  have small (row : Rid × List UInt8) (mem : row ∈ contents s.child.heap.data chain)
      (selected : TableScan.selects schema predicate row) (bytes : List UInt8) (read : bytes ∈ copyOf schema row) :
      bytes.length ≤ 4076 := by
    obtain ⟨bytes', read', short, -⟩ := rereads.stays fit (List.mem_filter.mpr ⟨mem, selected⟩)
    exact Option.mem_unique read read' ▸ short
  have fewer : (contents s.child.heap.data chain).length < rounds := by omega
  have room : s.child.heap.nextPageId + (contents s.child.heap.data chain).length ≤ 2 ^ 31 :=
    (add_le_add_right (Int.ofNat_le.mpr fewer.le) s.child.heap.nextPageId).trans inRange
  obtain ⟨s', chain', copies, looped, formed', stored, values⟩ :=
    scanning.runs attrs everyRow small (data ▸ fits) (ids ▸ room) fewer enough 0
  rw [Int32.zero_add] at looped
  obtain ⟨tuple, ran, counted⟩ : ∃ tuple, (selfPlan schema indexes predicate).next rounds begun =
      some (.ok (some tuple), s') ∧ tuple.values = [.integer _] := nextModify_run fresh looped
  rw [data] at stored
  refine ⟨tuple, s', chain', copies, (Code.bind_ok started _).trans ran, counted, formed', stored, ?_⟩
  rw [values, ← List.map_perm_map_iff (Option.some_injective _), ← map_copyOf fun row mem => ?_]
  · exact rereads
  · obtain ⟨bytes, -, -, stayed⟩ := rereads.stays fit mem
    rw [stayed]
    rfl

section Gaps

/-- On the rows of the heap with gaps the predicate does not throw. -/
theorem isSet_total (row : Rid × List UInt8) (mem : row ∈ contents (gaps [1] [0]).data [0, 1, 2]) :
    ∃ verdict, Expression.holdsOn isSet flags (stored row) = .ok verdict := by
  rw [gaps_contents (by decide) (by decide)] at mem
  simp only [List.mem_cons, List.not_mem_nil, or_false] at mem
  rcases mem with rfl | rfl | rfl | rfl
  · exact ⟨true, rfl⟩
  · exact ⟨false, rfl⟩
  · exact ⟨true, rfl⟩
  · exact ⟨false, rfl⟩

theorem self_insert_iff_gaps :
    CopiesOnce flags isSet [] 2000 ⟨{ heap := gaps [1] [0] }, false⟩ [0, 1, 2] ↔
      Rereads flags ((contents (gaps [1] [0]).data [0, 1, 2]).filter (TableScan.selects flags isSet)) ∧
      CopiesBehind flags isSet [0, 1, 2] (gaps [1] [0]).data (contents (gaps [1] [0]).data [0, 1, 2]) := by
  have rows := @gaps_contents [1] [0] (by decide) (by decide)
  exact self_insert_iff (s := ⟨{ heap := gaps [1] [0] }, false⟩) (gaps_wellFormed (by decide) (by decide))
    (fun _ => rfl) (by simp) isSet_total (by decide) (by rw [rows]; decide)

/-- The copy of the first row comes behind the rows of its page, ahead of the scan. However many rounds the statement
gets, it does not copy every row once. -/
theorem copies_meet_scan : ¬ ∃ rounds, 1027 < rounds ∧ rounds ≤ 2 ^ 31 - 3 ∧
    CopiesOnce flags isSet [] rounds ⟨{ heap := gaps [1] [0] }, false⟩ [0, 1, 2] := by
  rintro ⟨rounds, enough, pages, once⟩
  have rows := @gaps_contents [1] [0] (by decide) (by decide)
  have ids : (3 : ℤ) + rounds ≤ 2 ^ 31 := by omega
  have fits := (once.fits (gaps_wellFormed (by decide) (by decide)) (fun _ => rfl) (by simp) ids
    (by rw [rows]; exact enough)).2
  change CopiesBehind flags isSet [0, 1, 2] (gaps [1] [0]).data (contents (gaps [1] [0]).data [0, 1, 2]) at fits
  rw [rows, CopiesBehind, if_pos (by decide)] at fits
  obtain ⟨p, -, early, -⟩ := fits [1] rfl (⟨0, 2⟩, [0]) rfl
  exact Nat.not_lt_zero _ early

end Gaps

end InsertExecutor

end OneBase
