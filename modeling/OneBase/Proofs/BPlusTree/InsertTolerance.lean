import OneBase.Proofs.BPlusTree.InsertCorrect
import OneBase.Proofs.BPlusTree.InsertShort

/-! # What an insertion needs

A refused page does no harm before anything was moved, and a child that could not be re-parented reads
as before. Any other refused call of an insertion loses a key or leaves an overfull page, so an
insertion keeps what it should exactly if it is granted the calls it needs. It needs room as well: a full page is split
only after one more entry was stored, and that one has to lie on the page.
-/

namespace OneBase.BPlusTree

open BPlusTreePage PageStore ListEdits ObservedRuns

variable {K V : Type} [LinearOrder K]

section Descent

variable {β : Type} {leafMax internalMax : ℕ} {s : Supply K V} {R : β → Supply K V → Prop}

/-- The shared descent ends in the leaf the key routes to, or with the first refused fetch. -/
theorem short_descend (leafSize : 2 ≤ leafMax) (internalSize : 3 ≤ internalMax) {height rounds : ℕ}
    {p : PageId} {key : K} {f : Option PageId → TreeM K V β}
    (shaped : Shaped leafMax internalMax s.view.data height p) (positive : 1 ≤ (s.view.data p).size)
    (enough : height < rounds)
    (arrived : (∀ call < height, s.grants (s.calls + call) = true) →
      ShortRuns (f (some (route s.view.data key height p))) (s.passed height) R)
    (refused : ∀ count, (∃ call < height, s.grants (s.calls + call) = false) →
      ShortRuns (f none) (s.passed count) R) :
    ShortRuns (descend key rounds p >>= f) s R := by
  induction height generalizing p rounds s with
  | zero =>
    obtain ⟨rounds, rfl⟩ := Nat.exists_eq_succ_of_ne_zero (Nat.ne_zero_of_lt enough)
    rw [descend, bind_assoc]
    apply short_page
    rw [if_pos (by simp [isLeafPage, shaped.1]), pure_bind]
    exact arrived fun call low => absurd low (Nat.not_lt_zero call)
  | succ height ih =>
    obtain ⟨rounds, rfl⟩ := Nat.exists_eq_succ_of_ne_zero (Nat.ne_zero_of_lt enough)
    obtain ⟨before, link, after, cut, found, -, -⟩ := InternalPage.lookup_cut key positive
    obtain ⟨shapedChild, filled⟩ := shaped.2.2 link.2 (mem_children.mpr ⟨link, by simp [cut], rfl⟩)
    rw [descend, bind_assoc]
    apply short_page
    rw [if_neg (by simp [isLeafPage, shaped.1])]
    simp only [bind_assoc]
    apply short_unpinPage
    apply short_fetchPage
    cases answer : s.grants s.calls with
    | false =>
      rw [if_neg Bool.false_ne_true]
      exact refused 1 ⟨0, Nat.succ_pos _, answer⟩
    | true =>
      rw [if_pos rfl, found]
      rw [route, found] at arrived
      refine ih shapedChild ((minFill_pos leafSize internalSize height).trans filled.1) (by omega) ?_ ?_
      · intro granted
        have reached := arrived ?_
        · rw [Nat.add_comm] at reached
          simpa using reached
        · rintro (_ | call) low
          · exact answer
          · have next := granted call (by omega)
            rwa [Supply.passed_grants, Supply.passed_calls, Nat.add_assoc, Nat.add_comm 1] at next
      · rintro count ⟨call, low, failed⟩
        rw [Supply.passed_grants, Supply.passed_calls, Nat.add_assoc, Nat.add_comm 1] at failed
        simpa using refused (1 + count) ⟨call + 1, by omega, failed⟩

end Descent

variable [Inhabited K] [Inhabited V]

section Insert

variable {leafMax internalMax : ℕ} {s : Supply K V} {height : ℕ}

/-- `Insert` into a tree with a root. -/
theorem short_insert (entry : K × V) (rounds : ℕ) (leafSize : 2 ≤ leafMax) (internalSize : 3 ≤ internalMax)
    (leafMaxSize : s.view.leafMaxSize = leafMax) (internalMaxSize : s.view.internalMaxSize = internalMax)
    (rooted : Rooted leafMax internalMax s.view.data height s.view.rootPageId)
    (sub : Subtree leafMax internalMax s.view.data height s.view.rootPageId)
    (allocated : ∀ x ∈ pagesOf s.view.data height s.view.rootPageId, x < s.view.nextPageId)
    (enough : height < rounds) :
    ShortRuns (insert rounds entry.1 entry.2) s fun result s' =>
      ((∃ call ≤ height, s.grants (s.calls + call) = false) ∨
        KeyBelow s.view.data height s.view.rootPageId entry.1) ∧
          result = false ∧ s'.view = s.view ∨
        (∀ call ≤ height, s.grants (s.calls + call) = true) ∧
          ¬ KeyBelow s.view.data height s.view.rootPageId entry.1 ∧ result = true ∧
          EndsShort leafMax internalMax entry height (s.passed (height + 1)) s' := by
  have stored (value : V) := mem_contents_iff_route leafSize internalSize sub.shaped sub.separated rooted.positive
    entry.1 value
  have sorted := (route_leaf leafSize internalSize sub.shaped rooted.positive entry.1).2.2.2
  have valid : s.view.rootPageId ≠ invalidPageId := sub.valid _ (mem_pagesOf_self _ _ _)
  rw [insert]
  apply short_get
  intro tree seen
  have root : tree.rootPageId = s.view.rootPageId := congrArg (fun s => s.view.rootPageId) seen
  rw [if_neg (by simpa [isEmpty, root] using valid), root]
  apply short_fetchPage
  cases answer : s.grants s.calls with
  | false =>
    rw [if_neg Bool.false_ne_true]
    exact RunsTo.pure (.inl ⟨.inl ⟨0, Nat.zero_le _, answer⟩, rfl, rfl⟩)
  | true =>
    rw [if_pos rfl]
    refine short_descend leafSize internalSize (s := s.passed 1) sub.shaped rooted.positive enough ?_ ?_
    · intro granted
      have descended : ∀ call ≤ height, s.grants (s.calls + call) = true := by
        rintro (_ | call) low
        · exact answer
        · have next := granted call (by omega)
          rwa [Supply.passed_grants, Supply.passed_calls, Nat.add_assoc, Nat.add_comm 1] at next
      have reached : ((s.passed 1).passed height) = s.passed (height + 1) := by
        rw [Supply.passed_passed, Nat.add_comm]
      rw [reached]
      change ShortRuns (insertTail rounds entry.1 entry.2 _) _ _
      rcases LeafPage.insert_cases entry.1 entry.2 sorted with ⟨unchanged, value, found⟩ |
        ⟨before, after, cut, below, above, -⟩
      · rw [insertTail]
        apply short_page
        simp only [Supply.passed_view, unchanged]
        apply short_writePage
        rw [if_pos trivial]
        apply short_unpinPage
        refine RunsTo.pure (.inl ⟨.inr ⟨value, (stored value).mpr found⟩, rfl, ?_⟩)
        simp only [Supply.passed_view, Function.update_eq_self]
        rfl
      · have absent : ∀ e ∈ (s.view.data (route s.view.data entry.1 height s.view.rootPageId)).entries,
            e.1 ≠ entry.1 := by
          rw [cut]
          intro e member
          rcases List.mem_append.mp member with member | member
          · exact (below e member).ne
          · exact (above e member).ne'
        refine (short_insert_absent (s := s.passed (height + 1)) leafSize internalSize leafMaxSize internalMaxSize
          rooted sub allocated enough.le absent).mono ?_
        rintro result s' ⟨done, ends⟩
        refine .inr ⟨descended, ?_, done, ends⟩
        rintro ⟨value, held⟩
        exact absent _ ((stored value).mp held) rfl
    · rintro count ⟨call, low, failed⟩
      rw [Supply.passed_grants, Supply.passed_calls, Nat.add_assoc, Nat.add_comm 1] at failed
      exact RunsTo.pure (.inl ⟨.inl ⟨call + 1, low, failed⟩, rfl, rfl⟩)

end Insert

section Keeps

variable {tree after : BPlusTree K V} {key : K} {value : V} {height : ℕ}

omit [Inhabited K] [Inhabited V] in
/-- Once pages can be had again, `GetValue` answers for everything stored. -/
theorem WellFormedAt.reads_iff (wellFormed : tree.WellFormedAt height) (leafSize : 2 ≤ tree.leafMaxSize)
    (internalSize : 3 ≤ tree.internalMaxSize) (k : K) (result : Option V) :
    tree.restored.Returns k result ↔ ∀ v, result = some v ↔
      (k, v) ∈ contents tree.data height tree.rootPageId := by
  have leafSize' : 2 ≤ tree.restored.leafMaxSize := leafSize
  have internalSize' : 3 ≤ tree.restored.internalMaxSize := internalSize
  have restored : tree.restored.WellFormedAt height := { wellFormed with }
  exact restored.returns_iff leafSize' internalSize' (fun _ => rfl) k result

omit [Inhabited K] [Inhabited V] in
/-- An insertion that was turned away keeps everything. -/
theorem keeps_unchanged (leafSize : 2 ≤ tree.leafMaxSize) (internalSize : 3 ≤ tree.internalMaxSize)
    (wellFormed : tree.WellFormedAt height) (same : after.view = tree.view) : tree.Keeps key value false after := by
  obtain ⟨data, pins, next, grants, calls, deleted, root, leafMax, internalMax⟩ := after
  obtain ⟨rfl, rfl, rfl, rfl, rfl, rfl⟩ := View.mk.inj same
  have stays : WellFormedAt ⟨tree.data, pins, tree.nextPageId, grants, calls, tree.deleted, tree.rootPageId,
    tree.leafMaxSize, tree.internalMaxSize⟩ height := { wellFormed with }
  have reads (k : K) (result : Option V) := (stays.reads_iff leafSize internalSize k result).trans
    (wellFormed.reads_iff leafSize internalSize k result).symm
  refine ⟨fun other _ => reads other, ?_, fun _ => wellFormed.notOverfull⟩
  rw [reads]
  simp

omit [Inhabited K] [Inhabited V] in
/-- An insertion that ends like an undisturbed one, up to parent pointers, keeps what it should. -/
theorem keeps_of_outcome (leafSize : 2 ≤ tree.leafMaxSize) (internalSize : 3 ≤ tree.internalMaxSize)
    (wellFormed : tree.WellFormedAt height) (absent : ¬ KeyBelow tree.data height tree.rootPageId key)
    {v' : View K V} {height' : ℕ}
    (outcome : InsertOutcome tree.leafMaxSize tree.internalMaxSize (key, value) tree.view height v' height')
    (alike : ∀ x, Alike (after.data x) (v'.data x)) (root : after.rootPageId = v'.rootPageId)
    (valid : after.rootPageId ≠ invalidPageId) : tree.Keeps key value true after := by
  have shaped : Shaped tree.leafMaxSize tree.internalMaxSize after.data height' after.rootPageId := by
    rw [root]
    exact (shaped_congr fun x _ => alike x).mpr outcome.rooted.shaped
  have separated : Separated after.data height' after.rootPageId := by
    rw [root]
    exact (separated_congr fun x _ => alike x).mpr outcome.separated
  have size : (after.data after.rootPageId).size = (v'.data v'.rootPageId).size := by rw [root, (alike _).size]
  have stored : contents after.data height' after.rootPageId = contents v'.data height' v'.rootPageId := by
    rw [root]
    exact (reading_congr fun x _ => alike x).2.2
  have granted : after.restored.Granted := fun _ => rfl
  have now (k : K) (result : Option V) : after.restored.Returns k result ↔
      ∀ v, result = some v ↔ (k, v) ∈ contents after.data height' after.rootPageId :=
    BPlusTree.returns_iff leafSize internalSize granted valid shaped separated
      (size ▸ outcome.rooted.positive) k result
  obtain ⟨own, others⟩ := answers_insert (wellFormed.reads_iff leafSize internalSize) now
    (stored ▸ outcome.stored.mem_insert) (fun v held => absent ⟨v, held⟩)
  refine ⟨others, ?_, fun _ q reached => shaped.notOverfull (size ▸ outcome.rooted.high) reached⟩
  rw [own]
  simp

omit [Inhabited K] [Inhabited V] in
/-- Damage below the root breaks what an insertion should keep. -/
theorem not_keeps_of_damaged (leafSize : 2 ≤ tree.leafMaxSize) (internalSize : 3 ≤ tree.internalMaxSize)
    (wellFormed : tree.WellFormedAt height) (absent : ¬ KeyBelow tree.data height tree.rootPageId key)
    (damaged : Damaged tree.leafMaxSize tree.internalMaxSize (key, value) tree.data after.data height tree.rootPageId)
    (root : after.rootPageId = tree.rootPageId) : ¬ tree.Keeps key value true after := by
  intro keeps
  have valid : after.rootPageId ≠ invalidPageId := root ▸ wellFormed.rootPageId_ne
  rcases damaged with ⟨shaped, filled, ⟨lostKey, lostValue⟩, stored, lost⟩ | ⟨q, reached, above⟩
  · have positive : 1 ≤ (after.data after.rootPageId).size := by
      rw [root]
      rcases filled with filled | same
      · exact (minFill_pos leafSize internalSize height).trans filled.1
      · rw [same]
        exact wellFormed.rooted.1.positive
    rw [← root] at shaped lost
    have reads (result : Option V) : after.restored.Returns lostKey result ↔ result = none := by
      rw [← lost]
      have granted : after.restored.Granted := fun _ => rfl
      exact returns_iff_lookup leafSize internalSize granted valid shaped positive lostKey result
    rcases stored with held | isEntry
    · have different : lostKey ≠ key := by
        rintro rfl
        exact absent ⟨lostValue, held⟩
      have reads' := (keeps.others lostKey different none).mp ((reads none).mpr rfl)
      have found := ((wellFormed.reads_iff leafSize internalSize lostKey none).mp reads' lostValue).mpr held
      simp at found
    · obtain ⟨rfl, rfl⟩ := Prod.mk.inj isEntry
      have found := (reads (some lostValue)).mp (keeps.own.mpr (.inl rfl))
      simp at found
  · rw [← root] at reached
    exact absurd (keeps.sizes valid q reached) (not_le.mpr above)

/-- Into an empty tree: the one call there is either makes a root or changes nothing. -/
theorem keeps_of_empty (leafSize : 2 ≤ tree.leafMaxSize) (internalSize : 3 ≤ tree.internalMaxSize)
    (wellFormed : tree.WellFormed) (empty : tree.isEmpty = true) {rounds : ℕ} :
    ∃ answer after, insert rounds key value tree = some (answer, after) ∧ tree.Keeps key value answer after ∧
      (after.InsidePages ↔ tree.InsidePages) := by
  have root : tree.rootPageId = invalidPageId := by simpa [isEmpty] using empty
  cases granted : tree.grants tree.calls with
  | false =>
    let after : BPlusTree K V := { tree with calls := tree.calls + 1 }
    have reads (k : K) (result : Option V) : after.restored.Returns k result ↔ tree.restored.Returns k result := by
      rw [returns_empty_iff (show after.restored.rootPageId = invalidPageId from root),
        returns_empty_iff (show tree.restored.rootPageId = invalidPageId from root)]
    refine ⟨false, after, run_insert_refused granted,
      ⟨fun other _ => reads other, ?_, fun valid => absurd root valid⟩, Iff.rfl⟩
    rw [reads]
    simp
  | true =>
    have leafSize' : 2 ≤ tree.restored.leafMaxSize := leafSize
    have internalSize' : 3 ≤ tree.restored.internalMaxSize := internalSize
    have restored : tree.restored.WellFormed := wellFormed.of_view rfl
    have unheld : ¬ tree.restored.Holds key := fun held => held.1 root
    -- with every later call granted too, the insertion does the same
    obtain ⟨enough, correct⟩ := insert_correct leafSize' internalSize' restored (fun _ => rfl) key value
    obtain ⟨answer, after, ran, -, stored, -, sound⟩ := correct enough le_rfl
    have alone : insert enough key value tree.restored = _ := run_insert_empty empty rfl
    rw [alone, Option.some.injEq, Prod.mk.injEq] at ran
    obtain ⟨rfl, rfl⟩ := ran
    obtain ⟨own, others⟩ := stored unheld
    refine ⟨true, _, run_insert_empty empty granted,
      ⟨others, (own (some value)).trans (by simp), fun valid => ?_⟩, ?_⟩
    · obtain ⟨height, wellFormedAt⟩ := sound.rooted valid
      exact wellFormedAt.notOverfull
    · apply inside_update_iff
      rcases LeafPage.insert_fields (LeafPage.init (erased (tree.data tree.nextPageId)) tree.leafMaxSize) key value with
        ⟨found, -⟩ | ⟨leaf, -, inserted, -, -, -, -, written⟩
      · exact absurd rfl found
      · rw [inserted, written, Nat.max_le]
        exact and_iff_left (show LeafPage.slotOffset (0 + 1) ≤ pageSize by decide)

/-- What an insertion keeps with the calls it is granted, and with all that it needs, whether it stays on its pages. -/
theorem insert_supplied (leafSize : 2 ≤ tree.leafMaxSize) (internalSize : 3 ≤ tree.internalMaxSize)
    (wellFormed : tree.WellFormed) (key : K) (value : V) :
    ∃ enough, ∀ rounds ≥ enough, ∃ answer after, insert rounds key value tree = some (answer, after) ∧
      (tree.Keeps key value answer after ↔ tree.Supplied key) ∧
      (tree.Supplied key → (after.InsidePages ↔ tree.InsidePages ∧ tree.Fits key)) := by
  cases empty : tree.isEmpty with
  | true =>
    have root : tree.rootPageId = invalidPageId := by simpa [isEmpty] using empty
    refine ⟨0, fun rounds _ => ?_⟩
    obtain ⟨answer, after, ran, keeps, inside⟩ := keeps_of_empty leafSize internalSize wellFormed empty
    refine ⟨answer, after, ran, iff_of_true keeps fun height wellFormedAt => absurd root wellFormedAt.rootPageId_ne,
      fun _ => ?_⟩
    exact inside.trans (and_iff_left fun height wellFormedAt => absurd root wellFormedAt.rootPageId_ne).symm
  | false =>
    have rootedHere : tree.rootPageId ≠ invalidPageId := by simpa [isEmpty] using empty
    obtain ⟨height, wellFormedAt⟩ := wellFormed.rooted rootedHere
    obtain ⟨rooted, sub⟩ := wellFormedAt.rooted
    refine ⟨height + 1, fun rounds enough => ?_⟩
    obtain ⟨answer, after, ran, -, outcome⟩ :=
      short_insert (s := tree.supply) (key, value) rounds leafSize internalSize
      rfl rfl rooted sub (fun x inside => (wellFormedAt.allocated x inside).2) (by omega) tree trivial rfl
    refine ⟨answer, after, ran, ?_⟩
    have holds : (∃ v, StoredBelow tree.data tree.rootPageId key v) ↔
        KeyBelow tree.data height tree.rootPageId key :=
      exists_congr fun v => storedBelow_iff wellFormedAt.uniform
    rcases outcome with ⟨away, rfl, same⟩ | ⟨descended, absent, rfl, ends⟩
    · have turned (height' : ℕ) (wellFormedAt' : tree.WellFormedAt height')
          (descended : ∀ call ≤ height', tree.grants (tree.calls + call) = true)
          (unheld : ∀ v, ¬ StoredBelow tree.data tree.rootPageId key v) : False := by
        obtain rfl := wellFormedAt.height_unique leafSize internalSize wellFormedAt'
        rcases away with ⟨call, low, failed⟩ | held
        · exact absurd (descended call low) (by simp [show tree.grants (tree.calls + call) = false from failed])
        · obtain ⟨v, stored⟩ := holds.mpr held
          exact unheld v stored
      refine ⟨iff_of_true (keeps_unchanged leafSize internalSize wellFormedAt same)
        fun height' wellFormedAt' descended
        unheld => (turned height' wellFormedAt' descended unheld).elim, fun _ => ?_⟩
      have data : after.data = tree.data := congrArg View.data same
      rw [InsidePages, data]
      exact (and_iff_left fun height' wellFormedAt' descended unheld =>
        (turned height' wellFormedAt' descended unheld).elim).symm
    · rcases ends with ⟨needed, ⟨v', height', outcome, alike, root, -⟩, inside⟩ |
        ⟨⟨call, needed, refused⟩, damaged, root⟩
      · have valid : after.rootPageId ≠ invalidPageId := by
          have inside := outcome.pages v'.rootPageId (mem_pagesOf_self _ _ _)
          have low : 0 ≤ after.rootPageId := by
            rw [show after.rootPageId = v'.rootPageId from root]
            rcases inside with old | new
            · exact (wellFormedAt.allocated _ old).1
            · exact wellFormed.nextPageId.trans new.1
          intro invalid
          rw [invalid] at low
          exact absurd low (by decide)
        refine ⟨iff_of_true (keeps_of_outcome leafSize internalSize wellFormedAt absent outcome alike root valid) ?_,
          fun _ => inside.trans (and_congr_right fun _ => ⟨fun room => ?_, fun room => ?_⟩)⟩
        · intro height₁ wellFormedAt' _ _
          obtain rfl := wellFormedAt.height_unique leafSize internalSize wellFormedAt'
          exact needed
        · intro height₁ wellFormedAt' _ _
          obtain rfl := wellFormedAt.height_unique leafSize internalSize wellFormedAt'
          exact room
        · exact room height wellFormedAt descended fun v stored => absent (holds.mp ⟨v, stored⟩)
      · suffices unsupplied : ¬ tree.Supplied key from
          ⟨iff_of_false (not_keeps_of_damaged leafSize internalSize wellFormedAt absent damaged root) unsupplied,
            fun supplied => absurd supplied unsupplied⟩
        intro supplied
        have granted := supplied height wellFormedAt descended (fun v stored =>
          absent (holds.mp ⟨v, stored⟩)) call needed
        exact absurd granted (by
          rw [show tree.grants (tree.calls + (height + 1) + call) = false from refused]
          exact Bool.false_ne_true)

/-- Every way in which pages can be refused during `Insert`: afterwards other keys read as before, the key reads as
the answer says, no page is overfull and none was written past its end, exactly if none was before and a key that
has to be stored was granted every call its insertion needs, and room for every slot it stores. -/
theorem insert_keeps_iff (leafSize : 2 ≤ tree.leafMaxSize) (internalSize : 3 ≤ tree.internalMaxSize)
    (wellFormed : tree.WellFormed) (key : K) (value : V) :
    ∃ enough, ∀ rounds ≥ enough, ∃ answer after, insert rounds key value tree = some (answer, after) ∧
      (tree.Keeps key value answer after ∧ after.InsidePages ↔
        tree.InsidePages ∧ tree.Supplied key ∧ tree.Fits key) := by
  obtain ⟨enough, ends⟩ := insert_supplied leafSize internalSize wellFormed key value
  refine ⟨enough, fun rounds many => ?_⟩
  obtain ⟨answer, after, ran, keeps, inside⟩ := ends rounds many
  refine ⟨answer, after, ran, ?_⟩
  rw [keeps]
  constructor
  · rintro ⟨supplied, within⟩
    obtain ⟨before, room⟩ := (inside supplied).mp within
    exact ⟨before, supplied, room⟩
  · rintro ⟨before, supplied, room⟩
    exact ⟨supplied, (inside supplied).mpr ⟨before, room⟩⟩

omit [Inhabited K] [Inhabited V] in
theorem supplied_of_granted (granted : tree.Granted) (key : K) : tree.Supplied key :=
  fun _ _ _ _ _ _ => granted _

/-- With every page granted, `Insert` does what it should and writes no page past its end, exactly if none was
before and a new key finds room for the slots it stores. -/
theorem insert_correct_iff (leafSize : 2 ≤ tree.leafMaxSize) (internalSize : 3 ≤ tree.internalMaxSize)
    (wellFormed : tree.WellFormed) (granted : tree.Granted) (key : K) (value : V) :
    ∃ enough, ∀ rounds ≥ enough, ∃ result after, insert rounds key value tree = some (result, after) ∧
      ((result = true ↔ ¬ tree.Holds key) ∧
        (¬ tree.Holds key → (∀ answer, after.Returns key answer ↔ answer = some value) ∧
          ∀ other ≠ key, ∀ answer, after.Returns other answer ↔ tree.Returns other answer) ∧
        (tree.Holds key → after.view = tree.view) ∧ after.WellFormed ∧ after.InsidePages ↔
          tree.InsidePages ∧ tree.Fits key) := by
  obtain ⟨enough, correct⟩ := insert_correct leafSize internalSize wellFormed granted key value
  obtain ⟨enough', ends⟩ := insert_supplied leafSize internalSize wellFormed key value
  refine ⟨max enough enough', fun rounds many => ?_⟩
  obtain ⟨result, after, ran, answers, stored, unchanged, sound⟩ := correct rounds ((le_max_left _ _).trans many)
  obtain ⟨result', after', ran', -, inside⟩ := ends rounds ((le_max_right _ _).trans many)
  obtain ⟨rfl, rfl⟩ := Prod.mk.inj (Option.some.inj (ran'.symm.trans ran))
  refine ⟨result', after', ran, ?_⟩
  rw [← inside (supplied_of_granted granted key)]
  exact ⟨fun all => all.2.2.2.2, fun within => ⟨answers, stored, unchanged, sound, within⟩⟩

end Keeps

section Room

/-- A root leaf with as many entries as the default size has it. -/
def fullLeaf : BPlusTree ℕ ℕ :=
  { (construct 0 0 fun _ => true : BPlusTree ℕ ℕ) with
    data := Function.update (fun _ => zeroed) 0
      { (LeafPage.init zeroed 339 : BPlusTreePage ℕ ℕ) with
        size := 339
        leafArray := fun i => (i, 0)
        written := LeafPage.slotOffset 339 }
    nextPageId := 1
    rootPageId := 0 }

theorem fullLeaf_wellFormedAt : fullLeaf.WellFormedAt 0 := by
  have sorted : (fullLeaf.data 0).entries.Pairwise fun a b => a.1 < b.1 := by
    rw [entries, ArrayLoops.slice, List.pairwise_map]
    exact List.pairwise_lt_range.imp id
  refine wellFormedAt_of_rooted (by decide) (by decide) ⟨⟨rfl, rfl, sorted⟩, ?_, ?_, rfl, ?_, ?_⟩
    trivial trivial ?_
  · decide
  · decide
  · exact List.nodup_singleton _
  · unfold LeafChain
    decide
  · intro q inside
    obtain rfl := List.mem_singleton.mp inside
    decide

theorem fullLeaf_wellFormed : fullLeaf.WellFormed := ⟨by decide, fun _ => ⟨0, fullLeaf_wellFormedAt⟩⟩

theorem fullLeaf_inside : fullLeaf.InsidePages := by
  intro p
  by_cases root : p = 0
  · rw [root]
    decide
  · rw [fullLeaf]
    simp only [Function.update_of_ne root]
    exact Nat.zero_le _

theorem fullLeaf_absent : ¬ fullLeaf.Holds 339 := by
  rw [fullLeaf_wellFormedAt.holds_iff]
  rintro ⟨value, stored⟩
  have member : (339, value) ∈ (List.range 339).map fun i => (i, 0) := stored
  obtain ⟨i, inRange, same⟩ := List.mem_map.mp member
  exact absurd ((Prod.mk.inj same).1 ▸ List.mem_range.mp inRange) (lt_irrefl 339)

/-- One more key goes four bytes past the page. -/
theorem insert_past_the_page : fullLeaf.WellFormed ∧ fullLeaf.Granted ∧ fullLeaf.InsidePages ∧
    (fullLeaf.leafMaxSize, fullLeaf.internalMaxSize) = (339, 510) ∧
    ∃ enough, ∀ rounds ≥ enough, ∃ answer after,
      insert rounds 339 0 fullLeaf = some (answer, after) ∧ ¬ after.InsidePages := by
  obtain ⟨enough, ends⟩ := insert_supplied (by decide) (by decide) fullLeaf_wellFormed 339 0
  refine ⟨fullLeaf_wellFormed, fun _ => rfl, fullLeaf_inside, by decide, enough, fun rounds many => ?_⟩
  obtain ⟨answer, after, ran, -, inside⟩ := ends rounds many
  refine ⟨answer, after, ran, fun within => ?_⟩
  have room := ((inside (supplied_of_granted (fun _ => rfl) 339)).mp within).2 0 fullLeaf_wellFormedAt (fun _ _ => rfl)
    fun value stored => fullLeaf_absent ⟨by decide, value, stored⟩
  exact absurd room (show ¬ LeafPage.slotOffset (339 + 1) ≤ pageSize by decide)

theorem insert_correct_iff_fullTree :
    fullTree.WellFormed ∧ fullTree.Granted ∧
      ∃ enough, ∀ rounds ≥ enough, ∃ result after, insert rounds 2 20 fullTree = some (result, after) ∧
        ((result = true ↔ ¬ fullTree.Holds 2) ∧
          (¬ fullTree.Holds 2 → (∀ answer, after.Returns 2 answer ↔ answer = some 20) ∧
            ∀ other ≠ 2, ∀ answer, after.Returns other answer ↔ fullTree.Returns other answer) ∧
          (fullTree.Holds 2 → after.view = fullTree.view) ∧ after.WellFormed ∧ after.InsidePages ↔
            fullTree.InsidePages ∧ fullTree.Fits 2) :=
  ⟨fullTree_wellFormed, fun _ => rfl,
    insert_correct_iff (by decide) (by decide) fullTree_wellFormed (fun _ => rfl) 2 20⟩

end Room

section Refused

omit [Inhabited K] [Inhabited V] in
/-- More rounds change no descent that has ended. -/
theorem descend_more {key : K} {rounds more : ℕ} (enough : rounds ≤ more) {p : PageId} {tree : BPlusTree K V}
    {result : Option PageId × BPlusTree K V} (ran : descend key rounds p tree = some result) :
    descend key more p tree = some result := by
  induction rounds generalizing p tree more with
  | zero => cases ran
  | succ rounds ih =>
    obtain ⟨more, rfl⟩ := Nat.exists_eq_succ_of_ne_zero (Nat.ne_zero_of_lt enough)
    rw [descend, run_bind, run_page, Option.bind_some, run_ite] at ran ⊢
    split
    · next leaf => rwa [if_pos leaf] at ran
    · next internal =>
      rw [if_neg internal] at ran
      simp only [run_bind, run_unpinPage, Option.bind_some, run_fetchPage] at ran ⊢
      split
      · next granted =>
        rw [if_pos granted] at ran
        simp only [Option.bind_some, if_true] at ran ⊢
        exact ih (Nat.le_of_succ_le_succ enough) ran
      · next refused => rwa [if_neg refused] at ran

omit [Inhabited K] [Inhabited V] in
/-- One run of `GetValue` that ends tells what it returns. -/
theorem returns_of_run {key : K} {rounds : ℕ} {tree : BPlusTree K V} {result : Option V}
    (ran : (getValue rounds key tree).map Prod.fst = some result) : tree.Returns key result := by
  obtain ⟨⟨answer, after⟩, found, rfl⟩ := Option.map_eq_some_iff.mp ran
  refine ⟨rounds, fun more enough => ⟨after, ?_⟩⟩
  rw [getValue, run_bind, run_get, Option.bind_some, run_ite] at found ⊢
  split
  · next empty => rwa [if_pos empty] at found
  · next rooted =>
    rw [if_neg rooted] at found
    simp only [run_bind, run_fetchPage] at found ⊢
    split
    · next granted =>
      rw [if_pos granted] at found
      simp only [Option.bind_some, if_true, run_bind] at found ⊢
      obtain ⟨reached, descended, rest⟩ := Option.bind_eq_some_iff.mp found
      rw [descend_more enough descended]
      exact rest
    · next refused => rwa [if_neg refused] at found

omit [Inhabited K] [Inhabited V] in
theorem Returns.unique {tree : BPlusTree K V} {key : K} {a b : Option V} (first : tree.Returns key a)
    (second : tree.Returns key b) : a = b := by
  obtain ⟨enough, all⟩ := first
  obtain ⟨enough', all'⟩ := second
  obtain ⟨_, one⟩ := all (enough + enough') (Nat.le_add_right _ _)
  obtain ⟨_, other⟩ := all' (enough + enough') (Nat.le_add_left _ _)
  rw [one] at other
  exact (Prod.mk.inj (Option.some.inj other)).1

/-- The full tree with the fetch of the parent refused, after the leaf of 1 has been split. -/
def shortTree : BPlusTree ℕ ℕ := { fullTree with grants := fun call => call ≠ 3 }

theorem shortTree_wellFormed : shortTree.WellFormed := fullTree_wellFormed.of_view rfl

/-- `Insert` answers `true`, and the key 3 that was there before is gone. -/
theorem insert_loses_key : shortTree.WellFormed ∧ ∃ after, insert 2 2 20 shortTree = some (true, after) ∧
    shortTree.restored.Returns 3 (some 30) ∧ after.restored.Returns 3 none ∧
    ¬ shortTree.Keeps 2 20 true after := by
  have ends : (insert 2 2 20 shortTree).map
      (fun result => (result.1, (getValue 3 3 result.2.restored).map Prod.fst)) = some (true, some none) := by
    decide +kernel
  obtain ⟨⟨answer, after⟩, ran, read⟩ := Option.map_eq_some_iff.mp ends
  obtain ⟨rfl, gone⟩ := Prod.mk.inj read
  have before : shortTree.restored.Returns 3 (some 30) :=
    returns_of_run (show (getValue 3 3 shortTree.restored).map Prod.fst = some (some 30) by decide +kernel)
  have lost := returns_of_run gone
  refine ⟨shortTree_wellFormed, after, ran, before, lost, fun keeps => ?_⟩
  have found := (keeps.others 3 (by decide) (some 30)).mpr before
  exact absurd (found.unique lost) (by decide)

theorem insert_keeps_iff_shortTree : shortTree.WellFormed ∧
    ∃ enough, ∀ rounds ≥ enough, ∃ answer after, insert rounds 2 20 shortTree = some (answer, after) ∧
      (shortTree.Keeps 2 20 answer after ∧ after.InsidePages ↔
        shortTree.InsidePages ∧ shortTree.Supplied 2 ∧ shortTree.Fits 2) :=
  ⟨shortTree_wellFormed, insert_keeps_iff (by decide) (by decide) shortTree_wellFormed 2 20⟩

end Refused

end OneBase.BPlusTree
