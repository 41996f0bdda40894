import OneBase.Proofs.BPlusTree.Shortage

/-! # Inserting while pages are short

The walk up of an insertion whose calls may be refused. A subtree takes the entry in or comes out in
two halves as it would otherwise, up to parent pointers nothing reads again, as long as the calls it
needs are granted; with the first one refused it is damaged, and that is all that is left to do.
-/

namespace OneBase

open BPlusTreePage Separators PageStore ListEdits ObservedRuns

variable {K V : Type} [LinearOrder K]

namespace PageStore

theorem hangCall_zero (internalMaxSize : ℕ) : hangCall internalMaxSize 0 = 1 := by
  rw [hangCall, Nat.zero_mul]

theorem hangCall_succ (internalMaxSize height : ℕ) : hangCall internalMaxSize (height + 1) =
    hangCall internalMaxSize height + (2 + (internalMaxSize + 1 - (internalMaxSize + 1) / 2)) := by
  rw [hangCall, hangCall, Nat.succ_mul]
  omega

end PageStore

namespace BPlusTree

variable [Inhabited K] [Inhabited V] {leafMax internalMax : ℕ} {entry : K × V} {height rounds : ℕ}

/-- The observation after an insertion: other pages, ids handed out, and some number of calls. -/
def Supply.later (s : Supply K V) (d : PageStore K V) (next : PageId) (calls : ℕ) : Supply K V :=
  ⟨{ s.view with data := d, nextPageId := next }, s.grants, calls⟩

/-- Inserting into a subtree while pages are short: it takes the entry in, it comes out in two halves, or
a call it needed was refused. -/
def Climbs (leafMax internalMax rounds : ℕ) (entry : K × V) (height : ℕ) : Prop :=
  ∀ (s : Supply K V) (p : PageId) (Q : Bool → Supply K V → Prop),
    s.view.leafMaxSize = leafMax → s.view.internalMaxSize = internalMax →
    Subtree leafMax internalMax s.view.data height p → 1 ≤ (s.view.data p).size →
    (s.view.data p).size ≤ maxFill leafMax internalMax height →
    (∀ q ∈ pagesOf s.view.data height p, q < s.view.nextPageId) →
    (∀ e ∈ (s.view.data (route s.view.data entry.1 height p)).entries, e.1 ≠ entry.1) →
    (∀ d' d'' next calls, s.view.nextPageId ≤ next → spills s.view.data entry.1 height p = false →
      (∀ call ∈ PageStore.neededCalls s.view.data internalMax entry.1 height p,
        s.grants (s.calls + call) = true) →
      Inserted leafMax internalMax (Between s.view.nextPageId next) entry s.view.data d' height p →
      Strays (Outer s.view.data height p (Between s.view.nextPageId next) [p]) d' d'' →
      (Inside d'' ↔ Inside s.view.data ∧ fits s.view.data entry.1 height p) →
      (s.view.data p).size ≤ (d' p).size → (d' p).size ≤ maxFill leafMax internalMax height →
      Q true (s.later d'' next calls)) →
    (∀ d' d'' next mid q, s.view.nextPageId ≤ next → spills s.view.data entry.1 height p = true →
      (∀ call ∈ PageStore.neededCalls s.view.data internalMax entry.1 height p,
        s.grants (s.calls + call) = true) →
      SplitOff leafMax internalMax (Between s.view.nextPageId next) [] [entry] s.view.data d' height p mid q →
      Strays (Outer s.view.data height p (Between s.view.nextPageId next) [p, q]) d' d'' →
      (Inside d'' ↔ Inside s.view.data ∧ fits s.view.data entry.1 height p) →
      ShortRuns (hang (insertIntoParent (rounds - height)) internalMax p mid q >>= fun _ => pure true)
        (s.later d'' next (s.calls + hangCall internalMax height)) Q) →
    (∀ d'' next calls, s.view.nextPageId ≤ next →
      (∃ call ∈ PageStore.neededCalls s.view.data internalMax entry.1 height p,
        s.grants (s.calls + call) = false) →
      Damaged leafMax internalMax entry s.view.data d'' height p →
      (∀ x, Outer s.view.data height p (Between s.view.nextPageId next) [] x → d'' x = s.view.data x) →
      Q true (s.later d'' next calls)) →
    ShortRuns (insertTail rounds entry.1 entry.2 (route s.view.data entry.1 height p)) s Q

theorem climbs_zero (leafSize : 2 ≤ leafMax) : Climbs leafMax internalMax rounds entry 0 := by
  intro s p Q leafMaxSize internalMaxSize sub positive high allocated absent settled up broken
  rw [route] at absent
  have shaped := sub.shaped
  have stale : s.view.nextPageId ≠ p := (allocated p (mem_pagesOf_self _ _ _)).ne'
  obtain ⟨inserted, capacity, size, grown⟩ :=
    inserted_leaf (Between s.view.nextPageId (s.view.nextPageId + 1)) shaped absent
  have high : (s.view.data p).size ≤ leafMax := high
  have written : Inside (Function.update s.view.data p (LeafPage.insert (s.view.data p) entry.1 entry.2).1) ↔
      Inside s.view.data ∧ fits s.view.data entry.1 0 p := by
    apply inside_update_max
    rcases LeafPage.insert_fields (s.view.data p) entry.1 entry.2 with
      ⟨-, stays⟩ | ⟨page, -, added, -, -, -, -, grows⟩
    · rw [stays] at size
      exact absurd size (Nat.succ_ne_self _).symm
    · rw [added]
      exact grows
  rw [insertTail, route]
  apply short_page
  apply short_writePage
  rw [if_neg (by omega)]
  by_cases above : leafMax < (s.view.data p).size + 1
  · have full : isFull (s.view.data p) = true := by
      simp only [isFull, shaped.2.1, decide_eq_true_eq]
      omega
    rw [if_pos (by omega)]
    refine short_split stale ?_ ?_
    · intro refused
      apply RunsTo.pure
      refine broken _ s.view.nextPageId _ le_rfl ⟨0, by simp [PageStore.neededCalls, full], refused⟩
        (.inr ⟨p, .refl, ?_⟩) ?_
      · rw [Function.update_self]
        omega
      · rintro x (top | ⟨outside, -⟩)
        · simp at top
        · exact Function.update_of_ne (by simpa [pagesOf] using outside) _ _
    · intro granted kept moved halves
      change LeafPage.moveHalfTo _ (LeafPage.init (erased _) s.view.leafMaxSize) = _ at halves
      rw [leafMaxSize] at halves
      have shapedAfter := (inserted.node.rewritten entry.1).shaped _ (List.mem_singleton_self _)
      have split := SplitOff.after inserted.node ((leaf_halves leafSize shapedAfter (by simp; omega) stale halves).mono
        fun q (same : q = s.view.nextPageId) => by
          subst same
          exact ⟨le_rfl, Int.lt_succ _⟩)
      change ShortRuns (hang _ s.view.internalMaxSize _ _ _ >>= _) _ _
      rw [internalMaxSize]
      have hung := up _ _ _ _ _ (Int.lt_succ _).le full (by simpa [PageStore.neededCalls, full] using granted) split
        (Strays.refl _ _) (inside_leafHalves stale written (fun room => by rw [Function.update_self, size]; exact room)
          halves rfl)
      rw [hangCall_zero] at hung
      exact hung
  · have room : isFull (s.view.data p) = false := by
      simp only [isFull, shaped.2.1, decide_eq_false_iff_not]
      omega
    rw [if_neg (by omega)]
    apply short_unpinPage
    apply RunsTo.pure
    apply settled _ _ s.view.nextPageId _ le_rfl room ?_ (inserted_leaf _ shaped absent).1 (Strays.refl _ _) written
    · rw [Function.update_self]
      omega
    · rw [Function.update_self]
      exact size.le.trans (not_lt.mp above)
    · simp [PageStore.neededCalls, room]

section Parent

variable {β : Type} {w : Supply K V} {d d' : PageStore K V} {p q base : PageId} {front back : List (K × PageId)}
  {link : K × PageId} {mid : K} {f : Unit → TreeM K V β} {R : β → Supply K V → Prop}
  (leafSize : 2 ≤ leafMax) (internalSize : 3 ≤ internalMax)

include leafSize internalSize

/-- An overfull internal page comes out of `SplitInternal` in two halves, or stays as it is. -/
theorem short_splitInternal_halves {s : Supply K V} {next : PageId → PageId → K → PageId → TreeM K V Unit}
    {exact : PageId → Prop} (internalMaxSize : s.view.internalMaxSize = internalMax)
    (strays : Strays exact d s.view.data) (here : exact p)
    (shaped : Shaped leafMax internalMax d (height + 1) p) (separated : Separated d (height + 1) p)
    (parented : Parented d (height + 1) p) (distinct : (pagesOf d (height + 1) p).Nodup)
    (above : (d p).size = internalMax + 1) (unused : s.view.nextPageId ∉ pagesOf d (height + 1) p)
    (refused : s.grants s.calls = false → ShortRuns (f ()) (s.passed 1) R)
    (granted : s.grants s.calls = true → ∀ d₁ d₂ mid,
      SplitOff leafMax internalMax (· = s.view.nextPageId) [] [] d d₁ (height + 1) p mid s.view.nextPageId →
      Strays (fun x => x = s.view.nextPageId ∨ x = p ∨ x ∉ pagesOf d (height + 1) p ∧ exact x) d₁ d₂ →
      (∀ old room : Prop, (Inside s.view.data ↔ old ∧ room) →
        (room → InternalPage.slotOffset (internalMax + 1) ≤ pageSize) → (Inside d₂ ↔ old ∧ room)) →
      ShortRuns (hang next internalMax p mid s.view.nextPageId >>= f)
        ((s.passed (1 + (internalMax + 1 - (internalMax + 1) / 2))).allocated.store d₂) R) :
    ShortRuns (splitInternal next p >>= f) s R := by
  have top : s.view.data p = d p := strays.same p here
  have other : s.view.nextPageId ≠ p := fun same => unused (by
    rw [same]
    exact mem_pagesOf_self _ _ _)
  refine short_splitInternal other refused ?_
  intro answer kept moved halves ids included
  rw [top, internalMaxSize] at halves
  have size : moved.size = internalMax + 1 - (internalMax + 1) / 2 := by
    rw [show moved = _ from (congrArg Prod.snd halves).symm]
    simp only [InternalPage.moveHalfTo, above]
    omega
  have fromPage : moved.children ⊆ (d p).children := by
    rw [show moved = _ from (congrArg Prod.snd halves).symm]
    exact InternalPage.moveHalfTo_children _ _ _ (by omega)
  have below : ∀ c ∈ (d p).children, c ∈ pagesOf d (height + 1) p ∧ c ≠ p := by
    intro c child
    obtain ⟨link, member, rfl⟩ := mem_children.mp child
    have inside : link.2 ∈ pagesIn d height (d p).links := mem_pagesIn_of_mem member
    rw [pagesOf_succ, List.nodup_cons] at distinct
    refine ⟨pagesOf_of_mem_links member (mem_pagesOf_self _ _ _), fun same => distinct.1 ?_⟩
    rwa [same] at inside
  rw [top, internalMaxSize, size]
  apply granted answer _ _ _ (internal_halves leafSize internalSize shaped separated parented distinct above
    unused halves)
  swap
  · intro old room inside covers
    rw [← top] at halves above
    exact inside_internalHalves other inside (fun fits => above ▸ covers fits) (by omega) halves rfl ids
  apply (((strays.write p kept).write s.view.nextPageId moved).adopt included s.view.nextPageId).mono
  rintro x (rfl | rfl | ⟨outside, kept⟩)
  · exact ⟨fun child => unused (below _ (fromPage child)).1, .inl rfl⟩
  · exact ⟨fun child => (below _ (fromPage child)).2 rfl, .inr (.inl rfl)⟩
  · exact ⟨fun child => outside (below _ (fromPage child)).1, .inr (.inr kept)⟩

/-- The walk up comes to a parent. -/
theorem short_hang_child (internalMaxSize : w.view.internalMaxSize = internalMax)
    (sub : Subtree leafMax internalMax d (height + 1) p) (high : (d p).size ≤ internalMax)
    (allocated : ∀ x ∈ pagesOf d (height + 1) p, x < base) (grown : base ≤ w.view.nextPageId)
    (cut : (d p).links = front ++ ([link] ++ back))
    (routes : Within (lowKey front link.1) (headKey back none) entry.1)
    (split : SplitOff leafMax internalMax (Between base w.view.nextPageId) [] [entry] d d' height link.2 mid q)
    (strays : Strays (Outer d height link.2 (Between base w.view.nextPageId) [link.2, q]) d' w.view.data)
    {old room : Prop} (inside : Inside w.view.data ↔ old ∧ room)
    (lost : w.grants w.calls = false → ∀ d'', (∀ x, Alike (d'' x) (d' x)) →
      (∀ x, Outer d height link.2 (Between base w.view.nextPageId) [] x → d'' x = d x) →
      ShortRuns (f ()) ((w.passed 1).store d'') R)
    (settled : w.grants w.calls = true → isFull (d p) = false → ∀ d₁ d₂,
      Inserted leafMax internalMax (Between base w.view.nextPageId) entry d d₁ (height + 1) p →
      Strays (Outer d (height + 1) p (Between base w.view.nextPageId) [p]) d₁ d₂ →
      (Inside d₂ ↔ old ∧ room ∧ InternalPage.slotOffset ((d p).size + 1) ≤ pageSize) →
      (d p).size ≤ (d₁ p).size → (d₁ p).size ≤ internalMax → ShortRuns (f ()) ((w.passed 1).store d₂) R)
    (above : w.grants w.calls = true → isFull (d p) = true → w.grants (w.calls + 1) = false → ∀ d'',
      Overfull d'' p → (∀ x, Outer d (height + 1) p (Between base w.view.nextPageId) [] x → d'' x = d x) →
      ShortRuns (f ()) ((w.passed 2).store d'') R)
    (up : w.grants w.calls = true → isFull (d p) = true → w.grants (w.calls + 1) = true → ∀ d₁ d₂ mid',
      SplitOff leafMax internalMax (Between base (w.view.nextPageId + 1)) [] [entry] d d₁ (height + 1) p mid'
        w.view.nextPageId →
      Strays (Outer d (height + 1) p (Between base (w.view.nextPageId + 1)) [p, w.view.nextPageId]) d₁ d₂ →
      (Inside d₂ ↔ old ∧ room ∧ InternalPage.slotOffset ((d p).size + 1) ≤ pageSize) →
      ShortRuns (hang (insertIntoParent rounds) internalMax p mid' w.view.nextPageId >>= f)
        ((w.passed (2 + (internalMax + 1 - (internalMax + 1) / 2))).allocated.store d₂) R) :
    ShortRuns (hang (insertIntoParent (rounds + 1)) internalMax link.2 mid q >>= f) w R := by
  have member : link ∈ (d p).links := by simp [cut]
  have parent : (w.view.data link.2).parentPageId = p := by
    rw [strays.same link.2 (.inl (by simp))]
    exact split.parentPageId.trans (sub.child_parent member)
  have valid : p ≠ invalidPageId := sub.valid p (mem_pagesOf_self _ _ _)
  have stale : ∀ x ∈ pagesOf d (height + 1) p, ¬ Between base w.view.nextPageId x :=
    fun x inside between => absurd (allocated x inside) (not_lt.mpr between.1)
  obtain ⟨inserted, -⟩ := inserted_of_split sub cut stale routes (split.hang p) (by simp [setParentPageId])
  have half : w.view.data q = d' q := strays.same q (.inl (by simp))
  have hung := strays.write q ((d' q).setParentPageId p)
  have right := split.right
  -- what the walk does not touch
  have outside (x : PageId) (outer : Outer d (height + 1) p (Between base w.view.nextPageId) [] x) :
      Outer d height link.2 (Between base w.view.nextPageId) [] x := by
    apply outer.imp id
    rintro ⟨other, notFresh⟩
    exact ⟨fun inside => other (pagesOf_of_mem_links member inside), notFresh⟩
  have frame (x : PageId) (outer : Outer d height link.2 (Between base w.view.nextPageId) [] x) :
      Function.update w.view.data q ((d' q).setParentPageId p) x = d x := by
    obtain ⟨other, notFresh⟩ := outer.resolve_left (List.not_mem_nil)
    have notRight : x ≠ q := by
      rintro rfl
      exact right.elim other notFresh
    rw [Function.update_of_ne notRight, strays.same x (.inr ⟨other, notFresh⟩)]
    exact (split.rewritten mid).frame x (by simpa using other) notFresh
  rw [hang]
  simp only [bind_assoc]
  apply short_page
  rw [if_neg (by simpa [isRootPage, parent] using valid)]
  simp only [bind_assoc]
  apply short_page
  apply short_page
  apply short_writePage
  apply short_unpinPage
  apply short_unpinPage
  rw [parent, half, insertIntoParent, bind_assoc]
  apply short_fetchPage
  cases answer : w.grants w.calls with
  | false =>
    change ShortRuns ((if w.grants w.calls = true then _ else _) >>= f) _ R
    rw [answer]
    exact lost answer _ (fun x => (hung.alike x).trans (alike_reparented d' q p x)) frame
  | true =>
    change ShortRuns ((if w.grants w.calls = true then _ else _) >>= f) _ R
    rw [answer]
    simp only [↓reduceIte, bind_assoc]
    have atTop : Function.update w.view.data q ((d' q).setParentPageId p) p = d p := by
      apply frame
      exact .inr ⟨fun inside => sub.top_not_mem (mem_pagesIn.mpr ⟨link, member, inside⟩),
        stale p (mem_pagesOf_self _ _ _)⟩
    apply short_page
    apply short_writePage
    simp only [Supply.passed_view, Supply.store_data, atTop]
    have size : (InternalPage.insertNodeAfter (d p) link.2 mid q).1.size = (d p).size + 1 := rfl
    have capacity : (InternalPage.insertNodeAfter (d p) link.2 mid q).1.maxSize = internalMax := sub.shaped.2.1
    have settles := hung.write p (InternalPage.insertNodeAfter (d p) link.2 mid q).1
    have stored : Inside (Function.update (Function.update w.view.data q ((d' q).setParentPageId p)) p
        (InternalPage.insertNodeAfter (d p) link.2 mid q).1) ↔
          old ∧ room ∧ InternalPage.slotOffset ((d p).size + 1) ≤ pageSize := by
      have grown : (InternalPage.insertNodeAfter (d p) link.2 mid q).1.written =
          max (Function.update w.view.data q ((d' q).setParentPageId p) p).written
            (InternalPage.slotOffset ((d p).size + 1)) := by
        rw [atTop]
        exact InternalPage.insertNodeAfter_written (d p) link.2 mid q
      rw [inside_update_max grown, inside_update_iff (by rw [half]; rfl), inside, and_assoc]
    simp only [size, capacity]
    cases full : isFull (d p) with
    | true =>
      have bound : internalMax ≤ (d p).size := by simpa [isFull, sub.shaped.2.1] using full
      rw [if_pos (by omega)]
      obtain ⟨-, pages, distinct, shaped, -⟩ := inserted.node.rewritten entry.1
      simp only [pagesIn_cons, pagesIn_nil, List.append_nil] at pages distinct
      refine short_splitInternal_halves leafSize internalSize internalMaxSize settles (.inl rfl)
        (shaped _ (List.mem_singleton_self _)) inserted.separated inserted.parented distinct
        (by rw [Function.update_self, size]; omega) ?_ ?_ ?_
      · intro inside
        rcases pages _ inside with old | new
        · exact absurd (allocated _ old) (not_lt.mpr grown)
        · exact lt_irrefl _ new.2
      · intro refused
        have left := above answer full refused (Function.update (Function.update w.view.data q
          ((d' q).setParentPageId p)) p (InternalPage.insertNodeAfter (d p) link.2 mid q).1) ⟨p, .refl, ?_⟩ ?_
        · simpa using left
        · rw [Function.update_self]
          omega
        · intro x outer
          obtain ⟨other, -⟩ := outer.resolve_left List.not_mem_nil
          have notTop : x ≠ p := by
            rintro rfl
            exact other (mem_pagesOf_self d _ x)
          rw [Function.update_of_ne notTop, frame x (outside x outer)]
      · intro granted d₁ d₂ mid' halves kept inside'
        have earlier : ∀ x, Between base w.view.nextPageId x → Between base (w.view.nextPageId + 1) x :=
          fun x between => ⟨between.1, between.2.trans (Int.lt_succ _)⟩
        have last : ∀ x, x = w.view.nextPageId → Between base (w.view.nextPageId + 1) x := by
          rintro x rfl
          exact ⟨grown, Int.lt_succ _⟩
        have split' := SplitOff.after (inserted.node.mono earlier) (halves.mono last)
        have written := inside' old (room ∧ InternalPage.slotOffset ((d p).size + 1) ≤ pageSize) stored
          fun fits => by
          rw [show internalMax = (d p).size by omega]
          exact fits.2
        have risen := up answer full granted d₁ d₂ mid' split' (kept.mono ?_) written
        · rw [show 2 + (internalMax + 1 - (internalMax + 1) / 2) = 1 + (1 + (internalMax + 1 - (internalMax + 1) / 2))
            by omega] at risen
          simpa using risen
        · rintro x (top | ⟨other, notFresh⟩)
          · simp only [List.mem_cons, List.not_mem_nil, or_false] at top
            exact top.elim (fun isTop => .inr (.inl isTop)) .inl
          · refine .inr (.inr ⟨fun inside => ?_, .inr (.inr (.inr ⟨fun inside => ?_, fun between => ?_⟩))⟩)
            · exact (pages x inside).elim other fun between => notFresh (earlier x between)
            · exact other (pagesOf_of_mem_links member inside)
            · exact notFresh (earlier x between)
    | false =>
      have bound : (d p).size < internalMax := by simpa [isFull, sub.shaped.2.1] using full
      rw [if_neg (by omega)]
      apply short_unpinPage
      apply settled answer full _ _ inserted
      · apply settles.mono
        rintro x (top | ⟨other, notFresh⟩)
        · exact .inl (by simpa using top)
        · exact .inr (.inr (.inr ⟨fun inside => other (pagesOf_of_mem_links member inside), notFresh⟩))
      · exact stored
      · rw [Function.update_self, size]
        exact Nat.le_succ _
      · rw [Function.update_self, size]
        exact bound

/-- One level further up. -/
theorem climbs_succ (climbs : Climbs leafMax internalMax rounds entry height) (enough : height < rounds) :
    Climbs leafMax internalMax rounds entry (height + 1) := by
  intro s p Q leafMaxSize internalMaxSize sub positive high allocated absent settled up broken
  obtain ⟨front, link, back, cut, found, routes, -⟩ :=
    lookup_route leafSize internalSize sub.shaped sub.separated positive entry.1
  have member : link ∈ (s.view.data p).links := by simp [cut]
  obtain ⟨low, fits⟩ := sub.child_filled member
  have stale (next : PageId) : ∀ x ∈ pagesOf s.view.data (height + 1) p, ¬ Between s.view.nextPageId next x :=
    fun x inside between => absurd (allocated x inside) (not_lt.mpr between.1)
  have below {x : PageId} (outside : x ∉ pagesOf s.view.data (height + 1) p) :
      x ∉ pagesOf s.view.data height link.2 := fun inside => outside (pagesOf_of_mem_links member inside)
  have notTop : p ∉ pagesOf s.view.data height link.2 :=
    fun inside => sub.top_not_mem (mem_pagesIn.mpr ⟨link, member, inside⟩)
  have outward (d'' : PageStore K V) (next : PageId)
      (frame : ∀ x, Outer s.view.data height link.2 (Between s.view.nextPageId next) [] x → d'' x = s.view.data x) :
      ∀ x, Outer s.view.data (height + 1) p (Between s.view.nextPageId next) [] x → d'' x = s.view.data x := by
    intro x outer
    obtain ⟨outside, notFresh⟩ := outer.resolve_left List.not_mem_nil
    exact frame x (.inr ⟨below outside, notFresh⟩)
  -- damage to the child, seen from here
  have damages (d'' : PageStore K V) (next : PageId)
      (frame : ∀ x, Outer s.view.data height link.2 (Between s.view.nextPageId next) [] x → d'' x = s.view.data x)
      (damaged : Damaged leafMax internalMax entry s.view.data d'' height link.2) :
      Damaged leafMax internalMax entry s.view.data d'' (height + 1) p :=
    damaged.above leafSize internalSize sub positive member found
      fun x inside outside => frame x (.inr ⟨outside, stale next x inside⟩)
  rw [route, found] at absent ⊢
  simp only [spills, PageStore.fits, PageStore.neededCalls, found] at settled up broken
  refine climbs s link.2 Q leafMaxSize internalMaxSize (sub.child member)
    ((minFill_pos leafSize internalSize height).trans low) fits
    (fun x inside => allocated x (pagesOf_of_mem_links member inside)) absent ?_ ?_ ?_
  · intro d' d'' next calls grown kept needed inserted strays written larger smaller
    obtain ⟨above, top⟩ := inserted.settle sub cut (stale next) routes ⟨low.trans larger, smaller⟩
    simp only [kept, Bool.and_false, Bool.false_eq_true, if_false, List.append_nil, false_implies,
      and_true] at settled
    apply settled d' d'' next calls grown trivial needed above (strays.mono ?_) written (by rw [top])
      (by rw [top]; exact high)
    rintro x (isTop | ⟨outside, notFresh⟩)
    · obtain rfl := List.mem_singleton.mp isTop
      exact .inr ⟨notTop, stale next x (mem_pagesOf_self _ _ _)⟩
    · exact .inr ⟨below outside, notFresh⟩
  · intro d' d'' next mid q grown spilled needed split strays written
    have fuel : rounds - height = (rounds - (height + 1)) + 1 := by omega
    simp only [spilled, Bool.and_true, if_true, true_implies] at settled up broken
    rw [fuel]
    refine short_hang_child leafSize internalSize (w := s.later d'' next (s.calls + hangCall internalMax height))
      internalMaxSize sub high allocated grown cut routes split strays written ?_ ?_ ?_ ?_
    · intro refused d₂ alike frame
      apply RunsTo.pure
      exact broken d₂ next _ grown ⟨hangCall internalMax height, by simp, refused⟩
        (damages d₂ next frame (.inl (split.loses leafSize internalSize alike))) (outward d₂ next frame)
    · intro granted room d₁ d₂ inserted strays' written' larger smaller
      apply RunsTo.pure
      apply settled d₁ d₂ next _ grown room ?_ inserted strays' written' larger smaller
      simp only [room, Bool.false_eq_true, if_false, List.forall_mem_append, List.forall_mem_singleton]
      exact ⟨needed, granted⟩
    · intro granted full refused d₂ overfull frame
      apply RunsTo.pure
      exact broken d₂ next _ grown ⟨hangCall internalMax height + 1, by simp [full], refused⟩
        (.inr overfull) frame
    · intro granted full granted' d₁ d₂ mid' split' strays' written'
      have risen := up d₁ d₂ (next + 1) mid' next (grown.trans (Int.lt_succ _).le) full ?_ split' strays' written'
      · rw [hangCall_succ, ← Nat.add_assoc] at risen
        exact risen
      · simp only [full, if_true, List.forall_mem_append, List.forall_mem_cons]
        exact ⟨needed, granted, granted', List.forall_mem_nil _⟩
  · rintro d'' next calls grown ⟨call, needed, refused⟩ damaged frame
    exact broken d'' next calls grown ⟨call, List.mem_append_left _ needed, refused⟩
      (damages d'' next frame damaged)
      (outward d'' next frame)

theorem climbs (enough : height ≤ rounds) : Climbs (V := V) leafMax internalMax rounds entry height := by
  induction height with
  | zero => exact climbs_zero leafSize
  | succ height ih => exact climbs_succ leafSize internalSize (ih (by omega)) (by omega)

end Parent

section Root

/-- The calls an insertion into a tree of this height needs, counted from the end of the descent. -/
def View.neededCalls (v : View K V) (key : K) (height : ℕ) : List ℕ :=
  PageStore.neededCalls v.data v.internalMaxSize key height v.rootPageId ++
    if spills v.data key height v.rootPageId then [hangCall v.internalMaxSize height] else []

/-- How an insertion of a new key ends while pages are short: like an undisturbed one, up to parent
pointers, and past the end of a page if it does not fit, or with damage below the root. -/
def EndsShort (leafMax internalMax : ℕ) (entry : K × V) (height : ℕ) (s s' : Supply K V) : Prop :=
  (∀ call ∈ s.view.neededCalls entry.1 height, s.grants (s.calls + call) = true) ∧
      (∃ v' height', InsertOutcome leafMax internalMax entry s.view height v' height' ∧
        (∀ x, Alike (s'.view.data x) (v'.data x)) ∧ s'.view.rootPageId = v'.rootPageId ∧
        s'.view.nextPageId = v'.nextPageId) ∧
      (Inside s'.view.data ↔ Inside s.view.data ∧ fits s.view.data entry.1 height s.view.rootPageId) ∨
    (∃ call ∈ s.view.neededCalls entry.1 height, s.grants (s.calls + call) = false) ∧
      Damaged leafMax internalMax entry s.view.data s'.view.data height s.view.rootPageId ∧
      s'.view.rootPageId = s.view.rootPageId

variable {s : Supply K V} {β : Type} {p q : PageId} {mid : K} {f : Unit → TreeM K V β}
    {R : β → Supply K V → Prop}

omit [LinearOrder K] in
/-- The halves of the root are hung under a new root, or the right one is left behind. -/
theorem short_hang_root {next : PageId → PageId → K → PageId → TreeM K V Unit} {capacity : ℕ}
    (root : (s.view.data p).parentPageId = invalidPageId) (other : q ≠ p) (unusedP : p ≠ s.view.nextPageId)
    (unusedQ : q ≠ s.view.nextPageId) (refused : s.grants s.calls = false → ShortRuns (f ()) (s.passed 1) R)
    (granted : s.grants s.calls = true → ShortRuns (f ()) ⟨{ s.view with
      data := underNewRoot s.view.data capacity p mid q s.view.nextPageId
      nextPageId := s.view.nextPageId + 1
      rootPageId := s.view.nextPageId }, s.grants, s.calls + 1⟩ R) :
    ShortRuns (hang next capacity p mid q >>= f) s R := by
  rw [hang]
  simp only [bind_assoc]
  apply short_page
  rw [if_pos (by simpa [isRootPage] using root), bind_assoc]
  apply short_newPage
  · intro answer
    simp only [bind_assoc]
    exact short_unpinPage (short_unpinPage (refused answer))
  · intro answer
    simp only [bind_assoc]
    apply short_page
    apply short_writePage
    apply short_page
    apply short_writePage
    apply short_page
    apply short_writePage
    apply short_modify_root
    apply short_unpinPage
    apply short_unpinPage
    apply short_unpinPage
    simpa [underNewRoot, Supply.store, Supply.passed, Supply.allocated, Function.update_of_ne unusedP,
      Function.update_of_ne unusedQ, Function.update_of_ne other] using granted answer

/-- `Insert` of a key that a sound tree does not hold. -/
theorem short_insert_absent (leafSize : 2 ≤ leafMax) (internalSize : 3 ≤ internalMax)
    (leafMaxSize : s.view.leafMaxSize = leafMax) (internalMaxSize : s.view.internalMaxSize = internalMax)
    (rooted : Rooted leafMax internalMax s.view.data height s.view.rootPageId)
    (sub : Subtree leafMax internalMax s.view.data height s.view.rootPageId)
    (allocated : ∀ x ∈ pagesOf s.view.data height s.view.rootPageId, x < s.view.nextPageId)
    (enough : height ≤ rounds)
    (absent : ∀ e ∈ (s.view.data (route s.view.data entry.1 height s.view.rootPageId)).entries, e.1 ≠ entry.1) :
    ShortRuns (insertTail rounds entry.1 entry.2 (route s.view.data entry.1 height s.view.rootPageId)) s
      fun result s' => result = true ∧ EndsShort leafMax internalMax entry height s s' := by
  refine climbs leafSize internalSize enough s s.view.rootPageId _ leafMaxSize internalMaxSize sub rooted.positive
    rooted.high allocated absent ?_ ?_ ?_
  · intro d' d'' next calls grown kept needed inserted strays written larger high
    refine ⟨rfl, .inl ⟨?_, ⟨_, height, inserted.outcome grown rooted larger high, strays.alike, rfl,
      rfl⟩, written⟩⟩
    simpa [View.neededCalls, kept, internalMaxSize] using needed
  · intro d' d'' next mid q grown spilled needed split strays written
    obtain ⟨other, unusedP, unusedQ⟩ := apart_of_split allocated grown split
    have left : d'' s.view.rootPageId = d' s.view.rootPageId := strays.same _ (.inl (by simp))
    have right : d'' q = d' q := strays.same _ (.inl (by simp))
    have fresh : d'' next = d' next := strays.same _ (.inr ⟨fun inside =>
      absurd (allocated _ inside) (not_lt.mpr grown), fun between => lt_irrefl _ between.2⟩)
    have calls : s.view.neededCalls entry.1 height = PageStore.neededCalls s.view.data internalMax entry.1 height
        s.view.rootPageId ++ [hangCall internalMax height] := by
      rw [View.neededCalls, spilled, internalMaxSize, if_pos rfl]
    refine short_hang_root (s := s.later d'' next (s.calls + hangCall internalMax height)) ?_ other unusedP unusedQ
      ?_ ?_
    · rw [← rooted.parent, ← split.parentPageId, ← left]
      rfl
    · intro refused
      refine RunsTo.pure ⟨rfl, .inr ⟨⟨hangCall internalMax height, ?_, refused⟩,
        .inl (split.loses leafSize internalSize strays.alike), rfl⟩⟩
      simp [calls]
    · intro granted
      have outcome := underNewRoot_outcome internalSize internalMaxSize rooted allocated grown split
      rw [internalMaxSize] at outcome
      refine RunsTo.pure ⟨rfl, .inl ⟨?_, ⟨_, height + 1, outcome, ?_, rfl, rfl⟩, ?_⟩⟩
      · rw [calls, List.forall_mem_append, List.forall_mem_singleton]
        exact ⟨needed, granted⟩
      · change ∀ x, Alike (underNewRoot d'' internalMax s.view.rootPageId mid q next x)
          (underNewRoot d' internalMax s.view.rootPageId mid q next x)
        rw [underNewRoot, underNewRoot, left, right, fresh]
        exact (((strays.write _ _).write _ _).write _ _).alike
      · exact (inside_underNewRoot other unusedP unusedQ).trans written
  · rintro d'' next calls grown ⟨call, needed, refused⟩ damaged frame
    refine ⟨rfl, .inr ⟨⟨call, List.mem_append_left _ ?_, refused⟩, damaged, rfl⟩⟩
    rwa [internalMaxSize]

end Root

end BPlusTree

end OneBase
