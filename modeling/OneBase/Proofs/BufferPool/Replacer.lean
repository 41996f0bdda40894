import Mathlib.Data.Finset.Card
import Mathlib.Data.Fintype.Basic
import OneBase.Model.LruKReplacer

/-! # What the replacer knows about each frame

To its users the replacer is a map from frames to whether they may be evicted, with the number of those
that may. `Evict` takes one of them and fails only if there is none: every entry has a history, whose
timestamps lie in the past, so the loop never passes over the first candidate it meets.
-/

namespace OneBase.LruKReplacer

variable {F : Type} [DecidableEq F] {replacer : LruKReplacer F} {frameId other : F}

/-- Whether a frame may be evicted, `none` for a frame that has no entry. -/
def flag (replacer : LruKReplacer F) (frameId : F) : Option Bool :=
  (replacer.entries.lookup frameId).map (·.isEvictable)

section Flags

theorem flag_recordAccess (replacer : LruKReplacer F) (frameId other : F) :
    (replacer.recordAccess frameId).flag other =
      if other = frameId then some ((replacer.flag frameId).getD false) else replacer.flag other := by
  by_cases same : other = frameId
  · subst same
    simp only [flag, recordAccess, AList.lookup_insert, Option.map_some, if_true]
    cases replacer.entries.lookup other <;> rfl
  · simp only [flag, recordAccess, AList.lookup_insert_ne same, if_neg same]

theorem flag_setEvictable (replacer : LruKReplacer F) (frameId : F) (b : Bool) (other : F) :
    (replacer.setEvictable frameId b).flag other =
      if other = frameId then (replacer.flag frameId).map fun _ => b else replacer.flag other := by
  rw [setEvictable]
  cases held : replacer.entries.lookup frameId with
  | none =>
    by_cases same : other = frameId
    · subst same
      simp [flag, held]
    · rw [if_neg same]
  | some entry =>
    by_cases same : other = frameId
    · subst same
      simp [flag, held, AList.lookup_insert]
    · simp only [flag, AList.lookup_insert_ne same, if_neg same]

end Flags

/-- Every entry has been accessed, in the past. -/
structure Ordered (replacer : LruKReplacer F) : Prop where
  k_pos : 1 ≤ replacer.k
  history : ∀ frameId entry, replacer.entries.lookup frameId = some entry →
    entry.history ≠ [] ∧ ∀ timestamp ∈ entry.history, timestamp < replacer.currentTimestamp

theorem Ordered.head_lt (ordered : Ordered replacer) {entry : FrameEntry}
    (held : replacer.entries.lookup frameId = some entry) : entry.history.headD 0 < replacer.currentTimestamp := by
  obtain ⟨nonempty, past⟩ := ordered.history frameId entry held
  cases stamps : entry.history with
  | nil => exact absurd stamps nonempty
  | cons timestamp rest => exact past timestamp (stamps ▸ List.mem_cons_self)

theorem Ordered.recordAccess (ordered : Ordered replacer) (frameId : F) :
    Ordered (replacer.recordAccess frameId) := by
  refine ⟨ordered.k_pos, fun other entry held => ?_⟩
  by_cases same : other = frameId
  · subst same
    simp only [LruKReplacer.recordAccess, AList.lookup_insert, Option.some.injEq] at held
    subst held
    have past : ∀ timestamp ∈ ((replacer.entries.lookup other).getD {}).history,
        timestamp < replacer.currentTimestamp := by
      cases old : replacer.entries.lookup other with
      | none => simp
      | some entry => exact (ordered.history other entry old).2
    have now : ∀ timestamp ∈ ((replacer.entries.lookup other).getD {}).history ++ [replacer.currentTimestamp],
        timestamp < replacer.currentTimestamp + 1 := by
      intro timestamp member
      rcases List.mem_append.mp member with old | new
      · exact Nat.lt_succ_of_lt (past timestamp old)
      · rw [List.mem_singleton] at new
        omega
    have k_pos := ordered.k_pos
    dsimp only
    split
    · next long =>
      rw [List.length_append, List.length_singleton] at long
      refine ⟨?_, fun timestamp member => now timestamp (List.mem_of_mem_tail member)⟩
      apply List.ne_nil_of_length_pos
      rw [List.length_tail, List.length_append, List.length_singleton]
      omega
    · exact ⟨by simp, now⟩
  · simp only [LruKReplacer.recordAccess, AList.lookup_insert_ne same] at held
    obtain ⟨nonempty, past⟩ := ordered.history other entry held
    exact ⟨nonempty, fun timestamp member => Nat.lt_succ_of_lt (past timestamp member)⟩

theorem Ordered.setEvictable (ordered : Ordered replacer) (frameId : F) (b : Bool) :
    Ordered (replacer.setEvictable frameId b) := by
  rw [LruKReplacer.setEvictable]
  cases held : replacer.entries.lookup frameId with
  | none => exact ordered
  | some entry =>
    refine ⟨ordered.k_pos, fun other entry' held' => ?_⟩
    by_cases same : other = frameId
    · subst same
      simp only [AList.lookup_insert, Option.some.injEq] at held'
      subst held'
      exact ordered.history other entry held
    · rw [AList.lookup_insert_ne same] at held'
      exact ordered.history other entry' held'

theorem Ordered.erase (ordered : Ordered replacer) (frameId : F) (size : ℕ) :
    Ordered { replacer with currSize := size, entries := replacer.entries.erase frameId } := by
  refine ⟨ordered.k_pos, fun other entry held => ?_⟩
  by_cases same : other = frameId
  · subst same
    rw [AList.lookup_erase] at held
    cases held
  · rw [AList.lookup_erase_ne same] at held
    exact ordered.history other entry held

section Evict

/-- Once the loop has met a frame that may be evicted it has a victim, which may be evicted. -/
theorem consider_victim (ordered : Ordered replacer) {entry : FrameEntry} {search : Search F}
    (held : replacer.entries.lookup frameId = some entry)
    (fresh : search.victimFrame = none → search.maxKDistance = 0 ∧ search.foundInfFrame = false)
    (found : ∀ victim, search.victimFrame = some victim → replacer.flag victim = some true) :
    let search' := replacer.consider search frameId entry
    (search'.victimFrame = none → search'.maxKDistance = 0 ∧ search'.foundInfFrame = false) ∧
    (∀ victim, search'.victimFrame = some victim → replacer.flag victim = some true) ∧
    (search'.victimFrame = none → search.victimFrame = none ∧ entry.isEvictable = false) := by
  have past := ordered.head_lt held
  have flagged : replacer.flag frameId = some entry.isEvictable := by simp [flag, held]
  simp only [consider]
  split_ifs <;> grind

/-- The loop of `Evict` over any part of the entries. -/
theorem foldl_consider (ordered : Ordered replacer) (entries : List (Sigma fun _ : F => FrameEntry))
    (held : ∀ entry ∈ entries, replacer.entries.lookup entry.1 = some entry.2) (search : Search F)
    (fresh : search.victimFrame = none → search.maxKDistance = 0 ∧ search.foundInfFrame = false)
    (found : ∀ victim, search.victimFrame = some victim → replacer.flag victim = some true) :
    let search' := entries.foldl (fun search entry => replacer.consider search entry.1 entry.2) search
    (∀ victim, search'.victimFrame = some victim → replacer.flag victim = some true) ∧
    (search'.victimFrame = none → search.victimFrame = none ∧
      ∀ entry ∈ entries, entry.2.isEvictable = false) := by
  induction entries generalizing search with
  | nil => exact ⟨found, fun none => ⟨none, fun entry member => absurd member List.not_mem_nil⟩⟩
  | cons entry rest ih =>
    obtain ⟨fresh', found', passed⟩ := consider_victim ordered (held entry List.mem_cons_self) fresh found
    obtain ⟨victims, none⟩ :=
      ih (fun entry member => held entry (List.mem_cons_of_mem _ member)) (replacer.consider search entry.1 entry.2)
        fresh' found'
    refine ⟨victims, fun ended => ?_⟩
    obtain ⟨none', others⟩ := none ended
    exact ⟨(passed none').1, List.forall_mem_cons.mpr ⟨(passed none').2, others⟩⟩

theorem Ordered.findVictim (ordered : Ordered replacer) :
    (∀ victim, replacer.findVictim = some victim → replacer.flag victim = some true) ∧
    (replacer.findVictim = none → ∀ frameId, replacer.flag frameId ≠ some true) := by
  have held : ∀ entry ∈ replacer.entries.entries, replacer.entries.lookup entry.1 = some entry.2 :=
    fun entry member => AList.mem_lookup_iff.mpr member
  obtain ⟨victims, none⟩ := foldl_consider ordered replacer.entries.entries held
    ⟨none, 0, replacer.currentTimestamp, false⟩ (fun _ => ⟨rfl, rfl⟩) (fun _ impossible => nomatch impossible)
  refine ⟨victims, fun ended frameId flagged => ?_⟩
  obtain ⟨entry, entryHeld, evictable⟩ := Option.map_eq_some_iff.mp flagged
  have notEvictable := (none ended).2 ⟨frameId, entry⟩ (AList.mem_lookup_iff.mp entryHeld)
  exact Bool.false_ne_true (notEvictable.symm.trans evictable)

end Evict

section Count

variable [Fintype F]

/-- The frames that may be evicted. -/
def evictable (replacer : LruKReplacer F) : Finset F :=
    Finset.univ.filter fun frameId => replacer.flag frameId = some true

theorem mem_evictable : frameId ∈ replacer.evictable ↔ replacer.flag frameId = some true := by simp [evictable]

/-- `curr_size_` counts the frames that may be evicted. -/
structure Counted (replacer : LruKReplacer F) : Prop extends Ordered replacer where
  size : replacer.currSize = replacer.evictable.card

variable {replacer' : LruKReplacer F}

/-- A frame that leaves the candidates. -/
theorem card_evictable_of_leaves (was : replacer.flag frameId = some true) (now : replacer'.flag frameId ≠ some true)
    (others : ∀ other ≠ frameId, replacer'.flag other = replacer.flag other) :
    replacer'.evictable.card = replacer.evictable.card - 1 := by
  have erased : replacer'.evictable = replacer.evictable.erase frameId := by
    ext other
    rw [Finset.mem_erase, mem_evictable, mem_evictable]
    by_cases same : other = frameId
    · simp [same, now]
    · simp [same, others other same]
  rw [erased, Finset.card_erase_of_mem (mem_evictable.mpr was)]

/-- A frame that joins the candidates. -/
theorem card_evictable_of_joins (was : replacer.flag frameId ≠ some true) (now : replacer'.flag frameId = some true)
    (others : ∀ other ≠ frameId, replacer'.flag other = replacer.flag other) :
    replacer'.evictable.card = replacer.evictable.card + 1 := by
  have inserted : replacer'.evictable = insert frameId replacer.evictable := by
    ext other
    rw [Finset.mem_insert, mem_evictable, mem_evictable]
    by_cases same : other = frameId
    · simp [same, now]
    · simp [same, others other same]
  rw [inserted, Finset.card_insert_of_notMem (mem_evictable.not.mpr was)]

theorem evictable_congr (same : ∀ frameId, replacer'.flag frameId = some true ↔ replacer.flag frameId = some true) :
    replacer'.evictable = replacer.evictable := by
  ext frameId
  rw [mem_evictable, mem_evictable, same]

theorem Counted.recordAccess (counted : Counted replacer) (frameId : F) :
    Counted (replacer.recordAccess frameId) := by
  refine ⟨counted.toOrdered.recordAccess frameId, ?_⟩
  have same : (replacer.recordAccess frameId).evictable = replacer.evictable := by
    apply evictable_congr
    intro other
    rw [flag_recordAccess]
    split
    · next self =>
      subst self
      cases replacer.flag other <;> simp
    · rfl
  rw [same]
  exact counted.size

theorem Counted.setEvictable (counted : Counted replacer) (frameId : F) (b : Bool) :
    Counted (replacer.setEvictable frameId b) := by
  refine ⟨counted.toOrdered.setEvictable frameId b, ?_⟩
  have flags := replacer.flag_setEvictable frameId b
  have others (other : F) (different : other ≠ frameId) := (flags other).trans (if_neg different)
  have self := (flags frameId).trans (if_pos rfl)
  cases held : replacer.entries.lookup frameId with
  | none =>
    have same : replacer.setEvictable frameId b = replacer := by rw [LruKReplacer.setEvictable, held]
    rw [same]
    exact counted.size
  | some entry =>
    have was : replacer.flag frameId = some entry.isEvictable := by simp [flag, held]
    rw [was, Option.map_some] at self
    have size : (replacer.setEvictable frameId b).currSize =
        if entry.isEvictable && !b then replacer.currSize - 1
        else if !entry.isEvictable && b then replacer.currSize + 1 else replacer.currSize := by
      rw [LruKReplacer.setEvictable, held]
    rw [size, counted.size]
    cases old : entry.isEvictable <;> cases b <;> rw [old] at was
    · simp only [Bool.false_and, Bool.not_false, Bool.and_false, Bool.false_eq_true, if_false]
      rw [evictable_congr fun other => ?_]
      by_cases same : other = frameId
      · rw [same, self, was]
      · rw [others other same]
    · exact (card_evictable_of_joins (by simp [was]) self others).symm
    · exact (card_evictable_of_leaves was (by simp [self]) others).symm
    · simp only [Bool.not_true, Bool.and_false, Bool.false_and, Bool.false_eq_true, if_false]
      rw [evictable_congr fun other => ?_]
      by_cases same : other = frameId
      · rw [same, self, was]
      · rw [others other same]

theorem Counted.erase (counted : Counted replacer) (evictable : replacer.flag frameId = some true) :
    Counted { replacer with currSize := replacer.currSize - 1, entries := replacer.entries.erase frameId } := by
  refine ⟨counted.toOrdered.erase frameId _, ?_⟩
  rw [card_evictable_of_leaves evictable (by simp [flag, AList.lookup_erase])
    (fun other different => by simp only [flag, AList.lookup_erase_ne different])]
  exact congrArg (· - 1) counted.size

/-- Everything `Evict` can do. -/
theorem Counted.evict_cases (counted : Counted replacer) :
    (replacer.evict = (replacer, none) ∧ ∀ frameId, replacer.flag frameId ≠ some true) ∨
    ∃ victim replacer', replacer.evict = (replacer', some victim) ∧ replacer.flag victim = some true ∧
      Counted replacer' ∧ replacer'.flag victim = none ∧
      ∀ other ≠ victim, replacer'.flag other = replacer.flag other := by
  obtain ⟨victims, none⟩ := counted.toOrdered.findVictim
  rw [evict]
  by_cases empty : replacer.currSize = 0
  · rw [if_pos empty]
    refine .inl ⟨rfl, fun frameId flagged => ?_⟩
    rw [counted.size, Finset.card_eq_zero] at empty
    simpa [empty] using mem_evictable.mpr flagged
  · rw [if_neg empty]
    cases found : replacer.findVictim with
    | none => exact .inl ⟨rfl, none found⟩
    | some victim =>
      refine .inr ⟨victim, _, rfl, victims victim found, counted.erase (victims victim found), ?_,
        fun other different => ?_⟩
      · simp [flag, AList.lookup_erase]
      · simp only [flag, AList.lookup_erase_ne different]

/-- `Remove` of a frame that may be evicted. -/
theorem Counted.remove (counted : Counted replacer) (evictable : replacer.flag frameId = some true) :
    ∃ replacer', replacer.remove frameId = .ok replacer' ∧ Counted replacer' ∧ replacer'.flag frameId = none ∧
      ∀ other ≠ frameId, replacer'.flag other = replacer.flag other := by
  obtain ⟨entry, held, flagged⟩ := Option.map_eq_some_iff.mp evictable
  refine ⟨_, ?_, counted.erase evictable, ?_, fun other different => ?_⟩
  · simp only [LruKReplacer.remove, held, flagged, Bool.not_true, Bool.false_eq_true, if_false]
  · simp [flag, AList.lookup_erase]
  · simp only [flag, AList.lookup_erase_ne different]

end Count

end OneBase.LruKReplacer
