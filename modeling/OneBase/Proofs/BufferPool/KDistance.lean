import Mathlib.Data.ENat.Basic
import Mathlib.Data.Finset.Card
import Mathlib.Data.List.MinMax
import Mathlib.Data.Prod.Lex
import OneBase.Model.LruKReplacer

/-! # Eviction by backward k-distance

The replacer keeps the last `k` timestamps of a frame and looks for its victim in one pass. `Ledger` keeps every
timestamp and says what a victim is. The two agree after any calls, in whatever order the map is iterated, since
no two frames share a timestamp.
-/

namespace OneBase

/-- The calls of a replacer, with the answer of `Evict`. -/
inductive ReplacerCall (F : Type)
  | recordAccess (frameId : F)
  | setEvictable (frameId : F) (setEvictable : Bool)
  | remove (frameId : F)
  | evict (answer : Option F)

/-- The timestamps of all accesses of each frame since it was last added, and the frames that may be evicted. -/
structure Ledger (F : Type) where
  now : ℕ := 0
  accesses : F → List ℕ := fun _ => []
  evictable : Finset F := ∅

namespace Ledger

variable {F : Type} [DecidableEq F] {k : ℕ} {ledger : Ledger F} {frameId other : F}

def forget (ledger : Ledger F) (frameId : F) : Ledger F :=
  { ledger with
    accesses := Function.update ledger.accesses frameId []
    evictable := ledger.evictable.erase frameId }

/-- What a call changes. A frame that was never accessed, or that cannot be evicted, cannot be removed. -/
def after (ledger : Ledger F) : ReplacerCall F → Ledger F
  | .recordAccess frameId =>
    { ledger with
      now := ledger.now + 1
      accesses := Function.update ledger.accesses frameId (ledger.accesses frameId ++ [ledger.now]) }
  | .setEvictable frameId setEvictable =>
    if ledger.accesses frameId = [] then ledger
    else if setEvictable then { ledger with evictable := insert frameId ledger.evictable }
    else { ledger with evictable := ledger.evictable.erase frameId }
  | .remove frameId => if frameId ∈ ledger.evictable then ledger.forget frameId else ledger
  | .evict none => ledger
  | .evict (some victim) => ledger.forget victim

/-- The backward k-distance: the time since the k-th most recent access. -/
def distance (k : ℕ) (ledger : Ledger F) (frameId : F) : ℕ∞ :=
  let accesses := ledger.accesses frameId
  if accesses.length < k then ⊤ else ((ledger.now - accesses.getD (accesses.length - k) 0 : ℕ) : ℕ∞)

def firstAccess (ledger : Ledger F) (frameId : F) : ℕ := (ledger.accesses frameId).headD 0

/-- A frame with the largest distance; between infinite distances the earliest first access decides. -/
def IsVictim (k : ℕ) (ledger : Ledger F) (frameId : F) : Prop :=
  frameId ∈ ledger.evictable ∧ ∀ other ∈ ledger.evictable, other ≠ frameId →
    ledger.distance k other < ledger.distance k frameId ∨
    ledger.distance k other = ⊤ ∧ ledger.distance k frameId = ⊤ ∧
      ledger.firstAccess frameId < ledger.firstAccess other

instance : Decidable (ledger.IsVictim k frameId) := inferInstanceAs (Decidable (_ ∧ _))

theorem IsVictim.unique (victim : ledger.IsVictim k frameId) (victim' : ledger.IsVictim k other) : frameId = other := by
  by_contra different
  rcases victim.2 other victim'.1 (Ne.symm different) with less | ⟨infinite, infinite', first⟩ <;>
  rcases victim'.2 frameId victim.1 different with less' | ⟨infinite'', infinite''', first'⟩
  · exact lt_asymm less less'
  · rw [infinite'', infinite'''] at less
    exact lt_irrefl _ less
  · rw [infinite, infinite'] at less'
    exact lt_irrefl _ less'
  · exact lt_asymm first first'

/-- The entry that the replacer has for a frame: the last `k` accesses. -/
def entry (k : ℕ) (ledger : Ledger F) (frameId : F) : Option FrameEntry :=
  if ledger.accesses frameId = [] then none
  else some
    { history := (ledger.accesses frameId).drop ((ledger.accesses frameId).length - k)
      isEvictable := decide (frameId ∈ ledger.evictable) }

theorem entry_eq_some {held : FrameEntry} (found : ledger.entry k frameId = some held) :
    ledger.accesses frameId ≠ [] ∧
    held.history = (ledger.accesses frameId).drop ((ledger.accesses frameId).length - k) ∧
    held.isEvictable = decide (frameId ∈ ledger.evictable) := by
  rw [entry] at found
  split at found
  · cases found
  · next known =>
    cases found
    exact ⟨known, rfl, rfl⟩

/-- The ledger's own order: timestamps lie in the past and belong to one frame. -/
structure Sound (ledger : Ledger F) : Prop where
  known : ∀ frameId ∈ ledger.evictable, ledger.accesses frameId ≠ []
  past : ∀ frameId, ∀ timestamp ∈ ledger.accesses frameId, timestamp < ledger.now
  apart : ∀ frameId other timestamp, timestamp ∈ ledger.accesses frameId → timestamp ∈ ledger.accesses other →
    frameId = other

omit [DecidableEq F] in
theorem sound_init : Sound ({} : Ledger F) where
  known := fun _ member => absurd member (Finset.notMem_empty _)
  past := fun _ _ member => absurd member List.not_mem_nil
  apart := fun _ _ _ member => absurd member List.not_mem_nil

theorem mem_accesses_forget {timestamp : ℕ} (member : timestamp ∈ (ledger.forget frameId).accesses other) :
    timestamp ∈ ledger.accesses other := by
  by_cases same : other = frameId
  · subst same
    simp [forget] at member
  · simpa [forget, same] using member

theorem Sound.forget (sound : Sound ledger) (frameId : F) : Sound (ledger.forget frameId) where
  known := by
    intro other member
    obtain ⟨different, evictable⟩ := Finset.mem_erase.mp member
    simpa [Ledger.forget, different] using sound.known other evictable
  past := fun other timestamp member => sound.past other timestamp (mem_accesses_forget member)
  apart := fun first second timestamp member member' =>
    sound.apart first second timestamp (mem_accesses_forget member) (mem_accesses_forget member')

/-- A timestamp of the new access, or an old one. -/
theorem mem_accesses_recordAccess {timestamp : ℕ}
    (member : timestamp ∈ (ledger.after (.recordAccess frameId)).accesses other) :
    timestamp ∈ ledger.accesses other ∨ timestamp = ledger.now ∧ other = frameId := by
  by_cases same : other = frameId
  · subst same
    simpa [after] using member
  · left
    simpa [after, same] using member

theorem Sound.recordAccess (sound : Sound ledger) (frameId : F) : Sound (ledger.after (.recordAccess frameId)) where
  known := by
    intro other member
    by_cases same : other = frameId
    · subst same
      simp [after]
    · simpa [after, same] using sound.known other member
  past := by
    intro other timestamp member
    rcases mem_accesses_recordAccess member with old | ⟨new, -⟩
    · exact Nat.lt_succ_of_lt (sound.past other timestamp old)
    · exact new ▸ Nat.lt_succ_self _
  apart := by
    intro first second timestamp member member'
    rcases mem_accesses_recordAccess member with old | ⟨new, same⟩ <;>
    rcases mem_accesses_recordAccess member' with old' | ⟨new', same'⟩
    · exact sound.apart first second timestamp old old'
    · exact absurd (sound.past first timestamp old) (new' ▸ Nat.lt_irrefl _)
    · exact absurd (sound.past second timestamp old') (new ▸ Nat.lt_irrefl _)
    · exact same.trans same'.symm

theorem Sound.setEvictable (sound : Sound ledger) (frameId : F) (setEvictable : Bool) :
    Sound (ledger.after (.setEvictable frameId setEvictable)) := by
  rw [after]
  split_ifs with unknown
  · exact sound
  · refine ⟨?_, sound.past, sound.apart⟩
    intro other member
    rcases Finset.mem_insert.mp member with same | old
    · exact same ▸ unknown
    · exact sound.known other old
  · exact ⟨fun other member => sound.known other (Finset.mem_of_mem_erase member), sound.past, sound.apart⟩

theorem Sound.after (sound : Sound ledger) (call : ReplacerCall F) : Sound (ledger.after call) := by
  cases call with
  | recordAccess frameId => exact sound.recordAccess frameId
  | setEvictable frameId setEvictable => exact sound.setEvictable frameId setEvictable
  | remove frameId =>
    rw [Ledger.after]
    split
    · exact sound.forget frameId
    · exact sound
  | evict answer =>
    cases answer with
    | none => exact sound
    | some victim => exact sound.forget victim

/-- Pushing a timestamp and popping the oldest beyond `k` keeps the last `k` accesses. -/
theorem kept_append (accesses : List ℕ) (now : ℕ) :
    (if k < (accesses.drop (accesses.length - k) ++ [now]).length then
      (accesses.drop (accesses.length - k) ++ [now]).tail
    else accesses.drop (accesses.length - k) ++ [now]) =
      (accesses ++ [now]).drop ((accesses ++ [now]).length - k) := by
  rw [← List.drop_append_of_le_length (Nat.sub_le _ _)]
  split
  · next long =>
    rw [List.length_drop, List.length_append, List.length_singleton] at long
    rw [List.tail_drop, List.length_append, List.length_singleton]
    congr 1
    omega
  · next short =>
    rw [List.length_drop, List.length_append, List.length_singleton] at short
    rw [List.length_append, List.length_singleton]
    congr 1
    omega

end Ledger

namespace LruKReplacer

variable {F : Type} {k : ℕ} {replacer : LruKReplacer F} {ledger : Ledger F} {frameId : F}

section Calls

variable [DecidableEq F]

/-- The replacer holds of the ledger what it needs. -/
structure Agrees (k : ℕ) (replacer : LruKReplacer F) (ledger : Ledger F) : Prop where
  kept : replacer.k = k
  now : replacer.currentTimestamp = ledger.now
  entry : ∀ frameId, replacer.entries.lookup frameId = ledger.entry k frameId
  size : replacer.currSize = ledger.evictable.card
  sound : ledger.Sound

theorem agrees_init (k : ℕ) : Agrees k ({ k := k } : LruKReplacer F) {} where
  kept := rfl
  now := rfl
  entry := fun _ => rfl
  size := rfl
  sound := Ledger.sound_init

/-- A frame leaves the replacer and the ledger. -/
theorem Agrees.forget (agrees : Agrees k replacer ledger) (evictable : frameId ∈ ledger.evictable) :
    Agrees k { replacer with entries := replacer.entries.erase frameId, currSize := replacer.currSize - 1 }
      (ledger.forget frameId) where
  kept := agrees.kept
  now := agrees.now
  entry := by
    intro other
    by_cases same : other = frameId
    · subst same
      simp [AList.lookup_erase, Ledger.entry, Ledger.forget]
    · simp only [AList.lookup_erase_ne same, agrees.entry, Ledger.entry, Ledger.forget,
        Function.update_of_ne same, Finset.mem_erase, ne_eq, same, not_false_eq_true, true_and]
  size := by
    rw [Ledger.forget, Finset.card_erase_of_mem evictable]
    exact congrArg (· - 1) agrees.size
  sound := agrees.sound.forget frameId

theorem Agrees.recordAccess (agrees : Agrees k replacer ledger) (frameId : F) :
    Agrees k (replacer.recordAccess frameId) (ledger.after (.recordAccess frameId)) where
  kept := agrees.kept
  now := congrArg (· + 1) agrees.now
  entry := by
    intro other
    by_cases same : other = frameId
    · subst same
      have old : (replacer.entries.lookup other).getD {} =
          ⟨(ledger.accesses other).drop ((ledger.accesses other).length - k),
            decide (other ∈ ledger.evictable)⟩ := by
        rw [agrees.entry, Ledger.entry]
        split
        · next unknown =>
          have notEvictable : other ∉ ledger.evictable := fun member => agrees.sound.known other member unknown
          simp [unknown, notEvictable]
        · rfl
      simp only [LruKReplacer.recordAccess, AList.lookup_insert, old, agrees.kept, agrees.now, Ledger.kept_append]
      simp [Ledger.entry, Ledger.after]
      rfl
    · simp only [LruKReplacer.recordAccess, AList.lookup_insert_ne same, agrees.entry, Ledger.entry, Ledger.after,
        Function.update_of_ne same]
      rfl
  size := agrees.size
  sound := agrees.sound.after _

/-- The entries after a known frame has its flag set, for the candidates `evictable` that then hold. -/
theorem Agrees.entry_insert (agrees : Agrees k replacer ledger) (known : ledger.accesses frameId ≠ [])
    {setEvictable : Bool} {evictable : Finset F} (flag : decide (frameId ∈ evictable) = setEvictable)
    (unchanged : ∀ other, other ≠ frameId → (other ∈ evictable ↔ other ∈ ledger.evictable)) (other : F) :
    (replacer.entries.insert frameId
      ⟨(ledger.accesses frameId).drop ((ledger.accesses frameId).length - k), setEvictable⟩).lookup other =
        ({ ledger with evictable := evictable } : Ledger F).entry k other := by
  by_cases same : other = frameId
  · subst same
    simp only [AList.lookup_insert, Ledger.entry, if_neg known, flag]
  · simp only [AList.lookup_insert_ne same, agrees.entry, Ledger.entry, unchanged other same]

theorem Agrees.setEvictable (agrees : Agrees k replacer ledger) (frameId : F) (setEvictable : Bool) :
    Agrees k (replacer.setEvictable frameId setEvictable) (ledger.after (.setEvictable frameId setEvictable)) := by
  have sound := agrees.sound.after (.setEvictable frameId setEvictable)
  rw [Ledger.after] at sound ⊢
  rw [LruKReplacer.setEvictable, agrees.entry, Ledger.entry]
  by_cases unknown : ledger.accesses frameId = []
  · rw [if_pos unknown, if_pos unknown]
    exact agrees
  · rw [if_neg unknown] at sound ⊢
    rw [if_neg unknown]
    cases setEvictable with
    | true =>
      rw [if_pos rfl] at sound ⊢
      refine ⟨agrees.kept, agrees.now, ?_, ?_, sound⟩
      · apply agrees.entry_insert unknown (by simp)
        intro other different
        simp [different]
      · by_cases was : frameId ∈ ledger.evictable
        · simpa [was] using agrees.size
        · simpa [was] using agrees.size
    | false =>
      rw [if_neg Bool.false_ne_true] at sound ⊢
      refine ⟨agrees.kept, agrees.now, ?_, ?_, sound⟩
      · apply agrees.entry_insert unknown (by simp)
        intro other different
        simp [different]
      · by_cases was : frameId ∈ ledger.evictable
        · simp [was, agrees.size, Finset.card_erase_of_mem]
        · simpa [was] using agrees.size

end Calls

section Search

/-- What the loop compares: frames with fewer than `k` accesses come first, then the oldest timestamp. -/
def rank (k : ℕ) (entry : FrameEntry) : ℕ ×ₗ ℕ :=
  toLex (if entry.history.length < k then 0 else 1, entry.history.headD 0)

/-- The variables of the loop when its leader so far is as given. -/
def Shows (replacer : LruKReplacer F) (search : Search F) : Option (Sigma fun _ : F => FrameEntry) → Prop
  | none => search.victimFrame = none ∧ search.maxKDistance = 0 ∧ search.foundInfFrame = false
  | some leader =>
    search.victimFrame = some leader.1 ∧
    if leader.2.history.length < replacer.k then
      search.foundInfFrame = true ∧ search.earliestFirstAccess = leader.2.history.headD 0
    else
      search.foundInfFrame = false ∧ search.maxKDistance = replacer.currentTimestamp - leader.2.history.headD 0

theorem rank_lt_iff {entry leader : FrameEntry} : rank k entry < rank k leader ↔
    (entry.history.length < k ∧ ¬leader.history.length < k) ∨
    ((entry.history.length < k ↔ leader.history.length < k) ∧ entry.history.headD 0 < leader.history.headD 0) := by
  rw [rank, rank, Prod.Lex.toLex_lt_toLex]
  split_ifs <;> simp [*]

/-- The first entry that may be evicted leads. -/
theorem Shows.first {search : Search F} (shows : replacer.Shows search none) {entry : FrameEntry}
    (evictable : entry.isEvictable = true) (past : entry.history.headD 0 < replacer.currentTimestamp) :
    replacer.Shows (replacer.consider search frameId entry) (some ⟨frameId, entry⟩) := by
  obtain ⟨-, distance, infinite⟩ := shows
  by_cases short : entry.history.length < replacer.k
  · simp [LruKReplacer.consider, Shows, evictable, short, infinite]
  · simp [-List.headD_eq_head?_getD, LruKReplacer.consider, Shows, evictable, short, infinite, distance, past]

/-- Afterwards a round keeps the lower of the leader and an entry that may be evicted. -/
theorem Shows.next {search : Search F} {leader : Sigma fun _ : F => FrameEntry}
    (shows : replacer.Shows search (some leader))
    {entry : FrameEntry} (evictable : entry.isEvictable = true)
    (past : entry.history.headD 0 < replacer.currentTimestamp)
    (leaderPast : leader.2.history.headD 0 < replacer.currentTimestamp) :
    replacer.Shows (replacer.consider search frameId entry)
      (if rank replacer.k entry < rank replacer.k leader.2 then some ⟨frameId, entry⟩ else some leader) := by
  obtain ⟨victim, shown⟩ := shows
  by_cases leaderShort : leader.2.history.length < replacer.k
  · rw [if_pos leaderShort] at shown
    by_cases short : entry.history.length < replacer.k
    · by_cases lower : entry.history.headD 0 < leader.2.history.headD 0
      · simp [-List.headD_eq_head?_getD, LruKReplacer.consider, Shows, rank_lt_iff, evictable, short,
          leaderShort, shown,
          lower]
      · simp [-List.headD_eq_head?_getD, LruKReplacer.consider, Shows, rank_lt_iff, evictable, short,
          leaderShort, shown,
          lower, victim]
    · simp [-List.headD_eq_head?_getD, LruKReplacer.consider, Shows, rank_lt_iff, evictable, short, leaderShort, shown,
        victim]
  · rw [if_neg leaderShort] at shown
    by_cases short : entry.history.length < replacer.k
    · simp [-List.headD_eq_head?_getD, LruKReplacer.consider, Shows, rank_lt_iff, evictable, short, leaderShort, shown]
    · have longer : replacer.currentTimestamp - leader.2.history.headD 0 <
          replacer.currentTimestamp - entry.history.headD 0 ↔ entry.history.headD 0 < leader.2.history.headD 0 := by
        omega
      by_cases lower : entry.history.headD 0 < leader.2.history.headD 0
      · simp [-List.headD_eq_head?_getD, LruKReplacer.consider, Shows, rank_lt_iff, evictable, short,
          leaderShort, shown,
          longer, lower]
      · simp [-List.headD_eq_head?_getD, LruKReplacer.consider, Shows, rank_lt_iff, evictable, short,
          leaderShort, shown,
          longer, lower, victim]

/-- The loop finds the lowest entry among those that may be evicted. -/
theorem shows_foldl (order : List (Sigma fun _ : F => FrameEntry))
    (past : ∀ entry ∈ order, entry.2.history.headD 0 < replacer.currentTimestamp) :
    replacer.Shows
      (order.foldl (fun search entry => replacer.consider search entry.1 entry.2)
        ⟨none, 0, replacer.currentTimestamp, false⟩)
      ((order.filter (·.2.isEvictable)).argmin fun entry => rank replacer.k entry.2) := by
  induction order using List.reverseRecOn with
  | nil => exact ⟨rfl, rfl, rfl⟩
  | append_singleton seen entry ih =>
    have seenPast : ∀ entry ∈ seen, entry.2.history.headD 0 < replacer.currentTimestamp :=
      fun other member => past other (List.mem_append_left _ member)
    have shows := ih seenPast
    rw [List.foldl_concat, List.filter_append]
    cases evictable : entry.2.isEvictable with
    | false => simpa [LruKReplacer.consider, evictable] using shows
    | true =>
      rw [List.filter_singleton, evictable, cond_true, List.argmin_concat]
      have entryPast := past entry (List.mem_append_right _ List.mem_cons_self)
      cases leads : (seen.filter (·.2.isEvictable)).argmin fun entry => rank replacer.k entry.2 with
      | none =>
        rw [leads] at shows
        exact shows.first evictable entryPast
      | some leader =>
        rw [leads] at shows
        have member := List.mem_of_mem_filter (List.argmin_mem leads)
        exact shows.next evictable entryPast (seenPast leader member)

end Search

section Evict

variable [DecidableEq F] {entry entry' : FrameEntry} {other : F}

/-- What an entry tells about the accesses of its frame. -/
theorem entry_history (found : ledger.entry k frameId = some entry) :
    (entry.history.length < k ↔ (ledger.accesses frameId).length < k) ∧
    entry.history.headD 0 = (ledger.accesses frameId).getD ((ledger.accesses frameId).length - k) 0 := by
  obtain ⟨-, history, -⟩ := Ledger.entry_eq_some found
  constructor
  · rw [history, List.length_drop]
    omega
  · rw [history, List.headD_eq_head?_getD, List.head?_drop, List.getD_eq_getElem?_getD]

/-- The oldest timestamp that an entry keeps is one of its frame's. -/
theorem head_mem_accesses (k_pos : 1 ≤ k) (found : ledger.entry k frameId = some entry) :
    entry.history.headD 0 ∈ ledger.accesses frameId := by
  obtain ⟨known, -, -⟩ := Ledger.entry_eq_some found
  have inside : (ledger.accesses frameId).length - k < (ledger.accesses frameId).length :=
    Nat.sub_lt (List.length_pos_iff.mpr known) k_pos
  rw [(entry_history found).2, List.getD_eq_getElem?_getD, List.getElem?_eq_getElem inside, Option.getD_some]
  exact List.getElem_mem inside

/-- The order of the entries is that of the distances: no two frames share a timestamp. -/
theorem distance_of_rank_le (k_pos : 1 ≤ k) (sound : ledger.Sound) (found : ledger.entry k frameId = some entry)
    (found' : ledger.entry k other = some entry') (different : other ≠ frameId)
    (lower : rank k entry ≤ rank k entry') :
    ledger.distance k other < ledger.distance k frameId ∨
    ledger.distance k other = ⊤ ∧ ledger.distance k frameId = ⊤ ∧
      ledger.firstAccess frameId < ledger.firstAccess other := by
  obtain ⟨short, head⟩ := entry_history found
  obtain ⟨short', head'⟩ := entry_history found'
  have member := head_mem_accesses k_pos found
  have member' := head_mem_accesses k_pos found'
  have heads : entry.history.headD 0 ≠ entry'.history.headD 0 :=
    fun same => different (sound.apart other frameId _ member' (same ▸ member))
  have past := sound.past frameId _ member
  have past' := sound.past other _ member'
  have notLower := rank_lt_iff.not.mp (not_lt_of_ge lower)
  push Not at notLower
  obtain ⟨shorter, earlier⟩ := notLower
  rw [Ledger.distance, Ledger.distance, ← head, ← head']
  by_cases few : (ledger.accesses frameId).length < k <;> by_cases few' : (ledger.accesses other).length < k
  · right
    rw [if_pos few, if_pos few']
    refine ⟨rfl, rfl, ?_⟩
    have first : entry.history.headD 0 = ledger.firstAccess frameId := by
      rw [head, Nat.sub_eq_zero_of_le few.le, Ledger.firstAccess, List.headD_eq_head?_getD, List.getD_eq_getElem?_getD,
        List.head?_eq_getElem?]
    have first' : entry'.history.headD 0 = ledger.firstAccess other := by
      rw [head', Nat.sub_eq_zero_of_le few'.le, Ledger.firstAccess, List.headD_eq_head?_getD,
        List.getD_eq_getElem?_getD, List.head?_eq_getElem?]
    have notAfter := earlier (iff_of_true (short'.mpr few') (short.mpr few))
    omega
  · left
    rw [if_pos few, if_neg few']
    exact ENat.natCast_lt_top _
  · exact absurd (short.mp (shorter (short'.mpr few'))) few
  · left
    rw [if_neg few, if_neg few', Nat.cast_lt]
    have notAfter := earlier (iff_of_false (short'.not.mpr few') (short.not.mpr few))
    omega

/-- Everything `Evict` can do, in whatever order the map is iterated. -/
theorem Agrees.evictAlong_cases (k_pos : 1 ≤ k) (agrees : Agrees k replacer ledger)
    {order : List (Sigma fun _ : F => FrameEntry)} (iterated : order.Perm replacer.entries.entries) :
    (ledger.evictable = ∅ ∧ replacer.evictAlong order = (replacer, none)) ∨
    ∃ victim, ledger.IsVictim k victim ∧ replacer.evictAlong order =
      ({ replacer with entries := replacer.entries.erase victim, currSize := replacer.currSize - 1 }, some victim) := by
  have mem_order (held : Sigma fun _ : F => FrameEntry) : held ∈ order ↔ ledger.entry k held.1 = some held.2 := by
    rw [iterated.mem_iff, ← agrees.entry]
    exact AList.mem_lookup_iff.symm
  rw [evictAlong, agrees.size]
  by_cases empty : ledger.evictable = ∅
  · left
    exact ⟨empty, by rw [empty, Finset.card_empty, if_pos rfl]⟩
  · right
    rw [if_neg (Finset.card_eq_zero.not.mpr empty)]
    have past : ∀ held ∈ order, held.2.history.headD 0 < replacer.currentTimestamp := by
      intro held member
      rw [agrees.now]
      exact agrees.sound.past held.1 _ (head_mem_accesses k_pos ((mem_order held).mp member))
    have shows := shows_foldl order past
    have isCandidate : ∀ candidate ∈ ledger.evictable, ∃ held ∈ order.filter (·.2.isEvictable),
        ledger.entry k candidate = some held.2 := by
      intro candidate member
      have known := agrees.sound.known candidate member
      have found : ledger.entry k candidate = some ⟨_, decide (candidate ∈ ledger.evictable)⟩ := if_neg known
      exact ⟨⟨candidate, _⟩, List.mem_filter.mpr ⟨(mem_order _).mpr found, decide_eq_true member⟩, found⟩
    cases leads : (order.filter (·.2.isEvictable)).argmin fun held => rank replacer.k held.2 with
    | none =>
      obtain ⟨candidate, member⟩ := Finset.nonempty_iff_ne_empty.mpr empty
      obtain ⟨held, inside, -⟩ := isCandidate candidate member
      rw [List.argmin_eq_none.mp leads] at inside
      exact absurd inside List.not_mem_nil
    | some leader =>
      rw [leads] at shows
      obtain ⟨inOrder, flagged⟩ := List.mem_filter.mp (List.argmin_mem leads)
      have found := (mem_order leader).mp inOrder
      have evictable : leader.1 ∈ ledger.evictable := by
        obtain ⟨-, -, flag⟩ := Ledger.entry_eq_some found
        exact of_decide_eq_true (flag.symm.trans flagged)
      refine ⟨leader.1, ⟨evictable, fun other member different => ?_⟩, ?_⟩
      · obtain ⟨held, inside, found'⟩ := isCandidate other member
        have lower := List.le_of_mem_argmin inside leads
        rw [agrees.kept] at lower
        exact distance_of_rank_le k_pos agrees.sound found found' different lower
      · rw [findVictimAlong, shows.1]

theorem Agrees.remove (agrees : Agrees k replacer ledger) (frameId : F) :
    match replacer.remove frameId with
    | .ok replacer' => Agrees k replacer' (ledger.after (.remove frameId))
    | .error _ => ledger.after (.remove frameId) = ledger := by
  rw [LruKReplacer.remove, agrees.entry, Ledger.entry, Ledger.after]
  by_cases unknown : ledger.accesses frameId = []
  · have notEvictable : frameId ∉ ledger.evictable := fun member => agrees.sound.known frameId member unknown
    rw [if_pos unknown, if_neg notEvictable]
    exact agrees
  · rw [if_neg unknown]
    by_cases evictable : frameId ∈ ledger.evictable
    · simpa [evictable] using agrees.forget evictable
    · simp [evictable]

end Evict

section Runs

variable [DecidableEq F]

/-- The runs of a replacer. `Evict` may iterate the map in any order; a `Remove` that throws changes nothing. -/
inductive Runs (k : ℕ) : List (ReplacerCall F) → LruKReplacer F → Prop
  | init : Runs k [] { k := k }
  | recordAccess {calls replacer} (run : Runs k calls replacer) (frameId : F) :
    Runs k (calls ++ [.recordAccess frameId]) (replacer.recordAccess frameId)
  | setEvictable {calls replacer} (run : Runs k calls replacer) (frameId : F) (setEvictable : Bool) :
    Runs k (calls ++ [.setEvictable frameId setEvictable]) (replacer.setEvictable frameId setEvictable)
  | remove {calls replacer frameId replacer'} (run : Runs k calls replacer)
    (removed : replacer.remove frameId = .ok replacer') : Runs k (calls ++ [.remove frameId]) replacer'
  | refused {calls replacer frameId error} (run : Runs k calls replacer)
    (thrown : replacer.remove frameId = .error error) : Runs k (calls ++ [.remove frameId]) replacer
  | evict {calls replacer order replacer' answer} (run : Runs k calls replacer)
    (iterated : order.Perm replacer.entries.entries) (returned : replacer.evictAlong order = (replacer', answer)) :
    Runs k (calls ++ [.evict answer]) replacer'

theorem Runs.agrees (k_pos : 1 ≤ k) {calls : List (ReplacerCall F)} (run : Runs k calls replacer) :
    Agrees k replacer (calls.foldl Ledger.after {}) := by
  induction run with
  | init => exact agrees_init k
  | recordAccess run frameId ih =>
    rw [List.foldl_concat]
    exact ih.recordAccess frameId
  | setEvictable run frameId setEvictable ih =>
    rw [List.foldl_concat]
    exact ih.setEvictable frameId setEvictable
  | @remove _ _ frameId _ run removed ih =>
    have agrees := ih.remove frameId
    rw [removed] at agrees
    rw [List.foldl_concat]
    exact agrees
  | @refused _ _ frameId _ run thrown ih =>
    have unchanged := ih.remove frameId
    rw [thrown] at unchanged
    rw [List.foldl_concat, unchanged]
    exact ih
  | evict run iterated returned ih =>
    rw [List.foldl_concat]
    rcases ih.evictAlong_cases k_pos iterated with ⟨-, nothing⟩ | ⟨victim, largest, evicted⟩
    · obtain ⟨rfl, rfl⟩ := Prod.mk.inj (nothing.symm.trans returned)
      exact ih
    · obtain ⟨rfl, rfl⟩ := Prod.mk.inj (evicted.symm.trans returned)
      exact ih.forget largest.1

/-- After any calls the size is the number of frames that may be evicted, and `Evict`, in whatever order it iterates
the map, fails exactly when there is none and otherwise takes out the frame with the largest distance. -/
theorem evict_largest_distance (k_pos : 1 ≤ k) {calls : List (ReplacerCall F)} (run : Runs k calls replacer) :
    let ledger := calls.foldl Ledger.after {}
    replacer.size = ledger.evictable.card ∧
    ∀ order, order.Perm replacer.entries.entries →
      ((replacer.evictAlong order).2 = none ↔ replacer.size = 0) ∧
      ((replacer.evictAlong order).2 = none → (replacer.evictAlong order).1 = replacer) ∧
      ∀ victim, ((replacer.evictAlong order).2 = some victim ↔ ledger.IsVictim k victim) ∧
        (ledger.IsVictim k victim → (replacer.evictAlong order).1.entries = replacer.entries.erase victim) := by
  intro ledger
  have agrees := run.agrees k_pos
  refine ⟨agrees.size, fun order iterated => ?_⟩
  have size : replacer.size = ledger.evictable.card := agrees.size
  rcases agrees.evictAlong_cases k_pos iterated with ⟨empty, nothing⟩ | ⟨victim, largest, evicted⟩
  · have noVictim (victim : F) : ¬ledger.IsVictim k victim := by
      intro largest
      exact absurd (empty ▸ largest.1) (Finset.notMem_empty victim)
    rw [nothing, size]
    exact ⟨iff_of_true rfl (Finset.card_eq_zero.mpr empty), fun _ => rfl,
      fun victim => ⟨iff_of_false (Option.some_ne_none victim).symm (noVictim victim),
        fun largest => absurd largest (noVictim victim)⟩⟩
  · have nonempty : ledger.evictable ≠ ∅ := Finset.ne_empty_of_mem largest.1
    rw [evicted, size]
    refine ⟨iff_of_false (Option.some_ne_none victim) (Finset.card_eq_zero.not.mpr nonempty),
      fun impossible => absurd impossible (Option.some_ne_none victim), fun other => ?_⟩
    have same (largest' : ledger.IsVictim k other) : victim = other := largest.unique largest'
    constructor
    · constructor
      · rintro ⟨⟩
        exact largest
      · exact fun largest' => congrArg some (same largest')
    · exact fun largest' => same largest' ▸ rfl

/-- Frame 2 was accessed once and goes before frame 1, whose first access is older. -/
theorem evict_largest_distance_infinite :
    let replacer := (((({ k := 2 } : LruKReplacer ℕ).recordAccess 1).recordAccess 1).recordAccess
      2).setEvictable 1 true
    ∀ order, order.Perm (replacer.setEvictable 2 true).entries.entries →
      ((replacer.setEvictable 2 true).evictAlong order).2 = some 2 := by
  have run : Runs 2 [.recordAccess 1, .recordAccess 1, .recordAccess 2, .setEvictable 1 true, .setEvictable 2 true]
      ((((({ k := 2 } : LruKReplacer ℕ).recordAccess 1).recordAccess 1).recordAccess 2).setEvictable 1 true
        |>.setEvictable
        2 true) :=
    ((((Runs.init.recordAccess 1).recordAccess 1).recordAccess 2).setEvictable 1 true).setEvictable 2 true
  intro replacer order iterated
  exact (((evict_largest_distance (by decide) run).2 order iterated).2.2 2).1.mpr (by decide)

end Runs

end LruKReplacer

end OneBase
