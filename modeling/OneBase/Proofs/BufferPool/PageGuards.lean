import Mathlib.Data.List.Nodup
import Mathlib.Tactic.Common
import OneBase.Model.PageGuard
import OneBase.ToMathlib.Traces

/-! # Page guards release exactly once

What happened to a page from the moment a guard got it is written down by what the guard is:
a guard of class `kind` latches it, some number of writes follow while the page moves from guard to
guard, and at the end come one unlatch and one unpin. `Owned` says that every handed page with a
holder is before that end, every other one behind it, and that there is at most one holder. Each
operation is a composition of four edits, and each edit keeps `Owned`.
-/

namespace OneBase

variable {β ρ π : Type}

/-- The latch a guard of the class holds. -/
def GuardKind.latch : GuardKind → Option LatchMode
  | basic => none
  | read => some .read
  | write => some .write

/-- What `UnpinPage` is told by a guard that wrote or did not. -/
def GuardKind.reports : GuardKind → Bool → Bool
  | basic => id
  | read => fun _ => false
  | write => fun _ => true

theorem GuardKind.construct_eq (kind : GuardKind) (bpm : Option β) (page : Option ρ) :
    kind.construct bpm page = PageGuard.construct kind.latch bpm page := by
  cases kind <;> rfl

theorem GuardKind.drop_eq (kind : GuardKind) (guard : PageGuard β ρ) :
    kind.drop guard = guard.drop kind.latch kind.reports := by
  cases kind <;> rfl

namespace Handover

variable (h : Handover β π) (writes : ℕ)

/-- The calls on a page so far while a guard holds it. -/
def taken : List (PageCall β) :=
  h.kind.latch.toList.map .latch ++ List.replicate writes .getDataMut

/-- The calls that give a page back. -/
def release : List (PageCall β) :=
  h.kind.latch.toList.map .unlatch ++ [.unpinPage (some h.bpm) (h.kind.reports (decide (writes ≠ 0)))]

theorem taken_succ : h.taken (writes + 1) = h.taken writes ++ [.getDataMut] := by
  simp [taken, List.replicate_succ']

end Handover

/-- The calls on one page. -/
def callsOn [DecidableEq ρ] (calls : List (ρ × PageCall β)) (page : ρ) : List (PageCall β) :=
  calls.filterMap fun call => if call.1 = page then some call.2 else none

section CallsOn

variable [DecidableEq ρ]

@[simp] theorem callsOn_append (a b : List (ρ × PageCall β)) (page : ρ) :
    callsOn (a ++ b) page = callsOn a page ++ callsOn b page := by
  simp [callsOn]

@[simp] theorem callsOn_nil (page : ρ) : callsOn ([] : List (ρ × PageCall β)) page = [] := rfl

theorem callsOn_map (calls : List (PageCall β)) (on page : ρ) :
    callsOn (calls.map (Prod.mk on)) page = if on = page then calls else [] := by
  induction calls with
  | nil => simp
  | cons call rest ih =>
    rw [List.map_cons, ← List.singleton_append, callsOn_append, ih]
    by_cases same : on = page
    · simp [callsOn, same]
    · simp [callsOn, same]

end CallsOn

theorem PageGuard.drop_of_page {guard : PageGuard β ρ} {page : ρ} (holds : guard.page = some page)
    (latch : Option LatchMode) (dirty : Bool → Bool) :
    guard.drop latch dirty = ({}, (latch.toList.map PageCall.unlatch ++
      [PageCall.unpinPage guard.bpm (dirty guard.isDirty)]).map (Prod.mk page)) := by
  rw [PageGuard.drop, holds]
  simp [Function.comp_def]

theorem PageGuard.drop_of_noPage {guard : PageGuard β ρ} (empty : guard.page = none)
    (latch : Option LatchMode) (dirty : Bool → Bool) : guard.drop latch dirty = (guard, []) := by
  rw [PageGuard.drop, empty]

theorem PageGuard.construct_some (latch : Option LatchMode) (bpm : Option β) (page : ρ) :
    PageGuard.construct latch bpm (some page) =
      ({ bpm, page := some page }, (latch.toList.map PageCall.latch).map (Prod.mk page)) := by
  simp [PageGuard.construct, Function.comp_def]

namespace GuardProgram

open Traces

variable {s : GuardProgram β π}

/-- A living guard has the page. -/
def Holds (s : GuardProgram β π) (g : ℕ) (h : Handover β π) : Prop :=
  ∃ kind guard, s.guards g = some (kind, guard) ∧ guard.page = some h

@[simp] theorem handed_setGuard (g : ℕ) (object) : (s.setGuard g object).handed = s.handed := rfl

@[simp] theorem calls_setGuard (g : ℕ) (object) : (s.setGuard g object).calls = s.calls := rfl

theorem guards_setGuard (g g' : ℕ) (object) :
    (s.setGuard g object).guards g' = if g' = g then object else s.guards g' := by
  simp [setGuard, Function.update_apply]

@[simp] theorem handed_run (g : ℕ) (kind) (outcome) : (s.run g kind outcome).handed = s.handed := rfl

@[simp] theorem calls_run (g : ℕ) (kind) (outcome) : (s.run g kind outcome).calls = s.calls ++ outcome.2 := rfl

theorem guards_run (g g' : ℕ) (kind) (outcome) :
    (s.run g kind outcome).guards g' = if g' = g then some (kind, outcome.1) else s.guards g' :=
  guards_setGuard ..

variable [DecidableEq β] [DecidableEq π]

/-- What a guard of class `kind` knows about the page it holds. -/
structure Tracks (s : GuardProgram β π) (kind : GuardKind) (guard : PageGuard β (Handover β π))
    (h : Handover β π) : Prop where
  handed : h ∈ s.handed
  kind_eq : h.kind = kind
  bpm_eq : guard.bpm = some h.bpm
  calls : ∃ writes, callsOn s.calls h = h.taken writes ∧
    (kind = .basic → guard.isDirty = decide (writes ≠ 0)) ∧ (kind = .read → writes = 0)

/-- Every handed page has one holder that has not given it back, or none and is given back. -/
structure Owned (s : GuardProgram β π) : Prop where
  numbered : ∀ h ∈ s.handed, h.number < s.handed.length
  distinct : s.handed.Nodup
  silent : ∀ h, h ∉ s.handed → callsOn s.calls h = []
  held : ∀ g kind guard h, s.guards g = some (kind, guard) → guard.page = some h → s.Tracks kind guard h
  single : ∀ g g' h, s.Holds g h → s.Holds g' h → g = g'
  released : ∀ h ∈ s.handed, (∀ g, ¬ s.Holds g h) →
    ∃ writes, (h.kind = .read → writes = 0) ∧ callsOn s.calls h = h.taken writes ++ h.release writes

/-- A guard with nothing in its hands. -/
def Idle (s : GuardProgram β π) (g : ℕ) : Prop := ∀ h, ¬ s.Holds g h

omit [DecidableEq β] [DecidableEq π] in
theorem holds_of {g : ℕ} {kind : GuardKind} {guard : PageGuard β (Handover β π)} {h : Handover β π}
    (found : s.guards g = some (kind, guard)) : s.Holds g h ↔ guard.page = some h := by
  constructor
  · rintro ⟨kind', guard', found', page⟩
    cases found.symm.trans found'
    exact page
  · exact fun page => ⟨kind, guard, found, page⟩

omit [DecidableEq β] [DecidableEq π] in
theorem idle_of {g : ℕ} {kind : GuardKind} {guard : PageGuard β (Handover β π)}
    (found : s.guards g = some (kind, guard)) (empty : guard.page = none) : s.Idle g := by
  intro h holds
  rw [holds_of found, empty] at holds
  cases holds

omit [DecidableEq β] [DecidableEq π] in
theorem idle_of_none {g : ℕ} (free : s.guards g = none) : s.Idle g := by
  rintro h ⟨kind, guard, found, -⟩
  cases free.symm.trans found

omit [DecidableEq β] [DecidableEq π] in
/-- Two programs agree on the holders of `h` away from the guards that were edited. -/
theorem holds_congr {s' : GuardProgram β π} {g : ℕ} (same : s'.guards g = s.guards g) (h : Handover β π) :
    s'.Holds g h ↔ s.Holds g h := by
  unfold Holds
  rw [same]

/-- A guard that has nothing is replaced by one that has nothing. -/
theorem Owned.setIdle (owned : s.Owned) {g : ℕ} (idle : s.Idle g)
    {object : Option (GuardKind × PageGuard β (Handover β π))}
    (empty : ∀ kind guard, object = some (kind, guard) → guard.page = none) :
    (s.setGuard g object).Owned := by
  have still (g' : ℕ) (h : Handover β π) : (s.setGuard g object).Holds g' h ↔ s.Holds g' h := by
    by_cases here : g' = g
    · subst here
      refine iff_of_false ?_ (idle h)
      rintro ⟨kind, guard, found, page⟩
      rw [guards_setGuard, if_pos rfl] at found
      rw [empty kind guard found] at page
      cases page
    · exact holds_congr (by rw [guards_setGuard, if_neg here]) h
  constructor
  · exact owned.numbered
  · exact owned.distinct
  · exact owned.silent
  · intro g' kind guard h found page
    rw [guards_setGuard] at found
    split_ifs at found with here
    · rw [empty kind guard found] at page
      cases page
    · obtain ⟨handed, kind_eq, bpm_eq, calls⟩ := owned.held g' kind guard h found page
      exact ⟨handed, kind_eq, bpm_eq, calls⟩
  · intro g' g'' h
    rw [still, still]
    exact owned.single g' g'' h
  · intro h handed noHolder
    exact owned.released h handed fun g' holds => noHolder g' ((still g' h).mpr holds)

/-- A guard with a page gives it back. -/
theorem Owned.giveBack (owned : s.Owned) {g : ℕ} {kind : GuardKind}
    {guard : PageGuard β (Handover β π)} {h : Handover β π} (found : s.guards g = some (kind, guard))
    (page : guard.page = some h) : (s.run g kind (kind.drop guard)).Owned := by
  obtain ⟨handed, kind_eq, bpm_eq, writes, calls, dirty, reader⟩ := owned.held g kind guard h found page
  have reported : kind.reports guard.isDirty = kind.reports (decide (writes ≠ 0)) := by
    cases kind with
    | basic => exact dirty rfl
    | read => rfl
    | write => rfl
  have outcome : kind.drop guard = ({}, (h.release writes).map (Prod.mk h)) := by
    rw [GuardKind.drop_eq, PageGuard.drop_of_page page, reported, bpm_eq, Handover.release, kind_eq]
  rw [outcome]
  have away (g' : ℕ) (h' : Handover β π) :
      (s.run g kind ({}, (h.release writes).map (Prod.mk h))).Holds g' h' ↔ g' ≠ g ∧ s.Holds g' h' := by
    by_cases here : g' = g
    · subst here
      rw [holds_of (by rw [guards_run, if_pos rfl])]
      simp
    · have same := holds_congr (show (s.run g kind ({}, (h.release writes).map (Prod.mk h))).guards g' = s.guards g' by
        rw [guards_run, if_neg here]) h'
      simp [here, same]
  have elsewhere {h' : Handover β π} (different : h' ≠ h) :
      callsOn (s.calls ++ (h.release writes).map (Prod.mk h)) h' = callsOn s.calls h' := by
    rw [callsOn_append, callsOn_map, if_neg different.symm, List.append_nil]
  constructor
  · exact owned.numbered
  · exact owned.distinct
  · intro h' unknown
    have different : h' ≠ h := by
      rintro rfl
      exact unknown handed
    exact (elsewhere different).trans (owned.silent h' unknown)
  · intro g' kind' guard' h' found' page'
    rw [guards_run] at found'
    split_ifs at found' with here
    · cases found'
      cases page'
    · have different : h' ≠ h := by
        rintro rfl
        exact here (owned.single g' g h' ⟨kind', guard', found', page'⟩ ⟨kind, guard, found, page⟩)
      obtain ⟨handed', kind_eq', bpm_eq', calls'⟩ := owned.held g' kind' guard' h' found' page'
      exact ⟨handed', kind_eq', bpm_eq', by rw [calls_run, elsewhere different]; exact calls'⟩
  · intro g' g'' h' holds' holds''
    exact owned.single g' g'' h' ((away g' h').mp holds').2 ((away g'' h').mp holds'').2
  · intro h' handed' noHolder
    by_cases here : h' = h
    · subst here
      refine ⟨writes, fun isRead => reader (kind_eq ▸ isRead), ?_⟩
      rw [calls_run, callsOn_append, callsOn_map, if_pos rfl, calls]
    · rw [calls_run, elsewhere here]
      refine owned.released h' handed' fun g' holds => ?_
      apply noHolder g' ((away g' h').mpr ⟨?_, holds⟩)
      rintro rfl
      rw [holds_of found, page] at holds
      exact here (Option.some.inj holds).symm

/-- An idle guard takes over what another one holds. -/
theorem Owned.moveInto (owned : s.Owned) {g that : ℕ} (different : g ≠ that) (idle : s.Idle g) :
    (s.moveInto g that).Owned := by
  unfold GuardProgram.moveInto
  cases found : s.guards that with
  | none => exact owned
  | some object =>
    obtain ⟨kind, guard⟩ := object
    change ((s.setGuard that (some (kind, guard.moved))).setGuard g (some (kind, guard))).Owned
    set s' := (s.setGuard that (some (kind, guard.moved))).setGuard g (some (kind, guard)) with stepDef
    have guards' (g' : ℕ) : s'.guards g' =
        if g' = g then some (kind, guard) else if g' = that then some (kind, guard.moved) else s.guards g' := by
      rw [stepDef, guards_setGuard, guards_setGuard]
    have holds' (g' : ℕ) (h : Handover β π) :
        s'.Holds g' h ↔ (g' = g ∧ s.Holds that h) ∨ (g' ≠ g ∧ g' ≠ that ∧ s.Holds g' h) := by
      by_cases here : g' = g
      · subst here
        rw [holds_of (by rw [guards', if_pos rfl]), holds_of found]
        simp
      · by_cases there : g' = that
        · subst there
          rw [holds_of (by rw [guards', if_neg here, if_pos rfl])]
          simp [here, PageGuard.moved]
        · have same := holds_congr (show s'.guards g' = s.guards g' by rw [guards', if_neg here, if_neg there]) h
          simp [here, there, same]
    constructor
    · exact owned.numbered
    · exact owned.distinct
    · exact owned.silent
    · intro g' kind' guard' h found' page
      have before : ∃ g'', s.guards g'' = some (kind', guard') := by
        rw [guards'] at found'
        split_ifs at found' with here there
        · exact ⟨that, found.trans found'⟩
        · cases found'
          cases page
        · exact ⟨g', found'⟩
      obtain ⟨g'', found''⟩ := before
      obtain ⟨handed, kind_eq, bpm_eq, calls⟩ := owned.held g'' kind' guard' h found'' page
      exact ⟨handed, kind_eq, bpm_eq, calls⟩
    · intro g₁ g₂ h holds₁ holds₂
      rw [holds'] at holds₁ holds₂
      rcases holds₁ with ⟨rfl, holds₁⟩ | ⟨-, away₁, holds₁⟩
      · rcases holds₂ with ⟨rfl, -⟩ | ⟨-, away₂, holds₂⟩
        · rfl
        · cases away₂ (owned.single g₂ that h holds₂ holds₁)
      · rcases holds₂ with ⟨rfl, holds₂⟩ | ⟨-, -, holds₂⟩
        · cases away₁ (owned.single g₁ that h holds₁ holds₂)
        · exact owned.single g₁ g₂ h holds₁ holds₂
    · intro h handed noHolder
      refine owned.released h handed fun g' holds => ?_
      by_cases there : g' = that
      · subst there
        exact noHolder g ((holds' g h).mpr (.inl ⟨rfl, holds⟩))
      · refine noHolder g' ((holds' g' h).mpr (.inr ⟨?_, there, holds⟩))
        rintro rfl
        exact idle h holds

/-- A pinned page goes to a new guard. -/
theorem Owned.handOver (owned : s.Owned) {g : ℕ} (free : s.guards g = none) (kind : GuardKind)
    (bpm : β) (page : π) :
    (s.step (.construct g kind bpm (some page))).Owned := by
  set h : Handover β π := ⟨s.handed.length, kind, bpm, page⟩ with h_def
  have fresh : h ∉ s.handed := fun member => Nat.lt_irrefl _ (owned.numbered h member)
  have taken : h.kind.latch.toList.map PageCall.latch = h.taken 0 := by simp [Handover.taken]
  have stepped : s.step (.construct g kind bpm (some page)) =
      { s with handed := s.handed ++ [h] }.run g kind
        ({ bpm := some bpm, page := some h }, (h.taken 0).map (Prod.mk h)) := by
    rw [← taken, ← PageGuard.construct_some, ← GuardKind.construct_eq]
    rfl
  rw [stepped]
  set s' := { s with handed := s.handed ++ [h] }.run g kind
    ({ bpm := some bpm, page := some h }, (h.taken 0).map (Prod.mk h)) with stepDef
  have guards' (g' : ℕ) :
      s'.guards g' = if g' = g then some (kind, { bpm := some bpm, page := some h }) else s.guards g' := by
    rw [stepDef, guards_run]
  have holds' (g' : ℕ) (h' : Handover β π) : s'.Holds g' h' ↔ (g' = g ∧ h' = h) ∨ s.Holds g' h' := by
    by_cases here : g' = g
    · subst here
      rw [holds_of (by rw [guards', if_pos rfl])]
      simp [idle_of_none free h', eq_comm]
    · have same := holds_congr (show s'.guards g' = s.guards g' by rw [guards', if_neg here]) h'
      simp [here, same]
  have elsewhere {h' : Handover β π} (different : h' ≠ h) : callsOn s'.calls h' = callsOn s.calls h' := by
    rw [stepDef, calls_run, callsOn_append, callsOn_map, if_neg different.symm, List.append_nil]
  have here : callsOn s'.calls h = h.taken 0 := by
    rw [stepDef, calls_run, callsOn_append, callsOn_map, if_pos rfl]
    change callsOn s.calls h ++ _ = _
    rw [owned.silent h fresh, List.nil_append]
  have handedBefore {g' : ℕ} {h' : Handover β π} (holds : s.Holds g' h') : h' ∈ s.handed := by
    obtain ⟨kind', guard', found', page'⟩ := holds
    exact (owned.held g' kind' guard' h' found' page').handed
  constructor
  · intro h' member
    change h'.number < (s.handed ++ [h]).length
    rw [List.length_append, List.length_singleton]
    rcases List.mem_append.mp member with member | member
    · exact Nat.lt_succ_of_lt (owned.numbered h' member)
    · rw [List.mem_singleton.mp member, h_def]
      exact Nat.lt_succ_self _
  · change (s.handed ++ [h]).Nodup
    exact List.nodup_append.mpr ⟨owned.distinct, List.nodup_singleton h, fun a member b last => by
      rw [List.mem_singleton.mp last]
      rintro rfl
      exact fresh member⟩
  · intro h' unknown
    have different : h' ≠ h := by
      rintro rfl
      exact unknown (List.mem_append_right _ (List.mem_singleton_self h))
    rw [elsewhere different]
    exact owned.silent h' fun member => unknown (List.mem_append_left _ member)
  · intro g' kind' guard' h' found' page'
    rw [guards'] at found'
    split_ifs at found' with same
    · cases found'
      cases page'
      exact ⟨List.mem_append_right _ (List.mem_singleton_self h), rfl, rfl, 0, here, fun _ => rfl, fun _ => rfl⟩
    · obtain ⟨handed, kind_eq, bpm_eq, calls⟩ := owned.held g' kind' guard' h' found' page'
      have different : h' ≠ h := by
        rintro rfl
        exact fresh handed
      exact ⟨List.mem_append_left _ handed, kind_eq, bpm_eq, by rw [elsewhere different]; exact calls⟩
  · intro g₁ g₂ h' holds₁ holds₂
    rw [holds'] at holds₁ holds₂
    rcases holds₁ with ⟨rfl, rfl⟩ | holds₁
    · rcases holds₂ with ⟨rfl, -⟩ | holds₂
      · rfl
      · cases fresh (handedBefore holds₂)
    · rcases holds₂ with ⟨rfl, rfl⟩ | holds₂
      · cases fresh (handedBefore holds₁)
      · exact owned.single g₁ g₂ h' holds₁ holds₂
  · intro h' member noHolder
    rcases List.mem_append.mp member with member | member
    · have different : h' ≠ h := by
        rintro rfl
        exact fresh member
      rw [elsewhere different]
      exact owned.released h' member fun g' holds => noHolder g' ((holds' g' h').mpr (.inr holds))
    · rw [List.mem_singleton.mp member] at noHolder
      cases noHolder g ((holds' g h).mpr (.inl ⟨rfl, rfl⟩))

/-- The holder of a page writes to it. -/
theorem Owned.write (owned : s.Owned) {g : ℕ} {kind : GuardKind} {guard guard' : PageGuard β (Handover β π)}
    {h : Handover β π} (found : s.guards g = some (kind, guard)) (page : guard.page = some h)
    (writer : kind ≠ .read) (samePage : guard'.page = guard.page) (samePool : guard'.bpm = guard.bpm)
    (dirty : kind = .basic → guard'.isDirty = true) :
    (s.run g kind (guard', [(h, .getDataMut)])).Owned := by
  obtain ⟨handed, kind_eq, bpm_eq, writes, calls, -, -⟩ := owned.held g kind guard h found page
  set s' := s.run g kind (guard', [(h, .getDataMut)]) with stepDef
  have holds' (g' : ℕ) (h' : Handover β π) : s'.Holds g' h' ↔ s.Holds g' h' := by
    by_cases here : g' = g
    · subst here
      rw [holds_of (by rw [stepDef, guards_run, if_pos rfl]), holds_of found, samePage]
    · exact holds_congr (by rw [stepDef, guards_run, if_neg here]) h'
  have elsewhere {h' : Handover β π} (different : h' ≠ h) : callsOn s'.calls h' = callsOn s.calls h' := by
    have apart : callsOn [(h, (.getDataMut : PageCall β))] h' = [] := by
      simp [callsOn, different.symm]
    rw [stepDef, calls_run, callsOn_append, apart, List.append_nil]
  have here : callsOn s'.calls h = h.taken (writes + 1) := by
    rw [stepDef, calls_run, callsOn_append, calls, Handover.taken_succ]
    simp [callsOn]
  constructor
  · exact owned.numbered
  · exact owned.distinct
  · intro h' unknown
    have different : h' ≠ h := by
      rintro rfl
      exact unknown handed
    exact (elsewhere different).trans (owned.silent h' unknown)
  · intro g' kind' object h' found' page'
    have holds : s.Holds g' h' := (holds' g' h').mp ⟨kind', object, found', page'⟩
    rw [stepDef, guards_run] at found'
    split_ifs at found' with same
    · cases found'
      obtain rfl : h = h' := Option.some.inj (page.symm.trans (samePage.symm.trans page'))
      refine ⟨handed, kind_eq, samePool.trans bpm_eq, writes + 1, here, ?_, fun isRead => absurd isRead writer⟩
      intro isBasic
      rw [dirty isBasic]
      rfl
    · have different : h' ≠ h := by
        rintro rfl
        exact same (owned.single g' g h' holds ⟨kind, guard, found, page⟩)
      obtain ⟨handed', kind_eq', bpm_eq', calls'⟩ := owned.held g' kind' object h' found' page'
      exact ⟨handed', kind_eq', bpm_eq', by rw [elsewhere different]; exact calls'⟩
  · intro g₁ g₂ h' holds₁ holds₂
    exact owned.single g₁ g₂ h' ((holds' g₁ h').mp holds₁) ((holds' g₂ h').mp holds₂)
  · intro h' handed' noHolder
    have different : h' ≠ h := by
      rintro rfl
      exact noHolder g ((holds' g h').mpr ⟨kind, guard, found, page⟩)
    rw [elsewhere different]
    exact owned.released h' handed' fun g' holds => noHolder g' ((holds' g' h').mpr holds)

omit [DecidableEq β] [DecidableEq π] in
theorem dropAt_of {g : ℕ} {kind : GuardKind} {guard : PageGuard β (Handover β π)}
    (found : s.guards g = some (kind, guard)) : s.dropAt g = s.run g kind (kind.drop guard) := by
  rw [dropAt, found]

omit [DecidableEq β] [DecidableEq π] in
theorem getDataMut_of {g : ℕ} {kind : GuardKind} {guard : PageGuard β (Handover β π)}
    (found : s.guards g = some (kind, guard)) :
    s.step (.getDataMut g) = s.run g kind (kind.getDataMut guard) := by
  simp only [step, found]

omit [DecidableEq β] [DecidableEq π] in
theorem dropAt_idle (g : ℕ) : (s.dropAt g).Idle g := by
  rw [dropAt]
  cases found : s.guards g with
  | none => exact idle_of_none found
  | some object =>
    obtain ⟨kind, guard⟩ := object
    apply idle_of (by rw [guards_run, if_pos rfl])
    rw [GuardKind.drop_eq]
    cases page : guard.page with
    | none => rw [PageGuard.drop_of_noPage page, page]
    | some h => rw [PageGuard.drop_of_page page]

theorem Owned.dropAt (owned : s.Owned) (g : ℕ) : (s.dropAt g).Owned := by
  cases found : s.guards g with
  | none =>
    rw [GuardProgram.dropAt, found]
    exact owned
  | some object =>
    obtain ⟨kind, guard⟩ := object
    rw [dropAt_of found]
    cases page : guard.page with
    | some h => exact owned.giveBack found page
    | none =>
      have same : s.run g kind (kind.drop guard) = s := by
        rw [GuardKind.drop_eq, PageGuard.drop_of_noPage page, run, setGuard, List.append_nil, ← found,
          Function.update_eq_self]
      rw [same]
      exact owned

omit [DecidableEq β] [DecidableEq π] in
theorem guards_of_kindOf {g : ℕ} (free : s.kindOf g = none) : s.guards g = none :=
  Option.map_eq_none_iff.mp free

/-- What one step preserves. -/
theorem Owned.step (owned : s.Owned) {a : GuardAction β π} (enabled : s.Enabled a) : (s.step a).Owned := by
  cases a with
  | default g kind =>
    apply owned.setIdle (idle_of_none (guards_of_kindOf enabled))
    rintro kind guard found
    cases found
    rfl
  | construct g kind bpm page =>
    have free := guards_of_kindOf enabled
    cases page with
    | some page => exact owned.handOver free kind bpm page
    | none =>
      have stepped : s.step (.construct g kind bpm none) = s.setGuard g (some (kind, { bpm := some bpm })) := by
        simp only [GuardProgram.step, GuardKind.construct_eq, Option.map_none, Option.toList_none, List.append_nil]
        simp [PageGuard.construct, run, setGuard]
      rw [stepped]
      apply owned.setIdle (idle_of_none free)
      rintro kind guard found
      cases found
      rfl
  | moveConstruct g that =>
    obtain ⟨free, alive⟩ := enabled
    apply owned.moveInto _ (idle_of_none (guards_of_kindOf free))
    rintro rfl
    exact alive free
  | moveAssign g that =>
    change (if g = that then s else (s.dropAt g).moveInto g that).Owned
    split_ifs with self
    · exact owned
    · exact (owned.dropAt g).moveInto self (dropAt_idle g)
  | getDataMut g =>
    cases found : s.guards g with
    | none => simp [Enabled, kindOf, found] at enabled
    | some object =>
      obtain ⟨kind, guard⟩ := object
      rw [getDataMut_of found]
      have writer : kind ≠ .read := by
        rintro rfl
        simp [Enabled, kindOf, found] at enabled
      cases page : guard.page with
      | some h =>
        cases kind with
        | basic =>
          have outcome : GuardKind.basic.getDataMut guard = ({ guard with isDirty := true }, [(h, .getDataMut)]) := by
            simp [GuardKind.getDataMut, BasicPageGuard.getDataMut, page]
          rw [outcome]
          exact owned.write found page writer rfl rfl fun _ => rfl
        | read => cases writer rfl
        | write =>
          have outcome : GuardKind.write.getDataMut guard = (guard, [(h, .getDataMut)]) := by
            simp [GuardKind.getDataMut, WritePageGuard.getDataMut, page]
          rw [outcome]
          apply owned.write found page writer rfl rfl
          rintro ⟨⟩
      | none =>
        have stepped : s.run g kind (kind.getDataMut guard) =
            s.setGuard g (some (kind, (kind.getDataMut guard).1)) := by
          cases kind <;> simp [GuardKind.getDataMut, BasicPageGuard.getDataMut, WritePageGuard.getDataMut, page, run,
            setGuard]
        rw [stepped]
        apply owned.setIdle (idle_of found page)
        rintro kind' guard' found'
        cases found'
        cases kind <;> exact page
  | drop g => exact owned.dropAt g
  | destroy g =>
    apply (owned.dropAt g).setIdle (dropAt_idle g)
    rintro kind guard found
    cases found

theorem owned_initial : ({} : GuardProgram β π).Owned := by
  constructor <;> simp [Holds]

/-- After any sequence of operations on guards: at most one guard holds a handed page; while one does, the calls on the
page are the latch and writes; when none does, they are the latch, the writes, one unlatch and then one unpin, which
says dirty for a `BasicPageGuard` exactly if there was a write, never for a `ReadPageGuard` and always for a
`WritePageGuard`. No call is made on anything else, and no page is held when all guards are destroyed. -/
theorem run_releasesOnce (run : List (GuardAction β π)) (along : Along Enabled step {} run) :
    let s := run.foldl step {}
    s.handed.Nodup ∧ (∀ h, h ∉ s.handed → callsOn s.calls h = [] ∧ ∀ g, ¬ s.Holds g h) ∧
    (∀ h ∈ s.handed,
      (∀ g g', s.Holds g h → s.Holds g' h → g = g') ∧
      ((∃ g, s.Holds g h) → ∃ writes, callsOn s.calls h = h.taken writes) ∧
      ((¬ ∃ g, s.Holds g h) → ∃ writes, callsOn s.calls h = h.taken writes ++ h.release writes)) ∧
    ((∀ g, s.guards g = none) → ∀ h ∈ s.handed,
      ∃ writes, callsOn s.calls h = h.taken writes ++ h.release writes) := by
  have owned : (run.foldl step {}).Owned :=
    along.invariant (I := Owned) (fun _ _ owned enabled => owned.step enabled) owned_initial
  refine ⟨owned.distinct, ?_, ?_, ?_⟩
  · intro h unknown
    refine ⟨owned.silent h unknown, ?_⟩
    rintro g ⟨kind, guard, found, page⟩
    exact unknown (owned.held g kind guard h found page).handed
  · intro h handed
    refine ⟨fun g g' => owned.single g g' h, ?_, ?_⟩
    · rintro ⟨g, kind, guard, found, page⟩
      obtain ⟨writes, calls, -⟩ := (owned.held g kind guard h found page).calls
      exact ⟨writes, calls⟩
    · intro noHolder
      obtain ⟨writes, -, calls⟩ := owned.released h handed (not_exists.mp noHolder)
      exact ⟨writes, calls⟩
  · intro destroyed h handed
    obtain ⟨writes, -, calls⟩ := owned.released h handed fun g => idle_of_none (destroyed g) h
    exact ⟨writes, calls⟩

/-- A page that was written to moves on to a guard that already holds another one; then all are destroyed. -/
def overwritten : List (GuardAction Unit ℕ) :=
  [.construct 0 .basic () (some 7), .getDataMut 0, .moveConstruct 1 0, .construct 2 .basic () (some 8),
    .moveAssign 2 1, .moveAssign 2 2, .destroy 2, .destroy 1, .destroy 0]

theorem run_releasesOnce_overwritten :
    (∃ writes, callsOn (overwritten.foldl step {}).calls ⟨0, .basic, (), 7⟩ =
      Handover.taken ⟨0, .basic, (), 7⟩ writes ++ Handover.release ⟨0, .basic, (), 7⟩ writes) ∧
    callsOn (overwritten.foldl step {}).calls ⟨0, .basic, (), 7⟩ = [.getDataMut, .unpinPage (some ()) true] ∧
    callsOn (overwritten.foldl step {}).calls ⟨1, .basic, (), 8⟩ = [.unpinPage (some ()) false] := by
  refine ⟨(run_releasesOnce overwritten (by decide)).2.2.2 ?_ _ (by decide), by decide, by decide⟩
  intro g
  rcases g with _ | _ | _ | g <;> rfl

end GuardProgram

end OneBase
