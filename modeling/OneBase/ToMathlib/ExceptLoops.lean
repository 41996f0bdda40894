import Mathlib.Data.List.Forall2
import Mathlib.Data.Multiset.Bind

/-! # Computations that may fail

When a sequence of computations in `Except` succeeds, each of them did. Two results agree when both
fail or both succeed with the same elements in some order.
-/

namespace ExceptLoops

variable {ε α β : Type}

theorem bind_eq_ok_iff {x : Except ε α} {f : α → Except ε β} {b : β} :
    (x >>= f) = .ok b ↔ ∃ a, x = .ok a ∧ f a = .ok b := by
  cases x with
  | error e =>
    simp only [bind, Except.bind, reduceCtorEq, false_and, exists_false]
  | ok a => simp [bind, Except.bind]

theorem pure_eq_ok_iff {a b : α} : (pure a : Except ε α) = .ok b ↔ a = b := by
  simp [pure, Except.pure]

/-- A loop that collects results. -/
theorem mapM_eq_ok_iff {f : α → Except ε β} {l : List α} {out : List β} :
    l.mapM f = .ok out ↔ List.Forall₂ (fun a b => f a = .ok b) l out := by
  induction l generalizing out with
  | nil => rw [List.mapM_nil, pure_eq_ok_iff, List.forall₂_nil_left_iff, eq_comm]
  | cons a rest ih =>
    simp only [List.mapM_cons, bind_eq_ok_iff, pure_eq_ok_iff, ih, List.forall₂_cons_left_iff]
    constructor
    · rintro ⟨b, first, others, later, rfl⟩
      exact ⟨b, others, first, later, rfl⟩
    · rintro ⟨b, others, first, later, rfl⟩
      exact ⟨b, first, others, later, rfl⟩

/-- A collected result comes from an element. -/
theorem exists_of_mem_mapM {f : α → Except ε β} {l : List α} {out : List β}
    (collected : l.mapM f = .ok out) {b : β}
    (mem : b ∈ out) : ∃ a ∈ l, f a = .ok b := by
  have related := mapM_eq_ok_iff.mp collected
  clear collected
  induction related with
  | nil => cases mem
  | cons head _ ih =>
    rcases List.mem_cons.mp mem with rfl | mem
    · exact ⟨_, List.mem_cons_self, head⟩
    · obtain ⟨a, inside, got⟩ := ih mem
      exact ⟨a, List.mem_cons_of_mem _ inside, got⟩

theorem mapM_ne_nil_iff {f : α → Except ε β} {l : List α} {out : List β} (collected : l.mapM f = .ok out) :
    out ≠ [] ↔ l ≠ [] := by
  rw [← List.length_pos_iff, ← List.length_pos_iff, (mapM_eq_ok_iff.mp collected).length_eq]

theorem mapM_congr {f g : α → Except ε β} {l : List α} (same : ∀ a ∈ l, f a = g a) : l.mapM f = l.mapM g := by
  induction l with
  | nil => rfl
  | cons a rest ih =>
    rw [List.forall_mem_cons] at same
    rw [List.mapM_cons, List.mapM_cons, same.1, ih same.2]

/-- A loop over computations that succeed. -/
theorem exists_mapM_eq_ok {f : α → Except ε β} {l : List α} (succeeds : ∀ a ∈ l, ∃ b, f a = .ok b) :
    ∃ out, l.mapM f = .ok out := by
  induction l with
  | nil => exact ⟨[], rfl⟩
  | cons a rest ih =>
    rw [List.forall_mem_cons] at succeeds
    obtain ⟨b, first⟩ := succeeds.1
    obtain ⟨out, later⟩ := ih succeeds.2
    exact ⟨b :: out, by rw [List.mapM_cons, first, later]; rfl⟩

/-- Two loops after each other, or one loop with both steps. -/
theorem mapM_bind_eq {γ : Type} {f : α → Except ε β} {l : List α} {out : List β}
    (collected : l.mapM f = .ok out)
    (g : β → Except ε γ) : (l.mapM fun a => f a >>= g) = out.mapM g := by
  induction l generalizing out with
  | nil =>
    cases collected
    rfl
  | cons a rest ih =>
    simp only [List.mapM_cons, bind_eq_ok_iff, pure_eq_ok_iff] at collected
    obtain ⟨b, first, others, later, rfl⟩ := collected
    simp only [List.mapM_cons, first, ih later]
    rfl

/-- Both fail, or both give the same elements. -/
def SameRows : Except ε (List α) → Except ε (List α) → Prop
  | .ok a, .ok b => a.Perm b
  | .error _, .error _ => True
  | _, _ => False

theorem sameRows_iff {x y : Except ε (List α)} :
    SameRows x y ↔ (∃ a b, x = .ok a ∧ y = .ok b ∧ a.Perm b) ∨
    ((∀ a, ¬ x = .ok a) ∧ ∀ b, ¬ y = .ok b) := by
  cases x with
  | error e =>
    cases y with
    | error e' => simp [SameRows]
    | ok b => simp [SameRows]
  | ok a =>
    cases y with
    | error e' => simp [SameRows]
    | ok b => simp [SameRows]

variable {γ : Type}

/-- Two nested loops over lists can change places. -/
theorem flatMap_perm_swap (l : List α) (m : List β) (f : α → β → List γ) :
    (l.flatMap fun a => m.flatMap (f a)).Perm (m.flatMap fun b => l.flatMap fun a => f a b) := by
  rw [← Multiset.coe_eq_coe, ← Multiset.coe_bind, ← Multiset.coe_bind]
  simp only [← Multiset.coe_bind]
  exact Multiset.bind_bind _ _

theorem map_filter_eq_flatMap (l : List α) (p : α → Bool) (f : α → β) :
    (l.filter p).map f = l.flatMap fun a => if p a then [f a] else [] := by
  induction l with
  | nil => rfl
  | cons a rest ih =>
    cases test : p a with
    | true => simp [test, ih]
    | false => simp [test, ih]

/-- The pairs that pass a test, collected from either side. -/
theorem pairs_perm_swap (l : List α) (m : List β) (p : α → β → Bool) (f : α → β → γ) :
    (l.flatMap fun a => (m.filter (p a)).map (f a)).Perm
      (m.flatMap fun b => (l.filter fun a => p a b).map fun a => f a b) := by
  simp only [map_filter_eq_flatMap]
  exact flatMap_perm_swap l m fun a b => if p a b then [f a b] else []

end ExceptLoops
