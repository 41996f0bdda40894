import Mathlib.Data.List.Basic
import Mathlib.Order.Lattice
import Mathlib.Tactic.Common

/-! # Local edits of a list

`Edits old new l l'` says that `l'` is `l` with one occurrence of the block `old` replaced by
`new`. Edits survive any surrounding context, and on a list sorted by strictly increasing keys
they say which entries were added or taken away.
-/

namespace ListEdits

variable {α K V : Type*}

/-- One block of `l` is replaced. -/
def Edits (old new l l' : List α) : Prop :=
  ∃ before after, l = before ++ (old ++ after) ∧ l' = before ++ (new ++ after)

theorem edits_nil_iff {l l' : List α} : Edits [] [] l l' ↔ l' = l := by
  constructor
  · rintro ⟨before, after, rfl, rfl⟩
    rfl
  · rintro rfl
    exact ⟨[], l', rfl, rfl⟩

variable {old new l l' : List α}

/-- An edit inside a longer list. -/
theorem Edits.context (edit : Edits old new l l') (front back : List α) :
    Edits old new (front ++ (l ++ back)) (front ++ (l' ++ back)) := by
  obtain ⟨before, after, rfl, rfl⟩ := edit
  exact ⟨front ++ before, after ++ back, by simp, by simp⟩

theorem Edits.length (edit : Edits old new l l') : l'.length + old.length = l.length + new.length := by
  obtain ⟨before, after, rfl, rfl⟩ := edit
  simp only [List.length_append]
  omega

/-- What an edit leaves was there before or belongs to the new block. -/
theorem Edits.mem_of_mem (edit : Edits old new l l') {a : α} (member : a ∈ l') : a ∈ l ∨ a ∈ new := by
  obtain ⟨before, after, rfl, rfl⟩ := edit
  simp only [List.mem_append] at member ⊢
  tauto

/-- An insertion adds exactly its block. -/
theorem Edits.mem_insert (edit : Edits [] new l l') (a : α) : a ∈ l' ↔ a ∈ l ∨ a ∈ new := by
  obtain ⟨before, after, rfl, rfl⟩ := edit
  simp only [List.mem_append, List.not_mem_nil, false_or]
  tauto

/-- Taking the entry of a key out of a list with increasing keys removes exactly that key. -/
theorem Edits.mem_erase [LinearOrder K] {key : K} {value : V} {l l' : List (K × V)}
    (edit : Edits [(key, value)] [] l l') (sorted : l.Pairwise (fun a b => a.1 < b.1)) (e : K × V) :
    e ∈ l' ↔ e ∈ l ∧ e.1 ≠ key := by
  obtain ⟨before, after, rfl, rfl⟩ := edit
  obtain ⟨-, tail, across⟩ := List.pairwise_append.mp sorted
  have later := (List.pairwise_cons.mp tail).1
  have earlier : ∀ a ∈ before, a.1 < key := fun a member => across a member _ List.mem_cons_self
  simp only [List.mem_append, List.nil_append, List.mem_cons, List.not_mem_nil, or_false]
  constructor
  · rintro (member | member)
    · exact ⟨.inl member, (earlier e member).ne⟩
    · exact ⟨.inr (.inr member), (later e member).ne'⟩
  · rintro ⟨member | rfl | member, other⟩
    · exact .inl member
    · exact absurd rfl other
    · exact .inr member

end ListEdits
