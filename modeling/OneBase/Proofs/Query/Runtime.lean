import OneBase.Model.QueryExecutors

/-! # A runtime

One choice of what the standard library leaves open: groups come in the order of the table, and a sort
compares every two rows before it starts, if there are several, then inserts one row after another.
-/

namespace OneBase

namespace Runtime

variable {F : Type}

/-- Insertion sort, after every comparison has been tried. -/
def sortOrThrow (less : Row F → Row F → Except String Bool) (rows : List (Row F)) : Except String (List (Row F)) :=
  if rows.length ≤ 1 then .ok rows
  else if ∀ a ∈ rows, ∀ b ∈ rows, (less a b).isOk then .ok (rows.insertionSort fun a b =>
    (less b a).toOption = some false)
  else .error "comparison failed"

theorem sortOrThrow_sorted (less : Row F → Row F → Except String Bool) (le : Row F → Row F → Bool)
    (rows sorted : List (Row F)) (total : ∀ a b, le a b ∨ le b a) (trans : ∀ a b c, le a b → le b c → le a c)
    (answers : ∀ a ∈ rows, ∀ b ∈ rows, ∀ answer, less a b = .ok answer → answer = !le b a)
    (returned : sortOrThrow less rows = .ok sorted) : sorted.Perm rows ∧ sorted.Pairwise fun a b => le a b := by
  have : Std.Total fun a b => le a b = true := ⟨total⟩
  have : IsTrans (Row F) fun a b => le a b = true := ⟨trans⟩
  unfold sortOrThrow at returned
  split_ifs at returned with single answered
  · cases returned
    refine ⟨.refl _, ?_⟩
    match rows, single with
    | [], _ => exact .nil
    | [a], _ => exact List.pairwise_singleton _ a
  cases returned
  have compares : ∀ a ∈ rows, ∀ b ∈ rows, less a b = .ok (!le b a) := fun a memA b memB => by
    cases result : less a b with
    | error message => simpa [result, Except.isOk, Except.toBool] using answered a memA b memB
    | ok answer => rw [answers a memA b memB answer result]
  have same : rows.insertionSort (fun a b => (less b a).toOption = some false) =
      rows.insertionSort fun a b => le a b = true := by
    have mapped := List.map_insertionSort (fun a b => (less b a).toOption = some false) (fun a b =>
      le a b = true) id rows
      (fun a memA b memB => by simp [compares b memB a memA, Except.toOption])
    simpa using mapped
  refine ⟨List.perm_insertionSort _ _, ?_⟩
  rw [same]
  exact List.pairwise_insertionSort _ _

theorem sortOrThrow_ok (less : Row F → Row F → Except String Bool) (le : Row F → Row F → Bool)
    (rows : List (Row F))
    (compares : ∀ a ∈ rows, ∀ b ∈ rows, less a b = .ok (!le b a)) :
    ∃ sorted, sortOrThrow less rows = .ok sorted := by
  have answered : ∀ a ∈ rows, ∀ b ∈ rows, (less a b).isOk := fun a memA b memB => by
    rw [compares a memA b memB]
    rfl
  rw [sortOrThrow, if_pos answered]
  split_ifs
  · exact ⟨rows, rfl⟩
  · exact ⟨_, rfl⟩

theorem sortOrThrow_error (less : Row F → Row F → Except String Bool) (rows : List (Row F))
    (two : 2 ≤ rows.length)
    (fails : rows.Pairwise fun a b => (∃ message, less a b = .error message) ∧
      ∃ message, less b a = .error message) :
    ∃ message, sortOrThrow less rows = .error message := by
  match rows, two, fails with
  | a :: b :: rest, _, fails =>
    obtain ⟨⟨message, failed⟩, -⟩ := List.rel_of_pairwise_cons fails List.mem_cons_self
    refine ⟨_, (if_neg (by simp)).trans (if_neg fun answered => ?_)⟩
    have := answered a List.mem_cons_self b (List.mem_cons_of_mem _ List.mem_cons_self)
    rw [failed] at this
    exact Bool.false_ne_true this

variable (F) in
def plain : Runtime F where
  visit := id
  visit_perm := fun groups => .refl groups
  sort := sortOrThrow
  sort_sorted := sortOrThrow_sorted
  sort_ok := fun less le rows _ _ => sortOrThrow_ok less le rows
  sort_single := fun _ _ single => if_pos single
  sort_error := sortOrThrow_error

end Runtime

end OneBase
