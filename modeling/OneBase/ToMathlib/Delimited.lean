import Mathlib.Data.List.Basic

/-! # Delimited text

Parts joined by a separator and split again, and the lines of a text. Splitting undoes joining exactly
if no part contains the separator, and the loops that are written for the two, one with an index and
one with an accumulator, compute `intercalate` and `splitOn`. The last line of a text needs no end:
`lines` is what reading line by line delivers until there is nothing left.
-/

namespace Delimited

section Joining

variable {α : Type*}

/-- A loop that puts the separator in front of every part but the first. -/
theorem foldl_zipIdx_eq_intercalate (sep : List α) (parts : List (List α)) :
    parts.zipIdx.foldl (fun line part => (if 0 < part.2 then line ++ sep else line) ++ part.1) [] =
      sep.intercalate parts := by
  have rest (n : ℕ) (line : List α) (parts : List (List α)) :
      (parts.zipIdx (n + 1)).foldl (fun line part => (if 0 < part.2 then line ++ sep else line) ++ part.1) line =
        line ++ (parts.map (sep ++ ·)).flatten := by
    induction parts generalizing n line with
    | nil => simp
    | cons part more ih => simp [ih]
  cases parts with
  | nil => rfl
  | cons part more =>
    rw [List.zipIdx_cons, List.foldl_cons, rest]
    rw [if_neg (Nat.lt_irrefl 0), List.nil_append]
    induction more generalizing part with
    | nil => simp
    | cons next more ih =>
      rw [List.intercalate_cons_cons, ← ih]
      simp

theorem not_mem_intercalate {c sep : α} {parts : List (List α)} (other : c ≠ sep) :
    c ∉ [sep].intercalate parts ↔ ∀ part ∈ parts, c ∉ part := by
  induction parts with
  | nil => simp
  | cons part more ih =>
    cases more with
    | nil => simp
    | cons next more =>
      rw [List.intercalate_cons_cons]
      simp_all

end Joining

variable {α : Type*} [DecidableEq α] {sep stop : α} {parts : List (List α)} {line text rest : List α}

/-- One step of a loop that collects the current part and stores it at each separator. -/
def splitStep (sep : α) (state : List (List α) × List α) (c : α) : List (List α) × List α :=
  if c = sep then (state.1 ++ [state.2], []) else (state.1, state.2 ++ [c])

theorem foldl_splitStep (sep : α) (state : List (List α) × List α) (line : List α) :
    (line.foldl (splitStep sep) state).1 ++ [(line.foldl (splitStep sep) state).2] =
      state.1 ++ (line.splitOn sep).modifyHead (state.2 ++ ·) := by
  induction line generalizing state with
  | nil => simp
  | cons c line ih =>
    rw [List.foldl_cons, List.splitOn_cons_eq_if_modifyHead, ih, splitStep]
    cases split : line.splitOn sep with
    | nil => exact absurd split (List.splitOn_ne_nil sep line)
    | cons part more =>
      by_cases here : c = sep
      · simp [here]
      · simp [here]

/-- The whole loop splits. -/
theorem foldl_splitStep_eq_splitOn (sep : α) (line : List α) :
    (line.foldl (splitStep sep) ([], [])).1 ++ [(line.foldl (splitStep sep) ([], [])).2] = line.splitOn sep := by
  rw [foldl_splitStep]
  cases split : line.splitOn sep with
  | nil => exact absurd split (List.splitOn_ne_nil sep line)
  | cons part more => simp

/-- The parts of a split do not contain the separator. -/
theorem not_mem_of_mem_splitOn {part : List α} (member : part ∈ line.splitOn sep) : sep ∉ part := by
  induction line generalizing part with
  | nil =>
    rw [List.splitOn_nil, List.mem_singleton] at member
    simp [member]
  | cons c line ih =>
    rw [List.splitOn_cons_eq_if_modifyHead] at member
    split at member
    · rcases List.mem_cons.mp member with rfl | later
      · exact List.not_mem_nil
      · exact ih later
    · next other =>
      cases split : line.splitOn sep with
      | nil => exact absurd split (List.splitOn_ne_nil sep line)
      | cons head more =>
        rw [split] at member ih
        rw [List.modifyHead_cons, List.mem_cons] at member
        rcases member with rfl | later
        · rw [List.mem_cons, not_or]
          exact ⟨fun same => other (by simp [same]), ih List.mem_cons_self⟩
        · exact ih (List.mem_cons_of_mem _ later)

/-- Splitting undoes joining exactly if no part contains the separator. -/
theorem splitOn_intercalate_iff (nonempty : parts ≠ []) :
    ([sep].intercalate parts).splitOn sep = parts ↔ ∀ part ∈ parts, sep ∉ part := by
  constructor
  · intro back part member
    rw [← back] at member
    exact not_mem_of_mem_splitOn member
  · intro clean
    exact List.splitOn_intercalate sep clean nonempty

/-- Parts that each end in the separator make the same text exactly if they have the same pieces between separators. -/
theorem flatMap_terminated_eq_iff (parts' : List (List α)) :
    (parts.flatMap (· ++ [sep]) = parts'.flatMap (· ++ [sep])) ↔
      parts.flatMap (·.splitOn sep) = parts'.flatMap (·.splitOn sep) := by
  have split (parts : List (List α)) :
      (parts.flatMap (· ++ [sep])).splitOn sep = parts.flatMap (·.splitOn sep) ++ [[]] := by
    induction parts with
    | nil => simp
    | cons part more ih =>
      rw [List.flatMap_cons, List.append_assoc, List.singleton_append, List.splitOn_append_cons_self, ih,
        List.flatMap_cons,
        List.append_assoc]
  have injective : Function.Injective fun text : List α => text.splitOn sep := by
    intro a b same
    have whole (text : List α) : List.intercalate [sep] (text.splitOn sep) = text := List.intercalate_splitOn sep
    rw [← whole a, ← whole b]
    exact congrArg _ same
  rw [← injective.eq_iff, split, split, List.append_cancel_right_eq]

/-- The lines of a text, each up to its end, the last with or without one. -/
def lines (stop : α) : List α → List (List α)
  | [] => []
  | c :: rest =>
    if c = stop then [] :: lines stop rest
    else
      match lines stop rest with
      | [] => [[c]]
      | line :: more => (c :: line) :: more

theorem lines_append (clean : stop ∉ line) : lines stop (line ++ stop :: rest) = line :: lines stop rest := by
  induction line with
  | nil => simp [lines]
  | cons c line ih =>
    rw [List.mem_cons, not_or] at clean
    rw [List.cons_append, lines, if_neg (Ne.symm clean.1), ih clean.2]

theorem lines_of_not_mem (clean : stop ∉ line) (nonempty : line ≠ []) : lines stop line = [line] := by
  induction line with
  | nil => exact absurd rfl nonempty
  | cons c line ih =>
    rw [List.mem_cons, not_or] at clean
    rw [lines, if_neg (Ne.symm clean.1)]
    cases line with
    | nil => rfl
    | cons d line => rw [ih clean.2 (by simp)]

/-- The lines of whole lines in front of a text. -/
theorem lines_flatten (clean : ∀ line ∈ parts, stop ∉ line) :
    lines stop ((parts.map (· ++ [stop])).flatten ++ rest) = parts ++ lines stop rest := by
  induction parts with
  | nil => rfl
  | cons line more ih =>
    rw [List.forall_mem_cons] at clean
    rw [List.map_cons, List.flatten_cons, List.append_assoc, List.append_assoc, List.singleton_append,
      lines_append clean.1, ih clean.2, List.cons_append]

theorem not_mem_of_mem_lines (member : line ∈ lines stop text) : stop ∉ line := by
  induction text generalizing line with
  | nil => simp [lines] at member
  | cons c text ih =>
    rw [lines] at member
    split at member
    · rcases List.mem_cons.mp member with rfl | later
      · exact List.not_mem_nil
      · exact ih later
    · next other =>
      split at member
      · next ended =>
        rw [List.mem_singleton] at member
        rw [member, List.mem_singleton]
        exact Ne.symm other
      · next first more split =>
        rw [split] at ih
        rcases List.mem_cons.mp member with rfl | later
        · rw [List.mem_cons, not_or]
          exact ⟨Ne.symm other, ih List.mem_cons_self⟩
        · exact ih (List.mem_cons_of_mem _ later)

end Delimited
