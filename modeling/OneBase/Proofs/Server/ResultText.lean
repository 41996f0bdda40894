import Mathlib.Data.List.TakeWhile
import OneBase.Model.Protocol

/-! # Result text

The server joins names and cells with `|`, ends each row with a newline and escapes nothing. The client
splits at both and takes an empty line, or one that starts with a parenthesis, for the end of the rows.
So a result comes through exactly if no name or cell contains one of the two separators, and no row
looks like the summary line.
-/

namespace OneBase.Protocol

variable {colNames row : List Text} {rows : List (List Text)} {line : Text}

theorem formatResultHeader_eq (colNames : List Text) : formatResultHeader colNames = [pipe].intercalate colNames :=
  Delimited.foldl_zipIdx_eq_intercalate [pipe] colNames

theorem formatResultRow_eq (values : List Text) : formatResultRow values = [pipe].intercalate values :=
  Delimited.foldl_zipIdx_eq_intercalate [pipe] values

theorem parsePipeSeparated_eq (line : Text) : parsePipeSeparated line = line.splitOn pipe :=
  Delimited.foldl_splitStep_eq_splitOn pipe line

/-- No part contains a separator. -/
def Separable (parts : List Text) : Prop := ∀ part ∈ parts, pipe ∉ part ∧ newline ∉ part

instance : Decidable (Separable row) := inferInstanceAs (Decidable (∀ part ∈ row, _))

/-- A row whose line looks like the end of the rows: a single empty cell, or a parenthesis in front. -/
def LooksLikeEnd (row : List Text) : Prop := row = [[]] ∨ ∃ cell ∈ row.head?, cell.head? = some paren

instance : Decidable (LooksLikeEnd row) := inferInstanceAs (Decidable (_ ∨ _))

/-- A result that comes through. -/
def Transferable (colNames : List Text) (rows : List (List Text)) : Prop :=
  Separable colNames ∧ ∀ row ∈ rows, Separable row ∧ ¬ LooksLikeEnd row

theorem separable_iff : Separable row ↔ (∀ part ∈ row, pipe ∉ part) ∧ newline ∉ [pipe].intercalate row := by
  rw [Delimited.not_mem_intercalate (by decide), Separable]
  exact forall₂_and

theorem endsRows_intercalate (nonempty : row ≠ []) :
    endsRows ([pipe].intercalate row) = true ↔ LooksLikeEnd row := by
  cases row with
  | nil => exact absurd rfl nonempty
  | cons cell more =>
    cases more with
    | nil => simp [endsRows, LooksLikeEnd]
    | cons next more =>
      rw [List.intercalate_cons_cons]
      cases cell with
      | nil => simp [endsRows, LooksLikeEnd, pipe, paren]
      | cons c cell => simp [endsRows, LooksLikeEnd]

theorem resultBody_eq (colNames : List Text) (rows : List (List Text)) : resultBody colNames rows =
    [pipe].intercalate colNames ++ newline ::
      (((rows.map ([pipe].intercalate ·)).map (· ++ [newline])).flatten ++ summary rows.length) := by
  have loop (body : Text) : rows.foldl (fun body row => body ++ (formatResultRow row ++ [newline])) body =
      body ++ ((rows.map ([pipe].intercalate ·)).map (· ++ [newline])).flatten := by
    induction rows generalizing body with
    | nil => simp
    | cons row rest ih =>
      rw [List.foldl_cons, ih, formatResultRow_eq]
      simp only [List.map_cons, List.flatten_cons, List.append_assoc]
  rw [resultBody, loop, formatResultHeader_eq]
  simp

theorem newline_notMem_summary (n : ℕ) : newline ∉ summary n := by
  have digits : newline ∉ Value.decimal n := by
    rw [Value.decimal]
    split
    · decide
    · intro member
      obtain ⟨digit, there, isNewline⟩ := List.mem_map.mp member
      have small : digit < 10 := Nat.digits_lt_base (by decide) (List.mem_reverse.mp there)
      have printable : ∀ digit < 10, UInt8.ofNat (48 + digit) ≠ newline := by decide
      exact printable digit small isNewline
  simp only [summary, List.mem_append, not_or]
  refine ⟨⟨⟨⟨by decide, digits⟩, by decide⟩, ?_⟩, by decide⟩
  split <;> decide

/-- The summary is one line, at which the rows end. -/
theorem lines_summary (n : ℕ) : Delimited.lines newline (summary n) = [summary n] ∧
    endsRows (summary n) = true := by
  have starts : ∃ rest, summary n = paren :: rest := ⟨_, rfl⟩
  obtain ⟨rest, starts⟩ := starts
  refine ⟨Delimited.lines_of_not_mem (newline_notMem_summary n) (by simp [starts]), ?_⟩
  simp [endsRows, starts]

/-- A transferable result comes through. -/
theorem parseResult_of_transferable (nonempty : colNames ≠ []) (cells : ∀ row ∈ rows, row ≠ [])
    (transferable : Transferable colNames rows) : parseResult (resultBody colNames rows) = some (colNames, rows) := by
  obtain ⟨names, data⟩ := transferable
  rw [separable_iff] at names
  have lineOf : ∀ line ∈ rows.map ([pipe].intercalate ·), newline ∉ line ∧ (!endsRows line) = true := by
    intro line member
    obtain ⟨row, there, rfl⟩ := List.mem_map.mp member
    obtain ⟨separable, inside⟩ := data row there
    refine ⟨(separable_iff.mp separable).2, ?_⟩
    rw [← endsRows_intercalate (cells row there)] at inside
    simpa using inside
  rw [parseResult, resultBody_eq, Delimited.lines_append names.2,
    Delimited.lines_flatten fun line member => (lineOf line member).1, (lines_summary _).1]
  have taken : ((rows.map ([pipe].intercalate ·)) ++ [summary rows.length]).takeWhile (!endsRows ·) =
      rows.map ([pipe].intercalate ·) := by
    rw [List.takeWhile_append_of_pos fun line member => (lineOf line member).2]
    simp [(lines_summary rows.length).2]
  simp only [taken, List.map_map]
  rw [parsePipeSeparated_eq, List.splitOn_intercalate pipe names.1 nonempty]
  congr 2
  conv_rhs => rw [← List.map_id rows]
  apply List.map_congr_left
  intro row there
  rw [Function.comp_apply, parsePipeSeparated_eq]
  exact List.splitOn_intercalate pipe (separable_iff.mp (data row there).1).1 (cells row there)

/-- What comes through is transferable. -/
theorem transferable_of_parseResult (nonempty : colNames ≠ [])
    (through : parseResult (resultBody colNames rows) = some (colNames, rows)) : Transferable colNames rows := by
  rw [parseResult] at through
  split at through
  · cases through
  · next header rest split =>
    simp only [Option.some.injEq, Prod.mk.injEq] at through
    obtain ⟨names, data⟩ := through
    rw [parsePipeSeparated_eq] at names
    -- the header line is the joined header, so the rest of the lines are those of the rest of the body
    have isHeader : header = [pipe].intercalate colNames := by rw [← names, List.intercalate_splitOn]
    have clean : newline ∉ [pipe].intercalate colNames := by
      rw [← isHeader]
      exact Delimited.not_mem_of_mem_lines (split ▸ List.mem_cons_self)
    refine ⟨separable_iff.mpr ⟨(Delimited.splitOn_intercalate_iff nonempty).mp (isHeader ▸ names), clean⟩, ?_⟩
    intro row there
    rw [← data] at there
    obtain ⟨line, taken, isRow⟩ := List.mem_map.mp there
    rw [parsePipeSeparated_eq] at isRow
    have isLine : line = [pipe].intercalate row := by rw [← isRow, List.intercalate_splitOn]
    have member : line ∈ Delimited.lines newline (resultBody colNames rows) := by
      rw [split]
      exact List.mem_cons_of_mem _ ((List.takeWhile_sublist _).subset taken)
    have whole : row ≠ [] := isRow ▸ List.splitOn_ne_nil pipe line
    refine ⟨separable_iff.mpr ⟨(Delimited.splitOn_intercalate_iff whole).mp (isLine ▸ isRow), ?_⟩, ?_⟩
    · exact isLine ▸ Delimited.not_mem_of_mem_lines member
    · rw [← endsRows_intercalate whole, ← isLine]
      simpa using List.mem_takeWhile_imp taken

/-- The client reads back what the server sends exactly if no name or cell contains a separator and no
row looks like the end of the rows. -/
theorem parseResult_resultBody_iff (nonempty : colNames ≠ [])
    (width : ∀ row ∈ rows, row.length = colNames.length) :
    parseResult (resultBody colNames rows) = some (colNames, rows) ↔ Transferable colNames rows := by
  have cells : ∀ row ∈ rows, row ≠ [] := by
    intro row there empty
    have := width row there
    rw [empty] at this
    exact nonempty (List.length_eq_zero_iff.mp this.symm)
  exact ⟨transferable_of_parseResult nonempty, parseResult_of_transferable nonempty cells⟩

theorem parseResult_resultBody_sample :
    parseResult (resultBody [ascii "id", ascii "name"] [[ascii "1", []], [[], ascii "(x)"]]) =
      some ([ascii "id", ascii "name"], [[ascii "1", []], [[], ascii "(x)"]]) ↔
    Transferable [ascii "id", ascii "name"] [[ascii "1", []], [[], ascii "(x)"]] :=
  parseResult_resultBody_iff (by decide) (by decide)

/-- A text in parentheses ends the rows, a separator in a cell splits it. -/
theorem parseResult_loses_rows :
    parseResult (resultBody [ascii "name"] [[ascii "(none)"], [ascii "bob"]]) = some ([ascii "name"], []) ∧
    parseResult (resultBody [ascii "name"] [[ascii "a|b"]]) = some ([ascii "name"], [[ascii "a", ascii "b"]]) := by
  decide +kernel

end OneBase.Protocol
