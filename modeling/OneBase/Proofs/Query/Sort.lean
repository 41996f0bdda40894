import OneBase.Model.QueryExecutors
import OneBase.ToMathlib.ExceptLoops
import Mathlib.Data.List.Lex
import Mathlib.Data.Prod.Lex

/-! # The order of ORDER BY

Values of one type are ordered; booleans can be told apart but not compared. The comparison given to
`std::sort` answers as the lexicographic order of the keys does, as far as it answers, and it fails on
two rows in one order exactly when it fails in the other.
-/

namespace OneBase

open ExceptLoops

variable {F : Type} [Field F] [LinearOrder F]

namespace Value

/-- A number for each type. -/
def typeRank : TypeId → ℕ
  | .invalid => 0
  | .boolean => 1
  | .integer => 2
  | .float => 3
  | .varchar => 4

omit [Field F] [LinearOrder F] in
theorem text_lt_iff (s t : Text) : s < t ↔ s.map UInt8.toNat < t.map UInt8.toNat := by
  induction s generalizing t with
  | nil => cases t <;> simp
  | cons a rest ih =>
    cases t with
    | nil => simp
    | cons b others => simp only [List.map_cons, List.cons_lt_cons_iff, UInt8.lt_iff_toNat_lt, ih, UInt8.toNat_inj]

/-- Where a value stands: types apart, and within a type by its payload. -/
def rank (value : Value F) : ℕ ×ₗ ℤ ×ₗ F ×ₗ List ℕ :=
  toLex (typeRank value.typeId, toLex (if value.booleanPart then 1 else value.integerPart.toInt,
    toLex (value.floatPart, value.varcharPart.map UInt8.toNat)))

omit [LinearOrder F] in
/-- The payloads of other types are empty. -/
theorem rank_eq (value : Value F) : value.rank = match value.typeId with
    | .boolean => toLex (1, toLex (if value.booleanPart then 1 else 0, toLex (0, [])))
    | .integer => toLex (2, toLex (value.integerPart.toInt, toLex (0, [])))
    | .float => toLex (3, toLex (0, toLex (value.floatPart, [])))
    | .varchar => toLex (4, toLex (0, toLex (0, value.varcharPart.map UInt8.toNat)))
    | .invalid => toLex (0, toLex (0, toLex (0, []))) := by
  cases value with
  | null typeId => cases typeId <;> rfl
  | boolean b => rfl
  | integer i => rfl
  | float f => rfl
  | varchar s => rfl

theorem compareEquals_eq {a b : Value F} (sameType : a.typeId = b.typeId) (valid : a.typeId ≠ .invalid) :
    a.compareEquals b = .ok (.boolean (decide (a.rank = b.rank))) := by
  have text (s t : Text) : s.map UInt8.toNat = t.map UInt8.toNat ↔ s = t :=
    (List.map_injective_iff.mpr fun _ _ => UInt8.toNat_inj.mp).eq_iff
  rw [compareEquals, if_pos sameType, rank_eq a, rank_eq b, ← sameType]
  cases type : a.typeId with
  | invalid => exact absurd type valid
  | boolean => cases a.booleanPart <;> cases b.booleanPart <;> simp
  | integer => simp [Int32.toInt_inj]
  | float => simp
  | varchar => simp [text]

omit [LinearOrder F] in
/-- What the two strict comparisons share. -/
theorem compareOrder_eq (onRank : ℕ ×ₗ ℤ ×ₗ F ×ₗ List ℕ →
    ℕ ×ₗ ℤ ×ₗ F ×ₗ List ℕ → Bool)
    {onInteger : Int32 → Int32 → Bool} {onFloat : F → F → Bool} {onText : Text → Text → Bool}
    {a b : Value F}
    (integers : ∀ i j, onInteger i j = onRank (integer i).rank (integer j).rank)
    (floats : ∀ f g, onFloat f g = onRank (float f).rank (float g).rank)
    (texts : ∀ s t, onText s t = onRank (varchar s).rank (varchar t).rank)
    (sameType : a.typeId = b.typeId) (valid : a.typeId ≠ .invalid) (notBoolean : a.typeId ≠ .boolean) :
    compareOrder onInteger onFloat onText a b = .ok (.boolean (onRank a.rank b.rank)) := by
  rw [compareOrder, if_pos sameType, rank_eq a, rank_eq b, ← sameType]
  cases type : a.typeId with
  | invalid => exact absurd type valid
  | boolean => exact absurd type notBoolean
  | integer => exact congrArg (fun answer => Except.ok (boolean answer)) (integers _ _)
  | float => exact congrArg (fun answer => Except.ok (boolean answer)) (floats _ _)
  | varchar => exact congrArg (fun answer => Except.ok (boolean answer)) (texts _ _)

theorem compareLessThan_eq {a b : Value F} : a.typeId = b.typeId → a.typeId ≠ .invalid → a.typeId ≠ .boolean →
    a.compareLessThan b = .ok (.boolean (decide (a.rank < b.rank))) := by
  refine compareOrder_eq (fun x y => decide (x < y)) (fun i j => ?_) (fun f g => ?_) fun s t => ?_
  · simp [rank_eq (integer _), typeId, integerPart, Prod.Lex.toLex_lt_toLex, Int32.lt_iff_toInt_lt]
  · simp [rank_eq (float _), typeId, floatPart, Prod.Lex.toLex_lt_toLex]
  · simp [rank_eq (varchar _), typeId, varcharPart, Prod.Lex.toLex_lt_toLex, text_lt_iff]

theorem compareGreaterThan_eq {a b : Value F} : a.typeId = b.typeId → a.typeId ≠ .invalid →
    a.typeId ≠ .boolean →
    a.compareGreaterThan b = .ok (.boolean (decide (b.rank < a.rank))) := by
  refine compareOrder_eq (fun x y => decide (y < x)) (fun i j => ?_) (fun f g => ?_) fun s t => ?_
  · simp [rank_eq (integer _), typeId, integerPart, Prod.Lex.toLex_lt_toLex, Int32.lt_iff_toInt_lt]
  · simp [rank_eq (float _), typeId, floatPart, Prod.Lex.toLex_lt_toLex]
  · simp [rank_eq (varchar _), typeId, varcharPart, Prod.Lex.toLex_lt_toLex, text_lt_iff]

end Value

namespace SortExecutor

/-- The key of a row; a row without a value has the lowest key. -/
def key (e : Expression F) (row : Row F) : ℕ ×ₗ ℤ ×ₗ F ×ₗ List ℕ :=
  ((e.evaluate row).toOption.getD (.null .invalid)).rank

/-- The order that ORDER BY asks for. -/
def le : List (Bool × Expression F) → Row F → Row F → Bool
  | [], _, _ => true
  | (isAscending, e) :: rest, a, b =>
    if key e a = key e b then le rest a b else if isAscending then key e a < key e b else key e b < key e a

theorem le_total (orderBys : List (Bool × Expression F)) (a b : Row F) : le orderBys a b ∨ le orderBys b a := by
  induction orderBys with
  | nil => exact .inl rfl
  | cons first rest ih =>
    obtain ⟨isAscending, e⟩ := first
    simp only [le, eq_comm (a := key e b)]
    split_ifs with same up
    · exact ih
    · simpa using lt_or_gt_of_ne same
    · simpa using (lt_or_gt_of_ne same).symm

theorem le_trans (orderBys : List (Bool × Expression F)) (a b c : Row F) (ab : le orderBys a b)
    (bc : le orderBys b c) :
    le orderBys a c := by
  induction orderBys with
  | nil => rfl
  | cons first rest ih =>
    obtain ⟨isAscending, e⟩ := first
    simp only [le] at ab bc ⊢
    by_cases sameAb : key e a = key e b
    · rw [if_pos sameAb] at ab
      rw [sameAb]
      by_cases sameBc : key e b = key e c
      · rw [if_pos sameBc] at bc ⊢
        exact ih ab bc
      · rwa [if_neg sameBc] at bc ⊢
    · by_cases sameBc : key e b = key e c
      · rw [if_neg sameAb] at ab
        rwa [← sameBc, if_neg sameAb]
      · rw [if_neg sameAb] at ab
        rw [if_neg sameBc] at bc
        cases isAscending with
        | true =>
          have below := lt_trans (of_decide_eq_true ab) (of_decide_eq_true bc)
          simpa [below.ne] using below
        | false =>
          have above := lt_trans (of_decide_eq_true bc) (of_decide_eq_true ab)
          simpa [above.ne'] using above

/-- One key of the comparison: both values exist, are of one type, and differ only where that type has an order. -/
theorem less_cons_eq_ok_iff {isAscending : Bool} {e : Expression F} {rest : List (Bool × Expression F)} {a b : Row F}
    {answer : Bool} : less ((isAscending, e) :: rest) a b = .ok answer ↔
      ∃ valA valB, e.evaluate a = .ok valA ∧ e.evaluate b = .ok valB ∧ valA.typeId = valB.typeId ∧
        valA.typeId ≠ .invalid ∧
        if valA.rank = valB.rank then less rest a b = .ok answer
        else valA.typeId ≠ .boolean ∧
          answer = if isAscending then decide (valA.rank < valB.rank) else decide (valB.rank < valA.rank) := by
  cases evalA : e.evaluate a with
  | error message => simp [less, evalA, bind, Except.bind]
  | ok valA =>
    cases evalB : e.evaluate b with
    | error message => simp [less, evalA, evalB, bind, Except.bind]
    | ok valB =>
      simp only [less, evalA, evalB, Except.ok.injEq, exists_eq_left', exists_and_left]
      by_cases sameType : valA.typeId = valB.typeId
      · by_cases valid : valA.typeId = .invalid
        · have fails : valA.compareEquals valB = .error "Unsupported type for comparison" := by
            simp [Value.compareEquals, sameType, sameType ▸ valid]
          simp [fails, valid, bind, Except.bind]
        · have typed (c : Bool) : (Value.boolean c : Value F).getAsBoolean = .ok c := rfl
          simp only [Value.compareEquals_eq sameType valid, bind, Except.bind, typed, decide_eq_true_eq]
          by_cases same : valA.rank = valB.rank
          · simp only [same, ↓reduceIte, sameType, sameType ▸ valid, ne_eq, not_false_eq_true, true_and]
          · by_cases boolean : valA.typeId = .boolean
            · have fails (onInteger : Int32 → Int32 → Bool) (onFloat : F → F → Bool) (onText : Text →
                  Text → Bool) :
                  Value.compareOrder onInteger onFloat onText valA valB = .error "Unsupported type for comparison" := by
                simp [Value.compareOrder, sameType, sameType ▸ boolean]
              simp [same, boolean, Value.compareLessThan, Value.compareGreaterThan, fails]
            · simp only [same, ↓reduceIte, Value.compareLessThan_eq sameType valid boolean,
                Value.compareGreaterThan_eq sameType valid boolean, typed, ne_eq, boolean, valid,
                  not_false_eq_true, true_and]
              cases isAscending <;> simp [sameType, eq_comm (a := answer)]
      · have fails : valA.compareEquals valB = .error "Type mismatch in comparison" := if_neg sameType
        simp [fails, sameType, bind, Except.bind]

variable {orderBys : List (Bool × Expression F)} {a b : Row F}

/-- An answer of the comparison is that of the order. -/
theorem less_eq_not_le {answer : Bool} (answered : less orderBys a b = .ok answer) : answer = !le orderBys b a := by
  induction orderBys with
  | nil =>
    cases answered
    rfl
  | cons first rest ih =>
    obtain ⟨isAscending, e⟩ := first
    obtain ⟨valA, valB, evalA, evalB, -, -, decided⟩ := less_cons_eq_ok_iff.mp answered
    have keyA : key e a = valA.rank := by rw [key, evalA]; rfl
    have keyB : key e b = valB.rank := by rw [key, evalB]; rfl
    simp only [le, keyA, keyB]
    by_cases same : valA.rank = valB.rank
    · rw [if_pos same] at decided
      rw [if_pos same.symm]
      exact ih decided
    · rw [if_neg same] at decided
      rw [if_neg (Ne.symm same), decided.2]
      have flip : valA.rank < valB.rank ↔ ¬ valB.rank < valA.rank :=
        ⟨lt_asymm, fun notAbove => lt_of_le_of_ne (not_lt.mp notAbove) same⟩
      have flip' : valB.rank < valA.rank ↔ ¬ valA.rank < valB.rank :=
        ⟨lt_asymm, fun notBelow => lt_of_le_of_ne (not_lt.mp notBelow) (Ne.symm same)⟩
      cases isAscending with
      | true => simp only [↓reduceIte, decide_eq_decide.mpr flip, decide_not]
      | false => simp only [Bool.false_eq_true, ↓reduceIte, decide_eq_decide.mpr flip', decide_not]

/-- Two rows can be compared in one order when they can in the other. -/
theorem less_answers_symm (answered : ∃ answer, less orderBys a b = .ok answer) :
    ∃ answer, less orderBys b a = .ok answer := by
  induction orderBys with
  | nil => exact ⟨false, rfl⟩
  | cons first rest ih =>
    obtain ⟨isAscending, e⟩ := first
    obtain ⟨answer, answered⟩ := answered
    obtain ⟨valA, valB, evalA, evalB, sameType, valid, decided⟩ := less_cons_eq_ok_iff.mp answered
    simp only [less_cons_eq_ok_iff]
    by_cases same : valA.rank = valB.rank
    · rw [if_pos same] at decided
      obtain ⟨answer', answered'⟩ := ih ⟨answer, decided⟩
      exact ⟨answer', valB, valA, evalB, evalA, sameType.symm, sameType ▸ valid, by rwa [if_pos same.symm]⟩
    · rw [if_neg same] at decided
      exact ⟨_, valB, valA, evalB, evalA, sameType.symm, sameType ▸ valid, by
        rw [if_neg (Ne.symm same)]
        exact ⟨sameType ▸ decided.1, rfl⟩⟩

variable {rows sorted : List (Row F)} (runtime : Runtime F)

variable {runtime} in
/-- What a sort returns. -/
theorem sort_sorted (returned : runtime.sort (less orderBys) rows = .ok sorted) :
    sorted.Perm rows ∧ sorted.Pairwise fun a b => le orderBys a b :=
  runtime.sort_sorted _ (le orderBys) _ _ (le_total orderBys) (le_trans orderBys) (fun _ _ _ _ _ =>
    less_eq_not_le) returned

/-- A sort returns when all rows can be compared. -/
theorem sort_returns (answered : ∀ a ∈ rows, ∀ b ∈ rows, ∃ answer, less orderBys a b = .ok answer) :
    ∃ sorted, runtime.sort (less orderBys) rows = .ok sorted := by
  refine runtime.sort_ok _ (le orderBys) _ (le_total orderBys) (le_trans orderBys) fun a memA b memB => ?_
  obtain ⟨answer, answered⟩ := answered a memA b memB
  rw [answered, less_eq_not_le answered]

/-- A sort throws on two rows that cannot be compared. -/
theorem sort_throws (failed : ¬ ∃ answer, less orderBys a b = .ok answer) :
    ∃ message, runtime.sort (less orderBys) [a, b] = .error message := by
  have throws {a b : Row F} (failed : ¬ ∃ answer, less orderBys a b = .ok answer) :
      ∃ message, less orderBys a b = .error message := by
    cases result : less orderBys a b with
    | error message => exact ⟨message, rfl⟩
    | ok answer => exact absurd ⟨answer, result⟩ failed
  refine runtime.sort_error _ _ le_rfl (List.pairwise_pair.mpr ⟨throws failed, throws fun answered => ?_⟩)
  exact failed (less_answers_symm answered)

end SortExecutor

end OneBase
