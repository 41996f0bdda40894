import OneBase.Proofs.Query.Aggregation

/-! # Integer arithmetic and 32 bits

The code computes with 32-bit integers and looks at nothing but zero divisors. What it computes is exact as long as no
operation leaves the range; the integers that the same steps reach without a bound say when that is.
-/

namespace OneBase

/-- What an INTEGER can hold. -/
def InRange (n : ℤ) : Prop := -2 ^ 31 ≤ n ∧ n < 2 ^ 31

/-- A 32-bit operation with its operands. -/
abbrev Operation := ArithmeticType × Int32 × Int32

/-- The exact result fits. A remainder is computed together with its quotient. -/
def Representable (i j : ℤ) : ArithmeticType → Prop
  | .plus => InRange (i + j)
  | .minus => InRange (i - j)
  | .multiply => InRange (i * j)
  | .divide | .modulo => InRange (i.tdiv j)

/-- All of these operations have results that fit. -/
def AllFit (operations : List Operation) : Prop :=
  ∀ o ∈ operations, Representable o.2.1.toInt o.2.2.toInt o.1

@[simp] theorem allFit_nil : AllFit [] := by simp [AllFit]

@[simp] theorem allFit_cons (o : Operation) (rest : List Operation) :
    AllFit (o :: rest) ↔ Representable o.2.1.toInt o.2.2.toInt o.1 ∧ AllFit rest := List.forall_mem_cons

@[simp] theorem allFit_append (front back : List Operation) : AllFit (front ++ back) ↔ AllFit front ∧ AllFit back :=
  List.forall_mem_append

namespace Expression

section Exact

/-- An operator on integers without bounds; there is no result for a zero divisor. -/
def exactComputation (i j : ℤ) : ArithmeticType → Option ℤ
  | .plus => some (i + j)
  | .minus => some (i - j)
  | .multiply => some (i * j)
  | .divide => if j = 0 then none else some (i.tdiv j)
  | .modulo => if j = 0 then none else some (i.tmod j)

variable {F : Type}

/-- Arithmetic over INTEGER constants and columns that hold an INTEGER. -/
def IntegerTree (row : Row F) : Expression F → Prop
  | columnValue _ colIdx _ => ∃ i, row.getValue colIdx = .ok (.integer i)
  | constantValue value => ∃ i, value = .integer i
  | arithmetic left right _ => left.IntegerTree row ∧ right.IntegerTree row
  | _ => False

/-- The value without bounds; none where a divisor is zero. -/
def exactValue (row : Row F) : Expression F → Option ℤ
  | columnValue _ colIdx _ => (row.getValue colIdx).toOption.map fun value => value.integerPart.toInt
  | constantValue value => some value.integerPart.toInt
  | arithmetic left right arithType => do
    let i ← left.exactValue row
    let j ← right.exactValue row
    exactComputation i j arithType
  | _ => none

/-- Every operation up to the first zero divisor has a result that fits. -/
def StaysInRange (row : Row F) : Expression F → Prop
  | arithmetic left right arithType => left.StaysInRange row ∧ ∀ i, left.exactValue row = some i →
    right.StaysInRange row ∧ ∀ j, right.exactValue row = some j →
      exactComputation i j arithType ≠ none → Representable i j arithType
  | _ => True

end Exact

section Code

variable {F : Type} [Field F] [LinearOrder F]

/-- The operation that `PerformComputation` does: none before a zero divisor. -/
def operation (i j : Int32) (arithType : ArithmeticType) : List Operation :=
  match arithType with
  | .plus | .minus | .multiply => [(arithType, i, j)]
  | .divide | .modulo => if j ≠ 0 then [(arithType, i, j)] else []

/-- The operations that `Evaluate` does on the way, in their order, up to an exception. -/
def operations (row : Row F) : Expression F → List Operation
  | arithmetic left right arithType =>
    left.operations row ++
      match left.evaluate row with
      | .error _ => []
      | .ok valLeft => right.operations row ++
        match right.evaluate row with
        | .error _ => []
        | .ok valRight => operation valLeft.integerPart valRight.integerPart arithType
  | _ => []

end Code

end Expression

theorem bmod_of_inRange {n : ℤ} (range : InRange n) : n.bmod (2 ^ 32) = n := by
  obtain ⟨low, high⟩ := range
  exact Int.bmod_eq_of_le (by omega) (by omega)

section Operators

variable {i j : Int32}

theorem toInt_add_of_inRange (range : InRange (i.toInt + j.toInt)) : (i + j).toInt = i.toInt + j.toInt := by
  rw [Int32.toInt_add, bmod_of_inRange range]

theorem toInt_sub_of_inRange (range : InRange (i.toInt - j.toInt)) : (i - j).toInt = i.toInt - j.toInt := by
  rw [Int32.toInt_sub, bmod_of_inRange range]

theorem toInt_mul_of_inRange (range : InRange (i.toInt * j.toInt)) : (i * j).toInt = i.toInt * j.toInt := by
  rw [Int32.toInt_mul, bmod_of_inRange range]

theorem toInt_div_of_inRange (range : InRange (i.toInt.tdiv j.toInt)) : (i / j).toInt = i.toInt.tdiv j.toInt := by
  rw [Int32.toInt_div, bmod_of_inRange range]

theorem toInt_eq_zero_iff : j.toInt = 0 ↔ j = 0 := by
  rw [← Int32.toInt_zero, Int32.toInt_inj]

end Operators

namespace Expression

variable {F : Type} [Field F] [LinearOrder F] {row : Row F}

/-- One operator: it does an operation that fits exactly when the exact result fits, and then it gives that result. -/
theorem performComputation_exact (i j : Int32) (arithType : ArithmeticType) :
    (AllFit (operation i j arithType) ↔
      (exactComputation i.toInt j.toInt arithType ≠ none → Representable i.toInt j.toInt arithType)) ∧
    (AllFit (operation i j arithType) →
      (∃ message, performComputation (.integer i : Value F) (.integer j) arithType = .error message) ∧
          exactComputation i.toInt j.toInt arithType = none ∨
        ∃ k, performComputation (.integer i : Value F) (.integer j) arithType = .ok (.integer k) ∧
          exactComputation i.toInt j.toInt arithType = some k.toInt) := by
  cases arithType with
  | plus =>
    constructor
    · simp [operation, exactComputation]
    · intro fits
      have range := (allFit_cons _ _).mp fits |>.1
      exact .inr ⟨i + j, rfl, congrArg some (toInt_add_of_inRange range).symm⟩
  | minus =>
    constructor
    · simp [operation, exactComputation]
    · intro fits
      have range := (allFit_cons _ _).mp fits |>.1
      exact .inr ⟨i - j, rfl, congrArg some (toInt_sub_of_inRange range).symm⟩
  | multiply =>
    constructor
    · simp [operation, exactComputation]
    · intro fits
      have range := (allFit_cons _ _).mp fits |>.1
      exact .inr ⟨i * j, rfl, congrArg some (toInt_mul_of_inRange range).symm⟩
  | divide =>
    by_cases zero : j = 0
    · constructor
      · simp [operation, exactComputation, zero]
      · intro _
        exact .inl ⟨⟨"Division by zero",
            by simp [performComputation, Value.divide, Value.typeId, Value.integerPart, zero]⟩,
          by simp [exactComputation, zero]⟩
    · constructor
      · simp [operation, exactComputation, zero, toInt_eq_zero_iff]
      · intro fits
        have range : InRange (i.toInt.tdiv j.toInt) := by simpa [operation, zero, Representable] using fits
        refine .inr ⟨i / j, by simp [performComputation, Value.divide, Value.typeId, Value.integerPart, zero], ?_⟩
        simp [exactComputation, toInt_eq_zero_iff, zero, toInt_div_of_inRange range]
  | modulo =>
    by_cases zero : j = 0
    · constructor
      · simp [operation, exactComputation, zero]
      · intro _
        exact .inl ⟨⟨"Modulo by zero",
            by simp [performComputation, Value.modulo, Value.typeId, Value.integerPart, zero]⟩,
          by simp [exactComputation, zero]⟩
    · constructor
      · simp [operation, exactComputation, zero, toInt_eq_zero_iff]
      · intro _
        refine .inr ⟨i % j, by simp [performComputation, Value.modulo, Value.typeId, Value.integerPart, zero], ?_⟩
        simp [exactComputation, toInt_eq_zero_iff, zero, Int32.toInt_mod]

theorem evaluate_arithmetic (left right : Expression F) (arithType : ArithmeticType) (row : Row F) :
    (arithmetic left right arithType).evaluate row = (do
      performComputation (← left.evaluate row) (← right.evaluate row) arithType) := rfl

/-- `Evaluate` throws or gives the exact integer. -/
def ThrowsOrExact (e : Expression F) (row : Row F) : Prop :=
  (∃ message, e.evaluate row = .error message) ∧ e.exactValue row = none ∨
    ∃ i, e.evaluate row = .ok (.integer i) ∧ e.exactValue row = some i.toInt

theorem operations_fit {e : Expression F} (tree : e.IntegerTree row) :
    (AllFit (e.operations row) ↔ e.StaysInRange row) ∧
      (AllFit (e.operations row) → e.ThrowsOrExact row) := by
  induction e with
  | null => exact tree.elim
  | comparison => exact tree.elim
  | logic => exact tree.elim
  | columnValue tupleIdx colIdx retType =>
    obtain ⟨i, here⟩ := tree
    refine ⟨by simp [operations, StaysInRange], fun _ => .inr ⟨i, ?_, ?_⟩⟩
    · simpa [evaluate, evaluateWith] using here
    · simp [exactValue, here, Except.toOption, Value.integerPart]
  | constantValue value =>
    obtain ⟨i, rfl⟩ := tree
    exact ⟨by simp [operations, StaysInRange], fun _ => .inr ⟨i, rfl, rfl⟩⟩
  | arithmetic left right arithType ihLeft ihRight =>
    obtain ⟨leftIff, leftExact⟩ := ihLeft tree.1
    obtain ⟨rightIff, rightExact⟩ := ihRight tree.2
    by_cases leftFits : AllFit (left.operations row)
    · have leftStays := leftIff.mp leftFits
      rcases leftExact leftFits with ⟨⟨message, failed⟩, noLeft⟩ | ⟨i, evalLeft, someLeft⟩
      · -- the left operand throws, and nothing else is computed
        constructor
        · simp [operations, failed, StaysInRange, leftIff, noLeft]
        · intro _
          exact .inl ⟨⟨message, by rw [evaluate_arithmetic, failed]; rfl⟩, by rw [exactValue, noLeft]; rfl⟩
      · by_cases rightFits : AllFit (right.operations row)
        · have rightStays := rightIff.mp rightFits
          rcases rightExact rightFits with ⟨⟨message, failed⟩, noRight⟩ | ⟨j, evalRight, someRight⟩
          · constructor
            · simp [operations, evalLeft, failed, StaysInRange, leftStays, someLeft, rightStays, noRight,
                leftFits, rightFits]
            · intro _
              exact .inl ⟨⟨message, by rw [evaluate_arithmetic, evalLeft, failed]; rfl⟩,
                by rw [exactValue, someLeft, noRight]; rfl⟩
          · obtain ⟨operatorIff, operatorExact⟩ := performComputation_exact (F := F) i j arithType
            have evaluated : (arithmetic left right arithType).evaluate row =
                performComputation (.integer i) (.integer j) arithType := by
              rw [evaluate_arithmetic, evalLeft, evalRight]
              rfl
            have exact : (arithmetic left right arithType).exactValue row =
                exactComputation i.toInt j.toInt arithType := by
              rw [exactValue, someLeft, someRight]
              rfl
            have all : AllFit ((arithmetic left right arithType).operations row) ↔
                AllFit (operation i j arithType) := by
              simp [operations, evalLeft, evalRight, leftFits, rightFits, Value.integerPart]
            rw [all, ThrowsOrExact, evaluated, exact, operatorIff, StaysInRange]
            constructor
            · simp [leftStays, rightStays, someLeft, someRight]
            · intro fits
              exact operatorExact (operatorIff.mpr fits)
        · have misses : ¬ AllFit ((arithmetic left right arithType).operations row) := by
            intro fits
            simp only [operations, evalLeft, allFit_append] at fits
            exact rightFits fits.2.1
          have leaves : ¬ right.StaysInRange row := fun stays => rightFits (rightIff.mpr stays)
          exact ⟨by simp [misses, StaysInRange, someLeft, leaves], fun fits => absurd fits misses⟩
    · have misses : ¬ AllFit ((arithmetic left right arithType).operations row) := by
        intro fits
        rw [operations, allFit_append] at fits
        exact leftFits fits.1
      have leaves : ¬ left.StaysInRange row := fun stays => leftFits (leftIff.mpr stays)
      exact ⟨by simp [misses, StaysInRange, leaves], fun fits => absurd fits misses⟩

end Expression

namespace AggregationExecutor

section Code

variable {F : Type}

/-- The addition that one aggregate of one row does. -/
def accumulateOperations (state : AggState F) (aggType : AggregationType) (value : Value F) : List Operation :=
  if value.isNull then []
  else
    match aggType with
    | .countAggregate => [(.plus, state.count, 1)]
    | .sumAggregate =>
      match value.getAsInteger with
      | .ok i => [(.plus, state.sum, i)]
      | .error _ => []
    | _ => []

variable [Field F] [LinearOrder F]

/-- The additions of the loop over the aggregates of one row, up to an exception. -/
def accumulateAllOperations (row : Row F) : List (AggregationType × Expression F) → AggState F → List Operation
  | [], _ => []
  | (aggType, e) :: rest, state =>
    match e.evaluate row with
    | .error _ => []
    | .ok value => accumulateOperations state aggType value ++
      match accumulate state aggType value with
      | .error _ => []
      | .ok next => accumulateAllOperations row rest next

variable [PrintsFloat F]

/-- The additions of one round of the loop over the rows. -/
def addRowOperations (groupBys : List (Expression F)) (aggregates : List (AggregationType × Expression F))
    (groups : Groups F) (row : Row F) : List Operation :=
  match groupBys.mapM fun e => e.evaluate row with
  | .error _ => []
  | .ok groupValues =>
    let state := (groups.lookup (groupKey groupValues)).getD {}
    let named := if state.countStar = 0 then { state with groupValues } else state
    (.plus, named.countStar, 1) ::
      accumulateAllOperations row aggregates { named with countStar := named.countStar + 1 }

/-- The additions of the loop over the rows, up to an exception. -/
def loopOperations (groupBys : List (Expression F)) (aggregates : List (AggregationType × Expression F)) :
    Groups F → List (Row F) → List Operation
  | _, [] => []
  | groups, row :: rest => addRowOperations groupBys aggregates groups row ++
    match addRow groupBys aggregates groups row with
    | .error _ => []
    | .ok next => loopOperations groupBys aggregates next rest

end Code

section Exact

/-- The number of values counted and the sum of the values added are in range. -/
def GivenInRange (given : AggregationType → List Int32) : Prop :=
  InRange (given .countAggregate).length ∧ InRange (total (given .sumAggregate))

/-- A value that an aggregate does not take: it is there, and it is no INTEGER where one is needed. -/
def Refuses {F : Type} (aggType : AggregationType) (value : Value F) : Prop :=
  value.isNull = false ∧ aggType ≠ .countStarAggregate ∧ aggType ≠ .countAggregate ∧ value.typeId ≠ .integer

variable {F : Type} [Field F] [LinearOrder F]

/-- An aggregate throws at a row. -/
def Stops (aggregate : AggregationType × Expression F) (row : Row F) : Prop :=
  ∀ value, aggregate.2.evaluate row = .ok value → Refuses aggregate.1 value

/-- The running totals of a group stay in range through the aggregates of one row, up to one that throws. -/
def CallsInRange (row : Row F) : (AggregationType → List Int32) → List (AggregationType × Expression F) → Prop
  | _, [] => True
  | given, aggregate :: rest => ¬ Stops aggregate row →
    GivenInRange (fun aggType => given aggType ++ added [aggregate] row aggType) ∧
      CallsInRange row (fun aggType => given aggType ++ added [aggregate] row aggType) rest

variable [PrintsFloat F]

/-- The running totals of every group stay in range, through all rows up to one that throws. -/
def TotalsInRange (groupBys : List (Expression F)) (aggregates : List (AggregationType × Expression F)) :
    List (Row F) → List (Row F) → Prop
  | _, [] => True
  | before, row :: rest => ∀ values, (groupBys.mapM fun e => e.evaluate row) = .ok values →
    let group := keyed groupBys before (groupKey values)
    InRange (group.length + 1) ∧
      CallsInRange row (fun aggType => group.flatMap fun row => added aggregates row aggType) aggregates ∧
      ((∀ aggregate ∈ aggregates, ¬ Stops aggregate row) →
        TotalsInRange groupBys aggregates (before ++ [row]) rest)

end Exact

section Totals

variable {F : Type} {state : AggState F} {given : AggregationType → List Int32}

theorem toInt_ofNat_of_inRange {n : ℕ} (range : InRange n) : (Int32.ofNat n).toInt = n := by
  rw [Int32.toInt_ofNat']
  exact bmod_of_inRange range

theorem toInt_ofInt_of_inRange {n : ℤ} (range : InRange n) : (Int32.ofInt n).toInt = n := by
  rw [Int32.toInt_ofInt]
  exact bmod_of_inRange range

theorem Describes.count_toInt (describes : Describes state given) (range : GivenInRange given) :
    state.count.toInt = (given .countAggregate).length := by
  rw [describes.count, toInt_ofNat_of_inRange range.1]

theorem Describes.sum_toInt (describes : Describes state given) (range : GivenInRange given) :
    state.sum.toInt = total (given .sumAggregate) := by
  rw [describes.sum, toInt_ofInt_of_inRange range.2]

theorem accumulate_error_iff (state : AggState F) (aggType : AggregationType) (value : Value F) :
    (∃ message, accumulate state aggType value = .error message) ↔ Refuses aggType value := by
  cases missing : value.isNull with
  | true => simp [accumulate, missing, Refuses]
  | false =>
    by_cases typed : value.typeId = .integer
    · have integer : value.getAsInteger = .ok value.integerPart := if_pos typed
      cases aggType <;> simp [accumulate, missing, Refuses, integer, typed, bind, Except.bind, pure, Except.pure]
    · have failed : value.getAsInteger = .error "Value is not an integer" := if_neg typed
      cases aggType <;> simp [accumulate, missing, Refuses, failed, typed, bind, Except.bind]

/-- The addition of one aggregate fits exactly when the totals stay in range. -/
theorem Describes.accumulateOperations_fit (describes : Describes state given) (range : GivenInRange given)
    {aggType : AggregationType} {value : Value F} (taken : ¬ Refuses aggType value) :
    AllFit (accumulateOperations state aggType value) ↔
      GivenInRange (fun kind => given kind ++ if kind = aggType then adds aggType value else []) := by
  cases missing : value.isNull with
  | true => simpa [accumulateOperations, missing, adds] using range
  | false =>
    cases aggType with
    | countAggregate =>
      have one : (adds .countAggregate value).length = 1 := by
        by_cases typed : value.typeId = .integer
        · simp [adds, missing, typed]
        · simp [adds, missing, typed]
      simp [accumulateOperations, missing, Representable, describes.count_toInt range, GivenInRange, one, range.2]
    | sumAggregate =>
      have typed : value.typeId = .integer := by simpa [Refuses, missing] using taken
      have integer : value.getAsInteger = .ok value.integerPart := if_pos typed
      have summed : total (given .sumAggregate ++ [value.integerPart]) = total (given .sumAggregate) +
          value.integerPart.toInt :=
        total_append _ _
      simp [accumulateOperations, missing, integer, Representable, describes.sum_toInt range, GivenInRange, adds, typed,
        summed, range.1]
    | _ => simpa [accumulateOperations, missing, GivenInRange] using range

variable [Field F] [LinearOrder F] {row : Row F}

theorem added_single (aggType kind : AggregationType) (e : Expression F) {value : Value F}
    (evaluated : e.evaluate row = .ok value) :
    added [(aggType, e)] row kind = if kind = aggType then adds aggType value else [] := by
  by_cases same : kind = aggType
  · simp [added, evaluated, Except.toOption, same]
  · simp [added, same, Ne.symm same]

theorem added_cons (aggregate : AggregationType × Expression F) (rest : List (AggregationType × Expression F))
    (kind : AggregationType) :
    added (aggregate :: rest) row kind = added [aggregate] row kind ++ added rest row kind := by
  simp [added]

/-- The additions of one row fit exactly when the running totals stay in range. -/
theorem Describes.accumulateAllOperations_fit (row : Row F) (aggregates : List (AggregationType × Expression F))
    (describes : Describes state given) (range : GivenInRange given) :
    (AllFit (accumulateAllOperations row aggregates state) ↔ CallsInRange row given aggregates) ∧
      (AllFit (accumulateAllOperations row aggregates state) →
        (∀ aggregate ∈ aggregates, ¬ Stops aggregate row) →
        GivenInRange fun aggType => given aggType ++ added aggregates row aggType) := by
  induction aggregates generalizing state given with
  | nil => exact ⟨by simp [accumulateAllOperations, CallsInRange], fun _ _ => by simpa [added] using range⟩
  | cons aggregate rest ih =>
    obtain ⟨aggType, e⟩ := aggregate
    cases evaluated : e.evaluate row with
    | error message =>
      have stops : Stops (aggType, e) row := fun value here => by rw [evaluated] at here; cases here
      exact ⟨by simp [accumulateAllOperations, evaluated, CallsInRange, stops],
        fun _ passes => absurd stops (passes _ (List.mem_cons_self ..))⟩
    | ok value =>
      have stops_iff : Stops (aggType, e) row ↔ Refuses aggType value := by simp [Stops, evaluated]
      by_cases refuses : Refuses aggType value
      · have stops := stops_iff.mpr refuses
        obtain ⟨message, failed⟩ := (accumulate_error_iff state aggType value).mpr refuses
        have nothing : accumulateOperations state aggType value = [] := by
          obtain ⟨present, notStar, notCount, untyped⟩ := refuses
          have failed : value.getAsInteger = .error "Value is not an integer" := if_neg untyped
          cases aggType <;> simp_all [accumulateOperations]
        exact ⟨by simp [accumulateAllOperations, evaluated, failed, nothing, CallsInRange, stops],
          fun _ passes => absurd stops (passes _ (List.mem_cons_self ..))⟩
      · have goes : ¬ Stops (aggType, e) row := fun stops => refuses (stops_iff.mp stops)
        rcases describes.accumulate aggType value with ⟨next, done, nextDescribes, -, -⟩ | ⟨failed, -⟩
        · have first := describes.accumulateOperations_fit range refuses
          have grown : (fun kind => given kind ++ if kind = aggType then adds aggType value else []) =
              fun kind => given kind ++ added [(aggType, e)] row kind := by
            funext kind
            rw [added_single aggType kind e evaluated]
          have updated : Function.update given aggType (given aggType ++ adds aggType value) =
              fun kind => given kind ++ added [(aggType, e)] row kind := by
            rw [← grown]
            funext kind
            by_cases same : kind = aggType
            · subst same
              simp
            · simp [same]
          rw [grown] at first
          rw [updated] at nextDescribes
          have operations : accumulateAllOperations row ((aggType, e) :: rest) state =
              accumulateOperations state aggType value ++ accumulateAllOperations row rest next := by
            simp [accumulateAllOperations, evaluated, done]
          rw [operations, allFit_append, first, CallsInRange]
          constructor
          · constructor
            · rintro ⟨inRange, others⟩ _
              exact ⟨inRange, (ih nextDescribes inRange).1.mp others⟩
            · intro calls
              obtain ⟨inRange, others⟩ := calls goes
              exact ⟨inRange, (ih nextDescribes inRange).1.mpr others⟩
          · rintro ⟨inRange, others⟩ passes
            have after := (ih nextDescribes inRange).2 others fun aggregate mem =>
              passes aggregate (List.mem_cons_of_mem _ mem)
            simpa only [added_cons (aggType, e) rest, List.append_assoc] using after
        · exact absurd ((accumulate_error_iff state aggType value).mp failed) refuses

/-- The loop over the aggregates throws at the first one that does. -/
theorem accumulateAll_error_iff (aggregates : List (AggregationType × Expression F)) (state : AggState F) :
    (∃ message, accumulateAll aggregates row state = .error message) ↔
      ∃ aggregate ∈ aggregates, Stops aggregate row := by
  induction aggregates generalizing state with
  | nil => simp [accumulateAll, pure, Except.pure]
  | cons aggregate rest ih =>
    obtain ⟨aggType, e⟩ := aggregate
    simp only [accumulateAll, List.foldlM_cons, List.exists_mem_cons_iff] at ih ⊢
    cases evaluated : e.evaluate row with
    | error message =>
      have stops : Stops (aggType, e) row := fun value here => by rw [evaluated] at here; cases here
      exact ⟨fun _ => .inl stops, fun _ => ⟨message, rfl⟩⟩
    | ok value =>
      have stops_iff : Stops (aggType, e) row ↔ Refuses aggType value := by simp [Stops, evaluated]
      rw [stops_iff, ← accumulate_error_iff state]
      cases done : accumulate state aggType value with
      | error message => exact ⟨fun _ => .inl ⟨message, rfl⟩, fun _ =>
          ⟨message, by simp [bind, Except.bind, done]⟩⟩
      | ok next => simpa [bind, Except.bind, done] using ih next

end Totals

section Loop

variable {F : Type} [Field F] [LinearOrder F] [PrintsFloat F] {groupBys : List (Expression F)}
  {aggregates : List (AggregationType × Expression F)} {groups : Groups F} {before : List (Row F)}

/-- The exact totals of every group are in range. -/
def AllInRange (groupBys : List (Expression F)) (aggregates : List (AggregationType × Expression F))
    (rows : List (Row F)) : Prop :=
  ∀ text, InRange (keyed groupBys rows text).length ∧
    GivenInRange fun aggType => (keyed groupBys rows text).flatMap fun row => added aggregates row aggType

/-- One round: its additions fit exactly when the running totals stay in range, and then it throws or keeps them. -/
theorem TracksAll.addRowOperations_fit (tracks : TracksAll (added aggregates) groupBys before groups)
    (range : AllInRange groupBys aggregates before) (row : Row F) {values : List (Value F)}
    (named : (groupBys.mapM fun e => e.evaluate row) = .ok values) :
    (AllFit (addRowOperations groupBys aggregates groups row) ↔
      InRange ((keyed groupBys before (groupKey values)).length + 1) ∧
        CallsInRange row (fun aggType => (keyed groupBys before (groupKey values)).flatMap
          fun row => added aggregates row aggType) aggregates) ∧
      (AllFit (addRowOperations groupBys aggregates groups row) →
        (∀ aggregate ∈ aggregates, ¬ Stops aggregate row) →
        AllInRange groupBys aggregates (before ++ [row])) := by
  obtain ⟨-, tracked⟩ := tracks (groupKey values)
  obtain ⟨lengthRange, givenRange⟩ := range (groupKey values)
  generalize stateEq : (groups.lookup (groupKey values)).getD {} = state at tracked
  have here : groupValues groupBys row = values := by rw [groupValues, named]; rfl
  have counted := tracked.describes.named (if state.countStar = 0 then values else state.groupValues)
    (state.countStar + 1)
  obtain ⟨callsIff, callsRange⟩ := counted.accumulateAllOperations_fit row aggregates givenRange
  have operations : addRowOperations groupBys aggregates groups row = (.plus, state.countStar, 1) ::
      accumulateAllOperations row aggregates { state with
        groupValues := if state.countStar = 0 then values else state.groupValues
        countStar := state.countStar + 1 } := by
    simp only [addRowOperations, named, stateEq]
    split_ifs <;> rfl
  have one : Representable state.countStar.toInt (1 : Int32).toInt .plus ↔
      InRange ((keyed groupBys before (groupKey values)).length + 1) := by
    rw [tracked.countStar, toInt_ofNat_of_inRange lengthRange]
    rfl
  rw [operations, allFit_cons, one, callsIff]
  refine ⟨Iff.rfl, fun fits passes text => ?_⟩
  by_cases same : groupKey values = text
  · subst same
    have grown : keyed groupBys (before ++ [row]) (groupKey values) =
        keyed groupBys before (groupKey values) ++ [row] := by
      simp [keyed, here]
    rw [grown]
    constructor
    · simpa using fits.1
    · simpa using callsRange (callsIff.mpr fits.2) passes
  · have kept : keyed groupBys (before ++ [row]) text = keyed groupBys before text := by simp [keyed, here, same]
    rw [kept]
    exact range text

/-- A round throws when one of the aggregates does. -/
theorem addRow_error_iff (aggregates : List (AggregationType × Expression F)) (groups : Groups F) (row : Row F)
    {values : List (Value F)}
    (named : (groupBys.mapM fun e => e.evaluate row) = .ok values) :
    (∃ message, addRow groupBys aggregates groups row = .error message) ↔
      ∃ aggregate ∈ aggregates, Stops aggregate row := by
  generalize stateEq : (groups.lookup (groupKey values)).getD {} = state
  rw [← accumulateAll_error_iff aggregates
    { (if state.countStar = 0 then { state with groupValues := values } else state) with
    countStar := (if state.countStar = 0 then { state with groupValues := values } else state).countStar + 1 }]
  simp only [addRow, named, bind, Except.bind, stateEq]
  split
  · simp_all
  · simp_all [pure, Except.pure]

/-- The additions of the loop fit exactly when the running totals stay in range, and then it throws or the accumulators
of every group are its exact totals. -/
theorem loopOperations_fit (tracks : TracksAll (added aggregates) groupBys before groups)
    (range : AllInRange groupBys aggregates before) (rows : List (Row F)) :
    (AllFit (loopOperations groupBys aggregates groups rows) ↔ TotalsInRange groupBys aggregates before rows) ∧
      (AllFit (loopOperations groupBys aggregates groups rows) →
        (∃ message, rows.foldlM (addRow groupBys aggregates) groups = .error message) ∨
          ∃ after, rows.foldlM (addRow groupBys aggregates) groups = .ok after ∧
            TracksAll (added aggregates) groupBys (before ++ rows) after ∧
            AllInRange groupBys aggregates (before ++ rows)) := by
  induction rows generalizing before groups with
  | nil =>
    refine ⟨by simp [loopOperations, TotalsInRange], fun _ => .inr ⟨groups, rfl, ?_, ?_⟩⟩
    · simpa using tracks
    · simpa using range
  | cons row rest ih =>
    rw [List.foldlM_cons]
    cases named : groupBys.mapM fun e => e.evaluate row with
    | error message =>
      have failed : addRow groupBys aggregates groups row = .error message := by
        simp only [addRow, named, bind, Except.bind]
      exact ⟨by simp [loopOperations, addRowOperations, named, failed, TotalsInRange],
        fun _ => .inl ⟨message, by simp [failed, bind, Except.bind]⟩⟩
    | ok values =>
      obtain ⟨rowIff, rowRange⟩ := tracks.addRowOperations_fit range row named
      have stops := addRow_error_iff aggregates groups row named
      cases done : addRow groupBys aggregates groups row with
      | error message =>
        have some := stops.mp ⟨message, done⟩
        have notAll : ¬ ∀ aggregate ∈ aggregates, ¬ Stops aggregate row := by simpa using some
        constructor
        · rw [loopOperations, done, List.append_nil, rowIff, TotalsInRange]
          constructor
          · rintro ⟨length, calls⟩ other same
            obtain rfl : values = other := by rw [named] at same; exact Except.ok.inj same
            exact ⟨length, calls, fun all => absurd all notAll⟩
          · exact fun totals => ⟨(totals values named).1, (totals values named).2.1⟩
        · exact fun _ => .inl ⟨message, by simp [bind, Except.bind]⟩
      | ok next =>
        have all : ∀ aggregate ∈ aggregates, ¬ Stops aggregate row := by
          intro aggregate mem stop
          obtain ⟨message, failed⟩ := stops.mpr ⟨aggregate, mem, stop⟩
          rw [done] at failed
          cases failed
        have tracks' : TracksAll (added aggregates) groupBys (before ++ [row]) next := by
          rcases tracks.addRow row with ⟨next', done', tracks'⟩ | ⟨⟨message, failed⟩, -⟩
          · rw [done] at done'
            cases done'
            exact tracks'
          · rw [done] at failed
            cases failed
        rw [loopOperations, done, allFit_append, TotalsInRange, rowIff]
        constructor
        · constructor
          · rintro ⟨rowFits, others⟩ other same
            obtain rfl : values = other := by rw [named] at same; exact Except.ok.inj same
            exact ⟨rowFits.1, rowFits.2, fun _ => (ih tracks' (rowRange (rowIff.mpr rowFits) all)).1.mp others⟩
          · intro totals
            obtain ⟨length, calls, later⟩ := totals values named
            exact ⟨⟨length, calls⟩,
              (ih tracks' (rowRange (rowIff.mpr ⟨length, calls⟩) all)).1.mpr (later all)⟩
        · rintro ⟨rowFits, others⟩
          have after := (ih tracks' (rowRange (rowIff.mpr rowFits) all)).2 others
          simpa [bind, Except.bind] using after

/-- The accumulators of every group are the exact sum and counts over its rows. -/
def HoldsExact (groupBys : List (Expression F)) (aggregates : List (AggregationType × Expression F))
    (rows : List (Row F))
    (groups : Groups F) : Prop :=
  ∀ text, let state := (groups.lookup text).getD {}
    let given (aggType : AggregationType) := (keyed groupBys rows text).flatMap fun row => added aggregates row aggType
    state.countStar.toInt = (keyed groupBys rows text).length ∧ state.count.toInt = (given .countAggregate).length ∧
      state.sum.toInt = total (given .sumAggregate)

theorem TracksAll.holdsExact {rows : List (Row F)} (tracks : TracksAll (added aggregates) groupBys rows groups)
    (range : AllInRange groupBys aggregates rows) : HoldsExact groupBys aggregates rows groups := by
  intro text
  obtain ⟨-, tracked⟩ := tracks text
  obtain ⟨lengthRange, givenRange⟩ := range text
  refine ⟨?_, tracked.describes.count_toInt givenRange, tracked.describes.sum_toInt givenRange⟩
  rw [tracked.countStar, toInt_ofNat_of_inRange lengthRange]

/-- Integer arithmetic is exact or throws, and no operation overflows, exactly where the same steps without bounds
stay in range: for an expression on a row, and for the accumulators over a sequence of rows. -/
theorem exact_iff_inRange :
    (∀ (row : Row F) (e : Expression F), e.IntegerTree row →
      (AllFit (e.operations row) ∧ e.ThrowsOrExact row ↔ e.StaysInRange row)) ∧
    ∀ (groupBys : List (Expression F)) (aggregates : List (AggregationType × Expression F)) (rows : List (Row F)),
      AllFit (loopOperations groupBys aggregates ∅ rows) ∧
          ((∃ message, rows.foldlM (addRow groupBys aggregates) ∅ = .error message) ∨
            ∃ groups, rows.foldlM (addRow groupBys aggregates) ∅ = .ok groups ∧
              HoldsExact groupBys aggregates rows groups) ↔
        TotalsInRange groupBys aggregates [] rows := by
  constructor
  · intro row e tree
    obtain ⟨iff, exact⟩ := Expression.operations_fit tree
    exact ⟨fun fits => iff.mp fits.1, fun stays => ⟨iff.mpr stays, exact (iff.mpr stays)⟩⟩
  · intro groupBys aggregates rows
    have none : AllInRange groupBys aggregates ([] : List (Row F)) := fun text =>
      ⟨by simp [keyed, InRange], by simp [keyed, GivenInRange, InRange, total]⟩
    have start : TracksAll (added aggregates) groupBys [] (∅ : Groups F) := tracksAll_nil
    obtain ⟨iff, exact⟩ := loopOperations_fit start none rows
    constructor
    · exact fun fits => iff.mp fits.1
    · intro totals
      refine ⟨iff.mpr totals, ?_⟩
      rcases exact (iff.mpr totals) with failed | ⟨groups, done, tracks, range⟩
      · exact .inl failed
      · rw [List.nil_append] at tracks range
        exact .inr ⟨groups, done, tracks.holdsExact range⟩

end Loop

section Largest

/-- The largest INTEGER and one more. -/
def pastLargest : Expression ℚ :=
    .arithmetic (.constantValue (.integer 2147483647)) (.constantValue (.integer 1)) .plus

def sumOfFirst : List (AggregationType × Expression ℚ) := [(.sumAggregate, .columnValue 0 0 .integer)]

theorem exact_iff_inRange_pastLargest :
    AllFit (pastLargest.operations []) ∧ pastLargest.ThrowsOrExact [] ↔ pastLargest.StaysInRange [] :=
  exact_iff_inRange.1 [] pastLargest ⟨⟨_, rfl⟩, ⟨_, rfl⟩⟩

/-- An addition can leave the range, in an expression and in a sum. -/
theorem pastLargest_overflows :
    (¬ ∀ (row : Row ℚ) (e : Expression ℚ), e.IntegerTree row → AllFit (e.operations row) ∧
      e.ThrowsOrExact row) ∧
      ¬ ∀ rows : List (Row ℚ), AllFit (loopOperations [] sumOfFirst ∅ rows) := by
  constructor
  · intro exact
    have fits := (exact [] pastLargest ⟨⟨_, rfl⟩, ⟨_, rfl⟩⟩).1
    change AllFit [(.plus, 2147483647, 1)] at fits
    exact absurd ((allFit_cons _ _).mp fits).1.2 (by decide)
  · intro exact
    have fits := exact [[.integer 2147483647], [.integer 1]]
    have second : (ArithmeticType.plus, (2147483647 : Int32), (1 : Int32)) ∈
        loopOperations [] sumOfFirst ∅ [[.integer 2147483647], [.integer 1]] := by decide
    exact absurd (fits _ second).2 (by decide)

end Largest

end AggregationExecutor

end OneBase
