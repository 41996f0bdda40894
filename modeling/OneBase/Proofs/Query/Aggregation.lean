import OneBase.Proofs.Query.Runtime
import OneBase.ToMathlib.ExceptLoops

/-! # Aggregate values

A group has one counter, one sum, one minimum and one maximum, whatever the number of aggregates of
the kind; so what position `i` shows is made from the arguments of all aggregates of its kind. Groups
are told apart by the text of their values, joined with bars. The rows are those of the reference
exactly when no two groups share a text and in every group the other aggregates of the same kind do
not show.
-/

namespace OneBase

open ExceptLoops

namespace AggregationExecutor

section Reference

variable {F : Type} [Field F] [LinearOrder F]

/-- The argument of an aggregate on a row, if it is an integer. -/
def argument (e : Expression F) (row : Row F) : Option Int32 :=
  match e.evaluate row with
  | .ok (.integer i) => some i
  | _ => none

/-- The arguments of an aggregate over a group. -/
def arguments (e : Expression F) (group : List (Row F)) : List Int32 := group.filterMap (argument e)

/-- The sum of integers, not reduced. -/
def total (values : List Int32) : ℤ := (values.map Int32.toInt).sum

/-- The value of lowest rank, zero for no values. -/
def best (rank : Int32 → ℤ) : List Int32 → Int32
  | [] => 0
  | value :: rest => rest.foldl (fun b v => if rank v < rank b then v else b) value

/-- What an aggregate is over the rows of a group; an INTEGER holds it modulo 2³². -/
def reference (group : List (Row F)) (aggregate : AggregationType × Expression F) : Value F :=
  match aggregate.1 with
  | .countStarAggregate => .integer (Int32.ofNat group.length)
  | .countAggregate => .integer (Int32.ofNat (arguments aggregate.2 group).length)
  | .sumAggregate => .integer (Int32.ofInt (total (arguments aggregate.2 group)))
  | .minAggregate => .integer (best Int32.toInt (arguments aggregate.2 group))
  | .maxAggregate => .integer (best (fun i => -i.toInt) (arguments aggregate.2 group))

/-- The GROUP BY values of a row. -/
def groupValues (groupBys : List (Expression F)) (row : Row F) : List (Value F) :=
  (Except.toOption (groupBys.mapM fun e => e.evaluate row)).getD []

/-- The rows with given GROUP BY values. -/
def groupOf (groupBys : List (Expression F)) (rows : List (Row F)) (values : List (Value F)) : List (Row F) :=
  rows.filter fun row => groupValues groupBys row = values

/-- One row for each group: its values, then each aggregate over its own argument. -/
def referenceRows (groupBys : List (Expression F)) (aggregates : List (AggregationType × Expression F))
    (rows : List (Row F)) : List (Row F) :=
  if rows.isEmpty && groupBys.isEmpty then [aggregates.map fun _ => .integer 0]
  else (rows.map (groupValues groupBys)).dedup.map fun values =>
    values ++ aggregates.map (reference (groupOf groupBys rows values))

end Reference

section Extremes

variable {rank : Int32 → ℤ} {values : List Int32}

/-- The flag and the value of a running minimum over `values`. -/
def Extreme (rank : Int32 → ℤ) (values : List Int32) (has : Bool) (value : Int32) : Prop :=
  (has = true ↔ values ≠ []) ∧ (has = true → value ∈ values ∧ ∀ v ∈ values, rank value ≤ rank v)

/-- One more value. -/
theorem Extreme.snoc {has : Bool} {value : Int32} (extreme : Extreme rank values has value) (i : Int32) :
    Extreme rank (values ++ [i]) true (if !has || decide (rank i < rank value) then i else value) := by
  obtain ⟨nonempty, least⟩ := extreme
  refine ⟨by simp, fun _ => ?_⟩
  cases has with
  | false =>
    have empty : values = [] := by
      by_contra some
      exact Bool.false_ne_true (nonempty.mpr some)
    subst empty
    simp
  | true =>
    obtain ⟨member, least⟩ := least rfl
    by_cases lower : rank i < rank value
    · simp only [Bool.not_true, Bool.false_or, lower, decide_true, ↓reduceIte, List.mem_append, List.mem_singleton,
        or_true, true_and]
      rintro v (old | rfl)
      · exact (lower.le).trans (least v old)
      · exact le_rfl
    · simp only [Bool.not_true, Bool.false_or, lower, decide_false, Bool.false_eq_true, ↓reduceIte, List.mem_append,
        List.mem_singleton, member, true_or, true_and]
      rintro v (old | rfl)
      · exact least v old
      · exact not_lt.mp lower

theorem best_cons_extreme (rank : Int32 → ℤ) (value : Int32) (rest : List Int32) :
    Extreme rank (value :: rest) true (best rank (value :: rest)) := by
  have running (seen : List Int32) (b : Int32) (extreme : Extreme rank seen true b) :
      Extreme rank (seen ++ rest) true (rest.foldl (fun b v => if rank v < rank b then v else b) b) := by
    induction rest generalizing seen b with
    | nil => simpa using extreme
    | cons v rest ih =>
      have next := extreme.snoc v
      simp only [Bool.not_true, Bool.false_or, decide_eq_true_eq] at next
      simpa using ih _ _ next
  exact running [value] value ⟨by simp, by simp⟩

/-- The running value is the best one, and shows as zero before there is one. -/
theorem Extreme.eq_best (injective : Function.Injective rank) {has : Bool} {value : Int32}
    (extreme : Extreme rank values has value) : (if has then value else 0) = best rank values := by
  cases values with
  | nil =>
    have : has = false := by
      by_contra flag
      exact extreme.1.mp (Bool.eq_true_of_not_eq_false flag) rfl
    simp [this, best]
  | cons v rest =>
    have flag : has = true := extreme.1.mpr (List.cons_ne_nil v rest)
    obtain ⟨member, least⟩ := extreme.2 flag
    obtain ⟨member', least'⟩ := (best_cons_extreme rank v rest).2 rfl
    rw [if_pos flag]
    exact injective (le_antisymm (least _ member') (least' _ member))

end Extremes

section Accumulators

variable {F : Type}

/-- What a state shows when the aggregates of each kind were given these arguments. -/
structure Describes (state : AggState F) (given : AggregationType → List Int32) : Prop where
  count : state.count = Int32.ofNat (given .countAggregate).length
  hasSum : state.hasSum = true ↔ given .sumAggregate ≠ []
  sum : state.sum = Int32.ofInt (total (given .sumAggregate))
  min : Extreme Int32.toInt (given .minAggregate) state.hasMin state.minVal
  max : Extreme (fun i => -i.toInt) (given .maxAggregate) state.hasMax state.maxVal

theorem total_append (values : List Int32) (i : Int32) : total (values ++ [i]) = total values + i.toInt := by
  simp [total]

theorem getAsInteger_integer (i : Int32) : (Value.integer i : Value F).getAsInteger = .ok i := rfl

/-- A group that has seen no row. -/
theorem describes_empty : Describes ({} : AggState F) fun _ => [] :=
  ⟨rfl, by simp, rfl, ⟨by simp, by simp⟩, ⟨by simp, by simp⟩⟩

/-- Counting a row and naming the group leave the accumulators alone. -/
theorem Describes.named {state : AggState F} {given : AggregationType → List Int32}
    (describes : Describes state given)
    (values : List (Value F)) (countStar : Int32) :
    Describes { state with groupValues := values, countStar := countStar } given :=
  ⟨describes.count, describes.hasSum, describes.sum, describes.min, describes.max⟩

/-- Before the flag is set every value counts as lower, so the flag ends up set either way. -/
theorem accumulate_min (state : AggState F) (i : Int32) : accumulate state .minAggregate (.integer i) = .ok
    { state with
      minVal := if !state.hasMin || decide (i < state.minVal) then i else state.minVal
      hasMin := true } := by
  obtain ⟨values, countStar, count, sum, minVal, maxVal, hasSum, hasMin, hasMax⟩ := state
  simp only [accumulate, Value.isNull, Bool.false_eq_true, ↓reduceIte, getAsInteger_integer, bind, Except.bind, pure,
    Except.pure]
  cases hasMin with
  | false => simp
  | true => by_cases lower : i < minVal <;> simp [lower]

theorem accumulate_max (state : AggState F) (i : Int32) : accumulate state .maxAggregate (.integer i) = .ok
    { state with
      maxVal := if !state.hasMax || decide (state.maxVal < i) then i else state.maxVal
      hasMax := true } := by
  obtain ⟨values, countStar, count, sum, minVal, maxVal, hasSum, hasMin, hasMax⟩ := state
  simp only [accumulate, Value.isNull, Bool.false_eq_true, ↓reduceIte, getAsInteger_integer, bind, Except.bind, pure,
    Except.pure]
  cases hasMax with
  | false => simp
  | true => by_cases higher : maxVal < i <;> simp [higher]

/-- One aggregate adds its argument to those of its kind. -/
theorem Describes.accumulate_integer {state : AggState F} {given : AggregationType → List Int32}
    (describes : Describes state given) (aggType : AggregationType) (i : Int32) :
    ∃ next, accumulate state aggType (.integer i) = .ok next ∧
      Describes next (Function.update given aggType (given aggType ++ [i])) ∧
      next.groupValues = state.groupValues ∧ next.countStar = state.countStar := by
  cases aggType with
  | countStarAggregate =>
    exact ⟨state, rfl, ⟨describes.count, describes.hasSum, describes.sum, describes.min,
      describes.max⟩, rfl, rfl⟩
  | countAggregate =>
    refine ⟨_, rfl, ⟨?_, describes.hasSum, describes.sum, describes.min, describes.max⟩, rfl, rfl⟩
    simp [describes.count, Int32.ofNat_add]
  | sumAggregate =>
    refine ⟨_, rfl, ⟨describes.count, by simp, ?_, describes.min, describes.max⟩, rfl, rfl⟩
    simp [describes.sum, total_append, Int32.ofInt_add, Value.integerPart]
  | minAggregate =>
    have next := describes.min.snoc i
    simp only [← Int32.lt_iff_toInt_lt] at next
    exact ⟨_, accumulate_min state i, ⟨describes.count, describes.hasSum, describes.sum, by simpa using next,
      describes.max⟩, rfl, rfl⟩
  | maxAggregate =>
    have next := describes.max.snoc i
    simp only [neg_lt_neg_iff, ← Int32.lt_iff_toInt_lt] at next
    exact ⟨_, accumulate_max state i, ⟨describes.count, describes.hasSum, describes.sum, describes.min,
      by simpa using next⟩, rfl, rfl⟩

/-- The arguments of `COUNT(*)` do not matter. -/
theorem Describes.congr {state : AggState F} {given given' : AggregationType → List Int32}
    (describes : Describes state given)
    (same : ∀ aggType ≠ .countStarAggregate, given aggType = given' aggType) : Describes state given' := by
  have count := same .countAggregate (by decide)
  have sum := same .sumAggregate (by decide)
  have min := same .minAggregate (by decide)
  have max := same .maxAggregate (by decide)
  exact ⟨count ▸ describes.count, sum ▸ describes.hasSum, sum ▸ describes.sum, min ▸ describes.min,
    max ▸ describes.max⟩

/-- What a value adds to the arguments of a kind; `COUNT` takes values of every type. -/
def adds (aggType : AggregationType) (value : Value F) : List Int32 :=
  if value.isNull then []
  else if value.typeId = .integer then [value.integerPart]
  else if aggType = .countAggregate then [0]
  else []

/-- One aggregate adds its value to the arguments of its kind, or throws at a value that is no integer. -/
theorem Describes.accumulate {state : AggState F} {given : AggregationType → List Int32}
    (describes : Describes state given) (aggType : AggregationType) (value : Value F) :
    (∃ next, accumulate state aggType value = .ok next ∧
      Describes next (Function.update given aggType (given aggType ++ adds aggType value)) ∧
      next.groupValues = state.groupValues ∧ next.countStar = state.countStar) ∨
    (∃ message, accumulate state aggType value = .error message) ∧
      aggType ≠ .countStarAggregate ∧ aggType ≠ .countAggregate ∧ value.typeId ≠ .integer := by
  cases missing : value.isNull with
  | true =>
    refine .inl ⟨state, by simp [AggregationExecutor.accumulate, missing], ?_, rfl, rfl⟩
    simpa [adds, missing] using describes
  | false =>
    by_cases typed : value.typeId = .integer
    · obtain ⟨i, rfl⟩ : ∃ i, value = .integer i := by cases value <;> simp_all [Value.typeId, Value.isNull]
      exact .inl (describes.accumulate_integer aggType i)
    · have failed : value.getAsInteger = .error "Value is not an integer" := if_neg typed
      cases aggType with
      | countStarAggregate =>
        refine .inl ⟨state, by simp [AggregationExecutor.accumulate, missing], ?_, rfl, rfl⟩
        simpa [adds, missing, typed] using describes
      | countAggregate =>
        refine .inl ⟨{ state with count := state.count + 1 }, by simp [AggregationExecutor.accumulate, missing],
          ⟨?_, describes.hasSum, describes.sum, describes.min, describes.max⟩, rfl, rfl⟩
        simp [describes.count, adds, missing, typed, Int32.ofNat_add]
      | sumAggregate | minAggregate | maxAggregate =>
        refine .inr ⟨⟨"Value is not an integer", ?_⟩, by decide, by decide, typed⟩
        simp [AggregationExecutor.accumulate, missing, failed, bind, Except.bind]

variable [Field F] [LinearOrder F] {aggregates : List (AggregationType × Expression F)} {row : Row F}

/-- Every argument has a value on the row, an integer unless it is the placeholder of `COUNT(*)`. -/
def IntegerValued (aggregates : List (AggregationType × Expression F)) (row : Row F) : Prop :=
  ∀ aggregate ∈ aggregates, ∃ value, aggregate.2.evaluate row = .ok value ∧
    (aggregate.1 ≠ .countStarAggregate → ∃ i, value = .integer i)

/-- The arguments that a row gives to the aggregates of a kind. -/
def given (aggregates : List (AggregationType × Expression F)) (row : Row F) (aggType : AggregationType) :
    List Int32 :=
  aggregates.filterMap fun aggregate => if aggregate.1 = aggType then argument aggregate.2 row else none

/-- What a row adds to the arguments of a kind. -/
def added (aggregates : List (AggregationType × Expression F)) (row : Row F) (aggType : AggregationType) :
    List Int32 :=
  aggregates.flatMap fun aggregate =>
    if aggregate.1 = aggType then (aggregate.2.evaluate row).toOption.elim [] (adds aggType) else []

/-- An aggregate has no value for a row. -/
def CallFails (aggregate : AggregationType × Expression F) (row : Row F) : Prop :=
  (∃ message, aggregate.2.evaluate row = .error message) ∨
    aggregate.1 ≠ .countStarAggregate ∧ aggregate.1 ≠ .countAggregate ∧
      ∃ value, aggregate.2.evaluate row = .ok value ∧ value.typeId ≠ .integer

variable (aggregates row) in
/-- A row adds the arguments it has, or an aggregate fails on it. -/
theorem Describes.accumulateAll {state : AggState F} {before : AggregationType → List Int32}
    (describes : Describes state before) :
    (∃ next, accumulateAll aggregates row state = .ok next ∧
      Describes next (fun aggType => before aggType ++ added aggregates row aggType) ∧
      next.groupValues = state.groupValues ∧ next.countStar = state.countStar) ∨
    (∃ message, accumulateAll aggregates row state = .error message) ∧
    ∃ aggregate ∈ aggregates, CallFails aggregate row := by
  induction aggregates generalizing state before with
  | nil => exact .inl ⟨state, rfl, by simpa [added] using describes, rfl, rfl⟩
  | cons aggregate rest ih =>
    obtain ⟨aggType, e⟩ := aggregate
    simp only [AggregationExecutor.accumulateAll, List.foldlM_cons] at ih ⊢
    cases evaluated : e.evaluate row with
    | error message =>
      exact .inr ⟨⟨message, rfl⟩, _, List.mem_cons_self, .inl ⟨message, evaluated⟩⟩
    | ok value =>
      rcases describes.accumulate aggType value with
        ⟨middle, done, describes, middleValues, middleCount⟩ | ⟨⟨message, failed⟩, notStar,
          notCount, untyped⟩
      · rcases ih describes with
          ⟨next, ran, describes, sameValues, sameCount⟩ | ⟨⟨message, failed⟩, other, member, fails⟩
        · refine .inl ⟨next, ?_, describes.congr fun kind _ => ?_, sameValues.trans middleValues,
            sameCount.trans middleCount⟩
          · simpa only [bind, Except.bind, done] using ran
          · by_cases same : kind = aggType
            · subst same
              simp [added, evaluated, Except.toOption]
            · simp [added, same, Ne.symm same]
        · refine .inr ⟨⟨message, ?_⟩, other, List.mem_cons_of_mem _ member, fails⟩
          simpa only [bind, Except.bind, done] using failed
      · refine .inr ⟨⟨message, ?_⟩, _, List.mem_cons_self,
          .inr ⟨notStar, notCount, value, evaluated, untyped⟩⟩
        simp only [bind, Except.bind, failed]

/-- On integer-valued arguments these are the arguments given. -/
theorem added_eq_given (valued : IntegerValued aggregates row) {aggType : AggregationType}
    (notStar : aggType ≠ .countStarAggregate) :
    added aggregates row aggType = given aggregates row aggType := by
  rw [added, given, List.filterMap_eq_flatMap_toList]
  apply List.flatMap_congr
  intro aggregate member
  split
  · next kind =>
    obtain ⟨value, evaluated, integer⟩ := valued aggregate member
    obtain ⟨i, rfl⟩ := integer (kind ▸ notStar)
    simp [argument, evaluated, adds, Value.isNull, Value.typeId, Value.integerPart, Except.toOption]
  · rfl

/-- They are never missing. -/
theorem IntegerValued.not_callFails (valued : IntegerValued aggregates row)
    {aggregate : AggregationType × Expression F}
    (member : aggregate ∈ aggregates) : ¬ CallFails aggregate row := by
  obtain ⟨value, evaluated, integer⟩ := valued aggregate member
  rintro (⟨message, failed⟩ | ⟨notStar, -, other, evaluated', untyped⟩)
  · rw [evaluated] at failed
    cases failed
  · obtain ⟨i, rfl⟩ := integer notStar
    rw [evaluated] at evaluated'
    cases evaluated'
    exact untyped rfl

end Accumulators

section Groups

variable {F : Type} [Field F] [LinearOrder F] [PrintsFloat F] {groupBys : List (Expression F)}
  {aggregates : List (AggregationType × Expression F)}

/-- The rows whose group has a given text. -/
def keyed (groupBys : List (Expression F)) (rows : List (Row F)) (text : Text) : List (Row F) :=
  rows.filter fun row => groupKey (groupValues groupBys row) = text

/-- A state belongs to the rows of a group, each of which adds these arguments. -/
structure Tracks (adding : Row F → AggregationType → List Int32) (groupBys : List (Expression F))
    (group : List (Row F))
    (state : AggState F) : Prop where
  describes : Describes state fun aggType => group.flatMap fun row => adding row aggType
  countStar : state.countStar = Int32.ofNat group.length
  named : group ≠ [] → ∃ row ∈ group, state.groupValues = groupValues groupBys row

/-- The table holds a state for every group text that occurs. -/
def TracksAll (adding : Row F → AggregationType → List Int32) (groupBys : List (Expression F)) (rows : List (Row F))
    (groups : Groups F) : Prop :=
  ∀ text, (text ∈ groups ↔ keyed groupBys rows text ≠ []) ∧
    Tracks adding groupBys (keyed groupBys rows text) ((groups.lookup text).getD {})

variable {adding adding' : Row F → AggregationType → List Int32}

theorem tracksAll_nil : TracksAll adding groupBys [] (∅ : Groups F) :=
  fun text => ⟨by simp [keyed], describes_empty, rfl, fun some => (some rfl).elim⟩

/-- The arguments of `COUNT(*)` do not matter. -/
theorem TracksAll.congr {rows : List (Row F)} {groups : Groups F} (tracks : TracksAll adding groupBys rows groups)
    (same : ∀ row ∈ rows, ∀ aggType ≠ .countStarAggregate, adding row aggType = adding' row aggType) :
    TracksAll adding' groupBys rows groups := by
  intro text
  obtain ⟨occurs, describes, countStar, named⟩ := tracks text
  refine ⟨occurs, describes.congr fun aggType notStar => List.flatMap_congr fun row member => ?_, countStar, named⟩
  exact same row (List.mem_filter.mp member).1 aggType notStar

/-- A row that the loop cannot take in. -/
def RowFails (groupBys : List (Expression F)) (aggregates : List (AggregationType × Expression F))
    (row : Row F) : Prop :=
  (∃ message, (groupBys.mapM fun e => e.evaluate row) = .error message) ∨
    ∃ aggregate ∈ aggregates, CallFails aggregate row

/-- One round of the loop. -/
theorem TracksAll.addRow {rows : List (Row F)} {groups : Groups F}
    (tracks : TracksAll (added aggregates) groupBys rows groups) (row : Row F) :
    (∃ next, addRow groupBys aggregates groups row = .ok next ∧
        TracksAll (added aggregates) groupBys (rows ++ [row]) next) ∨
      (∃ message, addRow groupBys aggregates groups row = .error message) ∧ RowFails groupBys aggregates row := by
  cases evaluated : groupBys.mapM fun e => e.evaluate row with
  | error message =>
    refine .inr ⟨⟨message, ?_⟩, .inl ⟨message, evaluated⟩⟩
    simp only [AggregationExecutor.addRow, evaluated, bind, Except.bind]
  | ok values =>
    have named : groupValues groupBys row = values := by rw [groupValues, evaluated]; rfl
    obtain ⟨-, old⟩ := tracks (groupKey values)
    generalize stateEq : (groups.lookup (groupKey values)).getD {} = state at old
    generalize groupEq : keyed groupBys rows (groupKey values) = group at old
    have counted := old.describes.named (if state.countStar = 0 then values else state.groupValues)
      (state.countStar + 1)
    rcases counted.accumulateAll aggregates row with
      ⟨next, done, describes, sameValues, sameCount⟩ | ⟨⟨message, failed⟩, fails⟩
    · refine .inl ⟨groups.insert (groupKey values) next, ?_, fun text => ?_⟩
      · simp only [AggregationExecutor.addRow, evaluated, bind, Except.bind, stateEq]
        split_ifs at done ⊢ with first <;> simp [done, pure, Except.pure]
      · by_cases same : groupKey values = text
        · subst same
          have grown : keyed groupBys (rows ++ [row]) (groupKey values) = group ++ [row] := by
            simp [keyed, ← groupEq, named]
          rw [grown, AList.lookup_insert]
          refine ⟨by simp, ?_, ?_, fun _ => ?_⟩
          · simpa using describes
          · simp [sameCount, old.countStar, Int32.ofNat_add]
          · by_cases first : state.countStar = 0
            · exact ⟨row, by simp, by simp [sameValues, first, named]⟩
            · have some : group ≠ [] := by
                rintro rfl
                exact first old.countStar
              obtain ⟨other, member, name⟩ := old.named some
              exact ⟨other, by simp [member], by simp [sameValues, first, name]⟩
        · have kept : keyed groupBys (rows ++ [row]) text = keyed groupBys rows text := by
            simp [keyed, named, same]
          rw [kept, AList.lookup_insert_ne (Ne.symm same), AList.mem_insert]
          simpa [Ne.symm same] using tracks text
    · refine .inr ⟨⟨message, ?_⟩, .inr fails⟩
      simp only [AggregationExecutor.addRow, evaluated, bind, Except.bind, stateEq]
      split_ifs at failed ⊢ with first <;> simp [failed]

variable (groupBys aggregates) in
/-- The whole loop. -/
theorem tracksAll_foldlM (rows : List (Row F)) :
    (∃ groups, rows.foldlM (addRow groupBys aggregates) ∅ = .ok groups ∧
        TracksAll (added aggregates) groupBys rows groups) ∨
      (∃ message, rows.foldlM (addRow groupBys aggregates) ∅ = .error message) ∧
        ∃ row ∈ rows, RowFails groupBys aggregates row := by
  induction rows using List.reverseRecOn with
  | nil => exact .inl ⟨∅, rfl, tracksAll_nil⟩
  | append_singleton rest row ih =>
    rw [List.foldlM_append]
    rcases ih with ⟨groups, done, tracks⟩ | ⟨⟨message, failed⟩, other, member, fails⟩
    · rcases tracks.addRow row with ⟨next, added, tracks⟩ | ⟨⟨message, failed⟩, fails⟩
      · exact .inl ⟨next, by simp [done, added, bind, Except.bind, pure, Except.pure], tracks⟩
      · exact .inr ⟨⟨message, by simp [done, failed, bind, Except.bind]⟩, row, by simp, fails⟩
    · exact .inr ⟨⟨message, by simp [failed, bind, Except.bind]⟩, other, List.mem_append_left _ member, fails⟩

/-- On integer-valued arguments the loop comes through. -/
theorem tracksGiven_foldlM (rows : List (Row F))
    (evaluated : ∀ row ∈ rows, ∃ values, (groupBys.mapM fun e => e.evaluate row) = .ok values)
    (valued : ∀ row ∈ rows, IntegerValued aggregates row) :
    ∃ groups, rows.foldlM (addRow groupBys aggregates) ∅ = .ok groups ∧
      TracksAll (given aggregates) groupBys rows groups := by
  rcases tracksAll_foldlM groupBys aggregates rows with
    ⟨groups, done, tracks⟩ | ⟨-, row, member, ⟨message, failed⟩ | ⟨aggregate, listed, fails⟩⟩
  · exact ⟨groups, done, tracks.congr fun row member aggType notStar => added_eq_given (valued row member) notStar⟩
  · obtain ⟨values, evaluated⟩ := evaluated row member
    rw [evaluated] at failed
    cases failed
  · exact absurd fails ((valued row member).not_callFails listed)

end Groups

section Exactness

variable {F : Type} [Field F] [LinearOrder F]

/-- The arguments of the aggregates of a kind. -/
def ofKind (aggregates : List (AggregationType × Expression F)) (aggType : AggregationType) : List (Expression F) :=
  (aggregates.filter fun aggregate => aggregate.1 = aggType).map Prod.snd

/-- In a group, the other aggregates of the same kind do not show. -/
structure GroupExact (aggregates : List (AggregationType × Expression F)) (group : List (Row F)) : Prop where
  count : ofKind aggregates .countAggregate ≠ [] →
    (2 : ℤ) ^ 32 ∣ ((ofKind aggregates .countAggregate).length - 1) * group.length
  sum : ∀ e ∈ ofKind aggregates .sumAggregate, (2 : ℤ) ^ 32 ∣
    ((ofKind aggregates .sumAggregate).map fun other => total (arguments other group)).sum - total (arguments e group)
  min : ∀ e ∈ ofKind aggregates .minAggregate, ∀ other ∈ ofKind aggregates .minAggregate,
    best Int32.toInt (arguments e group) = best Int32.toInt (arguments other group)
  max : ∀ e ∈ ofKind aggregates .maxAggregate, ∀ other ∈ ofKind aggregates .maxAggregate,
    best (fun i => -i.toInt) (arguments e group) = best (fun i => -i.toInt) (arguments other group)

theorem ofInt_eq_ofInt_iff (a b : ℤ) : Int32.ofInt a = Int32.ofInt b ↔ (2 : ℤ) ^ 32 ∣ a - b := by
  rw [← Int32.toInt_inj, Int32.toInt_ofInt, Int32.toInt_ofInt, Int.bmod_eq_bmod_iff_bmod_sub_eq_zero]
  exact (Int.dvd_iff_bmod_eq_zero).symm

variable {aggregates : List (AggregationType × Expression F)} {group : List (Row F)} {aggType : AggregationType}

theorem given_eq (aggregates : List (AggregationType × Expression F)) (row : Row F) (aggType : AggregationType) :
    given aggregates row aggType = (ofKind aggregates aggType).filterMap fun e => argument e row := by
  induction aggregates with
  | nil => rfl
  | cons aggregate rest ih =>
    simp only [given, ofKind] at ih ⊢
    by_cases kind : aggregate.1 = aggType
    · simp only [List.filterMap_cons, kind, ↓reduceIte, ih, decide_true, List.filter_cons_of_pos, List.map_cons]
    · simp [kind, ih]

/-- The arguments of a kind over a group, aggregate by aggregate instead of row by row. -/
theorem given_perm (aggregates : List (AggregationType × Expression F)) (group : List (Row F))
    (aggType : AggregationType) :
    (group.flatMap fun row => given aggregates row aggType).Perm
      ((ofKind aggregates aggType).flatMap fun e => arguments e group) := by
  simp only [given_eq, arguments, List.filterMap_eq_flatMap_toList]
  exact flatMap_perm_swap _ _ _

/-- On integer-valued arguments every row of the group counts. -/
theorem arguments_length (valued : ∀ row ∈ group, IntegerValued aggregates row)
    (notStar : aggType ≠ .countStarAggregate)
    {e : Expression F} (member : e ∈ ofKind aggregates aggType) : (arguments e group).length = group.length := by
  obtain ⟨⟨kind, e⟩, aggregate, rfl⟩ := List.mem_map.mp member
  obtain ⟨listed, same⟩ := List.mem_filter.mp aggregate
  have kindEq : kind = aggType := of_decide_eq_true same
  rw [arguments, List.length_filterMap_eq_countP, List.countP_eq_length]
  intro row rowMem
  obtain ⟨value, evaluated, integer⟩ := valued row rowMem _ listed
  obtain ⟨i, rfl⟩ := integer (kindEq ▸ notStar)
  simp [argument, evaluated]

theorem given_length (valued : ∀ row ∈ group, IntegerValued aggregates row)
    (notStar : aggType ≠ .countStarAggregate) :
    (group.flatMap fun row => given aggregates row aggType).length =
      (ofKind aggregates aggType).length * group.length := by
  rw [(given_perm aggregates group aggType).length_eq, List.length_flatMap,
    List.map_congr_left fun e member => arguments_length valued notStar member]
  simp

theorem total_given (aggregates : List (AggregationType × Expression F)) (group : List (Row F))
    (aggType : AggregationType) :
    total (group.flatMap fun row => given aggregates row aggType) =
      ((ofKind aggregates aggType).map fun e => total (arguments e group)).sum := by
  rw [total, ((given_perm aggregates group aggType).map Int32.toInt).sum_eq]
  induction ofKind aggregates aggType with
  | nil => rfl
  | cons e rest ih => simp only [List.flatMap_cons, List.map_append, List.sum_append, ih, List.map_cons,
      List.sum_cons, total]

/-- A best value is determined by being one of the values and of lowest rank. -/
theorem best_eq_of_least {rank : Int32 → ℤ} (injective : Function.Injective rank) {values : List Int32} {b : Int32}
    (member : b ∈ values) (least : ∀ v ∈ values, rank b ≤ rank v) : best rank values = b := by
  have extreme : Extreme rank values true b := ⟨by simp [List.ne_nil_of_mem member], fun _ => ⟨member, least⟩⟩
  simpa using (extreme.eq_best injective).symm

theorem best_spec (rank : Int32 → ℤ) {values : List Int32} (some : values ≠ []) :
    best rank values ∈ values ∧ ∀ v ∈ values, rank (best rank values) ≤ rank v := by
  obtain ⟨v, rest, rfl⟩ := List.exists_cons_of_ne_nil some
  exact (best_cons_extreme rank v rest).2 rfl

/-- The best of all arguments of a kind is each aggregate's own best exactly when these are all the same. -/
theorem best_given_iff {rank : Int32 → ℤ} (injective : Function.Injective rank) (some : group ≠ [])
    (valued : ∀ row ∈ group, IntegerValued aggregates row) (notStar : aggType ≠ .countStarAggregate) :
    (∀ e ∈ ofKind aggregates aggType,
        best rank (group.flatMap fun row => given aggregates row aggType) = best rank (arguments e group)) ↔
      ∀ e ∈ ofKind aggregates aggType, ∀ other ∈ ofKind aggregates aggType,
        best rank (arguments e group) = best rank (arguments other group) := by
  have members (v : Int32) : v ∈ (group.flatMap fun row => given aggregates row aggType) ↔
      ∃ e ∈ ofKind aggregates aggType, v ∈ arguments e group := by
    rw [(given_perm aggregates group aggType).mem_iff, List.mem_flatMap]
  have nonempty {e : Expression F} (member : e ∈ ofKind aggregates aggType) : arguments e group ≠ [] := by
    rw [← List.length_pos_iff, arguments_length valued notStar member]
    exact List.length_pos_iff.mpr some
  constructor
  · intro same e member other otherMem
    rw [← same e member, ← same other otherMem]
  · intro same e member
    obtain ⟨own, -⟩ := best_spec rank (nonempty member)
    refine best_eq_of_least injective ((members _).mpr ⟨e, member, own⟩) fun v found => ?_
    obtain ⟨other, otherMem, found⟩ := (members v).mp found
    rw [same e member other otherMem]
    exact (best_spec rank (nonempty otherMem)).2 v found

variable [PrintsFloat F] {groupBys : List (Expression F)} {state : AggState F}

omit [Field F] [LinearOrder F] [PrintsFloat F] in
theorem mem_ofKind_iff {e : Expression F} : e ∈ ofKind aggregates aggType ↔ (aggType, e) ∈ aggregates := by
  simp [ofKind]

omit [PrintsFloat F] in
/-- Every position of a group's row shows its own aggregate exactly when the group is exact. -/
theorem Tracks.results_iff (tracks : Tracks (given aggregates) groupBys group state) (some : group ≠ [])
    (valued : ∀ row ∈ group, IntegerValued aggregates row) :
    (∀ aggregate ∈ aggregates, result state aggregate.1 = reference group aggregate) ↔
      GroupExact aggregates group := by
  have ranked : Function.Injective Int32.toInt := fun a b same => Int32.toInt_inj.mp same
  have ranked' : Function.Injective fun i : Int32 => -i.toInt := fun a b same => Int32.toInt_inj.mp (neg_injective same)
  have count (e : Expression F) (member : e ∈ ofKind aggregates .countAggregate) :
      result state .countAggregate = reference group (.countAggregate, e) ↔
        (2 : ℤ) ^ 32 ∣ ((ofKind aggregates .countAggregate).length - 1) * group.length := by
    simp only [result, reference, tracks.describes.count,
      given_length valued (by decide : AggregationType.countAggregate ≠ _),
      arguments_length valued (by decide) member, Value.integer.injEq]
    rw [← Int32.ofInt_eq_ofNat, ← Int32.ofInt_eq_ofNat, ofInt_eq_ofInt_iff]
    push_cast
    rw [sub_one_mul]
  have sum (e : Expression F) : result state .sumAggregate = reference group (.sumAggregate, e) ↔ (2 : ℤ) ^ 32 ∣
      ((ofKind aggregates .sumAggregate).map fun other => total (arguments other group)).sum -
        total (arguments e group) := by
    have shown : (if state.hasSum then state.sum else 0) =
        Int32.ofInt (total (group.flatMap fun row => given aggregates row .sumAggregate)) := by
      by_cases flag : state.hasSum = true
      · rw [if_pos flag, tracks.describes.sum]
      · have none := not_not.mp (mt tracks.describes.hasSum.mpr flag)
        rw [if_neg flag, none]
        rfl
    simp only [result, reference, shown, total_given, Value.integer.injEq, ofInt_eq_ofInt_iff]
  have min := best_given_iff ranked some valued (by decide : AggregationType.minAggregate ≠ _)
  have max := best_given_iff ranked' some valued (by decide : AggregationType.maxAggregate ≠ _)
  rw [← tracks.describes.min.eq_best ranked] at min
  rw [← tracks.describes.max.eq_best ranked'] at max
  constructor
  · intro shown
    refine ⟨fun present => ?_, fun e member => ?_, ?_, ?_⟩
    · obtain ⟨e, member⟩ := List.exists_mem_of_ne_nil _ present
      exact (count e member).mp (shown _ (mem_ofKind_iff.mp member))
    · exact (sum e).mp (shown _ (mem_ofKind_iff.mp member))
    · exact min.mp fun e member => Value.integer.inj (shown _ (mem_ofKind_iff.mp member))
    · exact max.mp fun e member => Value.integer.inj (shown _ (mem_ofKind_iff.mp member))
  · rintro alone ⟨aggType, e⟩ member
    have kind := mem_ofKind_iff.mpr member
    cases aggType with
    | countStarAggregate => exact congrArg Value.integer tracks.countStar
    | countAggregate => exact (count e kind).mpr (alone.count (List.ne_nil_of_mem kind))
    | sumAggregate => exact (sum e).mpr (alone.sum e kind)
    | minAggregate => exact congrArg Value.integer (min.mpr alone.min e kind)
    | maxAggregate => exact congrArg Value.integer (max.mpr alone.max e kind)

end Exactness

section Main

variable {F : Type} [Field F] [LinearOrder F] [PrintsFloat F] {groupBys : List (Expression F)}
  {aggregates : List (AggregationType × Expression F)} {rows : List (Row F)} {groups : Groups F}
  {adding : Row F → AggregationType → List Int32}

/-- Rows with different GROUP BY values have different group texts. -/
def GroupsApart (groupBys : List (Expression F)) (rows : List (Row F)) : Prop :=
  ∀ row ∈ rows, ∀ other ∈ rows, groupKey (groupValues groupBys row) = groupKey (groupValues groupBys other) →
    groupValues groupBys row = groupValues groupBys other

omit [PrintsFloat F] in
theorem groupValues_length {row : Row F}
    (evaluated : ∃ values, (groupBys.mapM fun e => e.evaluate row) = .ok values) :
    (groupValues groupBys row).length = groupBys.length := by
  obtain ⟨values, evaluated⟩ := evaluated
  rw [groupValues, evaluated]
  exact (mapM_eq_ok_iff.mp evaluated).length_eq.symm

theorem GroupsApart.keyed_eq (apart : GroupsApart groupBys rows) {row : Row F} (member : row ∈ rows) :
    keyed groupBys rows (groupKey (groupValues groupBys row)) = groupOf groupBys rows (groupValues groupBys row) := by
  refine List.filter_congr fun other otherMem => decide_eq_decide.mpr ⟨fun same => ?_, fun same => by rw [same]⟩
  exact apart other otherMem row member same

/-- Every row has an entry in a table of the group texts that occur. -/
theorem exists_entry (occur : ∀ text, text ∈ groups ↔ keyed groupBys rows text ≠ []) {row : Row F}
    (member : row ∈ rows) :
    ∃ state, ⟨groupKey (groupValues groupBys row), state⟩ ∈ groups.entries := by
  have occurs : groupKey (groupValues groupBys row) ∈ groups :=
    (occur _).mpr (List.ne_nil_of_mem (List.mem_filter.mpr ⟨member, decide_eq_true rfl⟩))
  obtain ⟨state, found⟩ := Option.isSome_iff_exists.mp (AList.lookup_isSome.mpr occurs)
  exact ⟨state, AList.mem_lookup_iff.mp found⟩

/-- When the entry of every group shows the group's values and then what belongs to it, there is one such row for
each group. -/
theorem entries_perm (occur : ∀ text, text ∈ groups ↔ keyed groupBys rows text ≠ [])
    (named : ∀ text state, ⟨text, state⟩ ∈ groups.entries →
      ∃ row ∈ rows, groupKey (groupValues groupBys row) = text ∧ state.groupValues = groupValues groupBys row)
    (wide : ∀ row ∈ rows, (groupValues groupBys row).length = groupBys.length)
    {results : List (Value F) → List (Value F)}
    (shown : ∀ row ∈ rows, ∀ state, ⟨groupKey (groupValues groupBys row), state⟩ ∈ groups.entries →
      outputRow aggregates state = groupValues groupBys row ++ results (groupValues groupBys row)) :
    (groups.entries.map fun group => outputRow aggregates group.2).Perm
      ((rows.map (groupValues groupBys)).dedup.map fun values => values ++ results values) := by
  have listed (values : List (Value F)) (member : values ∈ (rows.map (groupValues groupBys)).dedup) :
      ∃ row ∈ rows, groupValues groupBys row = values := List.mem_map.mp (List.mem_dedup.mp member)
  refine (List.perm_ext_iff_of_nodup ?_ ?_).mpr fun out => ?_
  · -- the group's values come first in its row, and name its text
    refine List.Nodup.map_on ?_ (List.NodupKeys.nodup groups.nodupKeys)
    rintro ⟨text, state⟩ entry ⟨text', state'⟩ entry' same
    obtain ⟨row, member, rfl, name⟩ := named text state entry
    obtain ⟨other, otherMem, rfl, name'⟩ := named text' state' entry'
    have sameValues : state.groupValues = state'.groupValues :=
      (List.append_inj same (by rw [name, name', wide row member, wide other otherMem])).1
    rw [name, name'] at sameValues
    rw [sameValues] at entry ⊢
    have found := AList.mem_lookup_iff.mpr entry
    have found' := AList.mem_lookup_iff.mpr entry'
    rw [Option.mem_unique found found']
  · refine (List.nodup_dedup _).map_on fun values valuesMem values' valuesMem' same => ?_
    obtain ⟨row, member, rfl⟩ := listed values valuesMem
    obtain ⟨other, otherMem, rfl⟩ := listed values' valuesMem'
    exact (List.append_inj same (by rw [wide row member, wide other otherMem])).1
  · simp only [List.mem_map]
    constructor
    · rintro ⟨⟨text, state⟩, entry, rfl⟩
      obtain ⟨row, member, rfl, -⟩ := named text state entry
      exact ⟨_, List.mem_dedup.mpr (List.mem_map_of_mem member), (shown row member state entry).symm⟩
    · rintro ⟨values, valuesMem, rfl⟩
      obtain ⟨row, member, rfl⟩ := listed values valuesMem
      obtain ⟨state, entry⟩ := exists_entry occur member
      exact ⟨_, entry, shown row member state entry⟩

/-- An entry of the table belongs to a group text that occurs, and is named after one of its rows. -/
theorem TracksAll.entry (tracks : TracksAll adding groupBys rows groups) {text : Text} {state : AggState F}
    (entry : ⟨text, state⟩ ∈ groups.entries) :
    Tracks adding groupBys (keyed groupBys rows text) state ∧ keyed groupBys rows text ≠ [] ∧
      ∃ row ∈ rows, groupKey (groupValues groupBys row) = text ∧
        state.groupValues = groupValues groupBys row := by
  have found : groups.lookup text = some state := AList.mem_lookup_iff.mpr entry
  obtain ⟨occurs, tracked⟩ := tracks text
  rw [found, Option.getD_some] at tracked
  have some : keyed groupBys rows text ≠ [] := occurs.mp (AList.lookup_isSome.mp (by simp [found]))
  obtain ⟨row, member, named⟩ := tracked.named some
  obtain ⟨rowMem, key⟩ := List.mem_filter.mp member
  exact ⟨tracked, some, row, rowMem, of_decide_eq_true key, named⟩

/-- Every row has an entry. -/
theorem TracksAll.exists_entry (tracks : TracksAll adding groupBys rows groups) {row : Row F} (member : row ∈ rows) :
    ∃ state, ⟨groupKey (groupValues groupBys row), state⟩ ∈ groups.entries :=
  AggregationExecutor.exists_entry (fun text => (tracks text).1) member

/-- As many rows as groups: then no two groups share a text. -/
theorem apart_of_length (occur : ∀ text, text ∈ groups ↔ keyed groupBys rows text ≠ [])
    (length : groups.entries.length = (rows.map (groupValues groupBys)).dedup.length) : GroupsApart groupBys rows := by
  have sameKeys : groups.keys.Perm (((rows.map (groupValues groupBys)).dedup.map groupKey).dedup) := by
    refine (List.perm_ext_iff_of_nodup groups.nodupKeys (List.nodup_dedup _)).mpr fun text => ?_
    refine (occur text).trans ?_
    simp only [List.mem_dedup, List.mem_map]
    constructor
    · intro some
      obtain ⟨row, member⟩ := List.exists_mem_of_ne_nil _ some
      obtain ⟨listed, key⟩ := List.mem_filter.mp member
      exact ⟨_, ⟨row, listed, rfl⟩, of_decide_eq_true key⟩
    · rintro ⟨values, ⟨row, member, rfl⟩, rfl⟩
      exact List.ne_nil_of_mem (List.mem_filter.mpr ⟨member, decide_eq_true rfl⟩)
  have nodup : ((rows.map (groupValues groupBys)).dedup.map groupKey).Nodup := by
    refine List.dedup_eq_self.mp ((List.dedup_sublist _).eq_of_length ?_)
    rw [← sameKeys.length_eq, List.length_map, ← length]
    exact List.length_map _
  intro row member other otherMem same
  exact List.inj_on_of_nodup_map nodup (List.mem_dedup.mpr (List.mem_map_of_mem member))
    (List.mem_dedup.mpr (List.mem_map_of_mem otherMem)) same

section Rows

variable (tracks : TracksAll (given aggregates) groupBys rows groups)
    (valued : ∀ row ∈ rows, IntegerValued aggregates row)

include tracks valued

/-- With groups apart, the row of an entry is that of its group in the reference exactly when the group is exact. -/
theorem TracksAll.outputRow_eq_iff (apart : GroupsApart groupBys rows) {row : Row F} (member : row ∈ rows)
    {state : AggState F}
    (entry : ⟨groupKey (groupValues groupBys row), state⟩ ∈ groups.entries) :
    state.groupValues = groupValues groupBys row ∧
      (outputRow aggregates state = groupValues groupBys row ++
          aggregates.map (reference (groupOf groupBys rows (groupValues groupBys row))) ↔
        GroupExact aggregates (groupOf groupBys rows (groupValues groupBys row))) := by
  obtain ⟨tracked, some, other, otherMem, key, named⟩ := tracks.entry entry
  have name : state.groupValues = groupValues groupBys row := named.trans (apart other otherMem row member key)
  rw [apart.keyed_eq member] at tracked some
  refine ⟨name, ?_⟩
  rw [← tracked.results_iff some fun r rMem => valued r (List.mem_filter.mp rMem).1, outputRow, name,
    List.append_cancel_left_eq]
  exact List.map_inj_left

/-- The rows of the table are the reference's exactly when groups are apart and exact. -/
theorem TracksAll.perm_iff (evaluated : ∀ row ∈ rows, ∃ values, (groupBys.mapM fun e => e.evaluate row) =
    .ok values) :
    (groups.entries.map fun group => outputRow aggregates group.2).Perm
        ((rows.map (groupValues groupBys)).dedup.map fun values =>
          values ++ aggregates.map (reference (groupOf groupBys rows values))) ↔
      GroupsApart groupBys rows ∧
      ∀ row ∈ rows, GroupExact aggregates (groupOf groupBys rows (groupValues groupBys row)) := by
  have wide (row : Row F) (member : row ∈ rows) := groupValues_length (evaluated row member)
  have listed (values : List (Value F)) (member : values ∈ (rows.map (groupValues groupBys)).dedup) :
      ∃ row ∈ rows, groupValues groupBys row = values := List.mem_map.mp (List.mem_dedup.mp member)
  constructor
  · intro perm
    have apart : GroupsApart groupBys rows :=
      apart_of_length (fun text => (tracks text).1) (by simpa using perm.length_eq)
    refine ⟨apart, fun row member => ?_⟩
    obtain ⟨state, entry⟩ := tracks.exists_entry member
    obtain ⟨name, exactIff⟩ := tracks.outputRow_eq_iff valued apart member entry
    obtain ⟨values, valuesMem, same⟩ := List.mem_map.mp
      (perm.mem_iff.mp (List.mem_map.mpr ⟨_, entry, rfl⟩ : outputRow aggregates state ∈ _))
    obtain ⟨other, otherMem, rfl⟩ := listed values valuesMem
    have sameValues : groupValues groupBys other = groupValues groupBys row := by
      rw [← name]
      refine (List.append_inj same ?_).1
      rw [name, wide other otherMem, wide row member]
    exact exactIff.mp (by rw [← same, sameValues])
  · rintro ⟨apart, alone⟩
    refine entries_perm (fun text => (tracks text).1) (fun text state entry => (tracks.entry entry).2.2) wide ?_
    intro row member state entry
    exact (tracks.outputRow_eq_iff valued apart member entry).2.mpr (alone row member)

end Rows

theorem init_of_foldlM (runtime : Runtime F) (done : rows.foldlM (addRow groupBys aggregates) ∅ = .ok groups) :
    init runtime groupBys aggregates (.ok { rows }) = .ok
      { rows := if rows.isEmpty && groupBys.isEmpty then [aggregates.map fun _ => .integer 0]
          else (runtime.visit groups.entries).map fun group => outputRow aggregates group.2 } := by
  simp only [init, aggregate, done, bind, Except.bind, pure, Except.pure, Stream.drain, Option.elim_none]
  split_ifs <;> rfl

/-- On integer-valued arguments the executor delivers, for every group, the group's values and then each aggregate
over its own argument, exactly when no two groups share a text and the other aggregates of a kind do not show. -/
theorem aggregation_exact_iff (runtime : Runtime F) (groupBys : List (Expression F))
    (aggregates : List (AggregationType × Expression F)) (rows : List (Row F))
    (evaluated : ∀ row ∈ rows, ∃ values, (groupBys.mapM fun e => e.evaluate row) = .ok values)
    (valued : ∀ row ∈ rows, IntegerValued aggregates row) :
    (∃ out, init runtime groupBys aggregates (.ok { rows }) = .ok { rows := out } ∧
        out.Perm (referenceRows groupBys aggregates rows)) ↔
      GroupsApart groupBys rows ∧
        ∀ row ∈ rows, GroupExact aggregates (groupOf groupBys rows (groupValues groupBys row)) := by
  obtain ⟨groups, done, tracks⟩ := tracksGiven_foldlM rows evaluated valued
  have ran := init_of_foldlM runtime done
  simp only [ran, Except.ok.injEq, Stream.mk.injEq, and_true, exists_eq_left', referenceRows]
  split_ifs with empty
  · have none : rows = [] := List.isEmpty_iff.mp (Bool.and_eq_true_iff.mp empty).1
    simp [none, GroupsApart]
  · exact (((runtime.visit_perm groups.entries).map _).congr_left _).trans (tracks.perm_iff valued evaluated)

end Main

section Instances

/-- `SELECT COUNT(*), SUM(b), MIN(b), MIN(b) ... GROUP BY a`. -/
def oneSum : List (AggregationType × Expression ℚ) :=
  [(.countStarAggregate, .columnValue 0 0 .integer), (.sumAggregate, .columnValue 0 1 .integer),
    (.minAggregate, .columnValue 0 1 .integer), (.minAggregate, .columnValue 0 1 .integer)]

def twoGroups : List (Row ℚ) := [[.integer 1, .integer 5], [.integer 1, .integer 7], [.integer 2, .integer 3]]

theorem twoGroups_exact : ∃ out, init (.plain ℚ) [.columnValue 0 0 .integer] oneSum (.ok { rows := twoGroups }) =
    .ok { rows := out } ∧ out.Perm (referenceRows [.columnValue 0 0 .integer] oneSum twoGroups) := by
  have valued (a b : Int32) : IntegerValued oneSum [.integer a, .integer b] := by
    simp only [IntegerValued, oneSum, List.forall_mem_cons]
    exact ⟨⟨_, rfl, fun _ => ⟨a, rfl⟩⟩, ⟨_, rfl, fun _ => ⟨b, rfl⟩⟩,
      ⟨_, rfl, fun _ => ⟨b, rfl⟩⟩,
      ⟨_, rfl, fun _ => ⟨b, rfl⟩⟩, List.forall_mem_nil _⟩
  have sums : ∀ row ∈ twoGroups, ∀ e ∈ ofKind oneSum .sumAggregate, (2 : ℤ) ^ 32 ∣
      ((ofKind oneSum .sumAggregate).map fun other =>
        total (arguments other (groupOf [.columnValue 0 0 .integer] twoGroups
          (groupValues [.columnValue 0 0 .integer] row)))).sum -
        total (arguments e (groupOf [.columnValue 0 0 .integer] twoGroups
          (groupValues [.columnValue 0 0 .integer] row))) := by decide +kernel
  refine (aggregation_exact_iff (.plain ℚ) _ _ _ ?_ ?_).mpr ⟨?_, fun row member =>
    ⟨?_, sums row member, ?_, ?_⟩⟩
  · simp only [twoGroups, List.forall_mem_cons]
    exact ⟨⟨_, rfl⟩, ⟨_, rfl⟩, ⟨_, rfl⟩, List.forall_mem_nil _⟩
  · simp only [twoGroups, List.forall_mem_cons]
    exact ⟨valued 1 5, valued 1 7, valued 2 3, List.forall_mem_nil _⟩
  · unfold GroupsApart
    decide +kernel
  · exact fun present => (present rfl).elim
  · -- the two minima have the same argument
    rintro e (_ | ⟨_, _ | ⟨_, ⟨⟩⟩⟩) other (_ | ⟨_, _ | ⟨_, ⟨⟩⟩⟩) <;> rfl
  · exact List.forall_mem_nil _

/-- `SELECT SUM(a), SUM(b)` over one row. -/
def twoSums : List (AggregationType × Expression ℚ) :=
  [(.sumAggregate, .columnValue 0 0 .integer), (.sumAggregate, .columnValue 0 1 .integer)]

/-- Both positions show the sum of both columns. -/
theorem twoSums_share : ¬ ∃ out, init (.plain ℚ) [] twoSums (.ok { rows := [[.integer 1, .integer 2]] }) =
    .ok { rows := out } ∧ out.Perm (referenceRows [] twoSums [[.integer 1, .integer 2]]) := by
  have ran : init (.plain ℚ) [] twoSums (.ok { rows := [[.integer 1, .integer 2]] }) =
      .ok { rows := [[.integer 3, .integer 3]] } := by decide +kernel
  have expected : referenceRows [] twoSums [[.integer 1, .integer 2]] = [[.integer 1, .integer 2]] := by decide +kernel
  rw [ran, expected]
  rintro ⟨out, same, perm⟩
  cases same
  exact absurd (List.singleton_perm_singleton.mp perm) (by decide)

end Instances

end AggregationExecutor

end OneBase
