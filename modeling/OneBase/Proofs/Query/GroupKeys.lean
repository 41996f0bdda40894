import OneBase.Proofs.Query.Aggregation
import OneBase.Proofs.Query.HashJoin
import OneBase.ToMathlib.Delimited

/-! # Grouping by printed values

`AggregationExecutor` groups by one text: every GROUP BY value printed, a bar after each. Rows with equal values
share it. Rows with different values share it exactly when their printed values, cut at the bars in them, give the
same pieces, and then they end up in one group. FLOATs that print alike do this, and VARCHARs with bars in them.
-/

namespace OneBase.AggregationExecutor

open ExceptLoops

variable {F : Type} [Field F] [LinearOrder F] [PrintsFloat F]

/-- Values of these types, none of them NULL. -/
def TypedAs (types : List TypeId) (values : List (Value F)) : Prop :=
  List.Forall₂ (fun value type => value.isNull = false ∧ value.typeId = type) values types

/-- Values that are pairwise equal by `CompareEquals`. -/
def EqualValues (values values' : List (Value F)) : Prop :=
  List.Forall₂ (fun a b => a.compareEquals b = .ok (.boolean true)) values values'

/-- Two rows are counted in one entry of `groups`, the one under their common `group_key`. -/
def SameGroup (groupBys : List (Expression F)) (row other : Row F) : Prop :=
  groupKey (groupValues groupBys row) = groupKey (groupValues groupBys other)

/-- The different lists of GROUP BY values. Without GROUP BY there is one group, also over no rows. -/
def distinctValues (groupBys : List (Expression F)) (rows : List (Row F)) : List (List (Value F)) :=
  if groupBys.isEmpty then [[]] else (rows.map (groupValues groupBys)).dedup

/-- Rows are grouped by their values, and every output row starts with those of a group of its own. -/
structure GroupsByValue (groupBys : List (Expression F)) (rows out : List (Row F)) : Prop where
  sameGroup : ∀ row ∈ rows, ∀ other ∈ rows,
    SameGroup groupBys row other ↔ EqualValues (groupValues groupBys row) (groupValues groupBys other)
  onePerGroup : (out.map fun row => row.take groupBys.length).Perm (distinctValues groupBys rows)

/-- The printed values, each cut at its bars. -/
def pieces (values : List (Value F)) : List Text := values.flatMap fun value => value.toString.splitOn 124

/-- No two rows have different values but the same pieces. -/
def PiecesApart (groupBys : List (Expression F)) (rows : List (Row F)) : Prop :=
  ∀ row ∈ rows, ∀ other ∈ rows, groupValues groupBys row ≠ groupValues groupBys other →
    pieces (groupValues groupBys row) ≠ pieces (groupValues groupBys other)

section Keys

variable {types : List TypeId} {values values' : List (Value F)}

omit [PrintsFloat F] in
theorem compareEquals_iff_eq {a b : Value F} (present : a.isNull = false) (present' : b.isNull = false)
    (sameType : a.typeId = b.typeId) : a.compareEquals b = .ok (.boolean true) ↔ a = b := by
  cases a <;> cases b <;>
    simp_all [Value.compareEquals, Value.typeId, Value.isNull, Value.booleanPart, Value.integerPart, Value.floatPart,
      Value.varcharPart]
  all_goals exact decide_eq_true_iff

omit [PrintsFloat F] in
theorem equalValues_iff_eq (typed : TypedAs types values) (typed' : TypedAs types values') :
    EqualValues values values' ↔ values = values' := by
  induction typed generalizing values' with
  | nil =>
    cases typed'
    exact iff_of_true .nil rfl
  | cons head _ ih =>
    cases typed' with
    | cons head' rest' =>
      rw [EqualValues, List.forall₂_cons, List.cons.injEq,
        compareEquals_iff_eq head.1 head'.1 (head.2.trans head'.2.symm)]
      exact and_congr_right fun _ => ih rest'

omit [Field F] [LinearOrder F] in
theorem groupKey_eq_iff_pieces : groupKey values = groupKey values' ↔ pieces values = pieces values' := by
  have printed (values : List (Value F)) :
      groupKey values = (values.map Value.toString).flatMap (· ++ [(124 : UInt8)]) := by
    rw [groupKey, List.flatMap_map]
    rfl
  have cut (values : List (Value F)) : pieces values = (values.map Value.toString).flatMap (·.splitOn 124) := by
    rw [pieces, List.flatMap_map]
  rw [printed, printed, cut, cut]
  exact Delimited.flatMap_terminated_eq_iff _

end Keys

section Main

variable {groupBys : List (Expression F)} {aggregates : List (AggregationType × Expression F)} {rows : List (Row F)}
  {groups : Groups F}

/-- The entries are named after the different lists of values exactly when no two of these share a text. -/
theorem TracksAll.names_perm_iff (tracks : TracksAll (added aggregates) groupBys rows groups)
    (wide : ∀ row ∈ rows, (groupValues groupBys row).length = groupBys.length) :
    (groups.entries.map fun group => group.2.groupValues).Perm (rows.map (groupValues groupBys)).dedup ↔
      GroupsApart groupBys rows := by
  constructor
  · intro perm
    exact apart_of_length (fun text => (tracks text).1) (by simpa using perm.length_eq)
  · intro apart
    have perm : (groups.entries.map fun group => outputRow [] group.2).Perm
        ((rows.map (groupValues groupBys)).dedup.map fun values => values ++ []) :=
      entries_perm (fun text => (tracks text).1) (fun text state entry => (tracks.entry entry).2.2) wide ?_
    · simpa [outputRow] using perm
    · intro row member state entry
      obtain ⟨-, -, other, otherMem, key, named⟩ := tracks.entry entry
      rw [outputRow, named, apart other otherMem row member key, List.map_nil]

omit [PrintsFloat F] in
/-- Over some rows the single group without GROUP BY is among the values too. -/
theorem distinctValues_perm (wide : ∀ row ∈ rows, (groupValues groupBys row).length = groupBys.length)
    (some : ¬(rows.isEmpty && groupBys.isEmpty) = true) :
    (rows.map (groupValues groupBys)).dedup.Perm (distinctValues groupBys rows) := by
  rw [distinctValues]
  split_ifs with noGroups
  · rw [List.isEmpty_iff] at noGroups
    subst noGroups
    cases rows with
    | nil => exact absurd rfl some
    | cons row rest =>
      have same : (row :: rest).map (groupValues []) = List.replicate (rest.length + 1) ([] : List (Value F)) := by
        refine List.eq_replicate_iff.mpr ⟨by simp, fun values member => ?_⟩
        obtain ⟨other, listed, rfl⟩ := List.mem_map.mp member
        exact List.length_eq_zero_iff.mp (wide other listed)
      rw [same, List.replicate_dedup (Nat.succ_ne_zero _)]
  · rfl

theorem groupsApart_iff_pieces : GroupsApart groupBys rows ↔ PiecesApart groupBys rows := by
  constructor
  · intro apart row member other otherMem different same
    exact different (apart row member other otherMem (groupKey_eq_iff_pieces.mpr same))
  · intro apart row member other otherMem same
    by_contra different
    exact apart row member other otherMem different (groupKey_eq_iff_pieces.mp same)

/-- On typed rows the executor groups by the values exactly when no two rows have different values but the same
pieces. -/
theorem groupsByValue_iff (runtime : Runtime F) {types : List TypeId} {out : List (Row F)}
    (typed : ∀ row ∈ rows, ∃ values, (groupBys.mapM fun e => e.evaluate row) = .ok values ∧
      TypedAs types values)
    (ran : init runtime groupBys aggregates (.ok { rows }) = .ok { rows := out }) :
    GroupsByValue groupBys rows out ↔ PiecesApart groupBys rows := by
  have wide (row : Row F) (member : row ∈ rows) : (groupValues groupBys row).length = groupBys.length := by
    obtain ⟨values, evaluated, -⟩ := typed row member
    exact groupValues_length ⟨values, evaluated⟩
  have equal (row : Row F) (member : row ∈ rows) (other : Row F) (otherMem : other ∈ rows) :
      EqualValues (groupValues groupBys row) (groupValues groupBys other) ↔
        groupValues groupBys row = groupValues groupBys other := by
    obtain ⟨values, evaluated, typedRow⟩ := typed row member
    obtain ⟨values', evaluated', typedOther⟩ := typed other otherMem
    rw [groupValues, groupValues, evaluated, evaluated']
    exact equalValues_iff_eq typedRow typedOther
  rw [← groupsApart_iff_pieces]
  constructor
  · intro grouped row member other otherMem same
    exact (equal row member other otherMem).mp ((grouped.sameGroup row member other otherMem).mp same)
  · intro apart
    constructor
    · intro row member other otherMem
      rw [equal row member other otherMem]
      exact ⟨apart row member other otherMem, fun same => congrArg groupKey same⟩
    · rcases tracksAll_foldlM groupBys aggregates rows with ⟨groups, done, tracks⟩ | ⟨⟨message, failed⟩, -⟩
      · rw [init_of_foldlM runtime done] at ran
        cases ran
        have names := (tracks.names_perm_iff wide).mpr apart
        split_ifs with empty
        · obtain ⟨noRows, noGroups⟩ := Bool.and_eq_true_iff.mp empty
          rw [distinctValues, if_pos noGroups, List.isEmpty_iff.mp noGroups]
          rfl
        · have taken : ((runtime.visit groups.entries).map fun group => outputRow aggregates group.2).map
              (·.take groupBys.length) = (runtime.visit groups.entries).map fun group => group.2.groupValues := by
            rw [List.map_map]
            refine List.map_congr_left fun entry member => ?_
            have entered := tracks.entry ((runtime.visit_perm groups.entries).mem_iff.mp member)
            obtain ⟨-, -, row, listed, -, named⟩ := entered
            exact List.take_left' (named ▸ wide row listed)
          rw [taken]
          exact ((runtime.visit_perm groups.entries).map _).trans (names.trans (distinctValues_perm wide empty))
      · simp only [init, aggregate, failed, bind, Except.bind] at ran
        cases ran

end Main

section Instances

/-- `GROUP BY a, b` over two columns. -/
def byBoth (first second : TypeId) : List (Expression ℚ) := [.columnValue 0 0 first, .columnValue 0 1 second]

def counted : List (AggregationType × Expression ℚ) := [(.countStarAggregate, .columnValue 0 0 .integer)]

/-- One VARCHAR with bars in it is no harm. -/
def numbered : List (Row ℚ) :=
  [[.integer 1, .varchar (ascii "x|")], [.integer 2, .varchar (ascii "|x")], [.integer 1, .varchar (ascii "x|")]]

theorem numbered_grouped : ∃ out, init (.plain ℚ) (byBoth .integer .varchar) counted (.ok { rows := numbered }) =
    .ok { rows := out } ∧ GroupsByValue (byBoth .integer .varchar) numbered out := by
  have typed : ∀ row ∈ numbered, ∃ values,
      ((byBoth .integer .varchar).mapM fun e => e.evaluate row) = .ok values ∧
        TypedAs [.integer, .varchar] values := by
    simp only [numbered, List.forall_mem_cons]
    exact ⟨⟨_, rfl, .cons ⟨rfl, rfl⟩ (.cons ⟨rfl, rfl⟩ .nil)⟩,
      ⟨_, rfl, .cons ⟨rfl, rfl⟩ (.cons ⟨rfl, rfl⟩ .nil)⟩,
      ⟨_, rfl, .cons ⟨rfl, rfl⟩ (.cons ⟨rfl, rfl⟩ .nil)⟩, List.forall_mem_nil _⟩
  have ran : init (.plain ℚ) (byBoth .integer .varchar) counted (.ok { rows := numbered }) = .ok { rows :=
      [[.integer 1, .varchar (ascii "x|"), .integer 2], [.integer 2, .varchar (ascii "|x"), .integer 1]] } := by
    decide +kernel
  refine ⟨_, ran, (groupsByValue_iff (.plain ℚ) typed ran).mpr ?_⟩
  unfold PiecesApart
  decide +kernel

/-- The bar moves from one VARCHAR to the other. -/
def barred : List (Row ℚ) :=
  [[.varchar (ascii "x|"), .varchar (ascii "y")], [.varchar (ascii "x"), .varchar (ascii "|y")]]

theorem barred_merged : ∃ out, init (.plain ℚ) (byBoth .varchar .varchar) counted (.ok { rows := barred }) =
    .ok { rows := out } ∧ ¬ GroupsByValue (byBoth .varchar .varchar) barred out := by
  have ran : init (.plain ℚ) (byBoth .varchar .varchar) counted (.ok { rows := barred }) =
      .ok { rows := [[.varchar (ascii "x|"), .varchar (ascii "y"), .integer 2]] } := by decide +kernel
  have two : (distinctValues (byBoth .varchar .varchar) barred).length = 2 := by decide +kernel
  refine ⟨_, ran, fun grouped => ?_⟩
  have one := grouped.onePerGroup.length_eq
  rw [two] at one
  exact absurd one (by decide)

end Instances

end OneBase.AggregationExecutor
