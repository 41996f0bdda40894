import OneBase.Proofs.Query.FromClause
import OneBase.Proofs.Query.Runtime

/-! # FROM clauses that are compiled wrong

Every FROM clause of several items, every join with keys and every join that adds NULLs has conditions and contents
of the tables for which the plan gives something else than the statement: it keeps one item, does not compare the
keys, shows them twice, and drops rows without a partner. -/

namespace OneBase

open ExceptLoops Binder

namespace Reference

variable {F : Type} [Field F] [LinearOrder F]

section Contents

/-- The value that a new column of a type would hold. -/
def zeroOf : TypeId → Value F
  | .boolean => .boolean false
  | .integer => .integer 0
  | .float => .float 0
  | .varchar => .varchar []
  | .invalid => .null .invalid

/-- Another value of the type. -/
def oneOf : TypeId → Value F
  | .boolean => .boolean true
  | .integer => .integer 1
  | .float => .float 1
  | .varchar => .varchar [0]
  | .invalid => .null .invalid

/-- A row of zeros. -/
def zeros (info : TableInfo) : Row F := info.schema.columns.map fun column => zeroOf column.typeId

variable (getTable : GetTable)

open Classical in
/-- Every table holds rows that depend on the table. -/
noncomputable def storing (rows : TableInfo → List (Row F)) : Database F := fun oid =>
  if stored : ∃ info, (∃ name, getTable name = some info) ∧ info.oid = oid then rows stored.choose else []

variable {getTable} {rows : TableInfo → List (Row F)}

/-- Every table has two rows of zeros. -/
noncomputable def twoRows (getTable : GetTable) : Database F := storing getTable fun info => [zeros info, zeros info]

end Contents

section Conditions

variable {layout : Layout} {values : Row F} {scopes : List TableScope}
    {reading : ℕ → ℕ → Except String (Value F)}

/-- An equation. -/
def equals (left right : PgNode F) : PgNode F := .aExpr .op ["="] left right

/-- `1`. -/
def one : PgNode F := .aConst (.integer 1)

end Conditions

section Unfiltered

variable {getTable : GetTable} {odd : OddForm → Prop}

end Unfiltered

section SeveralItems

variable {getTable : GetTable} {odd : OddForm → Prop} [PrintsFloat F] {runtime : Runtime F} {db : Database F}

/-- The plan that the loop over the FROM clause has kept delivers `count` rows. -/
def Keeps (runtime : Runtime F) (db : Database F) (state : FromState F) (count : ℕ) : Prop :=
  ∃ plan rows, (state.fromPlans.head? <|> state.basePlan) = some plan ∧ plan.execute runtime db = .ok rows ∧
    rows.length = count

end SeveralItems

section Keys

variable {getTable : GetTable} {odd : OddForm → Prop} {db : Database F} {join : JoinExpr F} {l r : Row F}

theorem length_besideKeys {α : Type} (keys names : List String) (row : List α) (width : row.length = names.length) :
    (besideKeys keys names row).length = names.countP fun name => name ∉ keys := by
  let free (i : ℕ) : Bool := names[i]?.all fun name => name ∉ keys
  calc (besideKeys keys names row).length = row.zipIdx.countP (free ∘ Prod.snd) := by
        rw [besideKeys, List.length_map, List.countP_eq_length_filter]
        rfl
    _ = names.zipIdx.countP (free ∘ Prod.snd) := by
        rw [← List.countP_map, ← List.countP_map, List.zipIdx_map_snd, List.zipIdx_map_snd, width]
    _ = names.zipIdx.countP ((fun name => decide (name ∉ keys)) ∘ Prod.fst) := by
        refine List.countP_congr fun v member => ?_
        have listed : names[v.2]? = some v.1 := List.mem_zipIdx_iff_getElem?.mp member
        simp only [Function.comp_apply, free, listed, Option.all_some]
    _ = names.countP fun name => name ∉ keys := by rw [← List.countP_map, List.zipIdx_map_fst]

/-- Names that are all different are no more than those that they leave out. -/
theorem countP_add_length_le {keys names : List String} (nodup : keys.Nodup) (subset : keys ⊆ names) :
    names.countP (fun name => name ∉ keys) + keys.length ≤ names.length := by
  have inside : keys.length ≤ names.countP fun name => name ∈ keys := by
    rw [List.countP_eq_length_filter]
    refine (nodup.subperm fun name member => ?_).length_le
    exact List.mem_filter.mpr ⟨subset member, decide_eq_true member⟩
  have parts := List.length_eq_countP_add_countP (fun name => decide (name ∈ keys)) (l := names)
  simp only [decide_eq_true_eq] at parts
  omega

omit [Field F] [LinearOrder F] in
theorem length_columnsOf (rv : RangeVar) :
    (columnsOf getTable rv).length = (infoOf getTable rv).schema.columns.length := by
  simp only [columnsOf, renamed, List.length_take, List.length_append, List.length_drop, List.length_map]
  omega

omit [Field F] [LinearOrder F] in
theorem nodup_keys (join : JoinExpr F) : (keys getTable join).Nodup := by
  unfold keys
  cases join.joinreftype <;> exact List.nodup_dedup _

omit [Field F] [LinearOrder F] in
/-- A star shows a key once. -/
theorem length_joinedRow_lt (widthLeft : l.length = (infoOf getTable join.larg).schema.columns.length)
    (widthRight : r.length = (infoOf getTable join.rarg).schema.columns.length)
    (inLeft : keys getTable join ⊆ columnsOf getTable join.larg)
    (inRight : keys getTable join ⊆ columnsOf getTable join.rarg) (someKey : keys getTable join ≠ []) :
    (joinedRow getTable join l r).length < (l ++ r).length := by
  rw [← length_columnsOf] at widthLeft widthRight
  have besideLeft := countP_add_length_le (nodup_keys join) inLeft
  have besideRight := countP_add_length_le (nodup_keys join) inRight
  have positive := List.length_pos_iff.mpr someKey
  rw [joinedRow, List.length_append, List.length_append, List.length_map, length_besideKeys _ _ _ widthLeft,
    length_besideKeys _ _ _ widthRight, List.length_append]
  omega

omit [Field F] [LinearOrder F] in
theorem shown_combination (join : JoinExpr F) (l r : Row F) :
    (combination getTable join l r).shown = joinedRow getTable join l r := by
  unfold combination
  cases join.aliasClause <;> rfl

/-- A join combines rows of its tables and rows of NULLs. -/
theorem eq_combination_of_mem_joined {c : Combination F} (member : c ∈ joined getTable db (.joinExpr join)) :
    ∃ l r, c = combination getTable join l r ∧
      (l ∈ rowsOf getTable db join.larg ∨ l = nullRow getTable join.larg) ∧
      (r ∈ rowsOf getTable db join.rarg ∨ r = nullRow getTable join.rarg) := by
  have inMatched (member : c ∈ (rowsOf getTable db join.larg).flatMap fun l =>
      ((rowsOf getTable db join.rarg).filter (partners getTable join l)).map fun r => combination getTable join l r) :
      ∃ l r, c = combination getTable join l r ∧
        (l ∈ rowsOf getTable db join.larg ∨ l = nullRow getTable join.larg) ∧
        (r ∈ rowsOf getTable db join.rarg ∨ r = nullRow getTable join.rarg) := by
    obtain ⟨l, left, paired⟩ := List.mem_flatMap.mp member
    obtain ⟨r, right, rfl⟩ := List.mem_map.mp paired
    exact ⟨l, r, rfl, .inl left, .inl (List.mem_filter.mp right).1⟩
  have inLeft (member : c ∈ ((rowsOf getTable db join.larg).filter fun l =>
      !(rowsOf getTable db join.rarg).any (partners getTable join l)).map fun l =>
        combination getTable join l (nullRow getTable join.rarg)) :
      ∃ l r, c = combination getTable join l r ∧
        (l ∈ rowsOf getTable db join.larg ∨ l = nullRow getTable join.larg) ∧
        (r ∈ rowsOf getTable db join.rarg ∨ r = nullRow getTable join.rarg) := by
    obtain ⟨l, left, rfl⟩ := List.mem_map.mp member
    exact ⟨l, _, rfl, .inl (List.mem_filter.mp left).1, .inr rfl⟩
  have inRight (member : c ∈ ((rowsOf getTable db join.rarg).filter fun r =>
      !(rowsOf getTable db join.larg).any fun l => partners getTable join l r).map fun r =>
        combination getTable join (nullRow getTable join.larg) r) :
      ∃ l r, c = combination getTable join l r ∧
        (l ∈ rowsOf getTable db join.larg ∨ l = nullRow getTable join.larg) ∧
        (r ∈ rowsOf getTable db join.rarg ∨ r = nullRow getTable join.rarg) := by
    obtain ⟨r, right, rfl⟩ := List.mem_map.mp member
    exact ⟨_, r, rfl, .inr rfl, .inl (List.mem_filter.mp right).1⟩
  simp only [joined] at member
  cases kind : join.jointype with
  | inner =>
    rw [kind] at member
    exact inMatched member
  | left =>
    rw [kind] at member
    exact (List.mem_append.mp member).elim inMatched inLeft
  | right =>
    rw [kind] at member
    exact (List.mem_append.mp member).elim inMatched inRight
  | full =>
    rw [kind, List.mem_append, List.mem_append] at member
    exact member.elim (Or.elim · inMatched inLeft) inRight

omit [Field F] [LinearOrder F] in
theorem length_nullRow (rv : RangeVar) :
    (nullRow getTable rv : Row F).length = (infoOf getTable rv).schema.columns.length := by
  rw [nullRow, List.length_map]

omit [Field F] [LinearOrder F] in
theorem length_of_mem_rowsOf (fits : Fits getTable db) {rv : RangeVar} (found : (getTable rv.relname).isSome)
    {row : Row F}
    (stored : row ∈ rowsOf getTable db rv) : row.length = (infoOf getTable rv).schema.columns.length := by
  obtain ⟨info, found⟩ := Option.isSome_iff_exists.mp found
  rw [rowsOf, infoOf_eq found] at stored
  rw [infoOf_eq found]
  exact length_of_rowFits (fits _ _ found row stored)

/-- What a join shows is narrower than its tables together. -/
theorem length_shown_lt (fits : Fits getTable db)
    (found : ∀ rv ∈ tablesOf (.joinExpr join), (getTable rv.relname).isSome)
    (inLeft : keys getTable join ⊆ columnsOf getTable join.larg)
    (inRight : keys getTable join ⊆ columnsOf getTable join.rarg) (someKey : keys getTable join ≠ [])
    {c : Combination F}
    (member : c ∈ joined getTable db (.joinExpr join)) : c.shown.length <
      (infoOf getTable join.larg).schema.columns.length + (infoOf getTable join.rarg).schema.columns.length := by
  obtain ⟨l, r, rfl, left, right⟩ := eq_combination_of_mem_joined member
  have widthLeft : l.length = (infoOf getTable join.larg).schema.columns.length := by
    rcases left with stored | rfl
    · exact length_of_mem_rowsOf fits (found _ List.mem_cons_self) stored
    · exact length_nullRow join.larg
  have widthRight : r.length = (infoOf getTable join.rarg).schema.columns.length := by
    rcases right with stored | rfl
    · exact length_of_mem_rowsOf fits (found _ (List.mem_cons_of_mem _ List.mem_cons_self)) stored
    · exact length_nullRow join.rarg
  rw [shown_combination, ← widthLeft, ← widthRight, ← List.length_append]
  exact length_joinedRow_lt widthLeft widthRight inLeft inRight someKey

variable [PrintsFloat F] {leftInfo rightInfo : TableInfo}

end Keys

section Plans

variable {getTable : GetTable} {join : JoinExpr F} {leftInfo rightInfo : TableInfo} {node : PgNode F} {e : Expression F}

end Plans

section OuterJoins

variable {getTable : GetTable} {odd : OddForm → Prop} {db : Database F} {join : JoinExpr F}

variable [PrintsFloat F] {leftInfo rightInfo : TableInfo}

end OuterJoins

end Reference

end OneBase
