import OneBase.Proofs.Query.Executors
import OneBase.Proofs.Query.Runtime

/-! # Rewriting a nested-loop join to a hash join

The nested loops compare keys with `CompareEquals`, the hash join by the text they print as. On keys
of one type the two tests give the same answer, apart from FLOATs that differ and print alike and
from NULLs, which compare by their zeroed payload and print as `NULL`. On keys of different types the
first test throws and the second one does not. The hash join also reads its right side when its left
side is empty.
-/

namespace OneBase

open ExceptLoops

namespace Value

variable {F : Type}

section Printing

/-- A digit is printed above the minus sign, and can be read back. -/
theorem digit_toNat {d : ℕ} (small : d < 10) : (UInt8.ofNat (48 + d)).toNat = 48 + d := by
  rw [UInt8.toNat_ofNat']
  omega

theorem ofDigits_decimal (n : ℕ) : Nat.ofDigits 10 ((decimal n).reverse.map fun c => c.toNat - 48) = n := by
  by_cases zero : n = 0
  · subst zero
    decide
  · simp only [decimal, zero, ↓reduceIte, ← List.map_reverse, List.reverse_reverse, List.map_map]
    rw [List.map_congr_left (g := id), List.map_id, Nat.ofDigits_digits]
    intro d member
    simp only [Function.comp_apply, id_eq, digit_toNat (Nat.digits_lt_base (by decide) member)]
    omega

theorem mem_decimal {n : ℕ} {c : UInt8} (member : c ∈ decimal n) : 48 ≤ c.toNat ∧ c.toNat < 58 := by
  by_cases zero : n = 0
  · subst zero
    obtain rfl := List.mem_singleton.mp member
    decide
  · simp only [decimal, zero, ↓reduceIte, List.mem_map, List.mem_reverse] at member
    obtain ⟨d, digit, rfl⟩ := member
    have small := Nat.digits_lt_base (by decide) digit
    rw [digit_toNat small]
    omega

theorem decimal_injective : Function.Injective decimal := by
  intro a b same
  rw [← ofDigits_decimal a, same, ofDigits_decimal]

theorem printInteger_injective : Function.Injective printInteger := by
  intro a b same
  have signed (x y : ℤ) : ascii "-" ++ decimal x.natAbs ≠ decimal y.natAbs := fun eq =>
    absurd (mem_decimal (n := y.natAbs) (eq ▸ List.mem_append_left _ (List.mem_singleton_self 45))).1 (by decide)
  by_cases negA : a < 0 <;> by_cases negB : b < 0 <;> simp only [printInteger, negA, negB, ↓reduceIte] at same
  · have := decimal_injective (List.append_cancel_left same)
    omega
  · exact (signed a b same).elim
  · exact (signed b a same.symm).elim
  · have := decimal_injective same
    omega

/-- No character of a number is a letter. -/
theorem printInteger_ne_null (i : ℤ) : printInteger i ≠ ascii "NULL" := by
  intro same
  have letter : (78 : UInt8) ∈ printInteger i := same ▸ by decide
  have noLetter : (78 : UInt8) ∉ decimal i.natAbs := fun member => absurd (mem_decimal member).2 (by decide)
  by_cases neg : i < 0 <;> simp only [printInteger, neg, ↓reduceIte] at letter
  · rcases List.mem_append.mp letter with sign | digit
    · exact absurd sign (by decide)
    · exact noLetter digit
  · exact noLetter letter

end Printing

variable [Field F] [LinearOrder F] [PrintsFloat F]

/-- The two tests on a left and a right key agree. -/
def KeysAgree : Value F → Value F → Prop
  | boolean _, boolean _ => True
  | integer _, integer _ => True
  | varchar _, varchar _ => True
  | float f, float g => PrintsFloat.print f = PrintsFloat.print g → f = g
  | null s, null t => s = t ∧ s ≠ .invalid
  | null .boolean, boolean b => b = true
  | boolean b, null .boolean => b = true
  | null .integer, integer i => i ≠ 0
  | integer i, null .integer => i ≠ 0
  | null .float, float f => f = 0 ↔ PrintsFloat.print f = ascii "NULL"
  | float f, null .float => f = 0 ↔ PrintsFloat.print f = ascii "NULL"
  | null .varchar, varchar s => s ≠ [] ∧ s ≠ ascii "NULL"
  | varchar s, null .varchar => s ≠ [] ∧ s ≠ ascii "NULL"
  | _, _ => False

/-- The test of the nested loops. -/
def equals (a b : Value F) : Except String Bool := do (← a.compareEquals b).getAsBoolean

/-- Two values have the same payload. -/
def SamePayload (a b : Value F) : Prop :=
  a.booleanPart = b.booleanPart ∧ a.integerPart = b.integerPart ∧ a.floatPart = b.floatPart ∧
    a.varcharPart = b.varcharPart

instance (a b : Value F) : Decidable (SamePayload a b) := inferInstanceAs (Decidable (_ ∧ _ ∧ _ ∧ _))

section Payload

variable {a b : Value F}

omit [Field F] [LinearOrder F] [PrintsFloat F] in
@[simp] theorem getAsBoolean_boolean (answer : Bool) : (boolean answer : Value F).getAsBoolean = .ok answer := rfl

omit [Field F] [LinearOrder F] [PrintsFloat F] in
theorem booleanPart_of_ne (other : a.typeId ≠ .boolean) : a.booleanPart = false := by
  cases a <;> simp_all [typeId, booleanPart]

omit [Field F] [LinearOrder F] [PrintsFloat F] in
theorem integerPart_of_ne (other : a.typeId ≠ .integer) : a.integerPart = 0 := by
  cases a <;> simp_all [typeId, integerPart]

omit [LinearOrder F] [PrintsFloat F] in
theorem floatPart_of_ne (other : a.typeId ≠ .float) : a.floatPart = 0 := by
  cases a <;> simp_all [typeId, floatPart]

omit [Field F] [LinearOrder F] [PrintsFloat F] in
theorem varcharPart_of_ne (other : a.typeId ≠ .varchar) : a.varcharPart = [] := by
  cases a <;> simp_all [typeId, varcharPart]

omit [PrintsFloat F] in
/-- On values of one type the nested loops compare payloads, otherwise they throw. -/
theorem equals_eq : a.equals b =
    if a.typeId = b.typeId then
      if a.typeId = .invalid then .error "Unsupported type for comparison" else .ok (decide (SamePayload a b))
    else .error "Type mismatch in comparison" := by
  by_cases same : a.typeId = b.typeId
  · -- the parts of other types are zero on both sides
    cases type : b.typeId with
    | invalid => simp [equals, compareEquals, same, type, bind, Except.bind]
    | _ =>
      simp [equals, compareEquals, same, type, bind, Except.bind, SamePayload, booleanPart_of_ne, integerPart_of_ne,
        floatPart_of_ne, varcharPart_of_ne]
  · simp [equals, compareEquals, same, bind, Except.bind]

omit [PrintsFloat F] in
theorem equals_comm : a.equals b = b.equals a := by
  by_cases same : a.typeId = b.typeId
  · have payload : SamePayload a b ↔ SamePayload b a := by
      simp only [SamePayload, eq_comm]
    simp only [equals_eq, same, ↓reduceIte, decide_eq_decide.mpr payload]
  · simp only [equals_eq, same, Ne.symm same, ↓reduceIte]

omit [LinearOrder F] in
/-- The explicit cases are those in which the payloads are the same exactly when the texts are. -/
theorem keysAgree_iff : KeysAgree a b ↔
    a.typeId = b.typeId ∧ a.typeId ≠ .invalid ∧ (SamePayload a b ↔ a.toString = b.toString) := by
  have nullTrue : ascii "NULL" ≠ ascii "true" := by decide
  have nullFalse : ascii "NULL" ≠ ascii "false" := by decide
  have trueFalse : ascii "true" ≠ ascii "false" := by decide
  have nullEmpty : ascii "NULL" ≠ [] := by decide
  have number := printInteger_ne_null
  have numbers (i j : Int32) : printInteger i.toInt = printInteger j.toInt ↔ i = j :=
    printInteger_injective.eq_iff.trans Int32.toInt_inj
  cases a with
  | null s =>
    cases s <;> cases b <;>
      simp only [KeysAgree, typeId, SamePayload, booleanPart, integerPart, floatPart, varcharPart, toString] <;> grind
  | _ =>
    cases b with
    | null t =>
      cases t <;>
        simp only [KeysAgree, typeId, SamePayload, booleanPart, integerPart, floatPart, varcharPart, toString] <;>
        grind
    | _ =>
      simp only [KeysAgree, typeId, SamePayload, booleanPart, integerPart, floatPart, varcharPart, toString]
      grind

theorem keysAgree_iff_equals : KeysAgree a b ↔ a.equals b = .ok (decide (a.toString = b.toString)) := by
  rw [keysAgree_iff, equals_eq]
  by_cases same : a.typeId = b.typeId
  · by_cases invalid : a.typeId = .invalid
    · simp [same, same ▸ invalid]
    · simp [same, same ▸ invalid]
  · simp [same]

end Payload

end Value

section Joins

variable {F : Type} [Field F] [LinearOrder F]

variable [PrintsFloat F]

namespace HashJoinExecutor

variable {leftKeyExpr rightKeyExpr : Expression F} {leftKey rightKey : Row F → Value F}

/-- The build loop puts every left row, in order, into the bucket of its key's text. -/
theorem build_eq_ok (hashTable : HashTable F) {rows : List (Row F)}
    (keys : ∀ left ∈ rows, leftKeyExpr.evaluate left = .ok (leftKey left)) :
    ∃ built, build leftKeyExpr hashTable rows = .ok built ∧
      ∀ text, (built.lookup text).getD [] =
        (hashTable.lookup text).getD [] ++ rows.filter fun left => (leftKey left).toString = text := by
  induction rows generalizing hashTable with
  | nil => exact ⟨hashTable, rfl, fun text => by simp⟩
  | cons left rest ih =>
    obtain ⟨key, keys⟩ := List.forall_mem_cons.mp keys
    obtain ⟨built, done, buckets⟩ := ih (hashTable.insert _ _) keys
    refine ⟨built, by simpa only [build, key, bind, Except.bind] using done, fun text => ?_⟩
    rw [buckets]
    by_cases same : (leftKey left).toString = text
    · subst same
      simp [AList.lookup_insert]
    · simp [AList.lookup_insert_ne (Ne.symm same), same]

/-- The probe loop pairs every right row with the bucket of its key's text. -/
theorem probe_eq_ok (hashTable : HashTable F) {rows : List (Row F)}
    (keys : ∀ right ∈ rows, rightKeyExpr.evaluate right = .ok (rightKey right)) :
    probe rightKeyExpr hashTable rows = .ok (rows.flatMap fun right =>
      ((hashTable.lookup (rightKey right).toString).getD []).map fun left => left ++ right) := by
  induction rows with
  | nil => rfl
  | cons right rest ih =>
    obtain ⟨key, keys⟩ := List.forall_mem_cons.mp keys
    simp only [probe, key, ih keys, bind, Except.bind, pure, Except.pure, List.flatMap_cons]

/-- The pairs of rows whose keys print alike, right row by right row. -/
theorem rows_eq_ok_iff {lefts rights : Stream F} {out : List (Row F)}
    (leftKeys : ∀ row ∈ lefts.rows, leftKeyExpr.evaluate row = .ok (leftKey row))
    (rightKeys : ∀ row ∈ rights.rows, rightKeyExpr.evaluate row = .ok (rightKey row)) :
    (init leftKeyExpr rightKeyExpr (.ok lefts) (.ok rights) >>= Stream.drain) = .ok out ↔
      lefts.error = none ∧ rights.error = none ∧ out = rights.rows.flatMap fun r =>
        (lefts.rows.filter fun l => (leftKey l).toString = (rightKey r).toString).map fun l => l ++ r := by
  obtain ⟨built, done, buckets⟩ := build_eq_ok ∅ leftKeys
  have probed := probe_eq_ok built rightKeys
  simp only [buckets, AList.lookup_empty, Option.getD_none, List.nil_append] at probed
  simp only [init, bind_eq_ok_iff, pure_eq_ok_iff, Stream.drain_eq_ok_iff, Except.ok.injEq, exists_eq_left', done,
    probed]
  constructor
  · rintro ⟨-, ⟨-, ⟨leftOk, -⟩, -, ⟨rightOk, -⟩, rfl⟩, -, rfl⟩
    exact ⟨leftOk, rightOk, rfl⟩
  · rintro ⟨leftOk, rightOk, rfl⟩
    exact ⟨_, ⟨_, ⟨leftOk, rfl⟩, _, ⟨rightOk, rfl⟩, rfl⟩, rfl, rfl⟩

end HashJoinExecutor

/-- When the rewritten join does what the join did: a side throws in both, or the keys agree. -/
def JoinSafe (leftKeyExpr rightKeyExpr : Expression F) : Executor F → Executor F → Prop
  | .ok lefts, .ok rights =>
    lefts.error ≠ none ∨ (rights.error ≠ none ∧ lefts.rows ≠ []) ∨
      (rights.error = none ∧ ∀ left ∈ lefts.rows, ∀ right ∈ rights.rows, ∀ a b,
        leftKeyExpr.evaluate left = .ok a →
        rightKeyExpr.evaluate right = .ok b → a.KeysAgree b)
  | _, _ => True

section Equivalence

variable {predicate : Option (Expression F)} {leftKeyExpr rightKeyExpr : Expression F}
  {leftKey rightKey : Row F → Value F} {lefts rights : Stream F} {width : ℕ}

omit [Field F] [LinearOrder F] [PrintsFloat F] in
/-- Rows of one width are told apart in the joined row. -/
theorem joined_mem_iff (wide : ∀ row ∈ lefts.rows, row.length = width) (test : Row F → Row F → Bool)
    {left right : Row F}
    (leftMem : left ∈ lefts.rows) (rightMem : right ∈ rights.rows) :
    (left ++ right ∈ lefts.rows.flatMap fun l => (rights.rows.filter (test l)).map (l ++ ·)) ↔
      test left right := by
  simp only [List.mem_flatMap, List.mem_map, List.mem_filter]
  constructor
  · rintro ⟨l, lMem, r, ⟨-, passed⟩, same⟩
    obtain ⟨rfl, rfl⟩ := List.append_inj same ((wide l lMem).trans (wide left leftMem).symm)
    exact passed
  · exact fun passed => ⟨left, leftMem, right, ⟨rightMem, passed⟩, rfl⟩

/-- Both joins run to their end: they give the same rows exactly when the keys agree. -/
theorem joins_perm_iff (wide : ∀ row ∈ lefts.rows, row.length = width)
    (tests : ∀ left ∈ lefts.rows, ∀ right ∈ rights.rows,
      Expression.holdsJoin predicate left right = (leftKey left).equals (rightKey right))
    (answered : ∀ left ∈ lefts.rows, ∀ right ∈ rights.rows,
      ∃ answer, Expression.holdsJoin predicate left right = .ok answer) :
    ((lefts.rows.flatMap fun left =>
        (rights.rows.filter fun right => passes (Expression.holdsJoin predicate left right)).map (left ++ ·)).Perm
      (rights.rows.flatMap fun right =>
        (lefts.rows.filter fun left => (leftKey left).toString = (rightKey right).toString).map fun left =>
        left ++ right)) ↔
      ∀ left ∈ lefts.rows, ∀ right ∈ rights.rows, (leftKey left).KeysAgree (rightKey right) := by
  have swap := pairs_perm_swap lefts.rows rights.rows
    (fun left right => decide ((leftKey left).toString = (rightKey right).toString)) fun left right => left ++ right
  constructor
  · intro perm left leftMem right rightMem
    obtain ⟨answer, test⟩ := answered left leftMem right rightMem
    have same : answer = true ↔ (leftKey left).toString = (rightKey right).toString := by
      have member := (perm.trans swap.symm).mem_iff (a := left ++ right)
      rw [joined_mem_iff wide _ leftMem rightMem, joined_mem_iff wide _ leftMem rightMem] at member
      simpa [test, passes, Except.toOption] using member
    rw [Value.keysAgree_iff_equals, ← tests left leftMem right rightMem, test]
    rw [Except.ok.injEq, Bool.eq_iff_iff, decide_eq_true_iff]
    exact same
  · intro agree
    refine List.Perm.trans (.of_eq ?_) swap
    refine List.flatMap_congr fun left leftMem => congrArg _ (List.filter_congr fun right rightMem => ?_)
    rw [tests left leftMem right rightMem, Value.keysAgree_iff_equals.mp (agree left leftMem right rightMem)]
    rfl

/-- The rewrite, for a predicate that compares the two keys. -/
theorem join_sameRows_iff {left right : Executor F}
    (wide : ∀ lefts, left = .ok lefts → ∀ row ∈ lefts.rows, row.length = width)
    (leftKeys : ∀ lefts, left = .ok lefts → ∀ row ∈ lefts.rows, leftKeyExpr.evaluate row = .ok (leftKey row))
    (rightKeys : ∀ rights, right = .ok rights → ∀ row ∈ rights.rows, rightKeyExpr.evaluate row =
      .ok (rightKey row))
    (tests : ∀ lefts rights, left = .ok lefts → right = .ok rights → ∀ l ∈ lefts.rows, ∀ r ∈ rights.rows,
      Expression.holdsJoin predicate l r = (leftKey l).equals (rightKey r)) :
    SameRows (NestedLoopJoinExecutor.init predicate left right >>= Stream.drain)
        (HashJoinExecutor.init leftKeyExpr rightKeyExpr left right >>= Stream.drain) ↔
      JoinSafe leftKeyExpr rightKeyExpr left right := by
  cases left with
  | error message => exact iff_of_true trivial trivial
  | ok lefts =>
    cases right with
    | error message => exact iff_of_true trivial trivial
    | ok rights =>
      have agreeing : (∀ left ∈ lefts.rows, ∀ right ∈ rights.rows,
          (leftKey left).KeysAgree (rightKey right)) ↔
          ∀ left ∈ lefts.rows, ∀ right ∈ rights.rows, ∀ a b, leftKeyExpr.evaluate left = .ok a →
            rightKeyExpr.evaluate right = .ok b → a.KeysAgree b := by
        refine forall₂_congr fun left leftMem => forall₂_congr fun right rightMem => ?_
        simp [leftKeys lefts rfl left leftMem, rightKeys rights rfl right rightMem]
      simp only [sameRows_iff, NestedLoopJoinExecutor.rows_eq_ok_iff, NestedLoopJoinExecutor.matchLeft_eq_ok_iff,
        HashJoinExecutor.rows_eq_ok_iff (leftKeys lefts rfl) (rightKeys rights rfl), JoinSafe, ← agreeing]
      constructor
      · rintro (⟨_, _, ⟨leftOk, -, answered, rfl⟩, ⟨-, rightOk, rfl⟩, perm⟩ | ⟨noNested, noHashed⟩)
        · exact .inr (.inr ⟨rightOk,
            (joins_perm_iff (wide lefts rfl) (tests lefts rights rfl rfl) answered).mp perm⟩)
        · by_cases leftOk : lefts.error = none
          · have rightFails : rights.error ≠ none := fun rightOk => noHashed _ ⟨leftOk, rightOk, rfl⟩
            refine .inr (.inl ⟨rightFails, fun empty =>
              noNested _ ⟨leftOk, fun some => (some empty).elim, ?_, rfl⟩⟩)
            rw [empty]
            exact List.forall_mem_nil _
          · exact .inl leftOk
      · rintro (leftFails | ⟨rightFails, some⟩ | ⟨rightOk, agree⟩)
        · exact .inr ⟨fun _ ran => leftFails ran.1, fun _ ran => leftFails ran.1⟩
        · exact .inr ⟨fun _ ran => rightFails (ran.2.1 some), fun _ ran => rightFails ran.2.1⟩
        · by_cases leftOk : lefts.error = none
          · have answered : ∀ left ∈ lefts.rows, ∀ right ∈ rights.rows,
                ∃ answer, Expression.holdsJoin predicate left right = .ok answer := fun left leftMem right rightMem =>
              ⟨_, (tests lefts rights rfl rfl left leftMem right rightMem).trans
                (Value.keysAgree_iff_equals.mp (agree left leftMem right rightMem))⟩
            exact .inl ⟨_, _, ⟨leftOk, fun _ => rightOk, answered, rfl⟩, ⟨leftOk, rightOk, rfl⟩,
              (joins_perm_iff (wide lefts rfl) (tests lefts rights rfl rfl) answered).mpr agree⟩
          · exact .inr ⟨fun _ ran => leftOk ran.1, fun _ ran => leftOk ran.1⟩

end Equivalence

omit [PrintsFloat F] in
/-- Every HashJoin that the rule produces compares a column of the left side with one of the right side,
and the predicate it came from compares the same two columns. -/
theorem optimizeNLJToHashJoin_shape {left right left' right' : Plan F} {predicate : Option (Expression F)}
    {leftKeyExpr rightKeyExpr : Expression F}
    (rewritten : (Plan.nestedLoopJoin left right predicate).optimizeNLJToHashJoin =
      .hashJoin left' right' leftKeyExpr rightKeyExpr) :
    left' = left ∧ right' = right ∧ ∀ l r a b, leftKeyExpr.evaluate l = .ok a →
    rightKeyExpr.evaluate r = .ok b →
      Expression.holdsJoin predicate l r = a.equals b := by
  unfold Plan.optimizeNLJToHashJoin at rewritten
  split at rewritten
  · rename_i found
    cases found
    split_ifs at rewritten with straight swapped
    · obtain ⟨rfl, rfl⟩ := straight
      cases rewritten
      refine ⟨rfl, rfl, fun l r a b keyA keyB => ?_⟩
      simp only [Expression.evaluate, Expression.evaluateWith] at keyA keyB
      simp only [Expression.holdsJoin, Expression.evaluateJoin, Expression.evaluateWith, Option.elim_some, keyA, keyB]
      rfl
    · obtain ⟨rfl, rfl⟩ := swapped
      cases rewritten
      refine ⟨rfl, rfl, fun l r a b keyA keyB => ?_⟩
      rw [Value.equals_comm]
      simp only [Expression.evaluate, Expression.evaluateWith] at keyA keyB
      simp only [Expression.holdsJoin, Expression.evaluateJoin, Expression.evaluateWith, Option.elim_some, keyA, keyB]
      rfl
  · cases rewritten

/-- A nested-loop join that the rule turns into a hash join gives the same rows before and after, or throws
before and after, exactly when a side throws in both or every two keys agree. -/
theorem optimizeNLJToHashJoin_sameRows_iff (runtime : Runtime F) (db : Database F) (width : ℕ)
    {left right left' right' : Plan F} {predicate : Option (Expression F)} {leftKeyExpr rightKeyExpr : Expression F}
    (rewritten : (Plan.nestedLoopJoin left right predicate).optimizeNLJToHashJoin =
      .hashJoin left' right' leftKeyExpr rightKeyExpr)
    (leftRows : ∀ lefts, left.executor runtime db = .ok lefts → ∀ row ∈ lefts.rows,
      row.length = width ∧ ∃ key, leftKeyExpr.evaluate row = .ok key)
    (rightRows : ∀ rights, right.executor runtime db = .ok rights → ∀ row ∈ rights.rows,
      ∃ key, rightKeyExpr.evaluate row = .ok key) :
    SameRows ((Plan.nestedLoopJoin left right predicate).execute runtime db)
        ((Plan.nestedLoopJoin left right predicate).optimizeNLJToHashJoin.execute runtime db) ↔
      JoinSafe leftKeyExpr rightKeyExpr (left.executor runtime db) (right.executor runtime db) := by
  obtain ⟨rfl, rfl, tests⟩ := optimizeNLJToHashJoin_shape rewritten
  have key {e : Expression F} {row : Row F} (found : ∃ value, e.evaluate row = .ok value) :
      e.evaluate row = .ok ((e.evaluate row).toOption.getD (.null .invalid)) := by
    obtain ⟨value, evaluated⟩ := found
    simp [evaluated, Except.toOption]
  rw [rewritten]
  refine join_sameRows_iff (fun lefts ran row member => (leftRows lefts ran row member).1)
    (fun lefts ran row member => key (leftRows lefts ran row member).2)
    (fun rights ran row member => key (rightRows rights ran row member)) ?_
  intro lefts rights leftRan rightRan l leftMem r rightMem
  exact tests l r _ _ (key (leftRows lefts leftRan l leftMem).2) (key (rightRows rights rightRan r rightMem))

end Joins

section Instances

/-- Table 0 joined with table 1 on their first columns, the right one written first. -/
def swappedJoin : Plan ℚ :=
  .nestedLoopJoin (.seqScan 0 none) (.seqScan 1 none)
    (some (.comparison (.columnValue 1 0 .integer) (.columnValue 0 0 .integer) .equal))

/-- Integer keys, some of which match. -/
def integerTables : Database ℚ := fun tableOid =>
  if tableOid = 0 then [[.integer 1], [.integer 2], [.integer 2]] else [[.integer 2, .varchar []],
    [.integer 3, .varchar []]]

/-- The key of either side. -/
def firstColumn : Expression ℚ := .columnValue 0 0 .integer

theorem integerTables_key (tableOid : TableOid) (row : Row ℚ) (member : row ∈ integerTables tableOid) :
    ∃ i, firstColumn.evaluate row = .ok (.integer i) := by
  unfold integerTables at member
  split at member
  · simp only [List.mem_cons, List.not_mem_nil, or_false] at member
    rcases member with rfl | rfl | rfl <;> exact ⟨_, rfl⟩
  · simp only [List.mem_cons, List.not_mem_nil, or_false] at member
    rcases member with rfl | rfl <;> exact ⟨_, rfl⟩

theorem swappedJoin_sameRows :
    JoinSafe firstColumn firstColumn (Plan.executor (.plain ℚ) integerTables (.seqScan 0 none))
        (Plan.executor (.plain ℚ) integerTables (.seqScan 1 none)) ∧
      SameRows (swappedJoin.execute (.plain ℚ) integerTables)
        (swappedJoin.optimizeNLJToHashJoin.execute (.plain ℚ) integerTables) := by
  have safe : JoinSafe firstColumn firstColumn (Plan.executor (.plain ℚ) integerTables (.seqScan 0 none))
      (Plan.executor (.plain ℚ) integerTables (.seqScan 1 none)) := by
    refine .inr (.inr ⟨rfl, fun left leftMem right rightMem a b keyA keyB => ?_⟩)
    obtain ⟨i, leftKey⟩ := integerTables_key 0 left leftMem
    obtain ⟨j, rightKey⟩ := integerTables_key 1 right rightMem
    cases leftKey.symm.trans keyA
    cases rightKey.symm.trans keyB
    trivial
  refine ⟨safe, (optimizeNLJToHashJoin_sameRows_iff (.plain ℚ) integerTables 1
    (rfl : swappedJoin.optimizeNLJToHashJoin = .hashJoin _ _ firstColumn firstColumn) ?_ ?_).mpr safe⟩
  · rintro lefts ⟨⟩ row member
    obtain ⟨i, key⟩ := integerTables_key 0 row member
    refine ⟨?_, _, key⟩
    have wide : ∀ row ∈ integerTables 0, row.length = 1 := by decide
    exact wide row member
  · rintro rights ⟨⟩ row member
    obtain ⟨j, key⟩ := integerTables_key 1 row member
    exact ⟨_, key⟩

/-- Two FLOAT keys that differ and print alike. -/
def floatTables : Database ℚ :=
    fun tableOid => if tableOid = 0 then [[.float (1001 / 1000)]] else [[.float (1002 / 1000)]]

/-- The nested loops find no pair, the hash join finds one. -/
theorem swappedJoin_not_sameRows :
    ¬ SameRows (swappedJoin.execute (.plain ℚ) floatTables)
      (swappedJoin.optimizeNLJToHashJoin.execute (.plain ℚ) floatTables) := by
  have nested : swappedJoin.execute (.plain ℚ) floatTables = .ok [] := by decide +kernel
  have hashed : swappedJoin.optimizeNLJToHashJoin.execute (.plain ℚ) floatTables =
      .ok [[.float (1001 / 1000), .float (1002 / 1000)]] := by decide +kernel
  rw [nested, hashed]
  exact fun perm => absurd perm.length_eq (by decide)

end Instances

end OneBase
