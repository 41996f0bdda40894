import OneBase.Proofs.Catalog.PointLookups
import OneBase.Proofs.Query.Restart

/-! # The optimizer keeps what queries give

A scan with a comparison of an indexed column and the lookup in the index give the same rows in the same order, so
what the first rule does anywhere in a plan does not show, also under joins that the second rule rewrites. -/

namespace OneBase

open ExceptLoops

variable {F : Type}

/-- The predicate compares a column with an INTEGER. -/
inductive LooksUp (attr : ℕ) (value : Value F) : Expression F → Prop where
  | columnFirst (tupleIdx : ℕ) (retType : TypeId) :
    LooksUp attr value (.comparison (.columnValue tupleIdx attr retType) (.constantValue value) .equal)
  | constantFirst (tupleIdx : ℕ) (retType : TypeId) :
    LooksUp attr value (.comparison (.constantValue value) (.columnValue tupleIdx attr retType) .equal)

variable [Field F] [LinearOrder F]

section Scans

variable {attr : ℕ} {value : Value F} {predicate : Expression F} {key : Int32}

theorem compareEquals_integer {left right : Value F} (first : left.typeId = .integer)
    (second : right.typeId = .integer) :
    left.compareEquals right = .ok (.boolean (left.integerPart = right.integerPart)) := by
  rw [Value.compareEquals, if_pos (first.trans second.symm), first]

omit [Field F] [LinearOrder F] in
theorem getAsInteger_eq_ok_iff {value : Value F} {i : Int32} :
    value.getAsInteger = .ok i ↔ value.typeId = .integer ∧ value.integerPart = i := by
  rw [Value.getAsInteger]
  split_ifs with integer
  · simp [integer]
  · simp [integer]

/-- The predicate compares what it reads from the column, if it is an INTEGER, with the key. -/
theorem LooksUp.evaluateWith (looksUp : LooksUp attr value predicate) (constant : value.getAsInteger = .ok key)
    {reading : ℕ → ℕ → Except String (Value F)} {cell : Except String (Value F)}
    (read : ∀ tupleIdx, reading tupleIdx attr = cell) (integer : ∀ v, cell = .ok v → v.typeId = .integer) :
    (do (← predicate.evaluateWith reading).getAsBoolean : Except String Bool) =
      cell.map fun v => decide (v.integerPart = key) := by
  obtain ⟨constantType, rfl⟩ := getAsInteger_eq_ok_iff.mp constant
  cases looksUp with
  | columnFirst tupleIdx retType =>
    simp only [Expression.evaluateWith, read, Expression.performComparison]
    cases cell with
    | error message => rfl
    | ok v =>
      change (do (← v.compareEquals value).getAsBoolean : Except String Bool) = _
      rw [compareEquals_integer (integer v rfl) constantType]
      rfl
  | constantFirst tupleIdx retType =>
    simp only [Expression.evaluateWith, read, Expression.performComparison]
    cases cell with
    | error message => rfl
    | ok v =>
      change (do (← value.compareEquals v).getAsBoolean : Except String Bool) = _
      rw [compareEquals_integer constantType (integer v rfl)]
      simp only [eq_comm (a := value.integerPart)]
      rfl

/-- On a row whose key can be read the predicate has a value. -/
theorem LooksUp.holds (looksUp : LooksUp attr value predicate) (constant : value.getAsInteger = .ok key) {row : Row F}
    {cell : Value F} (read : row.getValue attr = .ok cell) {i : Int32} (integer : cell.getAsInteger = .ok i) :
    Expression.holds (some predicate) row = .ok (i = key : Bool) := by
  obtain ⟨cellType, rfl⟩ := getAsInteger_eq_ok_iff.mp integer
  exact looksUp.evaluateWith constant (fun _ => read) fun v same => Except.ok.inj same ▸ cellType

/-- The RIDs that an index lists for the key are those of the rows that a sequential scan finds, in its order. -/
theorem scan_listed (looksUp : LooksUp attr value predicate) (constant : value.getAsInteger = .ok key)
    {context : ExecutorContext F} {tableOid : TableOid} {rows : List (Rid × Row F)} {keys : List (ℤ × Rid)}
    (reads : ∀ row ∈ rows, context.getTuple tableOid row.1 = .ok row.2) (read : indexKeys attr rows = .ok keys) :
    IndexScanExecutor.scan context tableOid (some predicate) ((keys.filter (·.1 = key.toInt)).map Prod.snd) =
      SeqScanExecutor.scan (some predicate) (rows.map Prod.snd) := by
  induction rows generalizing keys with
  | nil =>
    cases read
    rfl
  | cons row rest ih =>
    obtain ⟨here, later⟩ := List.forall_mem_cons.mp reads
    rw [indexKeys, List.mapM_cons] at read
    obtain ⟨first, readFirst, read⟩ := bind_eq_ok_iff.mp read
    obtain ⟨others, readOthers, read⟩ := bind_eq_ok_iff.mp read
    obtain rfl := pure_eq_ok_iff.mp read
    obtain ⟨cell, cellRead, readFirst⟩ := bind_eq_ok_iff.mp readFirst
    obtain ⟨i, integer, readFirst⟩ := bind_eq_ok_iff.mp readFirst
    obtain rfl := pure_eq_ok_iff.mp readFirst
    have verdict := looksUp.holds constant cellRead integer
    rw [List.map_cons, SeqScanExecutor.scan, verdict, ← ih later readOthers]
    rcases eq_or_ne i key with rfl | other
    · have fetched : IndexScanExecutor.fetch context tableOid (some predicate) row.1 = .ok (row.2, true) := by
        rw [decide_eq_true rfl] at verdict
        rw [IndexScanExecutor.fetch, here]
        change (Expression.holds (some predicate) row.2 >>= fun answer => pure (row.2, answer)) = _
        rw [verdict]
        rfl
      simp [IndexScanExecutor.scan, fetched]
    · have apart : i.toInt ≠ key.toInt := fun same => other (Int32.toInt_inj.mp same)
      simp [apart, other]

end Scans

/-- The context of queries on stored rows under a catalog. -/
structure ExecutorContext.Over (context : ExecutorContext F) (rows : StoredRows F) (catalog : Catalog) : Prop where
  table : ∀ oid, context.table oid = (rows oid).map Prod.snd
  getTuple : ∀ oid, ∀ row ∈ rows oid, context.getTuple oid row.1 = .ok row.2
  getIndex : context.getIndex = catalog.getIndexByOid

/-- The constants that scans compare the INTEGER columns of their tables with are INTEGER. -/
def PlanNode.Typed (catalog : Catalog) : PlanNode F → Prop
  | seqScan tableOid predicate =>
      ∀ tableInfo attr value comparison, catalog.getTableByOid tableOid = some tableInfo →
    (tableInfo.schema.columns[attr]?).map Column.typeId = some .integer →
    predicate = some comparison → LooksUp attr value comparison → value.typeId = .integer
  | indexScan _ _ _ _ => True
  | nestedLoopJoin left right _ | hashJoin left right _ _ => left.Typed catalog ∧ right.Typed catalog
  | aggregation child _ _ | sort child _ | limit child _ | projection child _ => child.Typed catalog

namespace Optimizer

variable {optimizer : Optimizer} {catalog : Catalog} {rows : StoredRows F}

omit [Field F] [LinearOrder F] in
theorem lookupOf_eq_some {left right lookupKey : Expression F} {attr : ℕ}
    (found : lookupOf left right = some (attr, lookupKey)) :
    ∃ value, lookupKey = .constantValue value ∧ LooksUp attr value (.comparison left right .equal) := by
  rw [lookupOf.eq_def] at found
  split at found
  · cases found
    exact ⟨_, rfl, .columnFirst _ _⟩
  · cases found
    exact ⟨_, rfl, .constantFirst _ _⟩
  · cases found

theorem firstIndex_eq_some {indexedCol : ℕ} {infos : List IndexInfo} {info : IndexInfo}
    (found : optimizer.firstIndex indexedCol infos = some info) :
    info ∈ infos ∧ info.supportsPointLookup = true ∧ info.keyAttrs.head? = some indexedCol := by
  have holds := List.find?_some found
  rw [Bool.and_eq_true, beq_iff_eq] at holds
  exact ⟨(optimizer.visit_perm infos).subset (List.mem_of_find?_eq_some found), holds⟩

omit [Field F] [LinearOrder F] in
/-- The first rule leaves a plan alone, or turns a scan into a lookup in an index on the compared column. -/
theorem optimizeSeqScanToIndexScan_cases (integral : catalog.Integral) (connected : optimizer.catalog = some catalog)
    (plan : PlanNode F) :
    optimizer.optimizeSeqScanToIndexScan plan = .ok plan ∨
      ∃ tableOid predicate tableInfo attr value info, plan = .seqScan tableOid (some predicate) ∧
        LooksUp attr value predicate ∧ catalog.getTableByOid tableOid = some tableInfo ∧
        info.tableName = tableInfo.name ∧ catalog.getIndexByOid info.oid = some info ∧
        info.supportsPointLookup = true ∧ info.keyAttrs.head? = some attr ∧
        optimizer.optimizeSeqScanToIndexScan plan =
          .ok (.indexScan info.oid tableOid (some (.constantValue value)) (some predicate)) := by
  rw [optimizeSeqScanToIndexScan.eq_def]
  split
  · rename_i tableOid left right
    simp only [connected]
    cases found : lookupOf left right with
    | none => exact .inl rfl
    | some key =>
      obtain ⟨attr, lookupKey⟩ := key
      obtain ⟨value, rfl, looksUp⟩ := lookupOf_eq_some found
      cases table : catalog.getTableByOid tableOid with
      | none =>
        exact .inl rfl
      | some tableInfo =>
        obtain ⟨infos, listed⟩ := integral.getTableIndexes_ok tableInfo.name
        cases first : optimizer.firstIndex attr infos with
        | none =>
          simp only [listed, bind, Except.bind, first]
          exact .inl rfl
        | some info =>
          obtain ⟨mem, supports, head⟩ := firstIndex_eq_some first
          obtain ⟨name, byOid⟩ := integral.mem_getTableIndexes listed mem
          simp only [listed, bind, Except.bind, first]
          exact .inr ⟨tableOid, _, tableInfo, attr, value, info, rfl, looksUp, table, name, byOid,
            supports, head, rfl⟩
  · exact .inl rfl

variable [PrintsFloat F] (runtime : Runtime F) {context : ExecutorContext F}

/-- The scan and the lookup give the same. -/
theorem executor_indexScan (lists : catalog.Lists rows) (holds : context.Over rows catalog) {tableOid : TableOid}
    {predicate : Expression F} {tableInfo : TableInfo} {attr : ℕ} {value : Value F} {info : IndexInfo}
    (integral : catalog.Integral) (typed : (PlanNode.seqScan tableOid (some predicate)).Typed catalog)
    (looksUp : LooksUp attr value predicate) (table : catalog.getTableByOid tableOid = some tableInfo)
    (name : info.tableName = tableInfo.name) (byOid : catalog.getIndexByOid info.oid = some info)
    (supports : info.supportsPointLookup = true) (head : info.keyAttrs.head? = some attr) :
    (PlanNode.indexScan info.oid tableOid (some (.constantValue value)) (some predicate)).executor runtime context =
      (PlanNode.seqScan tableOid (some predicate)).executor runtime context := by
  obtain ⟨tableInfo', attr', keys, table', attrs, integer, read, listed⟩ := lists info.oid info byOid supports
  obtain rfl : attr' = attr := by
    rw [attrs] at head
    exact Option.some.inj head
  obtain ⟨oid, named⟩ := integral.listed tableOid tableInfo table
  obtain rfl : tableInfo' = tableInfo := by
    rw [name, Catalog.getTable_eq_some named table] at table'
    exact (Option.some.inj (Except.ok.inj table')).symm
  rw [oid] at read
  have constant : value.getAsInteger = .ok value.integerPart :=
    getAsInteger_eq_ok_iff.mpr ⟨typed _ _ _ _ table integer rfl looksUp, rfl⟩
  have looked : IndexScanExecutor.lookup (context.getIndex info.oid) (some (.constantValue value)) =
      .ok ((keys.filter (·.1 = value.integerPart.toInt)).map Prod.snd) := by
    rw [holds.getIndex, byOid, ← listed]
    simp only [IndexScanExecutor.lookup, supports, if_true, constant, bind, Except.bind]
    rfl
  rw [PlanNode.executor, PlanNode.executor, IndexScanExecutor.init, looked, holds.table,
    ← scan_listed looksUp constant (holds.getTuple tableOid) read]
  rfl

omit [Field F] [LinearOrder F] [PrintsFloat F] in
/-- The second rule on the plan of a query, as a plan node. -/
theorem toNode_optimizeNLJToHashJoin (plan : Plan F) :
    plan.optimizeNLJToHashJoin.toNode = optimizeNLJToHashJoin plan.toNode := by
  unfold Plan.optimizeNLJToHashJoin
  split
  · simp only [Plan.toNode, optimizeNLJToHashJoin]
    split_ifs
    · rfl
    · rfl
    · rfl
  · rename_i other
    rw [optimizeNLJToHashJoin.eq_def]
    split
    · rename_i same
      cases plan <;> cases same
      exact absurd rfl (other _ _ _ _ _ _ _ _)
    · rfl

/-- What the second rule does to a join does not depend on how its sides are computed. -/
theorem executor_optimizeNLJToHashJoin {left left' right right' : PlanNode F}
    (first : left.executor runtime context = left'.executor runtime context)
    (second : right.executor runtime context = right'.executor runtime context) (predicate : Option (Expression F)) :
    (optimizeNLJToHashJoin (.nestedLoopJoin left right predicate)).executor runtime context =
      (optimizeNLJToHashJoin (.nestedLoopJoin left' right' predicate)).executor runtime context := by
  have joins (predicate : Option (Expression F)) :
      (PlanNode.nestedLoopJoin left right predicate).executor runtime context =
        (PlanNode.nestedLoopJoin left' right' predicate).executor runtime context := by
    rw [PlanNode.executor, PlanNode.executor, first, second]
  have hashes (leftKeyExpr rightKeyExpr : Expression F) :
      (PlanNode.hashJoin left right leftKeyExpr rightKeyExpr).executor runtime context =
        (PlanNode.hashJoin left' right' leftKeyExpr rightKeyExpr).executor runtime context := by
    rw [PlanNode.executor, PlanNode.executor, first, second]
  rw [optimizeNLJToHashJoin.eq_def, optimizeNLJToHashJoin.eq_def]
  split
  · rename_i same
    cases same
    dsimp only
    split_ifs
    · exact hashes _ _
    · exact hashes _ _
    · exact joins _
  · rename_i other
    split
    · rename_i same
      cases same
      exact absurd rfl (other _ _ _ _ _ _ _ _)
    · exact joins _

/-- Optimized with the catalog and without it, a plan gives the same. -/
theorem optimize_executor (integral : catalog.Integral) (lists : catalog.Lists rows) (holds : context.Over rows catalog)
    (connected : optimizer.catalog = some catalog) (plan : PlanNode F) (typed : plan.Typed catalog) :
    ∃ indexed plain, optimizer.optimize plan = .ok indexed ∧
      { optimizer with catalog := none }.optimize plan = .ok plain ∧
      indexed.executor runtime context = plain.executor runtime context := by
  have applied (optimizer : Optimizer) {plan plan' : PlanNode F}
      (first : optimizer.optimizeSeqScanToIndexScan plan = .ok plan') :
      optimizer.applyRules plan = .ok (optimizeNLJToHashJoin plan') := by
    rw [applyRules, first]
    rfl
  induction plan with
  | seqScan tableOid predicate =>
    have plain : { optimizer with catalog := none }.optimizeSeqScanToIndexScan (.seqScan tableOid predicate) =
        .ok (.seqScan tableOid predicate) := by
      rw [optimizeSeqScanToIndexScan.eq_def]
      split
      · rename_i same
        cases same
        rfl
      · rfl
    rw [optimize, optimize, applied _ plain]
    rcases optimizeSeqScanToIndexScan_cases integral connected (.seqScan tableOid predicate) with
      same | ⟨_, _, tableInfo, attr, value, info, same, looksUp, table, name, byOid, supports, head, turned⟩
    · exact ⟨_, _, applied _ same, rfl, rfl⟩
    · cases same
      exact ⟨_, _, applied _ turned, rfl,
        executor_indexScan runtime lists holds integral typed looksUp table name byOid supports head⟩
  | indexScan indexOid tableOid lookupKey predicate => exact ⟨_, _, rfl, rfl, rfl⟩
  | nestedLoopJoin left right predicate ihLeft ihRight =>
    obtain ⟨left', plainLeft, optLeft, optPlainLeft, sameLeft⟩ := ihLeft typed.1
    obtain ⟨right', plainRight, optRight, optPlainRight, sameRight⟩ := ihRight typed.2
    rw [optimize, optimize, optLeft, optPlainLeft, optRight, optPlainRight]
    exact ⟨_, _, rfl, rfl, executor_optimizeNLJToHashJoin runtime sameLeft sameRight predicate⟩
  | hashJoin left right leftKeyExpr rightKeyExpr ihLeft ihRight =>
    obtain ⟨left', plainLeft, optLeft, optPlainLeft, sameLeft⟩ := ihLeft typed.1
    obtain ⟨right', plainRight, optRight, optPlainRight, sameRight⟩ := ihRight typed.2
    rw [optimize, optimize, optLeft, optPlainLeft, optRight, optPlainRight]
    refine ⟨_, _, rfl, rfl, ?_⟩
    change HashJoinExecutor.init _ _ _ _ = HashJoinExecutor.init _ _ _ _
    rw [sameLeft, sameRight]
  | aggregation child groupBys aggregates ih =>
    obtain ⟨child', plain, opt, optPlain, same⟩ := ih typed
    rw [optimize, optimize, opt, optPlain]
    exact ⟨_, _, rfl, rfl, congrArg (AggregationExecutor.init runtime groupBys aggregates) same⟩
  | sort child orderBys ih =>
    obtain ⟨child', plain, opt, optPlain, same⟩ := ih typed
    rw [optimize, optimize, opt, optPlain]
    exact ⟨_, _, rfl, rfl, congrArg (SortExecutor.init runtime orderBys) same⟩
  | limit child count ih =>
    obtain ⟨child', plain, opt, optPlain, same⟩ := ih typed
    rw [optimize, optimize, opt, optPlain]
    exact ⟨_, _, rfl, rfl, congrArg (LimitExecutor.init count) same⟩
  | projection child expressions ih =>
    obtain ⟨child', plain, opt, optPlain, same⟩ := ih typed
    rw [optimize, optimize, opt, optPlain]
    exact ⟨_, _, rfl, rfl, congrArg (ProjectionExecutor.init expressions) same⟩

end Optimizer

section Queries

variable [PrintsFloat F]

/-- After any CREATE TABLE, CREATE INDEX and DROP INDEX statements over stored rows, the optimizer turns a query
into a plan that ends, from any state of its executors, with the rows or the exception that the query ends with when
the optimizer has no catalog: whichever indexes there are, and wherever in the plan they are used, they change
nothing. -/
theorem indexes_change_nothing (rows : StoredRows F) (statements : List Ddl)
    (few : (statements.foldl (CatalogHistory.stepOn rows) {}).Few) (optimizer : Optimizer)
    (connected : optimizer.catalog = some (statements.foldl (CatalogHistory.stepOn rows) {}).catalog)
    (runtime : Runtime F) {context : ExecutorContext F}
    (holds : context.Over rows (statements.foldl (CatalogHistory.stepOn rows) {}).catalog) (plan : PlanNode F)
    (typed : plan.Typed (statements.foldl (CatalogHistory.stepOn rows) {}).catalog) :
    ∃ indexed plain, optimizer.optimize plan = .ok indexed ∧
      { optimizer with catalog := none }.optimize plan = .ok plain ∧
      ∃ outcome, Gives (indexed.createExecutor runtime context) outcome ∧
        Gives (plain.createExecutor runtime context) outcome := by
  obtain ⟨sound, lists⟩ := CatalogHistory.lists_run rows statements few
  obtain ⟨indexed, plain, optimized, kept, same⟩ :=
    Optimizer.optimize_executor runtime sound.integral lists holds connected plan typed
  refine ⟨indexed, plain, optimized, kept, _, (indexed.delivers runtime context).gives, ?_⟩
  rw [same]
  exact (plain.delivers runtime context).gives

end Queries

section Instances

/-- One table with an index on its column, where two rows have the same key. -/
def twins : StoredRows ℚ :=
    fun _ => [(⟨0, 0⟩, [.integer 7]), (⟨0, 1⟩, [.integer 8]), (⟨0, 2⟩, [.integer 7])]

def indexedTwins : List Ddl :=
    [.createTable "t" (Schema.new [Column.new "k" .integer 0]) (.ok ()), .createIndex "i" "t" [0]]

def twinsContext : ExecutorContext ℚ where
  table oid := (twins oid).map Prod.snd
  getTuple oid rid := ((twins oid).find? (·.1 = rid)).elim (.error "undefined: no such tuple") fun row => .ok row.2
  getIndex := (indexedTwins.foldl (CatalogHistory.stepOn twins) {}).catalog.getIndexByOid

/-- `SELECT * FROM t WHERE k = 7`. -/
def selectTwins : PlanNode ℚ :=
  .seqScan 1 (some (.comparison (.columnValue 0 0 .integer) (.constantValue (.integer 7)) .equal))

/-- The optimizer uses the index. -/
example : (Optimizer.mk (some (indexedTwins.foldl (CatalogHistory.stepOn twins) {}).catalog) id fun _ =>
    .refl _).optimize
    selectTwins = .ok (.indexScan 1 1 (some (.constantValue (.integer 7)))
      (some (.comparison (.columnValue 0 0 .integer) (.constantValue (.integer 7)) .equal))) := rfl

theorem indexes_change_nothing_twins :
    ∃ indexed plain, (Optimizer.mk (some (indexedTwins.foldl (CatalogHistory.stepOn twins) {}).catalog) id
        fun _ => .refl _).optimize selectTwins = .ok indexed ∧
      (Optimizer.mk none id fun _ => .refl _).optimize selectTwins = .ok plain ∧
      ∃ outcome, Gives (indexed.createExecutor (Runtime.plain ℚ) twinsContext) outcome ∧
        Gives (plain.createExecutor (Runtime.plain ℚ) twinsContext) outcome := by
  refine indexes_change_nothing twins indexedTwins ⟨by decide, by decide⟩
    (Optimizer.mk (some (indexedTwins.foldl (CatalogHistory.stepOn twins) {}).catalog) id fun _ => .refl _) rfl
    (Runtime.plain ℚ) ⟨fun _ => rfl, ?_, rfl⟩ selectTwins ?_
  · intro oid row mem
    simp only [twins, List.mem_cons, List.not_mem_nil, or_false] at mem
    rcases mem with rfl | rfl | rfl
    · rfl
    · rfl
    · rfl
  · rintro tableInfo attr value _ - - ⟨⟩ ⟨⟩
    rfl

end Instances

end OneBase
