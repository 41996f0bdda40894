import OneBase.Model.ExecutorTree
import OneBase.Model.TableHeap

/-! # Executors over a table heap

The scans and the executors that modify a table, on the heap itself: `execution/executors` for `SeqScan`,
`IndexScan`, `Insert`, `Delete` and `Update`. A tuple carries the RID that `Next` hands out with it. Expressions
read the columns of a tuple under the schema of the table; reading outside the bytes of a tuple has no defined
behaviour in the source and is an error here. -/

namespace OneBase

open ExceptRuns

/-- Stored floats are bit patterns. -/
class StoresFloat (F : Type) where
  ofBits : UInt32 → F
  toBits : F → UInt32

section Columns

variable {F : Type} [StoresFloat F]

/-- A stored value as expressions see it. -/
def Value.ofStored : Value UInt32 → Value F
  | null typeId => null typeId
  | boolean b => boolean b
  | integer i => integer i
  | float bits => float (StoresFloat.ofBits bits)
  | varchar s => varchar s

/-- A computed value as it is stored. -/
def Value.toStored : Value F → Value UInt32
  | null typeId => null typeId
  | boolean b => boolean b
  | integer i => integer i
  | float f => float (StoresFloat.toBits f)
  | varchar s => varchar s

/-- `GetValue(schema, column_idx)`. -/
def Tuple.column (tuple : Tuple) (schema : Schema) (colIdx : ℕ) : Except String (Value UInt32) :=
  (tuple.getValue schema colIdx).elim (.error "undefined: read outside the tuple") .ok

/-- The constructor from values; a value without a type throws. -/
def Tuple.ofValues (values : List (Value UInt32)) : Except String Tuple :=
  (Tuple.new values).elim (.error "Unsupported type for serialization") .ok

variable [Field F] [LinearOrder F]

/-- `Evaluate`. -/
def Expression.evaluateOn (e : Expression F) (schema : Schema) (tuple : Tuple) : Except String (Value F) :=
  e.evaluateWith fun _ colIdx => (tuple.column schema colIdx).map Value.ofStored

/-- A predicate on one tuple; no predicate is always true. -/
def Expression.holdsOn (predicate : Option (Expression F)) (schema : Schema) (tuple : Tuple) : Except String Bool :=
  predicate.elim (.ok true) fun e => do (← e.evaluateOn schema tuple).getAsBoolean

/-- The tuple that a scan hands out: its values are read once, and its RID is that of the slot. -/
def Tuple.populated (tuple : Tuple) (schema : Schema) : Except String Tuple := do
  let values ← (List.range schema.getColumnCount).mapM (tuple.column schema)
  let populated ← Tuple.ofValues values
  return { populated with rid := tuple.rid }

end Columns

/-- An executor whose rows are tuples with RIDs. -/
structure TableExecutor (σ : Type) where
  init : ℕ → Code String σ Unit
  next : ℕ → Code String σ (Option Tuple)

/-- `ExecutionEngine::Execute`: what `Next` hands out after `Init`. -/
def TableExecutor.execute {σ : Type} (executor : TableExecutor σ) (rounds : ℕ) : Code String σ (List Tuple) := do
  executor.init rounds
  whileNext (executor.next rounds) (fun resultSet tuple => return resultSet ++ [tuple]) rounds []

/-- Heap code that does not throw. -/
def heapCode {α : Type} (m : HeapM α) : Code String TableHeap α :=
    fun heap => (m heap).map fun out => (.ok out.1, out.2)

/-- A sequential scan and the heap it reads. `visited` is history: every tuple dereferenced so far with the page as
it was then. -/
structure TableScan where
  heap : TableHeap
  iter : Rid := TableHeap.endRid
  visited : List (Tuple × TablePage) := []

namespace TableScan

def onHeap : Part TableScan TableHeap := ⟨TableScan.heap, fun s heap => { s with heap }, fun _ _ => rfl⟩

/-- `*iter_`. -/
def dereference (rid : Rid) : Code String TableScan Tuple := do
  let page := (← get).heap.data rid.pageId
  let tuple ← onHeap.on (TableHeap.getTuple rid)
  modify fun s => { s with visited := s.visited ++ [(tuple, page)] }
  return tuple

variable {F : Type} [StoresFloat F] [Field F] [LinearOrder F]

/-- `SeqScanExecutor::Init`. -/
def init (rounds : ℕ) : Code String TableScan Unit := do
  let iter ← onHeap.on (heapCode (TableHeap.begin rounds))
  modify fun s => { s with iter }

/-- `SeqScanExecutor::Next`; the iterator is past a row before the predicate sees the row. -/
def next (schema : Schema) (predicate : Option (Expression F)) : ℕ → Code String TableScan (Option Tuple)
  | 0 => fun _ => none
  | rounds + 1 => do
    let rid := (← get).iter
    if rid = TableHeap.endRid then return none
    else
      let tuple ← dereference rid
      let iter ← onHeap.on (heapCode (TableHeap.increment (rounds + 1) rid))
      modify fun s => { s with iter }
      if ← Code.lift (Expression.holdsOn predicate schema tuple) then
        return some (← Code.lift (tuple.populated schema))
      else next schema predicate rounds

/-- `SeqScanExecutor`. -/
def executor (schema : Schema) (predicate : Option (Expression F)) : TableExecutor TableScan where
  init := init
  next := next schema predicate

/-- A whole call on a table that clients share: of the client that scans it, or of another one. -/
inductive SharedCall where
  | init
  | next
  | insertTuple (tuple : Tuple)
  | deleteTuple (rid : Rid)

/-- Rounds for every page and every row of a heap. -/
def everyRow (heap : TableHeap) : ℕ := (heap.nextPageId.toNat + 1) * 1022

/-- The table and the scan after a call, whether it returns or throws. -/
def serve (schema : Schema) (predicate : Option (Expression F)) (s : TableScan) : SharedCall → Option TableScan
  | .init => (init (everyRow s.heap) s).map Prod.snd
  | .next => (next schema predicate (everyRow s.heap) s).map Prod.snd
  | .insertTuple tuple => (TableHeap.insertTuple (everyRow s.heap) tuple s.heap).map fun out => { s with heap := out.2 }
  | .deleteTuple rid => (TableHeap.deleteTuple rid s.heap).map fun out => { s with heap := out.2 }

def step (schema : Schema) (predicate : Option (Expression F)) (s : TableScan) (call : SharedCall) : TableScan :=
  (serve schema predicate s call).getD s

end TableScan

/-- `LookupInteger`; a key that is not there has no RIDs. -/
def IndexInfo.lookupInteger (info : IndexInfo) (key : Int32) : List Rid := (info.intRidMap.lookup key.toInt).getD []

/-- An index scan and the heap it reads: `rids_` and `cursor_`. -/
structure IndexScan where
  heap : TableHeap
  rids : List Rid := []
  cursor : ℕ := 0

namespace IndexScan

def onHeap : Part IndexScan TableHeap := ⟨IndexScan.heap, fun s heap => { s with heap }, fun _ _ => rfl⟩

variable {F : Type} [StoresFloat F] [Field F] [LinearOrder F]

/-- `IndexScanExecutor::Init`; `none` is an index that is no longer in the catalog. -/
def init (index : Option IndexInfo) (lookupKey : Option (Expression F)) (_rounds : ℕ) :
    Code String IndexScan Unit := do
  modify fun s => { s with rids := [], cursor := 0 }
  match index with
  | none => return ()
  | some info =>
    if !info.supportsPointLookup then return ()
    else
      match lookupKey with
      | some (.constantValue value) =>
        let key ← Code.lift value.getAsInteger
        modify fun s => { s with rids := info.lookupInteger key }
      | _ => return ()

/-- `IndexScanExecutor::Next`. -/
def next (schema : Schema) (predicate : Option (Expression F)) : ℕ → Code String IndexScan (Option Tuple)
  | 0 => fun _ => none
  | rounds + 1 => do
    let s ← get
    match s.rids[s.cursor]? with
    | none => return none
    | some currentRid =>
      modify fun s => { s with cursor := s.cursor + 1 }
      let tuple ← onHeap.on (TableHeap.getTuple currentRid)
      if ← Code.lift (Expression.holdsOn predicate schema tuple) then
        return some (← Code.lift (tuple.populated schema))
      else next schema predicate rounds

/-- `IndexScanExecutor`. -/
def executor (schema : Schema) (index : Option IndexInfo) (lookupKey : Option (Expression F))
    (predicate : Option (Expression F)) : TableExecutor IndexScan where
  init := init index lookupKey
  next := next schema predicate

end IndexScan

/-- `ExecutionEngine::Execute` on the plan of a scan: the tuples with their RIDs. Other nodes are not modelled here. -/
def PlanNode.executeScan {F : Type} [StoresFloat F] [Field F] [LinearOrder F] (catalog : Catalog)
    (heaps : TableOid → TableHeap) (rounds : ℕ) : PlanNode F → Option (Except String (List Tuple))
  | seqScan tableOid predicate => do
    let tableInfo ← catalog.getTableByOid tableOid
    let out ← (TableScan.executor tableInfo.schema predicate).execute rounds { heap := heaps tableOid }
    return out.1
  | indexScan indexOid tableOid lookupKey predicate => do
    let tableInfo ← catalog.getTableByOid tableOid
    let out ← (IndexScan.executor tableInfo.schema (catalog.getIndexByOid indexOid) lookupKey
        predicate).execute rounds
      { heap := heaps tableOid }
    return out.1
  | _ => none

/-- The key that `InsertExecutor` and `DeleteExecutor` build for an index and then drop. -/
def IndexInfo.keyTuple (info : IndexInfo) (schema : Schema) (tuple : Tuple) : Except String Unit := do
  let keyValues ← info.keyAttrs.mapM (tuple.column schema)
  let _ ← Tuple.ofValues keyValues
  return ()

/-- The table that a modification is about: its schema, its indexes, and its heap in the state of the child. -/
structure TargetTable (σ : Type) where
  schema : Schema
  indexes : List IndexInfo
  heap : Part σ TableHeap

variable {σ : Type}

/-- The tuple of the number of rows, an `int`. -/
def countTuple (count : Int32) : Except String Tuple := Tuple.ofValues [.integer count]

/-- `Init` of the executors that modify a table. The field is `has_inserted_`, `has_deleted_` or `has_updated_`. -/
def initModify (child : TableExecutor σ) (rounds : ℕ) : Code String (OneChild σ Bool) Unit := do
  onChild.on (child.init rounds)
  onFields.on (modify fun _ => false)

/-- `Next` of the executors that modify a table; they differ in what they do to a row. -/
def nextModify (child : TableExecutor σ) (modifyRow : Int32 → Tuple → Code String (OneChild σ Bool) Int32)
    (rounds : ℕ) :
    Code String (OneChild σ Bool) (Option Tuple) := do
  if (← get).fields then return none
  else
    onFields.on (modify fun _ => true)
    let count ← whileNext (onChild.on (child.next rounds)) modifyRow rounds 0
    return some (← Code.lift (countTuple count))

namespace InsertExecutor

/-- A row that `InsertTuple` refuses is passed over. -/
def insertRow (table : TargetTable σ) (rounds : ℕ) (count : Int32) (childTuple : Tuple) :
    Code String (OneChild σ Bool) Int32 := do
  match ← onChild.on (table.heap.on (heapCode (TableHeap.insertTuple rounds childTuple))) with
  | none => return count
  | some _ =>
    table.indexes.forM fun info => Code.lift (info.keyTuple table.schema childTuple)
    return count + 1

/-- `InsertExecutor`. -/
def executor (table : TargetTable σ) (child : TableExecutor σ) : TableExecutor (OneChild σ Bool) where
  init := initModify child
  next rounds := nextModify child (insertRow table rounds) rounds

end InsertExecutor

namespace DeleteExecutor

def deleteRow (table : TargetTable σ) (count : Int32) (childTuple : Tuple) : Code String (OneChild σ Bool) Int32 := do
  onChild.on (table.heap.on (heapCode (TableHeap.deleteTuple childTuple.rid)))
  table.indexes.forM fun info => Code.lift (info.keyTuple table.schema childTuple)
  return count + 1

/-- `DeleteExecutor`. -/
def executor (table : TargetTable σ) (child : TableExecutor σ) : TableExecutor (OneChild σ Bool) where
  init := initModify child
  next rounds := nextModify child (deleteRow table) rounds

end DeleteExecutor

namespace UpdateExecutor

variable {F : Type} [StoresFloat F] [Field F] [LinearOrder F]

/-- The tuple of the SET expressions. -/
def newTuple (schema : Schema) (updateExpressions : List (Expression F)) (childTuple : Tuple) :
    Except String Tuple := do
  let newValues ← updateExpressions.mapM fun e => e.evaluateOn schema childTuple
  Tuple.ofValues (newValues.map Value.toStored)

/-- The result of `UpdateTuple` is not looked at. -/
def updateRow (updateTuple : Rid → Tuple → Code String σ Bool) (schema : Schema)
    (updateExpressions : List (Expression F)) (count : Int32) (childTuple : Tuple) :
    Code String (OneChild σ Bool) Int32 := do
  let new ← Code.lift (newTuple schema updateExpressions childTuple)
  let _ ← onChild.on (updateTuple childTuple.rid new)
  return count + 1

/-- `UpdateExecutor`, with the `UpdateTuple` of the heap. -/
def executorBy (updateTuple : Rid → Tuple → Code String σ Bool) (schema : Schema)
    (updateExpressions : List (Expression F)) (child : TableExecutor σ) : TableExecutor (OneChild σ Bool) where
  init := initModify child
  next rounds := nextModify child (updateRow updateTuple schema updateExpressions) rounds

/-- `UpdateExecutor`. -/
def executor (table : TargetTable σ) (updateExpressions : List (Expression F)) (child : TableExecutor σ) :
    TableExecutor (OneChild σ Bool) :=
  executorBy (fun rid new => table.heap.on (heapCode (TableHeap.updateTuple rid new))) table.schema updateExpressions
    child

end UpdateExecutor

/-- A sequential scan with another table beside it in the same pool, by its first page. -/
structure ScanBeside where
  scan : TableScan
  firstPageId : PageId

namespace ScanBeside

def onScan : Part ScanBeside TableScan := ⟨ScanBeside.scan, fun s scan => { s with scan }, fun _ _ => rfl⟩

/-- The heap of the other table. -/
def onTarget : Part ScanBeside TableHeap where
  read s := { s.scan.heap with firstPageId := s.firstPageId }
  write s heap := {
    scan := { s.scan with heap := { heap with firstPageId := s.scan.heap.firstPageId } }
    firstPageId := heap.firstPageId }
  read_write _ _ := rfl

variable {F : Type} [StoresFloat F] [Field F] [LinearOrder F]

/-- The scan as the child of a statement on the other table. -/
def child (schema : Schema) (predicate : Option (Expression F)) : TableExecutor ScanBeside where
  init rounds := onScan.on (TableScan.init rounds)
  next rounds := onScan.on (TableScan.next schema predicate rounds)

end ScanBeside

/-- A sequential scan, and the calls of `UpdateTuple` on its heap with what they returned. -/
structure UpdateLedger where
  scan : TableScan
  calls : List (Rid × Bool)

namespace UpdateLedger

def onScan : Part UpdateLedger TableScan := ⟨UpdateLedger.scan, fun s scan => { s with scan }, fun _ _ => rfl⟩

/-- `UpdateTuple`, with what it does to the page, and its entry. -/
def updateTuple (updatePage : TablePage → ℕ → List UInt8 → TablePage × Bool) (rid : Rid) (new : Tuple) :
    Code String UpdateLedger Bool := do
  let success ← onScan.on (TableScan.onHeap.on (heapCode (TableHeap.updateTupleBy updatePage rid new)))
  modify fun s => { s with calls := s.calls ++ [(rid, success)] }
  return success

variable {F : Type} [StoresFloat F] [Field F] [LinearOrder F]

/-- The scan as the child of the `UPDATE`. -/
def child (schema : Schema) (predicate : Option (Expression F)) : TableExecutor UpdateLedger where
  init rounds := onScan.on (TableScan.init rounds)
  next rounds := onScan.on (TableScan.next schema predicate rounds)

end UpdateLedger

end OneBase
