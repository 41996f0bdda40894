import Mathlib.Data.List.AList
import OneBase.Model.Binder

/-! # The catalog

`catalog/catalog.cpp`. The four maps and the two counters of oids, which are `uint32_t`. What a call does
outside the catalog comes with the call: whether the constructor of `TableHeap` got its page, and the key and
RID of every row that a walk over the heap of the table reads. `.error` is an exception; `.at` on a map throws
where the key is missing.
-/

namespace OneBase

/-- `index_oid_t`. -/
abbrev IndexOid := ℕ

/-- `GetColumnCount`, a `uint32_t`. -/
def Schema.getColumnCount (schema : Schema) : ℕ := schema.columns.length % 2 ^ 32

/-- `IndexInfo`. -/
structure IndexInfo where
  keySchema : Schema
  name : String
  tableName : String
  oid : IndexOid
  keyAttrs : List ℕ
  supportsPointLookup : Bool := false
  intRidMap : AList fun _ : ℤ => List Rid := ∅

/-- `InsertEntry`. -/
def IndexInfo.insertEntry (info : IndexInfo) (key : ℤ) (rid : Rid) : IndexInfo :=
  { info with intRidMap := info.intRidMap.insert key ((info.intRidMap.lookup key).getD [] ++ [rid]) }

/-- `std::unordered_map::at`. -/
def atKey {κ ν : Type} [DecidableEq κ] (map : AList fun _ : κ => ν) (key : κ) : Except String ν :=
  match map.lookup key with
  | none => .error "unordered_map::at"
  | some value => .ok value

/-- `Catalog`. -/
structure Catalog where
  nextTableOid : TableOid := 1
  nextIndexOid : IndexOid := 1
  tables : AList fun _ : TableOid => TableInfo := ∅
  tableNames : AList fun _ : String => TableOid := ∅
  indexes : AList fun _ : IndexOid => IndexInfo := ∅
  indexNames : AList fun _ : String => AList fun _ : String => IndexOid := ∅

namespace Catalog

variable (catalog : Catalog)

/-- `CreateTable`; `none` is `nullptr`. -/
def createTable (tableName : String) (schema : Schema) (heap : Except String Unit) :
    Catalog × Except String (Option TableInfo) :=
  if (catalog.tableNames.lookup tableName).isSome then (catalog, .ok none)
  else
    let tableOid := catalog.nextTableOid
    let catalog := { catalog with nextTableOid := (tableOid + 1) % 2 ^ 32 }
    match heap with
    | .error exception => (catalog, .error exception)
    | .ok () =>
      let tableInfo : TableInfo := ⟨schema, tableName, tableOid⟩
      ({ catalog with
        tables := catalog.tables.insert tableOid tableInfo
        tableNames := catalog.tableNames.insert tableName tableOid }, .ok (some tableInfo))

/-- `GetTable` by name. -/
def getTable (tableName : String) : Except String (Option TableInfo) :=
  match catalog.tableNames.lookup tableName with
  | none => .ok none
  | some oid => (atKey catalog.tables oid).map some

/-- `GetTable` by oid. -/
def getTableByOid (oid : TableOid) : Option TableInfo := catalog.tables.lookup oid

/-- `GetIndex` by name. -/
def getIndex (indexName tableName : String) : Except String (Option IndexInfo) :=
  match catalog.indexNames.lookup tableName with
  | none => .ok none
  | some names =>
    match names.lookup indexName with
    | none => .ok none
    | some oid => (atKey catalog.indexes oid).map some

/-- `GetIndex` by oid. -/
def getIndexByOid (oid : IndexOid) : Option IndexInfo := catalog.indexes.lookup oid

/-- `GetTableIndexes`. -/
def getTableIndexes (tableName : String) : Except String (List IndexInfo) :=
  match catalog.indexNames.lookup tableName with
  | none => .ok []
  | some names => names.entries.mapM fun entry => atKey catalog.indexes entry.2

/-- The columns of the key; `none` is an attribute the table does not have. -/
def keyColumns (schema : Schema) : List ℕ → Option (List Column)
  | [] => some []
  | attr :: rest =>
    if schema.getColumnCount ≤ attr then none
    else do
      let column ← schema.columns[attr]?
      return column :: (← keyColumns schema rest)

/-- The new `IndexInfo`, filled from the rows of the table where it supports point lookups. -/
def buildIndex (schema : Schema) (info : IndexInfo) (rows : Except String (List (ℤ × Rid))) :
    Except String IndexInfo :=
  if info.keyAttrs.length = 1 ∧
      (info.keyAttrs.head?.bind fun attr => schema.columns[attr]?).map Column.typeId = some .integer then
    rows.map fun rows =>
      rows.foldl (fun info row => info.insertEntry row.1 row.2) { info with supportsPointLookup := true }
  else .ok info

/-- `CreateIndex`; `none` is `nullptr`. -/
def createIndex (indexName tableName : String) (keyAttrs : List ℕ) (rows : Except String (List (ℤ × Rid))) :
    Catalog × Except String (Option IndexInfo) :=
  match catalog.getTable tableName with
  | .error exception => (catalog, .error exception)
  | .ok none => (catalog, .ok none)
  | .ok (some tableInfo) =>
    if indexName = "" ∨ keyAttrs = [] then (catalog, .ok none)
    else
      match catalog.getIndex indexName tableName with
      | .error exception => (catalog, .error exception)
      | .ok (some _) => (catalog, .ok none)
      | .ok none =>
        match keyColumns tableInfo.schema keyAttrs with
        | none => (catalog, .ok none)
        | some columns =>
          let indexOid := catalog.nextIndexOid
          let catalog := { catalog with nextIndexOid := (indexOid + 1) % 2 ^ 32 }
          match buildIndex tableInfo.schema ⟨Schema.new columns, indexName, tableName, indexOid,
            keyAttrs, false, ∅⟩
              rows with
          | .error exception => (catalog, .error exception)
          | .ok indexInfo =>
            let names := (catalog.indexNames.lookup tableName).getD ∅
            ({ catalog with
              indexes := catalog.indexes.insert indexOid indexInfo
              indexNames := catalog.indexNames.insert tableName (names.insert indexName indexOid) },
              .ok (some indexInfo))

/-- `DropIndex`. -/
def dropIndex (indexName tableName : String) : Catalog × Bool :=
  match catalog.indexNames.lookup tableName with
  | none => (catalog, false)
  | some names =>
    match names.lookup indexName with
    | none => (catalog, false)
    | some oid =>
      let left := names.erase indexName
      ({ catalog with
        indexes := catalog.indexes.erase oid
        indexNames :=
          if left.entries.isEmpty then catalog.indexNames.erase tableName
          else catalog.indexNames.insert tableName left }, true)

end Catalog

/-! ## Histories -/

/-- A call with what happens outside the catalog. -/
inductive CatalogCall where
  | createTable (tableName : String) (schema : Schema) (heap : Except String Unit)
  | createIndex (indexName tableName : String) (keyAttrs : List ℕ) (rows : Except String (List (ℤ × Rid)))
  | dropIndex (indexName tableName : String)

/-- What a call returns. -/
inductive CatalogResult where
  | table (result : Except String (Option TableInfo))
  | index (result : Except String (Option IndexInfo))
  | dropped (result : Bool)

/-- A catalog and what the calls so far returned. -/
structure CatalogHistory where
  catalog : Catalog := {}
  results : List CatalogResult := []

namespace CatalogHistory

def record (history : CatalogHistory) (catalog : Catalog) (result : CatalogResult) : CatalogHistory :=
  ⟨catalog, history.results ++ [result]⟩

/-- One call. -/
def step (history : CatalogHistory) : CatalogCall → CatalogHistory
  | .createTable tableName schema heap =>
    let outcome := history.catalog.createTable tableName schema heap
    history.record outcome.1 (.table outcome.2)
  | .createIndex indexName tableName keyAttrs rows =>
    let outcome := history.catalog.createIndex indexName tableName keyAttrs rows
    history.record outcome.1 (.index outcome.2)
  | .dropIndex indexName tableName =>
    let outcome := history.catalog.dropIndex indexName tableName
    history.record outcome.1 (.dropped outcome.2)

end CatalogHistory

end OneBase
