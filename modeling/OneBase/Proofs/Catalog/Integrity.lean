import Mathlib.Tactic.Common
import OneBase.Model.Catalog

/-! # Integrity of the catalog

The four maps agree after every history of calls: names and oids of tables, and the two levels of names and
the oids of indexes. Everything rests on oids not coming back, which `uint32_t` counters grant for the first
`2 ^ 32` of them; the one after that overwrites what the first one stands for.
-/

namespace OneBase

namespace Catalog

variable {catalog : Catalog}

/-- The oid under which a nested name map has an index. -/
def namedOid (names : AList fun _ : String => AList fun _ : String => IndexOid) (tableName indexName : String) :
    Option IndexOid :=
  (names.lookup tableName).bind fun inner => inner.lookup indexName

theorem namedOid_insert (names : AList fun _ : String => AList fun _ : String => IndexOid)
    (tableName indexName : String) (oid : IndexOid) (tableName' indexName' : String) :
    namedOid (names.insert tableName (((names.lookup tableName).getD ∅).insert indexName oid)) tableName' indexName' =
      if tableName' = tableName ∧ indexName' = indexName then some oid else namedOid names tableName' indexName' := by
  by_cases table : tableName' = tableName
  · subst table
    rw [namedOid, AList.lookup_insert, Option.bind_some]
    by_cases index : indexName' = indexName
    · subst index
      rw [AList.lookup_insert, if_pos ⟨rfl, rfl⟩]
    · rw [AList.lookup_insert_ne index, if_neg fun both => index both.2, namedOid]
      cases names.lookup tableName' with
      | none => exact AList.lookup_empty _
      | some inner => rfl
  · rw [namedOid, AList.lookup_insert_ne table, if_neg fun both => table both.1, namedOid]

theorem namedOid_drop {names : AList fun _ : String => AList fun _ : String => IndexOid} {tableName : String}
    {inner : AList fun _ : String => IndexOid} (found : names.lookup tableName = some inner)
    (indexName tableName' indexName' : String) :
    namedOid (if (inner.erase indexName).entries.isEmpty then names.erase tableName
      else names.insert tableName (inner.erase indexName)) tableName' indexName' =
      if tableName' = tableName ∧ indexName' = indexName then none else namedOid names tableName' indexName' := by
  by_cases table : tableName' = tableName
  · subst table
    have left : namedOid (if (inner.erase indexName).entries.isEmpty then names.erase tableName'
        else names.insert tableName' (inner.erase indexName)) tableName' indexName' =
        (inner.erase indexName).lookup indexName' := by
      split_ifs with empty
      · have nothing : inner.erase indexName = ∅ := AList.ext (by simpa using empty)
        rw [namedOid, AList.lookup_erase, nothing, AList.lookup_empty, Option.bind_none]
      · rw [namedOid, AList.lookup_insert, Option.bind_some]
    rw [left]
    by_cases index : indexName' = indexName
    · subst index
      rw [AList.lookup_erase, if_pos ⟨rfl, rfl⟩]
    · rw [AList.lookup_erase_ne index, if_neg fun both => index both.2, namedOid, found, Option.bind_some]
  · have apart : ¬ (tableName' = tableName ∧ indexName' = indexName) := fun both => table both.1
    rw [if_neg apart, namedOid, namedOid]
    cases (inner.erase indexName).entries.isEmpty with
    | true => rw [if_pos rfl, AList.lookup_erase_ne table]
    | false => rw [if_neg Bool.false_ne_true, AList.lookup_insert_ne table]

/-! ## What each call can do -/

theorem createTable_cases (catalog : Catalog) (tableName : String) (schema : Schema) (heap : Except String Unit) :
    catalog.createTable tableName schema heap = (catalog, .ok none) ∨
    (∃ exception, catalog.createTable tableName schema heap =
      ({ catalog with nextTableOid := (catalog.nextTableOid + 1) % 2 ^ 32 }, .error exception)) ∨
    (catalog.tableNames.lookup tableName = none ∧
      catalog.createTable tableName schema heap =
        ({ catalog with
          nextTableOid := (catalog.nextTableOid + 1) % 2 ^ 32
          tables := catalog.tables.insert catalog.nextTableOid ⟨schema, tableName, catalog.nextTableOid⟩
          tableNames := catalog.tableNames.insert tableName catalog.nextTableOid },
          .ok (some ⟨schema, tableName, catalog.nextTableOid⟩))) := by
  rw [createTable]
  cases free : catalog.tableNames.lookup tableName with
  | some oid => exact .inl rfl
  | none =>
    cases heap with
    | error exception => exact .inr (.inl ⟨exception, rfl⟩)
    | ok => exact .inr (.inr ⟨rfl, rfl⟩)

theorem keyColumns_valid {schema : Schema} {keyAttrs : List ℕ} {columns : List Column}
    (found : keyColumns schema keyAttrs = some columns) : ∀ attr ∈ keyAttrs, attr < schema.columns.length := by
  induction keyAttrs generalizing columns with
  | nil => simp
  | cons attr rest ih =>
    rw [keyColumns] at found
    split_ifs at found with bad
    simp only [Option.bind_eq_bind, Option.bind_eq_some_iff, pure, Option.some.injEq] at found
    obtain ⟨column, here, others, there, -⟩ := found
    intro attr' member
    rcases List.mem_cons.mp member with rfl | member
    · exact (List.getElem?_eq_some_iff.mp here).1
    · exact ih there attr' member

/-- Entries change `int_rid_map_` and nothing else. -/
theorem foldl_insertEntry (info : IndexInfo) (rows : List (ℤ × Rid)) :
    ∃ entries, rows.foldl (fun info row => info.insertEntry row.1 row.2) info =
      { info with intRidMap := entries } := by
  induction rows generalizing info with
  | nil => exact ⟨_, rfl⟩
  | cons row rest ih => exact ih (info.insertEntry row.1 row.2)

theorem buildIndex_ok {schema : Schema} {info indexInfo : IndexInfo} {rows : Except String (List (ℤ × Rid))}
    (built : buildIndex schema info rows = .ok indexInfo) :
    ∃ lookups entries, indexInfo = { info with supportsPointLookup := lookups, intRidMap := entries } := by
  rw [buildIndex] at built
  split_ifs at built
  · cases rows with
    | error exception => cases built
    | ok rows =>
      obtain ⟨entries, filled⟩ := foldl_insertEntry { info with supportsPointLookup := true } rows
      refine ⟨true, entries, ?_⟩
      rw [← Except.ok.inj built]
      exact filled
  · cases built
    exact ⟨_, _, rfl⟩

/-- The catalog after a new index. -/
def withIndex (catalog : Catalog) (info : IndexInfo) : Catalog :=
  { catalog with
    nextIndexOid := (catalog.nextIndexOid + 1) % 2 ^ 32
    indexes := catalog.indexes.insert catalog.nextIndexOid info
    indexNames := catalog.indexNames.insert info.tableName
      (((catalog.indexNames.lookup info.tableName).getD ∅).insert info.name catalog.nextIndexOid) }

@[simp] theorem nextTableOid_withIndex (info : IndexInfo) :
    (catalog.withIndex info).nextTableOid = catalog.nextTableOid := rfl

@[simp] theorem nextIndexOid_withIndex (info : IndexInfo) :
    (catalog.withIndex info).nextIndexOid = (catalog.nextIndexOid + 1) % 2 ^ 32 := rfl

@[simp] theorem tables_withIndex (info : IndexInfo) : (catalog.withIndex info).tables = catalog.tables := rfl

theorem createIndex_cases (catalog : Catalog) (indexName tableName : String) (keyAttrs : List ℕ)
    (rows : Except String (List (ℤ × Rid))) :
    (∃ exception, catalog.getTable tableName = .error exception ∨
      catalog.getIndex indexName tableName = .error exception) ∨
    catalog.createIndex indexName tableName keyAttrs rows = (catalog, .ok none) ∨
    (∃ exception, catalog.createIndex indexName tableName keyAttrs rows =
      ({ catalog with nextIndexOid := (catalog.nextIndexOid + 1) % 2 ^ 32 }, .error exception)) ∨
    ∃ tableInfo info, catalog.getTable tableName = .ok (some tableInfo) ∧
      catalog.getIndex indexName tableName = .ok none ∧ info.name = indexName ∧ info.tableName = tableName ∧
      info.oid = catalog.nextIndexOid ∧ (∀ attr ∈ info.keyAttrs, attr < tableInfo.schema.columns.length) ∧
      catalog.createIndex indexName tableName keyAttrs rows = (catalog.withIndex info, .ok (some info)) := by
  rw [createIndex]
  cases table : catalog.getTable tableName with
  | error exception => exact .inl ⟨exception, .inl rfl⟩
  | ok found =>
    cases found with
    | none => exact .inr (.inl rfl)
    | some tableInfo =>
      dsimp only
      split_ifs with unnamed
      · exact .inr (.inl rfl)
      · cases index : catalog.getIndex indexName tableName with
        | error exception => exact .inl ⟨exception, .inr rfl⟩
        | ok found =>
          cases found with
          | some indexInfo => exact .inr (.inl rfl)
          | none =>
            cases key : keyColumns tableInfo.schema keyAttrs with
            | none => exact .inr (.inl rfl)
            | some columns =>
              dsimp only
              cases built : buildIndex tableInfo.schema
                  ⟨Schema.new columns, indexName, tableName, catalog.nextIndexOid, keyAttrs, false, ∅⟩ rows with
              | error exception => exact .inr (.inr (.inl ⟨exception, rfl⟩))
              | ok info =>
                obtain ⟨lookups, entries, rfl⟩ := buildIndex_ok built
                exact .inr (.inr (.inr ⟨tableInfo, _, rfl, rfl, rfl, rfl, rfl, keyColumns_valid key, rfl⟩))

theorem dropIndex_cases (catalog : Catalog) (indexName tableName : String) :
    (namedOid catalog.indexNames tableName indexName = none ∧
      catalog.dropIndex indexName tableName = (catalog, false)) ∨
    ∃ oid names, namedOid catalog.indexNames tableName indexName = some oid ∧
      catalog.dropIndex indexName tableName =
        ({ catalog with indexes := catalog.indexes.erase oid, indexNames := names }, true) ∧
      ∀ tableName' indexName', namedOid names tableName' indexName' =
        if tableName' = tableName ∧ indexName' = indexName then none
        else namedOid catalog.indexNames tableName' indexName' := by
  rw [dropIndex]
  cases found : catalog.indexNames.lookup tableName with
  | none => exact .inl ⟨by rw [namedOid, found, Option.bind_none], rfl⟩
  | some inner =>
    have same : namedOid catalog.indexNames tableName indexName = inner.lookup indexName := by
      rw [namedOid, found, Option.bind_some]
    rw [same]
    cases named : inner.lookup indexName with
    | none =>
      dsimp only
      rw [named]
      exact .inl ⟨rfl, rfl⟩
    | some oid =>
      dsimp only
      rw [named]
      exact .inr ⟨oid, _, rfl, rfl, fun tableName' indexName' =>
        namedOid_drop found indexName tableName' indexName'⟩

/-! ## The invariant -/

/-- The maps agree with each other. -/
structure Integral (catalog : Catalog) : Prop where
  named : ∀ name oid, catalog.tableNames.lookup name = some oid →
    ∃ info, catalog.tables.lookup oid = some info ∧ info.name = name
  listed : ∀ oid info, catalog.tables.lookup oid = some info →
    info.oid = oid ∧ catalog.tableNames.lookup info.name = some oid
  indexNamed : ∀ tableName indexName oid, namedOid catalog.indexNames tableName indexName = some oid →
    ∃ info, catalog.indexes.lookup oid = some info ∧ info.tableName = tableName ∧ info.name = indexName
  indexListed : ∀ oid info, catalog.indexes.lookup oid = some info →
    info.oid = oid ∧ namedOid catalog.indexNames info.tableName info.name = some oid ∧
      ∃ tableOid tableInfo, catalog.tableNames.lookup info.tableName = some tableOid ∧
        catalog.tables.lookup tableOid = some tableInfo ∧
          ∀ attr ∈ info.keyAttrs, attr < tableInfo.schema.columns.length

theorem integral_empty : ({} : Catalog).Integral := by
  constructor <;> simp [namedOid]

section Lookups

theorem getTable_eq_some {name : String} {oid : TableOid} {info : TableInfo}
    (named : catalog.tableNames.lookup name = some oid) (listed : catalog.tables.lookup oid = some info) :
    catalog.getTable name = .ok (some info) := by
  rw [getTable, named]
  simp only [atKey, listed, Except.map]

theorem getIndex_eq_none {tableName indexName : String}
    (unnamed : namedOid catalog.indexNames tableName indexName = none) :
    catalog.getIndex indexName tableName = .ok none := by
  rw [getIndex]
  rw [namedOid] at unnamed
  cases found : catalog.indexNames.lookup tableName with
  | none => rfl
  | some inner =>
    rw [found, Option.bind_some] at unnamed
    simp only [unnamed]

theorem getIndex_eq_some {tableName indexName : String} {oid : IndexOid} {info : IndexInfo}
    (named : namedOid catalog.indexNames tableName indexName = some oid)
    (listed : catalog.indexes.lookup oid = some info) :
    catalog.getIndex indexName tableName = .ok (some info) := by
  rw [getIndex]
  rw [namedOid] at named
  cases found : catalog.indexNames.lookup tableName with
  | none =>
    rw [found] at named
    cases named
  | some inner =>
    rw [found, Option.bind_some] at named
    simp only [named, atKey, listed, Except.map]

namespace Integral

variable (integral : catalog.Integral)

include integral

theorem getTable_ok (name : String) : ∃ found, catalog.getTable name = .ok found := by
  cases named : catalog.tableNames.lookup name with
  | none =>
    rw [getTable, named]
    exact ⟨none, rfl⟩
  | some oid =>
    obtain ⟨info, listed, -⟩ := integral.named name oid named
    exact ⟨some info, getTable_eq_some named listed⟩

theorem getIndex_ok (indexName tableName : String) : ∃ found, catalog.getIndex indexName tableName = .ok found := by
  cases named : namedOid catalog.indexNames tableName indexName with
  | none => exact ⟨none, getIndex_eq_none named⟩
  | some oid =>
    obtain ⟨info, listed, -⟩ := integral.indexNamed tableName indexName oid named
    exact ⟨some info, getIndex_eq_some named listed⟩

theorem getTableIndexes_ok (tableName : String) : ∃ infos, catalog.getTableIndexes tableName = .ok infos := by
  rw [getTableIndexes]
  cases found : catalog.indexNames.lookup tableName with
  | none => exact ⟨[], rfl⟩
  | some inner =>
    dsimp only
    have each : ∀ entry ∈ inner.entries, ∃ info, atKey catalog.indexes entry.2 = .ok info := by
      intro entry member
      have named : namedOid catalog.indexNames tableName entry.1 = some entry.2 := by
        rw [namedOid, found, Option.bind_some]
        exact AList.mem_lookup_iff.mpr member
      obtain ⟨info, listed, -⟩ := integral.indexNamed tableName entry.1 entry.2 named
      exact ⟨info, by simp only [atKey, listed]⟩
    generalize inner.entries = entries at each
    induction entries with
    | nil => exact ⟨[], rfl⟩
    | cons entry rest ih =>
      obtain ⟨info, here⟩ := each entry (List.mem_cons_self ..)
      obtain ⟨infos, there⟩ := ih fun other member => each other (List.mem_cons_of_mem _ member)
      refine ⟨info :: infos, ?_⟩
      rw [List.mapM_cons, here, there]
      rfl

/-- Lookup by name and lookup by oid of a table. -/
theorem getTable_iff (info : TableInfo) :
    catalog.getTable info.name = .ok (some info) ↔ catalog.getTableByOid info.oid = some info := by
  constructor
  · intro found
    cases named : catalog.tableNames.lookup info.name with
    | none =>
      rw [getTable, named] at found
      cases found
    | some oid =>
      obtain ⟨info', listed, -⟩ := integral.named info.name oid named
      rw [getTable_eq_some named listed] at found
      cases found
      rw [getTableByOid, (integral.listed oid _ listed).1]
      exact listed
  · intro found
    exact getTable_eq_some (integral.listed info.oid info found).2 found

/-- Lookup by name and lookup by oid of an index. -/
theorem getIndex_iff (info : IndexInfo) :
    catalog.getIndex info.name info.tableName = .ok (some info) ↔ catalog.getIndexByOid info.oid = some info := by
  constructor
  · intro found
    cases named : namedOid catalog.indexNames info.tableName info.name with
    | none =>
      rw [getIndex_eq_none named] at found
      cases found
    | some oid =>
      obtain ⟨info', listed, -⟩ := integral.indexNamed info.tableName info.name oid named
      rw [getIndex_eq_some named listed] at found
      cases found
      rw [getIndexByOid, (integral.indexListed oid _ listed).1]
      exact listed
  · intro found
    exact getIndex_eq_some (integral.indexListed info.oid info found).2.1 found

end Integral

end Lookups

namespace Integral

variable (integral : catalog.Integral)

include integral

theorem createTable {tableName : String} (free : catalog.tableNames.lookup tableName = none) {oid : TableOid}
    (fresh : catalog.tables.lookup oid = none) (schema : Schema) (next : TableOid) :
    ({ catalog with
      nextTableOid := next
      tables := catalog.tables.insert oid ⟨schema, tableName, oid⟩
      tableNames := catalog.tableNames.insert tableName oid } : Catalog).Integral := by
  have otherOid {oid' : TableOid} {info : TableInfo} (listed : catalog.tables.lookup oid' = some info) :
      oid' ≠ oid := by
    rintro rfl
    cases fresh.symm.trans listed
  have otherName {name : String} {oid' : TableOid} (named : catalog.tableNames.lookup name = some oid') :
      name ≠ tableName := by
    rintro rfl
    cases free.symm.trans named
  constructor
  · intro name oid' named
    by_cases new : name = tableName
    · subst new
      cases (AList.lookup_insert _).symm.trans named
      exact ⟨_, AList.lookup_insert _, rfl⟩
    · obtain ⟨info, listed, same⟩ := integral.named name oid' ((AList.lookup_insert_ne new).symm.trans named)
      exact ⟨info, (AList.lookup_insert_ne (otherOid listed)).trans listed, same⟩
  · intro oid' info listed
    by_cases new : oid' = oid
    · subst new
      cases (AList.lookup_insert _).symm.trans listed
      exact ⟨rfl, AList.lookup_insert _⟩
    · obtain ⟨same, named⟩ := integral.listed oid' info ((AList.lookup_insert_ne new).symm.trans listed)
      exact ⟨same, (AList.lookup_insert_ne (otherName named)).trans named⟩
  · exact integral.indexNamed
  · intro oid' info listed
    obtain ⟨same, named, tableOid, tableInfo, tableNamed, tableListed, valid⟩ :=
      integral.indexListed oid' info listed
    exact ⟨same, named, tableOid, tableInfo, (AList.lookup_insert_ne (otherName tableNamed)).trans tableNamed,
      (AList.lookup_insert_ne (otherOid tableListed)).trans tableListed, valid⟩

theorem withIndex {info : IndexInfo} {tableInfo : TableInfo} (same : info.oid = catalog.nextIndexOid)
    (table : catalog.getTable info.tableName = .ok (some tableInfo))
    (free : catalog.getIndex info.name info.tableName = .ok none)
    (valid : ∀ attr ∈ info.keyAttrs, attr < tableInfo.schema.columns.length)
    (fresh : catalog.indexes.lookup catalog.nextIndexOid = none) : (catalog.withIndex info).Integral := by
  have names (tableName indexName : String) : namedOid (catalog.withIndex info).indexNames tableName indexName =
      if tableName = info.tableName ∧ indexName = info.name then some catalog.nextIndexOid
      else namedOid catalog.indexNames tableName indexName := namedOid_insert ..
  have otherName {tableName indexName : String} {oid : IndexOid}
      (named : namedOid catalog.indexNames tableName indexName = some oid) :
      ¬ (tableName = info.tableName ∧ indexName = info.name) := by
    rintro ⟨rfl, rfl⟩
    obtain ⟨info', listed, -⟩ := integral.indexNamed _ _ oid named
    cases free.symm.trans (getIndex_eq_some named listed)
  have otherOid {oid : IndexOid} {info' : IndexInfo} (listed : catalog.indexes.lookup oid = some info') :
      oid ≠ catalog.nextIndexOid := by
    rintro rfl
    cases fresh.symm.trans listed
  constructor
  · exact integral.named
  · exact integral.listed
  · intro tableName indexName oid named
    rw [names] at named
    split_ifs at named with new
    · obtain ⟨rfl, rfl⟩ := new
      cases named
      exact ⟨info, AList.lookup_insert _, rfl, rfl⟩
    · obtain ⟨info', listed, match'⟩ := integral.indexNamed tableName indexName oid named
      exact ⟨info', (AList.lookup_insert_ne (otherOid listed)).trans listed, match'⟩
  · intro oid info' listed
    rw [names]
    by_cases new : oid = catalog.nextIndexOid
    · subst new
      cases (AList.lookup_insert _).symm.trans listed
      refine ⟨same, if_pos ⟨rfl, rfl⟩, ?_⟩
      cases named : catalog.tableNames.lookup info.tableName with
      | none =>
        rw [getTable, named] at table
        cases table
      | some tableOid =>
        obtain ⟨tableInfo', tableListed, -⟩ := integral.named _ tableOid named
        rw [getTable_eq_some named tableListed] at table
        cases table
        exact ⟨tableOid, tableInfo, named, tableListed, valid⟩
    · obtain ⟨same', named, rest⟩ :=
        integral.indexListed oid info' ((AList.lookup_insert_ne new).symm.trans listed)
      rw [if_neg (otherName named)]
      exact ⟨same', named, rest⟩

theorem dropIndex {indexName tableName : String} {oid : IndexOid}
    {names : AList fun _ : String => AList fun _ : String => IndexOid}
    (named : namedOid catalog.indexNames tableName indexName = some oid)
    (left : ∀ tableName' indexName', namedOid names tableName' indexName' =
      if tableName' = tableName ∧ indexName' = indexName then none
      else namedOid catalog.indexNames tableName' indexName') :
    ({ catalog with indexes := catalog.indexes.erase oid, indexNames := names } : Catalog).Integral := by
  obtain ⟨info, listed, rfl, rfl⟩ := integral.indexNamed tableName indexName oid named
  constructor
  · exact integral.named
  · exact integral.listed
  · intro tableName' indexName' oid' named'
    change namedOid names tableName' indexName' = some oid' at named'
    rw [left] at named'
    split_ifs at named' with gone
    obtain ⟨info', listed', rfl, rfl⟩ := integral.indexNamed tableName' indexName' oid' named'
    refine ⟨info', ?_, rfl, rfl⟩
    rw [← listed']
    apply AList.lookup_erase_ne
    rintro rfl
    cases listed.symm.trans listed'
    exact gone ⟨rfl, rfl⟩
  · intro oid' info' listed'
    have other : oid' ≠ oid := by
      rintro rfl
      cases (AList.lookup_erase _ _).symm.trans listed'
    obtain ⟨same, named', rest⟩ :=
      integral.indexListed oid' info' ((AList.lookup_erase_ne other).symm.trans listed')
    refine ⟨same, ?_, rest⟩
    change namedOid names info'.tableName info'.name = some oid'
    rw [left, if_neg, named']
    rintro ⟨table, index⟩
    rw [table, index, named] at named'
    exact other (Option.some.inj named').symm

end Integral

end Catalog

/-! ## Oids -/

/-- What a counter that started at one has given out: `draws` values in all, among them `oids`. -/
structure Issued (next draws : ℕ) (oids : List ℕ) : Prop where
  next_eq : next = (1 + draws) % 2 ^ 32
  distinct : oids.Nodup
  drawn : ∀ oid ∈ oids, ∃ earlier < draws, oid = (1 + earlier) % 2 ^ 32

theorem issued_zero : Issued 1 0 [] := ⟨rfl, List.nodup_nil, by simp⟩

namespace Issued

variable {next draws : ℕ} {oids : List ℕ} (issued : Issued next draws oids)

include issued

theorem fresh (few : draws < 2 ^ 32) : next ∉ oids := by
  intro member
  obtain ⟨earlier, before, same⟩ := issued.drawn next member
  have current := issued.next_eq
  omega

/-- A draw that comes to nothing. -/
theorem skip : Issued ((next + 1) % 2 ^ 32) (draws + 1) oids := by
  constructor
  · have current := issued.next_eq
    omega
  · exact issued.distinct
  · intro oid member
    obtain ⟨earlier, before, same⟩ := issued.drawn oid member
    exact ⟨earlier, by omega, same⟩

theorem draw (few : draws < 2 ^ 32) : Issued ((next + 1) % 2 ^ 32) (draws + 1) (oids ++ [next]) := by
  constructor
  · exact issued.skip.next_eq
  · apply List.nodup_append.mpr ⟨issued.distinct, List.nodup_singleton next, ?_⟩
    intro oid member last isLast
    rw [List.mem_singleton.mp isLast]
    rintro rfl
    exact issued.fresh few member
  · intro oid member
    rcases List.mem_append.mp member with member | member
    · exact issued.skip.drawn oid member
    · exact ⟨draws, Nat.lt_succ_self draws, (List.mem_singleton.mp member).trans issued.next_eq⟩

end Issued

namespace CatalogResult

/-- The call took an oid for a table, also if it then threw. -/
def drewTable : CatalogResult → Bool
  | table (.ok none) => false
  | table _ => true
  | _ => false

def drewIndex : CatalogResult → Bool
  | index (.ok none) => false
  | index _ => true
  | _ => false

def tableOid : CatalogResult → Option TableOid
  | table (.ok (some info)) => some info.oid
  | _ => none

def indexOid : CatalogResult → Option IndexOid
  | index (.ok (some info)) => some info.oid
  | _ => none

end CatalogResult

namespace CatalogHistory

open Catalog CatalogResult

def tableDraws (history : CatalogHistory) : ℕ := history.results.countP drewTable

def indexDraws (history : CatalogHistory) : ℕ := history.results.countP drewIndex

/-- The oids of the tables created so far. -/
def tableOids (history : CatalogHistory) : List TableOid := history.results.filterMap tableOid

def indexOids (history : CatalogHistory) : List IndexOid := history.results.filterMap indexOid

@[simp] theorem tableDraws_record (history : CatalogHistory) (catalog : Catalog) (result : CatalogResult) :
    (history.record catalog result).tableDraws = history.tableDraws + if result.drewTable then 1 else 0 := by
  simp [tableDraws, record, List.countP_cons]

@[simp] theorem indexDraws_record (history : CatalogHistory) (catalog : Catalog) (result : CatalogResult) :
    (history.record catalog result).indexDraws = history.indexDraws + if result.drewIndex then 1 else 0 := by
  simp [indexDraws, record, List.countP_cons]

@[simp] theorem tableOids_record (history : CatalogHistory) (catalog : Catalog) (result : CatalogResult) :
    (history.record catalog result).tableOids = history.tableOids ++ result.tableOid.toList := by
  cases found : result.tableOid <;> simp [tableOids, record, List.filterMap_append, found]

@[simp] theorem indexOids_record (history : CatalogHistory) (catalog : Catalog) (result : CatalogResult) :
    (history.record catalog result).indexOids = history.indexOids ++ result.indexOid.toList := by
  cases found : result.indexOid <;> simp [indexOids, record, List.filterMap_append, found]

@[simp] theorem catalog_record (history : CatalogHistory) (catalog : Catalog) (result : CatalogResult) :
    (history.record catalog result).catalog = catalog := rfl

/-- No counter came around. -/
def Few (history : CatalogHistory) : Prop := history.tableDraws ≤ 2 ^ 32 ∧ history.indexDraws ≤ 2 ^ 32

/-- The catalog agrees with itself and with the oids given out. -/
structure Sound (history : CatalogHistory) : Prop where
  integral : history.catalog.Integral
  tables : Issued history.catalog.nextTableOid history.tableDraws history.tableOids
  indexes : Issued history.catalog.nextIndexOid history.indexDraws history.indexOids
  tablesIssued : ∀ oid info, history.catalog.tables.lookup oid = some info → oid ∈ history.tableOids
  indexesIssued : ∀ oid info, history.catalog.indexes.lookup oid = some info → oid ∈ history.indexOids

theorem sound_empty : ({} : CatalogHistory).Sound := by
  constructor
  · exact integral_empty
  · exact issued_zero
  · exact issued_zero
  · rintro oid info ⟨⟩
  · rintro oid info ⟨⟩

variable {history : CatalogHistory}

theorem few_of_step {call : CatalogCall} (few : (history.step call).Few) : history.Few := by
  cases call <;> simp only [step, Few, tableDraws_record, indexDraws_record] at few <;> constructor <;> omega

/-- Any two keys of a grown map are old or the new one. -/
theorem lookup_insert_cases {κ ν : Type} [DecidableEq κ] {map : AList fun _ : κ => ν} {key key' : κ}
    {value value' : ν}
    (found : (map.insert key value).lookup key' = some value') : key' = key ∨ map.lookup key' = some value' := by
  by_cases same : key' = key
  · exact .inl same
  · exact .inr ((AList.lookup_insert_ne same).symm.trans found)

/-- What one call preserves. -/
theorem Sound.step (sound : history.Sound) {call : CatalogCall} (few : (history.step call).Few) :
    (history.step call).Sound := by
  obtain ⟨integral, tables, indexes, tablesIssued, indexesIssued⟩ := sound
  cases call with
  | createTable tableName schema heap =>
    simp only [CatalogHistory.step] at few ⊢
    rcases createTable_cases history.catalog tableName schema heap with
      same | ⟨exception, thrown⟩ | ⟨free, created⟩
    · rw [same]
      constructor <;> simpa [drewTable, drewIndex, tableOid, indexOid]
    · rw [thrown]
      constructor
      · exact ⟨integral.named, integral.listed, integral.indexNamed, integral.indexListed⟩
      · simpa [drewTable, tableOid] using tables.skip
      · simpa [drewIndex, indexOid] using indexes
      · simpa [tableOid] using tablesIssued
      · simpa [indexOid] using indexesIssued
    · rw [created] at few ⊢
      have below : history.tableDraws < 2 ^ 32 := by
        have bound := few.1
        simp only [tableDraws_record, drewTable, if_true] at bound
        omega
      have fresh : history.catalog.tables.lookup history.catalog.nextTableOid = none := by
        cases found : history.catalog.tables.lookup history.catalog.nextTableOid with
        | none => rfl
        | some info => cases tables.fresh below (tablesIssued _ info found)
      constructor
      · exact integral.createTable free fresh schema _
      · simpa [drewTable, tableOid] using tables.draw below
      · simpa [drewIndex, indexOid] using indexes
      · intro oid info found
        rw [tableOids_record]
        rcases lookup_insert_cases found with rfl | found
        · exact List.mem_append_right _ (List.mem_singleton_self _)
        · exact List.mem_append_left _ (tablesIssued oid info found)
      · simpa [indexOid] using indexesIssued
  | createIndex indexName tableName keyAttrs rows =>
    simp only [CatalogHistory.step] at few ⊢
    rcases createIndex_cases history.catalog indexName tableName keyAttrs rows with
      ⟨exception, thrown⟩ | same | ⟨exception, thrown⟩ | ⟨tableInfo, info, table, free, rfl, rfl, oid_eq,
        valid, created⟩
    · rcases thrown with thrown | thrown
      · obtain ⟨found, ok⟩ := integral.getTable_ok tableName
        cases thrown.symm.trans ok
      · obtain ⟨found, ok⟩ := integral.getIndex_ok indexName tableName
        cases thrown.symm.trans ok
    · rw [same]
      constructor <;> simpa [drewTable, drewIndex, tableOid, indexOid]
    · rw [thrown]
      constructor
      · exact ⟨integral.named, integral.listed, integral.indexNamed, integral.indexListed⟩
      · simpa [drewTable, tableOid] using tables
      · simpa [drewIndex, indexOid] using indexes.skip
      · simpa [tableOid] using tablesIssued
      · simpa [indexOid] using indexesIssued
    · rw [created] at few ⊢
      have below : history.indexDraws < 2 ^ 32 := by
        have bound := few.2
        simp only [indexDraws_record, drewIndex, if_true] at bound
        omega
      have fresh : history.catalog.indexes.lookup history.catalog.nextIndexOid = none := by
        cases found : history.catalog.indexes.lookup history.catalog.nextIndexOid with
        | none => rfl
        | some info => cases indexes.fresh below (indexesIssued _ info found)
      constructor
      · exact integral.withIndex oid_eq table free valid fresh
      · simpa [drewTable, tableOid] using tables
      · simpa [drewIndex, indexOid, oid_eq] using indexes.draw below
      · simpa [tableOid] using tablesIssued
      · intro oid info' found
        rw [indexOids_record]
        rcases lookup_insert_cases found with rfl | found
        · exact List.mem_append_right _ (by simp [indexOid, oid_eq])
        · exact List.mem_append_left _ (indexesIssued oid info' found)
  | dropIndex indexName tableName =>
    simp only [CatalogHistory.step]
    rcases dropIndex_cases history.catalog indexName tableName with
      ⟨-, same⟩ | ⟨oid, names, named, dropped, left⟩
    · rw [same]
      constructor <;> simpa [drewTable, drewIndex, tableOid, indexOid]
    · rw [dropped]
      constructor
      · exact integral.dropIndex named left
      · simpa [drewTable, tableOid] using tables
      · simpa [drewIndex, indexOid] using indexes
      · simpa [tableOid] using tablesIssued
      · intro oid' info found
        rw [indexOids_record]
        apply List.mem_append_left
        apply indexesIssued oid' info
        rw [← found]
        apply (AList.lookup_erase_ne _).symm
        rintro rfl
        cases (AList.lookup_erase _ _).symm.trans found

theorem sound_run (calls : List CatalogCall) (few : (calls.foldl CatalogHistory.step {}).Few) :
    (calls.foldl CatalogHistory.step {}).Sound := by
  induction calls using List.reverseRecOn with
  | nil => exact sound_empty
  | append_singleton calls call ih =>
    rw [List.foldl_append] at few ⊢
    exact (ih (few_of_step few)).step few

/-- While the counters have not come around, after every history of calls the maps agree, every index is reached by one
pair of names, no oid was given out twice, lookups by name do not throw and agree with those by oid, and a call that
returns `nullptr` or `false` changes nothing. -/
theorem run_integral (calls : List CatalogCall) (few : (calls.foldl CatalogHistory.step {}).Few) :
    let history := calls.foldl CatalogHistory.step {}
    let catalog := history.catalog
    catalog.Integral ∧
    (∀ oid info, catalog.indexes.lookup oid = some info →
      ∃! pair : String × String, namedOid catalog.indexNames pair.1 pair.2 = some oid) ∧
    (history.tableOids.Nodup ∧ history.indexOids.Nodup) ∧
    ((∀ tableName, ∃ found, catalog.getTable tableName = .ok found) ∧
      (∀ indexName tableName, ∃ found, catalog.getIndex indexName tableName = .ok found) ∧
      ∀ tableName, ∃ infos, catalog.getTableIndexes tableName = .ok infos) ∧
    ((∀ info, catalog.getTable info.name = .ok (some info) ↔ catalog.getTableByOid info.oid = some info) ∧
      ∀ info, catalog.getIndex info.name info.tableName = .ok (some info) ↔
        catalog.getIndexByOid info.oid = some info) ∧
    (∀ tableName schema heap, (catalog.createTable tableName schema heap).2 = .ok none →
      (catalog.createTable tableName schema heap).1 = catalog) ∧
    (∀ indexName tableName keyAttrs rows, (catalog.createIndex indexName tableName keyAttrs rows).2 = .ok none →
      (catalog.createIndex indexName tableName keyAttrs rows).1 = catalog) ∧
    ∀ indexName tableName, (catalog.dropIndex indexName tableName).2 = false →
      (catalog.dropIndex indexName tableName).1 = catalog := by
  obtain ⟨integral, tables, indexes, -, -⟩ := sound_run calls few
  refine ⟨integral, ?_, ⟨tables.distinct, indexes.distinct⟩,
    ⟨integral.getTable_ok, integral.getIndex_ok, integral.getTableIndexes_ok⟩,
    ⟨integral.getTable_iff, integral.getIndex_iff⟩, ?_, ?_, ?_⟩
  · intro oid info listed
    refine ⟨(info.tableName, info.name), (integral.indexListed oid info listed).2.1, ?_⟩
    rintro ⟨tableName, indexName⟩ named
    obtain ⟨info', listed', rfl, rfl⟩ := integral.indexNamed tableName indexName oid named
    cases listed.symm.trans listed'
    rfl
  · intro tableName schema heap rejected
    rcases createTable_cases _ tableName schema heap with same | ⟨exception, thrown⟩ | ⟨-, created⟩
    · rw [same]
    · rw [thrown] at rejected
      cases rejected
    · rw [created] at rejected
      cases rejected
  · intro indexName tableName keyAttrs rows rejected
    rcases createIndex_cases _ indexName tableName keyAttrs rows with
      ⟨exception, thrown⟩ | same | ⟨exception, thrown⟩ | ⟨_, _, -, -, -, -, -, -, created⟩
    · rcases thrown with thrown | thrown
      · obtain ⟨found, ok⟩ := integral.getTable_ok tableName
        cases thrown.symm.trans ok
      · obtain ⟨found, ok⟩ := integral.getIndex_ok indexName tableName
        cases thrown.symm.trans ok
    · rw [same]
    · rw [thrown] at rejected
      cases rejected
    · rw [created] at rejected
      cases rejected
  · intro indexName tableName rejected
    rcases dropIndex_cases _ indexName tableName with ⟨-, same⟩ | ⟨oid, names, -, dropped, -⟩
    · rw [same]
    · rw [dropped] at rejected
      cases rejected

/-! ## The counter that came around -/

section Wraparound

/-- A table with one column. -/
def users : Schema := Schema.new [Column.new "id" .integer 0]

def createUsers : CatalogCall := .createTable "users" users (.ok ())

def createOn (indexName : String) : CatalogCall := .createIndex indexName "users" [0] (.ok [])

/-- A table with two indexes, one of them dropped. -/
theorem run_integral_users :
    ([createUsers, createOn "a", createOn "b", .dropIndex "a" "users"].foldl CatalogHistory.step {}).catalog.Integral :=
  (run_integral [createUsers, createOn "a", createOn "b", .dropIndex "a" "users"] ⟨by decide, by decide⟩).1

theorem createOn_users {catalog : Catalog} (table : catalog.getTable "users" = .ok (some ⟨users, "users", 1⟩))
    {indexName : String} (named : indexName ≠ "") (free : namedOid catalog.indexNames "users" indexName = none) :
    ∃ info : IndexInfo, info.name = indexName ∧ info.tableName = "users" ∧ info.oid = catalog.nextIndexOid ∧
      catalog.createIndex indexName "users" [0] (.ok []) = (catalog.withIndex info, .ok (some info)) := by
  refine ⟨⟨Schema.new [⟨"id", .integer, 0, 0⟩], indexName, "users", catalog.nextIndexOid, [0], true, ∅⟩,
    rfl, rfl, rfl, ?_⟩
  have columns : keyColumns users [0] = some [⟨"id", .integer, 0, 0⟩] := rfl
  have noReason : ¬ (indexName = "" ∨ [0] = ([] : List ℕ)) := by simp [named]
  rw [createIndex, table]
  dsimp only
  rw [if_neg noReason, getIndex_eq_none free]
  dsimp only
  rw [columns]
  rfl

/-- One index stays and another one comes and goes. -/
structure Turning (next : IndexOid) (history : CatalogHistory) : Prop where
  next_eq : history.catalog.nextIndexOid = next
  table : history.catalog.getTable "users" = .ok (some ⟨users, "users", 1⟩)
  stays : namedOid history.catalog.indexNames "users" "a" = some 1
  free : namedOid history.catalog.indexNames "users" "b" = none
  given : 1 ∈ history.indexOids

theorem Turning.turn {next : IndexOid} (turning : Turning next history) :
    Turning ((next + 1) % 2 ^ 32) ((history.step (createOn "b")).step (.dropIndex "b" "users")) := by
  obtain ⟨info, name, tableName, -, created⟩ := createOn_users turning.table (by decide : "b" ≠ "") turning.free
  have names (indexName : String) : namedOid (history.catalog.withIndex info).indexNames "users" indexName =
      if indexName = "b" then some history.catalog.nextIndexOid
      else namedOid history.catalog.indexNames "users" indexName := by
    rw [withIndex, namedOid_insert, tableName, name]
    simp
  have stepped : history.step (createOn "b") = history.record (history.catalog.withIndex info)
      (.index (.ok (some info))) := by
    simp only [createOn, CatalogHistory.step, created]
  rw [stepped]
  simp only [CatalogHistory.step, catalog_record]
  rcases dropIndex_cases (history.catalog.withIndex info) "b" "users" with
    ⟨missing, -⟩ | ⟨oid, left, named, dropped, leftNames⟩
  · rw [names, if_pos rfl] at missing
    cases missing
  · rw [dropped]
    constructor
    · change (history.catalog.nextIndexOid + 1) % 2 ^ 32 = _
      rw [turning.next_eq]
    · exact turning.table
    · change namedOid left "users" "a" = _
      rw [leftNames, names]
      exact turning.stays
    · change namedOid left "users" "b" = _
      rw [leftNames]
      rfl
    · simp [turning.given]

/-- Many rounds in which the second index is created and dropped. -/
def turns (rounds : ℕ) : List CatalogCall :=
  (List.replicate rounds [createOn "b", .dropIndex "b" "users"]).flatten

theorem turning_turns (rounds : ℕ) :
    Turning ((2 + rounds) % 2 ^ 32) ((turns rounds).foldl step ([createUsers, createOn "a"].foldl step {})) := by
  induction rounds with
  | zero => exact ⟨rfl, rfl, rfl, rfl, by decide⟩
  | succ rounds ih =>
    have next : (2 + (rounds + 1)) % 2 ^ 32 = ((2 + rounds) % 2 ^ 32 + 1) % 2 ^ 32 := by omega
    rw [turns, List.replicate_succ', List.flatten_append, List.foldl_append, List.flatten_singleton, next]
    exact ih.turn

/-- After `2 ^ 32` indexes the counter is where it started and the next index takes the place of the first. -/
def comesAround : List CatalogCall := [createUsers, createOn "a"] ++ turns (2 ^ 32 - 1) ++ [createOn "b"]

theorem comesAround_broken :
    ¬ (comesAround.foldl step {}).catalog.Integral ∧ ¬ (comesAround.foldl step {}).indexOids.Nodup := by
  have turning : Turning 1 ((turns (2 ^ 32 - 1)).foldl step ([createUsers, createOn "a"].foldl step {})) :=
    turning_turns (2 ^ 32 - 1)
  rw [comesAround, List.foldl_append, List.foldl_append]
  generalize (turns (2 ^ 32 - 1)).foldl step ([createUsers, createOn "a"].foldl step {}) = history at turning ⊢
  obtain ⟨info, name, tableName, oid, created⟩ := createOn_users turning.table (by decide : "b" ≠ "") turning.free
  have stepped : [createOn "b"].foldl step history =
      history.record (history.catalog.withIndex info) (.index (.ok (some info))) := by
    simp only [createOn, List.foldl_cons, List.foldl_nil, CatalogHistory.step, created]
  rw [stepped]
  constructor
  · intro integral
    have first : namedOid (history.catalog.withIndex info).indexNames "users" "a" = some 1 := by
      rw [withIndex, namedOid_insert, tableName, name]
      exact turning.stays
    obtain ⟨info', listed, -, name'⟩ := integral.indexNamed "users" "a" 1 first
    have overwritten : (history.catalog.withIndex info).indexes.lookup 1 = some info := by
      rw [← turning.next_eq]
      exact AList.lookup_insert _
    cases overwritten.symm.trans listed
    rw [name] at name'
    exact absurd name' (by decide)
  · rw [indexOids_record]
    intro distinct
    apply (List.nodup_append.mp distinct).2.2 1 turning.given 1 _ rfl
    simp [indexOid, oid, turning.next_eq]

end Wraparound

end CatalogHistory

end OneBase
