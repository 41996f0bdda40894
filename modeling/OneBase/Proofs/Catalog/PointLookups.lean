import OneBase.Model.Optimizer
import OneBase.Proofs.Catalog.Integrity
import OneBase.ToMathlib.ExceptLoops

/-! # Indexes of stored rows

An index that supports point lookups lists, key by key, the RIDs of the rows of its table in the order of a scan. CREATE
INDEX makes it so, and no other statement that changes the catalog breaks it.
-/

namespace OneBase

open ExceptLoops

variable {F : Type}

/-- `int_rid_map_` lists these pairs, key by key. -/
def IndexInfo.Lists (info : IndexInfo) (keys : List (ℤ × Rid)) : Prop :=
  ∀ key, (info.intRidMap.lookup key).getD [] = (keys.filter (·.1 = key)).map Prod.snd

namespace IndexInfo

variable {info : IndexInfo} {keys : List (ℤ × Rid)}

theorem lookup_insertEntry (info : IndexInfo) (entry : ℤ × Rid) (key : ℤ) :
    ((info.insertEntry entry.1 entry.2).intRidMap.lookup key).getD [] =
      (info.intRidMap.lookup key).getD [] ++ (if entry.1 = key then [entry.2] else []) := by
  rcases eq_or_ne key entry.1 with rfl | other
  · rw [insertEntry, AList.lookup_insert, if_pos rfl]
    rfl
  · rw [insertEntry, AList.lookup_insert_ne other, if_neg other.symm, List.append_nil]

theorem lists_empty (empty : info.intRidMap = ∅) : info.Lists [] := by
  intro key
  rw [empty, AList.lookup_empty]
  rfl

theorem Lists.insertEntry (lists : info.Lists keys) (entry : ℤ × Rid) :
    (info.insertEntry entry.1 entry.2).Lists (keys ++ [entry]) := by
  intro key
  rw [lookup_insertEntry, lists key, List.filter_append, List.map_append, List.filter_singleton]
  rcases eq_or_ne entry.1 key with rfl | other
  · simp
  · simp [other]

theorem Lists.foldl (lists : info.Lists keys) (entries : List (ℤ × Rid)) :
    (entries.foldl (fun info entry => info.insertEntry entry.1 entry.2) info).Lists (keys ++ entries) := by
  induction entries generalizing info keys with
  | nil => rwa [List.append_nil]
  | cons entry entries ih =>
    rw [List.append_cons]
    exact ih (lists.insertEntry entry)

end IndexInfo

namespace Catalog

variable {schema : Schema} {blank info : IndexInfo} {keys : Except String (List (ℤ × Rid))}

/-- An index that supports point lookups is on one INTEGER column, and lists the keys that were read. -/
theorem buildIndex_lists (built : buildIndex schema blank keys = .ok info) (empty : blank.intRidMap = ∅)
    (plain : blank.supportsPointLookup = false) (supports : info.supportsPointLookup = true) :
    ∃ attr read, info.keyAttrs = [attr] ∧ (schema.columns[attr]?).map Column.typeId = some .integer ∧
      keys = .ok read ∧ info.Lists read := by
  rw [buildIndex] at built
  split_ifs at built with single
  · obtain ⟨attr, attrs⟩ := List.length_eq_one_iff.mp single.1
    cases keys with
    | error message => cases built
    | ok read =>
      obtain ⟨entries, filled⟩ := foldl_insertEntry { blank with supportsPointLookup := true } read
      have none : IndexInfo.Lists { blank with supportsPointLookup := true } [] := IndexInfo.lists_empty empty
      have lists := none.foldl read
      refine ⟨attr, read, ?_, ?_, rfl, ?_⟩
      · rw [← Except.ok.inj built]
        exact (congrArg IndexInfo.keyAttrs filled).trans attrs
      · simpa [attrs] using single.2
      · rw [← Except.ok.inj built]
        exact lists
  · rw [← Except.ok.inj built, plain] at supports
    cases supports

/-- What a new index is built from. -/
theorem createIndex_built {catalog catalog' : Catalog} {indexName tableName : String} {keyAttrs : List ℕ}
    {info : IndexInfo} {keys : Except String (List (ℤ × Rid))}
    (created : catalog.createIndex indexName tableName keyAttrs keys = (catalog', .ok (some info))) :
    ∃ tableInfo columns, catalog.getTable tableName = .ok (some tableInfo) ∧
      buildIndex tableInfo.schema ⟨Schema.new columns, indexName, tableName, catalog.nextIndexOid,
        keyAttrs, false, ∅⟩
        keys = .ok info := by
  rw [createIndex] at created
  split at created
  · cases created
  · cases created
  · rename_i tableInfo table
    split_ifs at created
    · cases created
    · split at created
      · cases created
      · cases created
      · split at created
        · cases created
        · rename_i columns found
          dsimp only at created
          split at created
          · cases created
          · rename_i built
            cases created
            exact ⟨tableInfo, columns, table, built⟩

/-- The indexes of a table are those that are listed under its name. -/
theorem Integral.mem_getTableIndexes {catalog : Catalog} (integral : catalog.Integral) {tableName : String}
    {infos : List IndexInfo} (found : catalog.getTableIndexes tableName = .ok infos) {info : IndexInfo}
    (mem : info ∈ infos) :
    info.tableName = tableName ∧ catalog.getIndexByOid info.oid = some info := by
  rw [getTableIndexes] at found
  cases names : catalog.indexNames.lookup tableName with
  | none =>
    rw [names] at found
    cases found
    cases mem
  | some inner =>
    rw [names] at found
    obtain ⟨entry, mem, here⟩ := exists_of_mem_mapM found mem
    have named : namedOid catalog.indexNames tableName entry.1 = some entry.2 := by
      rw [namedOid, names, Option.bind_some]
      exact AList.mem_lookup_iff.mpr mem
    obtain ⟨info', listed, table, -⟩ := integral.indexNamed tableName entry.1 entry.2 named
    rw [atKey, listed] at here
    cases here
    exact ⟨table, (integral.indexListed _ _ listed).1 ▸ listed⟩

end Catalog

/-- Every index that supports point lookups is on one INTEGER column of its table and lists the keys of the rows that
are stored. -/
def Catalog.Lists (catalog : Catalog) (rows : StoredRows F) : Prop :=
  ∀ oid info, catalog.indexes.lookup oid = some info → info.supportsPointLookup = true →
    ∃ tableInfo attr keys, catalog.getTable info.tableName = .ok (some tableInfo) ∧ info.keyAttrs = [attr] ∧
      (tableInfo.schema.columns[attr]?).map Column.typeId = some .integer ∧
      indexKeys attr (rows tableInfo.oid) = .ok keys ∧ info.Lists keys

/-! ## Histories of statements -/

namespace Catalog

variable {catalog catalog' : Catalog} {rows : StoredRows F}

theorem getTable_eq_some_iff {name : String} {info : TableInfo} : catalog.getTable name = .ok (some info) ↔
    ∃ oid, catalog.tableNames.lookup name = some oid ∧ catalog.tables.lookup oid = some info := by
  constructor
  · intro found
    rw [getTable] at found
    cases named : catalog.tableNames.lookup name with
    | none =>
      rw [named] at found
      cases found
    | some oid =>
      rw [named] at found
      cases listed : catalog.tables.lookup oid with
      | none =>
        simp only [atKey, listed] at found
        cases found
      | some info' =>
        simp only [atKey, listed] at found
        cases found
        exact ⟨oid, rfl, listed⟩
  · rintro ⟨oid, named, listed⟩
    exact getTable_eq_some named listed

/-- Indexes stay right when there are no more of them and their tables stay. -/
theorem Lists.mono (lists : catalog.Lists rows)
    (indexes : ∀ oid info, catalog'.indexes.lookup oid = some info → catalog.indexes.lookup oid = some info)
    (tables : ∀ name info, catalog.getTable name = .ok (some info) → catalog'.getTable name = .ok (some info)) :
    catalog'.Lists rows := by
  intro oid info listed supports
  obtain ⟨tableInfo, attr, keys, table, rest⟩ := lists oid info (indexes oid info listed) supports
  exact ⟨tableInfo, attr, keys, tables _ _ table, rest⟩

end Catalog

namespace CatalogHistory

open Catalog

variable {rows : StoredRows F} {history : CatalogHistory}

/-- What one statement preserves. -/
theorem Sound.stepOn (sound : history.Sound) (lists : history.catalog.Lists rows) {statement : Ddl}
    (few : (history.stepOn rows statement).Few) : (history.stepOn rows statement).catalog.Lists rows := by
  cases statement with
  | createTable tableName schema heap =>
    simp only [CatalogHistory.stepOn, Ddl.call, CatalogHistory.step, catalog_record] at few ⊢
    rcases createTable_cases history.catalog tableName schema heap with
      same | ⟨exception, thrown⟩ | ⟨free, created⟩
    · rwa [same]
    · rw [thrown]
      exact lists
    · rw [created] at few ⊢
      have below : history.tableDraws < 2 ^ 32 := by
        have bound := few.1
        simp only [tableDraws_record, CatalogResult.drewTable, if_true] at bound
        omega
      refine lists.mono (fun _ _ listed => listed) fun name info table => ?_
      obtain ⟨oid, named, listed⟩ := getTable_eq_some_iff.mp table
      refine getTable_eq_some_iff.mpr ⟨oid, ?_, ?_⟩
      · rw [← named]
        apply AList.lookup_insert_ne
        rintro rfl
        cases free.symm.trans named
      · rw [← listed]
        apply AList.lookup_insert_ne
        rintro rfl
        exact sound.tables.fresh below (sound.tablesIssued _ info listed)
  | createIndex indexName tableName keyAttrs =>
    simp only [CatalogHistory.stepOn, Ddl.call, CatalogHistory.step, catalog_record]
    generalize readKeys : history.catalog.keysFor rows tableName keyAttrs = keys
    rcases createIndex_cases history.catalog indexName tableName keyAttrs keys with
      ⟨exception, thrown⟩ | same | ⟨exception, thrown⟩ | ⟨tableInfo, info, table, -, -, rfl, -, -, created⟩
    · rcases thrown with thrown | thrown
      · obtain ⟨found, ok⟩ := sound.integral.getTable_ok tableName
        cases thrown.symm.trans ok
      · obtain ⟨found, ok⟩ := sound.integral.getIndex_ok indexName tableName
        cases thrown.symm.trans ok
    · rwa [same]
    · rw [thrown]
      exact lists
    · obtain ⟨tableInfo', columns, table', built⟩ := createIndex_built created
      obtain rfl : tableInfo' = tableInfo := by
        rw [table] at table'
        exact (Option.some.inj (Except.ok.inj table')).symm
      rw [created]
      intro oid info' listed supports
      rcases lookup_insert_cases listed with rfl | old
      · cases (AList.lookup_insert _).symm.trans listed
        obtain ⟨attr, read, attrs, integer, rfl, listsRead⟩ := buildIndex_lists built rfl rfl supports
        obtain ⟨_, _, same⟩ := buildIndex_ok built
        obtain rfl : keyAttrs = [attr] := by
          rw [← attrs, same]
        rw [keysFor.eq_def, table'] at readKeys
        exact ⟨tableInfo', attr, read, table, attrs, integer, readKeys, listsRead⟩
      · exact lists oid info' old supports
  | dropIndex indexName tableName =>
    simp only [CatalogHistory.stepOn, Ddl.call, CatalogHistory.step, catalog_record]
    rcases dropIndex_cases history.catalog indexName tableName with ⟨-, same⟩ | ⟨oid, names, named, dropped, -⟩
    · rwa [same]
    · rw [dropped]
      refine lists.mono (fun oid' info listed => ?_) fun _ _ table => table
      rw [← listed]
      apply (AList.lookup_erase_ne _).symm
      rintro rfl
      cases (AList.lookup_erase _ _).symm.trans listed

/-- After any statements every index is right. -/
theorem lists_run (rows : StoredRows F) (statements : List Ddl)
    (few : (statements.foldl (CatalogHistory.stepOn rows) {}).Few) :
    (statements.foldl (CatalogHistory.stepOn rows) {}).Sound ∧
      (statements.foldl (CatalogHistory.stepOn rows) {}).catalog.Lists rows := by
  induction statements using List.reverseRecOn with
  | nil => exact ⟨sound_empty, fun _ _ listed => by cases listed⟩
  | append_singleton statements statement ih =>
    rw [List.foldl_append] at few ⊢
    obtain ⟨sound, lists⟩ := ih (few_of_step few)
    exact ⟨sound.step few, sound.stepOn lists few⟩

end CatalogHistory

end OneBase
