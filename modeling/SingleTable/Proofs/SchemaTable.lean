import SingleTable.Proofs.Declarations
import SingleTable.Proofs.ModelQuery
import SingleTable.Proofs.StoreMap

set_option autoImplicit false

/-!
# The table of an accepted schema

The store makes a table of every accepted schema (`Schema.ofRequest_createRequest`): its keys and those
of its indexes are the declared ones, each with the type that all models give to the field. Hence the
table of a database can be dropped and created again in every state of the store
(`Database.table_of_build`).
-/

namespace SingleTable

/-! ## Attribute definitions -/

/-- The first occurrences are found one after the other: no name is kept twice, and none is lost. -/
theorem foldl_firstOccurrences {kept names : List String} (h : kept.Nodup) :
    (names.foldl (fun kept n => if kept.contains n then kept else kept ++ [n]) kept).Nodup
      ∧ ∀ n, n ∈ names.foldl (fun kept n => if kept.contains n then kept else kept ++ [n]) kept
          ↔ n ∈ kept ∨ n ∈ names := by
  induction names generalizing kept with
  | nil => simpa using h
  | cons m names ih =>
      rw [List.foldl_cons, List.contains_eq_mem]
      by_cases hm : m ∈ kept
      · rw [decide_eq_true hm, if_pos rfl]
        refine ⟨(ih h).1, fun n => ?_⟩
        rw [(ih h).2, List.mem_cons]
        constructor
        · rintro (hn | hn)
          · exact Or.inl hn
          · exact Or.inr (Or.inr hn)
        · rintro (hn | rfl | hn)
          · exact Or.inl hn
          · exact Or.inl hm
          · exact Or.inr hn
      · rw [decide_eq_false hm, if_neg Bool.false_ne_true]
        have hnd : (kept ++ [m]).Nodup := by
          rw [List.nodup_append]
          refine ⟨h, by simp, ?_⟩
          rintro n hn _ hm' rfl
          exact hm (List.mem_singleton.mp hm' ▸ hn)
        refine ⟨(ih hnd).1, fun n => ?_⟩
        rw [(ih hnd).2, List.mem_append, List.mem_singleton, List.mem_cons, or_assoc]

theorem nodup_firstOccurrences (names : List String) : (firstOccurrences names).Nodup :=
  (foldl_firstOccurrences List.nodup_nil).1

theorem mem_firstOccurrences {names : List String} {n : String} :
    n ∈ firstOccurrences names ↔ n ∈ names := by
  rw [firstOccurrences, (foldl_firstOccurrences List.nodup_nil).2]
  simp

namespace Schema

/-- The key attribute of a key field. -/
def keyAttribute (s : Schema) (name : String) : KeyAttribute := ⟨name, s.keyType name⟩

theorem map_name_definitions (s : Schema) :
    s.definitions.map AttributeDefinition.name = firstOccurrences s.keyFieldNames := by
  rw [definitions, List.map_map]
  exact List.map_id _

/-- Every key field is defined exactly once. -/
theorem nodup_definitions (s : Schema) : (s.definitions.map AttributeDefinition.name).Nodup := by
  rw [map_name_definitions]
  exact nodup_firstOccurrences s.keyFieldNames

namespace Consistent

variable {s : Schema} (h : s.Consistent)

include h

/-- The table has the type of a key field that all models which declare the field give to it. -/
theorem keyType_spec {n : String} (hn : n ∈ s.keyFieldNames) :
    (s.keyType n).isKey = true ∧ Declares s.models n (s.keyType n) := by
  obtain ⟨type, htype, hkey, hdecl⟩ := h.fieldType?_eq hn
  rw [keyType, htype]
  exact ⟨hkey, hdecl⟩

/-- A key element that names a key field is found among the definitions. -/
theorem attributeOf {n : String} (hn : n ∈ s.keyFieldNames) (role : KeyRole) :
    KeySchema.attributeOf s.definitions ⟨n, role⟩ = .ok (s.keyAttribute n) := by
  have hfind : s.definitions.find? (fun d => d.name = n) = some ⟨n, s.keyType n⟩ := by
    refine (find?_name_eq_some_iff s.nodup_definitions).mpr ⟨?_, rfl⟩
    exact List.mem_map.mpr ⟨n, mem_firstOccurrences.mpr hn, rfl⟩
  rw [KeySchema.attributeOf, hfind]
  simp only [(h.keyType_spec hn).1, if_true]
  rfl

end Consistent

/-! ## Keys and indexes -/

/-- The key schema of a global index. -/
def globalKeys (s : Schema) (i : GlobalIndex) : KeySchema where
  partition := s.keyAttribute i.hash
  sort := i.range.map s.keyAttribute

/-- The key schema of a local index. -/
def localKeys (s : Schema) (i : LocalIndex) : KeySchema where
  partition := s.keyAttribute partitionKeyName
  sort := some (s.keyAttribute i.range)

/-- The indexes of the table, the global ones first. -/
def tableIndexes (s : Schema) : List TableIndex :=
  s.globalIndexes.map (fun i => ⟨i.effectiveName, s.globalKeys i⟩)
    ++ s.localIndexes.map (fun i => ⟨i.effectiveName, s.localKeys i⟩)

/-- The table of the schema without items. -/
def emptyTable (s : Schema) (config : TableConfig) (created : Int) : StoredTable where
  definition := s.createRequest config
  indexes := s.tableIndexes
  created := created
  storage := { schema := s.tableKeys }

theorem map_name_globalKeys (s : Schema) (i : GlobalIndex) :
    (s.globalKeys i).attributes.map KeyAttribute.name = i.keyNames := by
  cases h : i.range <;> simp [KeySchema.attributes, globalKeys, GlobalIndex.keyNames, h, keyAttribute]

/-- The key attributes of the table and of its indexes are those of the key fields. -/
theorem keyNames_eq (s : Schema) :
    StoredTable.keyNames s.tableKeys s.tableIndexes = s.keyFieldNames := by
  rw [StoredTable.keyNames, tableIndexes, List.map_append, List.map_map, List.map_map,
    List.flatMap_cons, List.flatMap_append, List.flatMap_map, List.flatMap_map, keyFieldNames,
    List.append_assoc]
  refine congrArg₂ _ rfl (congrArg₂ _ ?_ rfl)
  exact congrArg (fun f => s.globalIndexes.flatMap f) (funext (map_name_globalKeys s))

/-- A key attribute of the table or of an index has the type of its key field. -/
theorem eq_keyAttribute {s : Schema} {keys : KeySchema}
    (hkeys : keys ∈ s.tableKeys :: s.tableIndexes.map TableIndex.schema) {key : KeyAttribute}
    (hkey : key ∈ keys.attributes) :
    key = s.keyAttribute key.name ∧ key.name ∈ s.keyFieldNames := by
  have hname : key.name ∈ s.keyFieldNames := by
    rw [← keyNames_eq]
    exact List.mem_flatMap.mpr ⟨keys, hkeys, List.mem_map_of_mem hkey⟩
  refine ⟨?_, hname⟩
  simp only [tableIndexes, List.map_append, List.map_map, List.mem_cons, List.mem_append,
    List.mem_map, Function.comp_apply] at hkeys
  rcases hkeys with rfl | ⟨i, -, rfl⟩ | ⟨i, -, rfl⟩
  · simp only [KeySchema.attributes, tableKeys, Option.toList_some, List.mem_cons,
      List.not_mem_nil, or_false] at hkey
    rcases hkey with rfl | rfl <;> rfl
  · simp only [KeySchema.attributes, globalKeys, List.mem_cons, Option.mem_toList,
      Option.map_eq_some_iff] at hkey
    rcases hkey with rfl | ⟨n, -, rfl⟩ <;> rfl
  · simp only [KeySchema.attributes, localKeys, Option.toList_some, List.mem_cons,
      List.not_mem_nil, or_false] at hkey
    rcases hkey with rfl | rfl <;> rfl

/-! ## The store accepts the table -/

/-- Indexes with new names are added one after the other if each of them can be added. -/
theorem foldlM_addIndex {α : Type} {step : List TableIndex → α → Except Refusal (List TableIndex)}
    {index : α → TableIndex} {xs : List α}
    (hstep : ∀ x ∈ xs, ∀ indexes, (index x).name ∉ indexes.map TableIndex.name →
      step indexes x = .ok (indexes ++ [index x]))
    {indexes : List TableIndex}
    (hnd : (indexes.map TableIndex.name ++ xs.map (fun x => (index x).name)).Nodup) :
    xs.foldlM step indexes = .ok (indexes ++ xs.map index) := by
  induction xs generalizing indexes with
  | nil => simp [pure, Except.pure]
  | cons x xs ih =>
      have hnew : (index x).name ∉ indexes.map TableIndex.name := by
        intro hmem
        exact (List.nodup_append.mp hnd).2.2 _ hmem _ (by simp) rfl
      have hnd' : ((indexes ++ [index x]).map TableIndex.name
          ++ xs.map (fun x => (index x).name)).Nodup := by
        simpa using hnd
      rw [List.foldlM_cons]
      refine bind_eq_ok_iff.mpr ⟨_, hstep x (by simp) indexes hnew, ?_⟩
      rw [ih (fun y hy => hstep y (List.mem_cons_of_mem x hy)) hnd']
      simp

theorem any_name_eq_false {indexes : List TableIndex} {name : String}
    (h : name ∉ indexes.map TableIndex.name) :
    indexes.any (fun i => i.name = name) = false := by
  simpa using h

namespace Consistent

variable {s : Schema} (h : s.Consistent)

include h

theorem addGlobal {i : GlobalIndex} (hi : i ∈ s.globalIndexes) {indexes : List TableIndex}
    (hnew : i.effectiveName ∉ indexes.map TableIndex.name) (config : TableConfig) :
    TableIndex.addGlobal s.definitions indexes (globalDefinition config i)
      = .ok (indexes ++ [⟨i.effectiveName, s.globalKeys i⟩]) := by
  have hmem : ∀ n ∈ i.keyNames, n ∈ s.keyFieldNames := by
    intro n hn
    simp only [keyFieldNames, List.mem_append, List.mem_flatMap]
    exact Or.inl (Or.inr ⟨i, hi, hn⟩)
  have hhash := h.attributeOf (hmem i.hash (by simp [GlobalIndex.keyNames])) .hash
  have hkeys : KeySchema.ofElements (globalDefinition config i).keys s.definitions
      = .ok (s.globalKeys i) := by
    rw [globalDefinition, globalKeys]
    cases hrange : i.range with
    | none => exact bind_eq_ok_iff.mpr ⟨_, hhash, rfl⟩
    | some n =>
        have hsort := h.attributeOf (hmem n (by simp [GlobalIndex.keyNames, hrange])) .range
        exact bind_eq_ok_iff.mpr ⟨_, hhash, bind_eq_ok_iff.mpr ⟨_, hsort, rfl⟩⟩
  rw [TableIndex.addGlobal, TableIndex.add]
  show (if indexes.any (fun j => j.name = i.effectiveName) = true then _ else _) = _
  rw [any_name_eq_false hnew, if_neg Bool.false_ne_true]
  exact bind_eq_ok_iff.mpr ⟨_, hkeys, rfl⟩

theorem addLocal {i : LocalIndex} (hi : i ∈ s.localIndexes) {indexes : List TableIndex}
    (hnew : i.effectiveName ∉ indexes.map TableIndex.name) :
    TableIndex.addLocal s.definitions partitionKeyName indexes (localDefinition i)
      = .ok (indexes ++ [⟨i.effectiveName, s.localKeys i⟩]) := by
  have hrange : i.range ∈ s.keyFieldNames := by
    simp only [keyFieldNames, List.mem_append, List.mem_flatMap]
    exact Or.inr ⟨i, hi, by simp⟩
  have hkeys : KeySchema.ofElements (localDefinition i).keys s.definitions = .ok (s.localKeys i) := by
    have hhash := h.attributeOf (n := partitionKeyName) (by simp [keyFieldNames]) .hash
    exact bind_eq_ok_iff.mpr ⟨_, hhash, bind_eq_ok_iff.mpr ⟨_, h.attributeOf hrange .range, rfl⟩⟩
  rw [TableIndex.addLocal]
  show (if indexes.any (fun j => j.name = i.effectiveName) = true then _ else _) = _
  rw [any_name_eq_false hnew, if_neg Bool.false_ne_true]
  refine bind_eq_ok_iff.mpr ⟨_, hkeys, ?_⟩
  exact if_pos ⟨rfl, rfl⟩

/-- The store makes the table of an accepted schema under every name that is not empty. -/
theorem ofRequest_createRequest {config : TableConfig} (hname : config.name ≠ "") (created : Int) :
    StoredTable.ofRequest (s.createRequest config) created = .ok (s.emptyTable config created) := by
  have hempty : config.name.isEmpty = false := by
    simpa using hname
  have hkeys : KeySchema.ofElements (s.createRequest config).keys s.definitions
      = .ok s.tableKeys := by
    have hhash := h.attributeOf (n := partitionKeyName) (by simp [keyFieldNames]) .hash
    have hrange := h.attributeOf (n := sortKeyName) (by simp [keyFieldNames]) .range
    exact bind_eq_ok_iff.mpr ⟨_, hhash, bind_eq_ok_iff.mpr ⟨_, hrange, rfl⟩⟩
  -- the names of all indexes differ, so each one can be added
  have hnd : (s.globalIndexes.map GlobalIndex.effectiveName
      ++ s.localIndexes.map LocalIndex.effectiveName).Nodup := h.indexes
  have hglobals : (s.createRequest config).globalIndexes.foldlM
      (TableIndex.addGlobal s.definitions) []
      = .ok (s.globalIndexes.map (fun i => ⟨i.effectiveName, s.globalKeys i⟩)) := by
    show (s.globalIndexes.map (globalDefinition config)).foldlM _ _ = _
    rw [List.foldlM_map]
    refine foldlM_addIndex (fun i hi indexes hnew => h.addGlobal hi hnew config) ?_
    exact (List.nodup_append.mp hnd).1
  have hlocals : (s.createRequest config).localIndexes.foldlM
      (TableIndex.addLocal s.definitions partitionKeyName)
      (s.globalIndexes.map (fun i => ⟨i.effectiveName, s.globalKeys i⟩)) = .ok s.tableIndexes := by
    show (s.localIndexes.map localDefinition).foldlM _ _ = _
    rw [List.foldlM_map]
    refine foldlM_addIndex (fun i hi indexes hnew => h.addLocal hi hnew) ?_
    rw [List.map_map]
    exact hnd
  have hused : s.definitions.find?
      (fun d => !(StoredTable.keyNames s.tableKeys s.tableIndexes).contains d.name) = none := by
    rw [List.find?_eq_none, keyNames_eq]
    intro d hd
    obtain ⟨n, hn, rfl⟩ := List.mem_map.mp hd
    simpa using mem_firstOccurrences.mp hn
  rw [StoredTable.ofRequest]
  show (if config.name.isEmpty = true then _ else _) = _
  rw [hempty, if_neg Bool.false_ne_true]
  refine bind_eq_ok_iff.mpr ⟨_, hkeys, bind_eq_ok_iff.mpr ⟨_, hglobals, ?_⟩⟩
  refine bind_eq_ok_iff.mpr ⟨_, hlocals, ?_⟩
  split
  · rename_i d hfound
    cases hused.symm.trans hfound
  · rfl

end Consistent

/-- The table is as the schema declares it: it and its indexes have exactly the declared key names, each
with the type of keys that all models which declare the field give to it, and every key field is defined
once and nothing else is. -/
structure DeclaresTable (s : Schema) (t : StoredTable) : Prop where
  partition : t.schema.partition.name = partitionKeyName
  sort : t.schema.sort.map KeyAttribute.name = some sortKeyName
  indexes : t.indexes.map (fun i =>
      (i.name, i.schema.partition.name, i.schema.sort.map KeyAttribute.name))
    = s.globalIndexes.map (fun i => (i.effectiveName, i.hash, i.range))
      ++ s.localIndexes.map (fun i => (i.effectiveName, partitionKeyName, some i.range))
  types : ∀ keys ∈ t.schema :: t.indexes.map TableIndex.schema, ∀ key ∈ keys.attributes,
    key.type.isKey = true ∧ Declares s.models key.name key.type
  definedOnce : (t.definition.definitions.map AttributeDefinition.name).Nodup
  defined : ∀ n, n ∈ t.definition.definitions.map AttributeDefinition.name
    ↔ n = partitionKeyName ∨ n = sortKeyName
      ∨ (∃ i ∈ s.globalIndexes, n = i.hash ∨ i.range = some n) ∨ ∃ i ∈ s.localIndexes, n = i.range

/-- The key fields are those of the table, of the global and of the local indexes. -/
theorem mem_keyFieldNames {s : Schema} {n : String} :
    n ∈ s.keyFieldNames
      ↔ n = partitionKeyName ∨ n = sortKeyName
        ∨ (∃ i ∈ s.globalIndexes, n = i.hash ∨ i.range = some n)
        ∨ ∃ i ∈ s.localIndexes, n = i.range := by
  simp only [keyFieldNames, GlobalIndex.keyNames, List.mem_append, List.mem_cons, List.mem_flatMap,
    List.not_mem_nil, or_false, Option.mem_toList]
  constructor
  · rintro (((h | h) | h) | ⟨i, hi, h | h⟩)
    · exact Or.inl h
    · exact Or.inr (Or.inl h)
    · exact Or.inr (Or.inr (Or.inl h))
    · exact Or.inl h
    · exact Or.inr (Or.inr (Or.inr ⟨i, hi, h⟩))
  · rintro (h | h | h | ⟨i, hi, h⟩)
    · exact Or.inl (Or.inl (Or.inl h))
    · exact Or.inl (Or.inl (Or.inr h))
    · exact Or.inl (Or.inr h)
    · exact Or.inr ⟨i, hi, Or.inr h⟩

theorem Consistent.declaresTable {s : Schema} (h : s.Consistent) (config : TableConfig)
    (created : Int) : s.DeclaresTable (s.emptyTable config created) where
  partition := rfl
  sort := rfl
  indexes := by
    have hrange : ∀ i : GlobalIndex, (i.range.map s.keyAttribute).map KeyAttribute.name = i.range := by
      intro i
      rw [Option.map_map]
      exact Option.map_id_apply
    show s.tableIndexes.map _ = _
    rw [tableIndexes, List.map_append, List.map_map, List.map_map]
    refine congrArg₂ _ (List.map_congr_left fun i _ => ?_) rfl
    exact congrArg (fun range => (i.effectiveName, i.hash, range)) (hrange i)
  types keys hkeys key hkey := by
    obtain ⟨heq, hname⟩ := eq_keyAttribute hkeys hkey
    have htype : key.type = s.keyType key.name := congrArg KeyAttribute.type heq
    rw [htype]
    exact h.keyType_spec hname
  definedOnce := s.nodup_definitions
  defined n := by
    show n ∈ s.definitions.map AttributeDefinition.name ↔ _
    rw [map_name_definitions, mem_firstOccurrences, mem_keyFieldNames]

end Schema

/-! ## Dropping and creating the table -/

namespace MemoryStore

/-- The store without a table. -/
def dropTable (s : MemoryStore) (name : String) : MemoryStore :=
  { s with tables := s.tables.erase name }

theorem dropTable_of_none {s : MemoryStore} {name : String} (h : s.tables.get? name = none) :
    s.dropTable name = s := by
  refine ext_tables (fun n => ?_) rfl
  rw [dropTable, Dict.get?_erase]
  split
  · rename_i hn
    rw [hn, h]
  · rfl

end MemoryStore

theorem MemoryStore.run_deleteTable (s : MemoryStore) (r : TableRequest) :
    ExceptT.run (Store.deleteTable r) s
      = (match s.tables.get? r.table with
        | some t => (.ok { description := some (t.describe .deleting) }, s.dropTable r.table)
        | none => (.error (Refusal.noTable r.table).toStoreError, s)) := by
  show writing (·.deleteTable r) s = _
  simp only [writing, deleteTable]
  cases ht : s.tables.get? r.table with
  | some t =>
      rw [table_eq_ok_iff.mpr ht]
      rfl
  | none =>
      rw [table_of_none ht]
      rfl

namespace Database

theorem run_deleteTableIfExists_of_run {db : Database} {s s' : Session MemoryStore}
    {result : Except DatabaseError TableReply} :
    ExceptT.run db.deleteTable s = (result, s') →
      ExceptT.run db.deleteTableIfExists s
        = (match result with
          | .ok _ => .ok true
          | .error e => if e.isResourceNotFound then .ok false else .error e, s') := by
  intro h
  have h : db.deleteTable s = (result, s') := h
  simp only [ExceptT.run, deleteTableIfExists]
  rw [h]
  cases result <;> rfl

/-- Deleting the table where it exists always succeeds, and tells whether it did exist. -/
theorem run_deleteTableIfExists (db : Database) (s : Session MemoryStore) :
    ExceptT.run db.deleteTableIfExists s
      = (.ok (s.store.tables.contains db.config.name),
        { s with store := s.store.dropTable db.config.name }) := by
  have hstore := MemoryStore.run_deleteTable s.store { table := db.config.name }
  rw [Dict.contains]
  cases ht : s.store.tables.get? db.config.name with
  | some t =>
      rw [ht] at hstore
      rw [run_deleteTableIfExists_of_run (run_ofStore hstore)]
      rfl
  | none =>
      rw [ht] at hstore
      rw [run_deleteTableIfExists_of_run (run_ofStore hstore), MemoryStore.dropTable_of_none ht]
      rfl

/-- A valid table is created where there is none of its name. -/
theorem run_createTable_of_valid {db : Database} {s : Session MemoryStore} {t : StoredTable}
    (ht : StoredTable.ofRequest (db.schema.createRequest db.config) s.store.clock = .ok t)
    (hnew : s.store.tables.get? db.config.name = none) :
    ExceptT.run db.createTable s
      = (.ok { description := some (t.describe .active) },
        { s with store := s.store.setTable db.config.name t }) := by
  have hstore := MemoryStore.run_createTable_of_valid ht
  have hnew' : s.store.tables.get? (db.schema.createRequest db.config).table = none := hnew
  rw [hnew'] at hstore
  exact run_ofStore hstore

/-- Every accepted schema yields a table that the store accepts under every name that is not empty, and
this table is as the schema declares it. So, in whatever state the store is, the table can be deleted if
it exists, which tells whether it did, and be created again. -/
theorem table_of_build {db : Database} {models : List Model} {globalIndexes : List GlobalIndex}
    {localIndexes : List LocalIndex}
    (hbuild : Schema.build models globalIndexes localIndexes = .ok db.schema)
    (hname : db.config.name ≠ "") :
    (∀ created, ∃ t, StoredTable.ofRequest (db.schema.createRequest db.config) created = .ok t
        ∧ db.schema.DeclaresTable t)
      ∧ ∀ s : Session MemoryStore, ∃ dropped reply s',
          ExceptT.run db.deleteTableIfExists s
              = (.ok (s.store.tables.contains db.config.name), dropped)
            ∧ dropped.store.tables.get? db.config.name = none
            ∧ ExceptT.run db.createTable dropped = (.ok reply, s')
            ∧ ∃ t, s'.store.tables.get? db.config.name = some t ∧ db.schema.DeclaresTable t := by
  have h : db.schema.Consistent := (Schema.build_eq_ok_iff.mp hbuild).2
  have hmade := fun created => h.ofRequest_createRequest hname created
  refine ⟨fun created => ⟨_, hmade created, h.declaresTable db.config created⟩, fun s => ?_⟩
  have hgone : (s.store.dropTable db.config.name).tables.get? db.config.name = none :=
    (Dict.get?_erase _ _ _).trans (if_pos rfl)
  have hcreate := run_createTable_of_valid (s := { s with store := s.store.dropTable db.config.name })
    (hmade s.store.clock) hgone
  refine ⟨_, _, _, db.run_deleteTableIfExists s, hgone, hcreate,
    db.schema.emptyTable db.config s.store.clock, ?_, h.declaresTable db.config _⟩
  exact (MemoryStore.get?_setTable _ _ _ _).trans (if_pos rfl)

end Database

/-! ## A library -/

/-- A book stands under its number, and is found by its author too. -/
def book : Model where
  name := "book"
  fields := [
    .partitionKey .string (.constant (.string "books")),
    .sortKey .string (.parameter "number"),
    { name := "number", kind := .required, validator := .string },
    { name := "author", kind := .required, validator := .string }]

/-- A reader stands under a fresh id. -/
def reader : Model where
  name := "reader"
  fields := [
    .partitionKey .string (.constant (.string "readers")),
    .sortKey .string (.parameter "id"),
    { name := "id", kind := .generated, validator := .string }]

/-- The index of books by author. -/
def byAuthor : GlobalIndex := { hash := "author", range := some sortKeyName, name := some "byAuthor" }

/-- A library of books and readers in one table. -/
def library : Database where
  config := { name := "library" }
  schema := { models := [book, reader], globalIndexes := [byAuthor] }
  ids := fun n => toString n

theorem build_library : Schema.build [book, reader] [byAuthor] [] = .ok library.schema := rfl

theorem build_models_library : ∀ m ∈ [book, reader], Model.build m.name m.fields = .ok m := by
  intro m hm
  rcases List.mem_cons.mp hm with rfl | hm
  · rfl
  · rw [List.mem_singleton.mp hm]
    rfl

/-- The session of a store without tables. -/
def noTables : Session MemoryStore where
  store := {}

theorem table_of_library :
    Schema.build [book, reader] [byAuthor] [] = .ok library.schema ∧ library.config.name ≠ ""
      ∧ ∃ reply s', ExceptT.run library.createTable noTables = (.ok reply, s')
        ∧ ∃ t, s'.store.tables.get? "library" = some t ∧ library.schema.DeclaresTable t := by
  have hname : library.config.name ≠ "" := by decide
  obtain ⟨dropped, reply, s', hdrop, -, hcreate, t, ht, hdeclares⟩ :=
    (Database.table_of_build build_library hname).2 noTables
  -- there is no table yet, so nothing is dropped
  have hnone : ExceptT.run library.deleteTableIfExists noTables = (.ok false, noTables) := rfl
  obtain rfl : noTables = dropped := (Prod.mk.inj (hnone.symm.trans hdrop)).2
  exact ⟨build_library, hname, reply, s', hcreate, t, ht, hdeclares⟩

end SingleTable
