import SingleTable.Proofs.BaseQuery
import SingleTable.Proofs.Bindings
import SingleTable.Proofs.Runs

set_option autoImplicit false

/-!
# Index queries of the memory store

What an index query of a table lists after any run of the store (`query_index_exact`). A run keeps the
index attributes of all stored items well typed, so every item that has the key attributes of an
index is part of it.
-/

namespace SingleTable

namespace StoredTable

/-! ## The indexes of a table -/

section

variable {definitions : List AttributeDefinition} {indexes indexes' : List TableIndex}

/-- An index is added under a new name. -/
theorem nodup_names_of_add {name : String} {keys : List KeyElement}
    (hnd : (indexes.map TableIndex.name).Nodup)
    (h : TableIndex.add definitions indexes name keys = .ok indexes') :
    (indexes'.map TableIndex.name).Nodup := by
  rw [TableIndex.add] at h
  split at h
  · cases h
  · rename_i hnew
    obtain ⟨schema, -, h⟩ := bind_eq_ok_iff.mp h
    cases h
    have hnot : name ∉ indexes.map TableIndex.name := by
      intro hmem
      obtain ⟨j, hj, hname⟩ := List.mem_map.mp hmem
      exact hnew (List.any_eq_true.mpr ⟨j, hj, by simpa using hname⟩)
    rw [List.map_append, List.nodup_append]
    refine ⟨hnd, by simp, ?_⟩
    rintro n hn _ hi rfl
    obtain rfl : n = name := List.mem_singleton.mp hi
    exact hnot hn

/-- A local index that is added could be added without the check of its keys. -/
theorem add_of_addLocal {partition : String} {index : LocalIndexDefinition}
    (h : TableIndex.addLocal definitions partition indexes index = .ok indexes') :
    TableIndex.add definitions indexes index.name index.keys = .ok indexes' := by
  rw [TableIndex.addLocal] at h
  rw [TableIndex.add]
  split at h
  · cases h
  · rename_i hnew
    obtain ⟨schema, hschema, h⟩ := bind_eq_ok_iff.mp h
    rw [if_neg hnew]
    refine bind_eq_ok_iff.mpr ⟨schema, hschema, ?_⟩
    split at h
    · exact h
    · cases h

end

/-- The indexes of a new table have different names. -/
theorem nodup_names_of_ofRequest {r : CreateTableRequest} {created : Int} {t : StoredTable}
    (h : ofRequest r created = .ok t) : (t.indexes.map TableIndex.name).Nodup := by
  rw [ofRequest] at h
  split at h
  · cases h
  · obtain ⟨schema, hschema, h⟩ := bind_eq_ok_iff.mp h
    obtain ⟨globals, hglobals, h⟩ := bind_eq_ok_iff.mp h
    obtain ⟨indexes, hindexes, h⟩ := bind_eq_ok_iff.mp h
    have hndGlobals : (globals.map TableIndex.name).Nodup := by
      refine foldlM_keeps (P := fun is => (is.map TableIndex.name).Nodup) ?_ List.nodup_nil hglobals
      intro index _ is is' hnd hadd
      exact nodup_names_of_add hnd hadd
    have hndIndexes : (indexes.map TableIndex.name).Nodup := by
      refine foldlM_keeps (P := fun is => (is.map TableIndex.name).Nodup) ?_ hndGlobals hindexes
      intro index _ is is' hnd hadd
      exact nodup_names_of_add hnd (add_of_addLocal hadd)
    split at h
    · cases h
    · cases h
      exact hndIndexes

/-- Every index of a sound table is found by its name. -/
theorem Sound.schemaFor {t : StoredTable} (h : t.Sound) {i : TableIndex} (hi : i ∈ t.indexes) :
    t.schemaFor (some i.name) = .ok i.schema := by
  obtain ⟨fresh, hfresh, hsame⟩ := h.made
  have hnd := nodup_names_of_ofRequest hfresh
  rw [← hsame.indexes] at hnd
  rw [StoredTable.schemaFor, (find?_name_eq_some_iff hnd).mpr ⟨hi, rfl⟩]

/-! ## Items that indexes can sort -/

/-- Where a key attribute of the table or of an index is a number, its text denotes one. -/
def Legible (t : StoredTable) (item : Item) : Prop :=
  ∀ schema ∈ t.schema :: t.indexes.map TableIndex.schema, ∀ key ∈ schema.attributes,
    ∀ v, item.get? key.name = some v → key.Admits v → (SortKey.ofValueD v).Comparable

theorem Legible.readable {t : StoredTable} {item : Item} (h : t.Legible item) :
    t.schema.Readable item := by
  intro hfits
  have hsortable : t.schema.Sortable item := by
    intro key hkey v hv
    obtain ⟨w, hw, hadm⟩ := hfits key hkey
    rw [hv] at hw
    cases hw
    exact ⟨hadm, h t.schema (by simp) key hkey v hv hadm⟩
  exact hsortable.comparable_placeOf

/-- A sound table whose stored items are all legible. -/
structure Indexed (t : StoredTable) : Prop extends t.Sound where
  legible : ∀ item ∈ t.storage.items, t.Legible item

theorem indexed_of_ofRequest {r : CreateTableRequest} {created : Int} {t : StoredTable}
    (h : ofRequest r created = .ok t) : t.Indexed := by
  refine ⟨sound_of_ofRequest h, ?_⟩
  obtain ⟨schema, -, hstorage, -⟩ := storage_of_ofRequest h
  intro item hitem
  rw [hstorage] at hitem
  cases hitem

theorem SameDeclaration.legible_iff {t t' : StoredTable} (h : SameDeclaration t t') (item : Item) :
    t'.Legible item ↔ t.Legible item := by
  simp only [Legible, h.schema, h.indexes]

/-- A write keeps all stored items legible if it puts a legible one. -/
theorem Indexed.write {t t' : StoredTable} (h : t.Indexed) {w : WriteRequest}
    (hput : ∀ item, w.put = some item → t.Legible item)
    (hdelete : ∀ key, w.delete = some key → t.schema.Readable key) (hw : t.write w = .ok t') :
    t'.Indexed := by
  have hdecl := sameDeclaration_write hw
  have hsound := h.toSound.write ⟨fun item hitem => (hput item hitem).readable, hdelete⟩ hw
  refine ⟨hsound, fun other hother => (hdecl.legible_iff other).mpr ?_⟩
  rcases mem_items_write hw hother with hitem | hother
  · exact hput other hitem
  · exact h.legible other hother

theorem Indexed.foldlM_write {t t' : StoredTable} (h : t.Indexed) {writes : List WriteRequest}
    (hput : ∀ w ∈ writes, ∀ item, w.put = some item → t.Legible item)
    (hdelete : ∀ w ∈ writes, ∀ key, w.delete = some key → t.schema.Readable key)
    (hw : writes.foldlM StoredTable.write t = .ok t') : t'.Indexed := by
  refine keeps_foldlM_write ?_ h hw
  intro w hmem u u' hdecl hu huw
  refine hu.write ?_ ?_ huw
  · exact fun item hitem => (hdecl.legible_iff item).mpr (hput w hmem item hitem)
  · rw [hdecl.schema]
    exact hdelete w hmem

/-- Every index can sort the items of an indexed table. -/
theorem Indexed.sortable {t : StoredTable} (h : t.Indexed) {i : TableIndex} (hi : i ∈ t.indexes) :
    ∀ item ∈ t.storage.items, i.schema.Sortable item := by
  intro item hitem key hkey v hv
  have hadm := h.typed item hitem i hi key hkey v hv
  refine ⟨hadm, h.legible item hitem i.schema ?_ key hkey v hv hadm⟩
  exact List.mem_cons_of_mem _ (List.mem_map_of_mem hi)

/-- The table itself can sort its items. -/
theorem Indexed.sortable_own {t : StoredTable} (h : t.Indexed) :
    ∀ item ∈ t.storage.items, t.schema.Sortable item := by
  intro item hitem key hkey v hv
  obtain ⟨k, hk, -⟩ := h.storage.mem_items_iff.mp hitem
  obtain ⟨w, hw, hadm⟩ := (KeySchema.extract_eq_ok_iff.mp hk).1 key hkey
  rw [hv] at hw
  cases hw
  exact ⟨hadm, h.legible item hitem t.schema (by simp) key hkey v hv hadm⟩

end StoredTable

/-! ## Runs -/

/-- All writes that the call holds for existing tables are legible there. -/
def StoreCall.Legible (s : MemoryStore) (c : StoreCall) : Prop :=
  ∀ e ∈ c.writes, ∀ t, s.tables.get? e.1 = some t → ∀ w ∈ e.2,
    (∀ item, w.put = some item → t.Legible item)
      ∧ ∀ key, w.delete = some key → t.schema.Readable key

/-- Every legible run keeps all tables indexed. -/
theorem indexed_of_run {s : MemoryStore} (h : ∀ n t, s.tables.get? n = some t → t.Indexed)
    {calls : List StoreCall} (hr : AllAlong (fun s c => c.Legible s) s calls) :
    ∀ n t, (runCalls s calls).tables.get? n = some t → t.Indexed := by
  induction calls generalizing s with
  | nil => exact h
  | cons c calls ih =>
      refine ih ?_ hr.2
      refine MemoryStore.forall_tables_after h (fun _ _ _ => StoredTable.indexed_of_ofRequest) ?_
      intro e he t t' ht hindexed hw
      exact hindexed.foldlM_write (fun w hw => (hr.1 e he t ht w hw).1)
        (fun w hw => (hr.1 e he t ht w hw).2) hw

/-- The table with its partitions listed in another order. -/
def StoredTable.relist (t : StoredTable) (partitions : List (AttributeValue × Partition)) :
    StoredTable :=
  { t with storage := { t.storage with partitions } }

/-- What a query of an index lists, for every table that a run of calls on an empty store leads to,
every index of the table and every order in which its partitions may be listed. The index is found
by its name. Forward, the query lists exactly the stored items that match, each once, in the order
of the index; backward, the same list in reverse. An index under the table's own schema lists what a
query of the table lists. All numbers among key attributes have to have texts of numbers
(`StoreCall.Legible`). -/
theorem query_index_exact (clock : Int) (calls : List StoreCall)
    (hr : AllAlong (fun s c => c.Legible s) { clock } calls) {n : String} {t : StoredTable}
    (ht : (runCalls { clock } calls).tables.get? n = some t) {i : TableIndex} (hi : i ∈ t.indexes)
    {partitions : List (AttributeValue × Partition)} (hp : partitions.Perm t.storage.partitions)
    (value : AttributeValue) (conditions : List SortCondition) :
    (t.relist partitions).schemaFor (some i.name) = .ok i.schema
      ∧ ((t.relist partitions).query (some i.name) ⟨value, conditions⟩ i.schema true).Nodup
      ∧ (∀ item, item ∈ (t.relist partitions).query (some i.name) ⟨value, conditions⟩ i.schema true
          ↔ item ∈ t.storage.items ∧ i.schema.Matches value conditions item)
      ∧ ((t.relist partitions).query (some i.name) ⟨value, conditions⟩ i.schema true).Pairwise
          (fun x y => (Storage.indexOrder t.schema i.schema x y).isLE = true)
      ∧ (t.relist partitions).query (some i.name) ⟨value, conditions⟩ i.schema false
          = ((t.relist partitions).query (some i.name) ⟨value, conditions⟩ i.schema true).reverse
      ∧ (i.schema = t.schema → (∀ c ∈ conditions, c.Comparable) → ∀ forward,
          (t.relist partitions).query (some i.name) ⟨value, conditions⟩ i.schema forward
            = t.query none ⟨value, conditions⟩ t.schema forward) := by
  have hempty : ∀ m u, ({ clock } : MemoryStore).tables.get? m = some u → u.Indexed := by
    intro m u hu
    cases hu
  have hindexed : t.Indexed := indexed_of_run hempty hr n t ht
  have hsound : (t.relist partitions).storage.Sound := hindexed.storage.perm hp
  have hitems : ∀ item, item ∈ (t.relist partitions).storage.items ↔ item ∈ t.storage.items :=
    fun item => (hp.flatMap_right _).mem_iff
  have hsortable : ∀ item ∈ (t.relist partitions).storage.items, i.schema.Sortable item :=
    fun item hitem => hindexed.sortable hi item ((hitems item).mp hitem)
  have hown : ∀ item ∈ (t.relist partitions).storage.items, t.schema.Sortable item :=
    fun item hitem => hindexed.sortable_own item ((hitems item).mp hitem)
  -- the listed items do not depend on the order of partitions, nor does their order
  refine ⟨hindexed.toSound.schemaFor hi, ?_, ?_, ?_, ?_, ?_⟩
  · exact Storage.nodup_queryIndex hsortable value conditions hsound true
  · intro item
    rw [← hitems item]
    exact Storage.mem_queryIndex hsortable value conditions
  · refine Storage.pairwise_queryIndex hsortable value conditions hsound ?_
    exact fun item hitem => (hown item hitem).comparable_partitionOf
  · exact Storage.queryIndex_false _ i.schema value conditions
  · intro hschema hc forward
    rw [hschema]
    refine (Storage.queryIndex_eq_query hsound hown value hc forward).trans ?_
    show inDirection forward (((t.relist partitions).storage.partition value).select conditions)
      = inDirection forward ((t.storage.partition value).select conditions)
    exact congrArg (fun p => inDirection forward (Partition.select p conditions))
      (hindexed.storage.partition_perm hp value)

/-! ## Notes by title -/

/-- A table of notes by author and title, with an index by title and author. -/
def titledRequest : CreateTableRequest :=
  { notesRequest with
    globalIndexes := [⟨"titles", [⟨"title", .hash⟩, ⟨"author", .range⟩], .everything, none⟩] }

/-- The index of notes by title. -/
def titles : TableIndex := ⟨"titles", ⟨⟨"title", .string⟩, some ⟨"author", .string⟩⟩⟩

/-- Create the table of notes with its index and put notes of three authors. -/
def fourTitles : List StoreCall :=
  [.createTable titledRequest, .put { table := "notes", item := note "eve" "b" },
    .put { table := "notes", item := note "ada" "b" },
    .put { table := "notes", item := note "bob" "b" },
    .put { table := "notes", item := note "eve" "c" }]

/-- The table of notes with a partition for each author. -/
def titledNotes : StoredTable where
  definition := titledRequest
  indexes := [titles]
  created := 0
  storage :=
    { schema := notes.schema
      partitions :=
        [(.string "eve", [(.string "b", note "eve" "b"), (.string "c", note "eve" "c")]),
          (.string "ada", [(.string "b", note "ada" "b")]),
          (.string "bob", [(.string "b", note "bob" "b")])]
      count := 4 }

/-- The notes with the title `b` by authors from `b` on, while the partitions of the table are listed the
other way round. -/
def titledB (forward : Bool) : List Item :=
  (titledNotes.relist titledNotes.storage.partitions.reverse).query (some titles.name)
    ⟨.string "b", [.atLeast (.string "b")]⟩ titles.schema forward

/-- Of the four notes two match, and they are listed by author, or backward in reverse. -/
theorem query_titles_after_fourTitles :
    AllAlong (fun s c => c.Legible s) { clock := 0 } fourTitles
      ∧ (runCalls { clock := 0 } fourTitles).tables.get? "notes" = some titledNotes
      ∧ titledB true = [note "bob" "b", note "eve" "b"]
      ∧ titledB false = [note "eve" "b", note "bob" "b"] := by
  have hput : ∀ author title (s : MemoryStore),
      (StoreCall.put { table := "notes", item := note author title }).Legible s := by
    intro author title s e he t ht w hw
    cases List.mem_singleton.mp he
    cases List.mem_singleton.mp hw
    refine ⟨fun item hitem => ?_, nofun⟩
    cases hitem
    exact fun _ _ _ _ _ hv _ => comparable_of_note hv
  have hr : AllAlong (fun s c => c.Legible s) { clock := 0 } fourTitles :=
    ⟨nofun, hput _ _ _, hput _ _ _, hput _ _ _, hput _ _ _, trivial⟩
  have ht : (runCalls { clock := 0 } fourTitles).tables.get? "notes" = some titledNotes := rfl
  obtain ⟨-, hnodup, hmem, hasc, hbackward, -⟩ :=
    query_index_exact 0 fourTitles hr ht (List.mem_singleton.mpr rfl)
      (List.reverse_perm titledNotes.storage.partitions) (.string "b") [.atLeast (.string "b")]
  have hlisted : ∀ item, item ∈ titledB true ↔ item ∈ [note "bob" "b", note "eve" "b"] := by
    intro item
    have hstored : titledNotes.storage.items
        = [note "eve" "b", note "eve" "c", note "ada" "b", note "bob" "b"] := rfl
    rw [titledB, hmem, hstored]
    simp only [List.mem_cons, List.not_mem_nil, or_false]
    constructor
    · rintro ⟨rfl | rfl | rfl | rfl, hvalue, v, hv, haccepts⟩
      · exact .inr rfl
      · exact absurd hvalue (by decide)
      · cases hv
        exact absurd (haccepts _ (List.mem_singleton_self _)) (by decide)
      · exact .inl rfl
    · rintro (rfl | rfl)
      · refine ⟨by simp, rfl, .string "bob", rfl, ?_⟩
        decide
      · refine ⟨by simp, rfl, .string "eve", rfl, ?_⟩
        decide
  have hforward : titledB true = [note "bob" "b", note "eve" "b"] := by
    have hperm : (titledB true).Perm [note "bob" "b", note "eve" "b"] :=
      (List.perm_ext_iff_of_nodup hnodup (by decide)).mpr hlisted
    refine List.Perm.eq_of_pairwise ?_ hasc (List.pairwise_pair.mpr (by decide)) hperm
    -- bob comes before eve, so only one of the two orders ascends
    intro x y hx hy hxy hyx
    simp only [hperm.mem_iff, List.mem_cons, List.not_mem_nil, or_false] at hx hy
    rcases hx with rfl | rfl
    · rcases hy with rfl | rfl
      · rfl
      · exact absurd hyx (by decide)
    · rcases hy with rfl | rfl
      · exact absurd hxy (by decide)
      · rfl
  exact ⟨hr, ht, hforward, hbackward.trans (congrArg List.reverse hforward)⟩

end SingleTable
