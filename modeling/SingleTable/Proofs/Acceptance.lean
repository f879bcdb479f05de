import SingleTable.Proofs.Making
import SingleTable.Proofs.ModelCalls
import SingleTable.Proofs.SchemaTable

set_option autoImplicit false

/-!
# The store accepts what a model makes

The keys of the table are typed as all models of the schema type them, and an item of a model has the
fields of this model only. So where validators return values of the types that they stand for, the table
accepts every item that is made (`Schema.Consistent.accepts_of_makes`), and creating items fails only as
making them does (`Database.create_accepted`).
-/

namespace SingleTable

/-- Every validator of a key field returns only values of the type that it gives to the field. -/
def Schema.KeysTyped (s : Schema) : Prop :=
  ∀ m ∈ s.models, ∀ f ∈ m.fields, f.name ∈ s.keyFieldNames →
    ∀ raw v, f.validator.parse raw = .ok v → f.attributeType.holds v = true

namespace Schema.Consistent

variable {s : Schema} (h : s.Consistent) (htyped : s.KeysTyped) {m : Model} (hm : m ∈ s.models)
  (hwf : m.WellFormed) {ids : IdSource} {params : Params} {item : Item}
  (hmade : m.Makes ids params none item)

include h htyped hm hwf hmade

/-- Where a new item has a key attribute of the table or of an index, its value is of the type. -/
theorem admits_of_makes {keys : KeySchema}
    (hkeys : keys ∈ s.tableKeys :: s.tableIndexes.map TableIndex.schema) {key : KeyAttribute}
    (hkey : key ∈ keys.attributes) {v : AttributeValue} (hv : item.get? key.name = some v) :
    key.Admits v := by
  obtain ⟨heq, hname⟩ := eq_keyAttribute hkeys hkey
  obtain ⟨hkeytype, -, hdecl⟩ := h.keyType_spec hname
  have htype : key.type = s.keyType key.name := congrArg KeyAttribute.type heq
  -- the attribute is a field of the model, which gives it the type of the key
  obtain ⟨f, hf, hfname⟩ := List.mem_map.mp ((hmade.names key.name).mp (by rw [hv]; rfl))
  have hftype : f.attributeType = key.type := by
    rw [htype]
    exact hdecl m hm f (hwf.field?_eq_some_iff.mpr ⟨hf, hfname⟩)
  obtain ⟨raw, w, hparse, hw⟩ := hmade.parsed rfl hf
  obtain rfl : v = w := by
    rw [hfname, hv] at hw
    exact Option.some.inj hw
  refine ⟨htype ▸ hkeytype, ?_⟩
  rw [← hftype]
  exact htyped m hm f hf (hfname ▸ hname) raw v hparse

/-- The table of the schema accepts every new item of its models. -/
theorem accepts_of_makes {config : TableConfig} {created : Int} {t : StoredTable}
    (hdecl : StoredTable.SameDeclaration (s.emptyTable config created) t) :
    t.Accepts (.ofItem item) := by
  rw [hdecl.accepts_iff]
  refine ⟨fun key hkey => ?_, fun i hi key hkey v hv => ?_⟩
  · -- both keys of the table are fields of every model
    have hname : key.name ∈ [partitionKeyName, sortKeyName] := by
      have hkey : key ∈ s.tableKeys.attributes := hkey
      simp only [KeySchema.attributes, tableKeys, Option.toList_some, List.mem_cons,
        List.not_mem_nil, or_false] at hkey
      rcases hkey with rfl | rfl <;> simp
    obtain ⟨f, hf, hfname⟩ := hwf.keys key.name hname
    obtain ⟨v, hv⟩ := Option.isSome_iff_exists.mp
      ((hmade.names key.name).mpr (hfname ▸ List.mem_map_of_mem hf))
    exact ⟨v, hv, h.admits_of_makes htyped hm hwf hmade List.mem_cons_self hkey hv⟩
  · exact h.admits_of_makes htyped hm hwf hmade
      (List.mem_cons_of_mem _ (List.mem_map_of_mem hi)) hkey hv

end Schema.Consistent

namespace Database

variable {db : Database} {s : Session MemoryStore} {t : StoredTable}

/-! ## Writes that the table accepts -/

/-- An item that the table accepts can be stored. -/
theorem run_putItem_of_accepts (ht : s.store.tables.get? db.config.name = some t) {item : Item}
    (h : t.Accepts (.ofItem item)) : ∃ s', ExceptT.run (db.putItem item) s = (.ok (), s') := by
  obtain ⟨t', ht'⟩ := StoredTable.write_of_accepts h
  exact ⟨_, run_putItem_eq_ok_iff.mpr ⟨t, t', ht, ht', rfl⟩⟩

/-! ## Creating items -/

section

variable (ht : s.store.tables.get? db.config.name = some t) {m : BoundModel} {drawn : Nat}

include ht

/-- An item that is made is created if the table accepts it. -/
theorem run_create_of_accepts {params : Params} {item : Item}
    (hmade : ExceptT.run (m.model.materialize db.ids params none) s.drawn = (.ok item, drawn))
    (h : t.Accepts (.ofItem item)) : ∃ s', ExceptT.run (db.create m params) s = (.ok item, s') := by
  obtain ⟨s', hput⟩ := run_putItem_of_accepts (s := { s with drawn }) ht h
  exact ⟨s', run_create_eq_ok_iff.mpr ⟨drawn, hmade, hput⟩⟩

/-- Up to 25 items that are made are created together if the table accepts each of them. -/
theorem run_createMany_of_accepts {params : List Params} (hlen : params.length ≤ 25)
    {items : List Item} (hmade : ExceptT.run
      (params.mapM (fun p => m.model.materialize db.ids p none)) s.drawn = (.ok items, drawn))
    (h : ∀ item ∈ items, t.Accepts (.ofItem item)) :
    ∃ s', ExceptT.run (db.createMany m params) s = (.ok items, s') := by
  obtain ⟨store, hstore⟩ := MemoryStore.putOneByOne_of_accepts ht h
  have hlength : items.length ≤ 25 := (run_mapM_eq_ok hmade).1.trans_le hlen
  exact ⟨{ store, drawn }, run_createMany_eq_ok_iff.mpr ⟨hmade, hlength, hstore⟩⟩

end

/-- The table of a schema is created only under a name, and as the schema declares it. -/
theorem emptyTable_of_createTable (h : db.schema.Consistent) {s₀ s₁ : Session MemoryStore}
    {reply : TableReply} (hcreate : ExceptT.run db.createTable s₀ = (.ok reply, s₁)) :
    s₁.store.tables.get? db.config.name
      = some (db.schema.emptyTable db.config s₀.store.clock) := by
  obtain ⟨t, ht, hget⟩ := made_of_createTable hcreate
  have hname : db.config.name ≠ "" := by
    intro hempty
    have hisEmpty : (db.schema.createRequest db.config).table.isEmpty = true := by
      show db.config.name.isEmpty = true
      rw [hempty]
      rfl
    rw [StoredTable.ofRequest, if_pos hisEmpty] at ht
    cases ht
  rw [h.ofRequest_createRequest hname] at ht
  rw [hget, Except.ok.inj ht]

/-- Creating items of a model fails only as making them does. The schema has been accepted, validators
of its key fields only return values of the types that they stand for, and the table has been created
from the schema and not been deleted since, whatever has been written in between. Then one item, and up
to 25 items in a batch, are created exactly if they can be made, and every failure is that of a field. -/
theorem create_accepted {models : List Model} {globalIndexes : List GlobalIndex}
    {localIndexes : List LocalIndex}
    (hbuild : Schema.build models globalIndexes localIndexes = .ok db.schema)
    (hmodels : ∀ m ∈ models, Model.build m.name m.fields = .ok m) (htyped : db.schema.KeysTyped)
    {s₀ s₁ : Session MemoryStore} {reply : TableReply}
    (hcreate : ExceptT.run db.createTable s₀ = (.ok reply, s₁))
    (hrun : Session.Continued db.config.name s₁ s) {m : BoundModel} (hm : m.model ∈ models) :
    (∀ params, (ExceptT.run (db.create m params) s).1
        = (ExceptT.run (m.model.materialize db.ids params none) s.drawn).1.mapError .field)
      ∧ ∀ params : List Params, params.length ≤ 25 →
          (ExceptT.run (db.createMany m params) s).1
            = (ExceptT.run (params.mapM (fun p => m.model.materialize db.ids p none))
                s.drawn).1.mapError .field := by
  obtain ⟨hschema, h⟩ := Schema.build_eq_ok_iff.mp hbuild
  have hmem : m.model ∈ db.schema.models := by
    rw [hschema]
    exact hm
  have hwf : m.model.WellFormed := (Model.build_eq_ok_iff.mp (hmodels m.model hm)).2
  obtain ⟨t, ht, hdecl⟩ := hrun.table (emptyTable_of_createTable h hcreate)
  have haccepts : ∀ {params item n n'},
      ExceptT.run (m.model.materialize db.ids params none) n = (.ok item, n') →
      t.Accepts (.ofItem item) := fun hmade =>
    h.accepts_of_makes htyped hmem hwf (Model.makes_of_materialize hwf hmade) hdecl
  refine ⟨fun params => ?_, fun params hlen => ?_⟩
  · obtain ⟨made, drawn, hmade⟩ : ∃ made drawn,
      ExceptT.run (m.model.materialize db.ids params none) s.drawn = (made, drawn) := ⟨_, _, rfl⟩
    rw [hmade]
    cases made with
    | error e =>
        rw [create, run_bind_of_error (run_ofDrawing hmade)]
        rfl
    | ok item =>
        obtain ⟨s', hrun⟩ := run_create_of_accepts ht hmade (haccepts hmade)
        rw [hrun]
        rfl
  · obtain ⟨made, drawn, hmade⟩ : ∃ made drawn,
      ExceptT.run (params.mapM (fun p => m.model.materialize db.ids p none)) s.drawn
        = (made, drawn) := ⟨_, _, rfl⟩
    rw [hmade]
    cases made with
    | error e =>
        rw [createMany, run_bind_of_error (run_ofDrawing hmade)]
        rfl
    | ok items =>
        have hitems : ∀ item ∈ items, t.Accepts (.ofItem item) := by
          intro item hitem
          obtain ⟨p, -, n, n', hp⟩ := (run_mapM_eq_ok hmade).2 item hitem
          exact haccepts hp
        obtain ⟨s', hrun⟩ := run_createMany_of_accepts ht hlen hmade hitems
        rw [hrun]
        rfl

end Database

/-! ## Books and readers -/

/-- The model of books, bound to their shelf. -/
def books : BoundModel := ⟨book, .string "books"⟩

/-- The model of readers, bound to their list. -/
def readers : BoundModel := ⟨reader, .string "readers"⟩

/-- The session in which the table of the library has just been created. -/
def newLibrary : Session MemoryStore := noTables.after library.createTable

/-- All fields of the library are strings. -/
theorem keysTyped_library : library.schema.KeysTyped := by
  intro m hm f hf _ raw v hv
  have hstring : f.validator = .string := by
    rcases List.mem_cons.mp hm with rfl | hm
    · simp only [book, Field.partitionKey, Field.sortKey, List.mem_cons, List.not_mem_nil,
        or_false] at hf
      rcases hf with rfl | rfl | rfl | rfl <;> rfl
    · rw [List.mem_singleton.mp hm] at hf
      simp only [reader, Field.partitionKey, Field.sortKey, List.mem_cons, List.not_mem_nil,
        or_false] at hf
      rcases hf with rfl | rfl | rfl <;> rfl
  rw [Field.attributeType, hstring]
  rw [hstring] at hv
  obtain ⟨text, -, rfl⟩ := map_eq_ok_iff.mp hv
  rfl

theorem create_in_library :
    Schema.build [book, reader] [byAuthor] [] = .ok library.schema
      ∧ (∀ m ∈ [book, reader], Model.build m.name m.fields = .ok m)
      ∧ (∃ reply, ExceptT.run library.createTable noTables = (.ok reply, newLibrary))
      ∧ (ExceptT.run (library.create books {}) newLibrary).1
        = .error (.field ⟨"book", "number", .missing⟩)
      ∧ (ExceptT.run (library.createMany readers [{}]) newLibrary).1
        = .ok [(Database.keyItem (.string "readers") (.string "0")).insert "id" (.string "0")] := by
  have hcreate : ∃ reply, ExceptT.run library.createTable noTables = (.ok reply, newLibrary) :=
    ⟨_, rfl⟩
  obtain ⟨reply, hreply⟩ := hcreate
  have hbooks : books.model ∈ [book, reader] := by simp [books]
  have hreaders : readers.model ∈ [book, reader] := by simp [readers]
  obtain ⟨hone, -⟩ := Database.create_accepted build_library build_models_library
    keysTyped_library hreply .start hbooks
  obtain ⟨-, hmany⟩ := Database.create_accepted build_library build_models_library
    keysTyped_library hreply .start hreaders
  exact ⟨build_library, build_models_library, ⟨reply, hreply⟩, (hone {}).trans rfl,
    (hmany [{}] (by decide)).trans rfl⟩

end SingleTable
