import SingleTable.Proofs.Acceptance

set_option autoImplicit false

/-!
# A model stays in its partition

What a bound model writes carries the value of its partition key, so that nothing changes under any other
value (`Database.write_stays_in_partition`). Updates and deletes force this value. A create computes the
partition key anew from the parameters, so here the key of the model must not depend on them: there is a
model whose items stand elsewhere (`create_in_other_partition`).
-/

namespace SingleTable

/-! ## Bound models -/

namespace Database

theorem bindModel_eq_ok {model : Model} {m : BoundModel} (h : bindModel model = .ok m) :
    m.model = model ∧ ∃ f, model.field? partitionKeyName = some f
      ∧ model.partitionValue f = .ok m.partition := by
  rw [bindModel] at h
  split at h
  · cases h
  · rename_i f hf
    split at h
    · rename_i partition hpartition
      cases h
      exact ⟨rfl, f, hf, hpartition⟩
    · cases h

/-- A model that is looked up is one of the schema, bound to the value that its partition key has without
parameters. -/
theorem model_eq_ok {db : Database} {name : String} {m : BoundModel} (h : db.model name = .ok m) :
    m.model ∈ db.schema.models ∧ ∃ f, m.model.field? partitionKeyName = some f
      ∧ m.model.partitionValue f = .ok m.partition := by
  rw [model] at h
  split at h
  · cases h
  · rename_i model hmodel
    obtain ⟨rfl, hbound⟩ := bindModel_eq_ok h
    exact ⟨List.mem_of_find?_eq_some hmodel, hbound⟩

end Database

/-- The partition key of the model ignores its parameters. -/
def Model.FixedPartition (m : Model) : Prop :=
  ∀ f, m.field? partitionKeyName = some f → ∀ value, f.kind.function? = some value →
    ∀ params, value params = value {}

/-- What a model with a fixed partition makes carries the value that the model is bound to. -/
theorem Model.Makes.partition {m : Model} {ids : IdSource} {params : Params} {existing : Option Item}
    {item : Item} (h : m.Makes ids params existing item) (hwf : m.WellFormed)
    (hfixed : m.FixedPartition) {f : Field} (hf : m.field? partitionKeyName = some f)
    {v : AttributeValue} (hv : m.partitionValue f = .ok v) :
    item.get? partitionKeyName = some v := by
  obtain ⟨hmem, hname⟩ := hwf.field?_eq_some_iff.mp hf
  cases hfun : f.kind.function? with
  | none =>
      have hkey := hwf.not_isKeyName hmem hfun
      rw [hname] at hkey
      cases hkey
  | some value =>
      obtain ⟨known, -, hcomputed⟩ := h.computed
      obtain ⟨w, hw, hparse⟩ := hcomputed f hmem value hfun
      rw [hfixed f hf value hfun] at hparse
      rw [partitionValue, hfun] at hv
      have hparse' : f.validator.parse (value {}) = .ok v := Field.value_eq_ok_iff.mp hv
      rw [hparse] at hparse'
      rw [← hname, hw, Except.ok.inj hparse']

/-! ## Writes within one partition -/

namespace Storage

variable {s : Storage}

/-- Other partitions are found as before. -/
theorem lookup_setPartition_of_ne {v w : AttributeValue} (hne : w ≠ v) (p : Partition)
    (partitions : List (AttributeValue × Partition)) :
    (setPartition partitions v p).lookup w = partitions.lookup w := by
  induction partitions with
  | nil =>
      rw [setPartition]
      split
      · rfl
      · rw [lookup_cons_eq_ite, if_neg hne]
  | cons e rest ih =>
      rw [setPartition]
      split
      · rename_i he
        have hnot : ¬ w = e.1 := fun h => hne (h.trans he)
        split
        · rw [lookup_cons_eq_ite, if_neg hnot]
        · rw [lookup_cons_eq_ite, if_neg hne, lookup_cons_eq_ite, if_neg hnot]
      · rw [lookup_cons_eq_ite, lookup_cons_eq_ite, ih]

theorem partition_putAt_of_ne {key : PrimaryKey} {v : AttributeValue} (hne : v ≠ key.partition)
    (item : Item) : (s.putAt key item).partition v = s.partition v :=
  congrArg (·.getD []) (lookup_setPartition_of_ne hne _ s.partitions)

theorem partition_delete_of_ne {key : PrimaryKey} {v : AttributeValue} (hne : v ≠ key.partition) :
    (s.delete key).2.partition v = s.partition v := by
  rw [delete]
  cases s.get? key with
  | none => rfl
  | some old => exact congrArg (·.getD []) (lookup_setPartition_of_ne hne _ s.partitions)

end Storage

/-- What the write puts or deletes carries the value as its partition key. -/
def WriteRequest.InPartition (w : WriteRequest) (v : AttributeValue) : Prop :=
  (∀ item, w.put = some item → item.get? partitionKeyName = some v)
    ∧ ∀ key, w.delete = some key → key.get? partitionKeyName = some v

/-- The tables are declared alike, and differ in the partition of the value only. -/
structure StoredTable.SameOutside (v : AttributeValue) (t t' : StoredTable) : Prop where
  declaration : SameDeclaration t t'
  partitions : ∀ w, w ≠ v → t'.storage.partition w = t.storage.partition w

namespace StoredTable

variable {v : AttributeValue} {t t' : StoredTable}

theorem SameOutside.refl (v : AttributeValue) (t : StoredTable) : SameOutside v t t :=
  ⟨.refl t, fun _ _ => rfl⟩

theorem sameOutside_write (hname : t.schema.partition.name = partitionKeyName) {w : WriteRequest}
    (hin : w.InPartition v) (hw : t.write w = .ok t') : SameOutside v t t' := by
  have hkey : ∀ {item key}, item.get? partitionKeyName = some v → t.schema.extract item = .ok key →
      key.partition = v := by
    intro item key hitem hkey
    have hpart := (KeySchema.extract_eq_ok_iff.mp hkey).2.1
    rw [hname, hitem] at hpart
    exact (Option.some.inj hpart).symm
  refine ⟨sameDeclaration_write hw, fun u hu => ?_⟩
  rw [write] at hw
  split at hw
  · rename_i item hput
    obtain ⟨-, key, hextract, rfl⟩ := put_eq_ok_iff.mp hw
    exact Storage.partition_putAt_of_ne (hkey (hin.1 item hput) hextract ▸ hu) item
  · rename_i item _ hdelete
    obtain ⟨key, hexact, rfl⟩ := delete_eq_ok_iff.mp hw
    have hextract := (exactKey_eq_ok_iff.mp hexact).2
    exact Storage.partition_delete_of_ne (hkey (hin.2 item hdelete) hextract ▸ hu)
  · cases hw
    rfl

theorem sameOutside_foldlM_write (hname : t.schema.partition.name = partitionKeyName)
    {writes : List WriteRequest} (hin : ∀ w ∈ writes, w.InPartition v)
    (hw : writes.foldlM write t = .ok t') : SameOutside v t t' := by
  refine keeps_foldlM_write (P := SameOutside v t) ?_ (.refl v t) hw
  intro w hmem u u' hdecl hu huw
  have hname' : u.schema.partition.name = partitionKeyName := by rw [hdecl.schema, hname]
  have hstep := sameOutside_write hname' (hin w hmem) huw
  exact ⟨hu.declaration.trans hstep.declaration,
    fun x hx => (hstep.partitions x hx).trans (hu.partitions x hx)⟩

end StoredTable

/-- All writes of the call go to one table, and there to the partition of one value. -/
structure StoreCall.WritesIn (table : String) (v : AttributeValue) (c : StoreCall) : Prop where
  names : c.names = [table]
  keeps : c.KeepsTables
  writes : ∀ e ∈ c.writes, ∀ w ∈ e.2, w.InPartition v

namespace StoreCall

variable {table : String} {v : AttributeValue}

theorem writesIn_put {item : Item} (h : item.get? partitionKeyName = some v) :
    (put ⟨table, item⟩).WritesIn table v := by
  refine ⟨rfl, ⟨nofun, nofun⟩, ?_⟩
  intro e he w hw
  rw [List.mem_singleton.mp he] at hw
  rw [List.mem_singleton.mp hw]
  exact ⟨fun _ hitem => Option.some.inj hitem ▸ h, nofun⟩

theorem writesIn_delete {key : Item} (h : key.get? partitionKeyName = some v) :
    (delete ⟨table, key⟩).WritesIn table v := by
  refine ⟨rfl, ⟨nofun, nofun⟩, ?_⟩
  intro e he w hw
  rw [List.mem_singleton.mp he] at hw
  rw [List.mem_singleton.mp hw]
  exact ⟨nofun, fun _ hkey => Option.some.inj hkey ▸ h⟩

theorem writesIn_batchWrite {items : List Item}
    (h : ∀ item ∈ items, item.get? partitionKeyName = some v) :
    (batchWrite ⟨Dict.ofList [(table, items.map WriteRequest.ofItem)]⟩).WritesIn table v := by
  refine ⟨rfl, ⟨nofun, nofun⟩, ?_⟩
  intro e he w hw
  have he : e = (table, items.map WriteRequest.ofItem) := List.mem_singleton.mp he
  rw [he] at hw
  obtain ⟨item, hitem, rfl⟩ := List.mem_map.mp hw
  exact ⟨fun _ hput => Option.some.inj hput ▸ h item hitem, nofun⟩

/-- A call that writes to one partition leaves alone all other tables, and all other partitions of its
table if this is partitioned by the partition key of models. -/
theorem WritesIn.after {c : StoreCall} (h : c.WritesIn table v) (s : MemoryStore) :
    (∀ n, n ≠ table → (c.after s).tables.get? n = s.tables.get? n)
      ∧ ∀ t, s.tables.get? table = some t → t.schema.partition.name = partitionKeyName →
          ∃ t', (c.after s).tables.get? table = some t' ∧ t.SameOutside v t' := by
  refine ⟨fun n hn => get?_after_of_not_mem (by rw [h.names]; simpa using hn) s, ?_⟩
  intro t ht hname
  refine table_after_of ht (.refl v t) (fun r hr => absurd hr (h.keeps.2 r)) ?_
  rintro e he - t' ht'
  exact StoredTable.sameOutside_foldlM_write hname (h.writes e he) ht'

end StoreCall

/-! ## The writes of a model -/

namespace ModelWrite

/-- The write computes the partition key of what it writes from parameters. -/
def Creates : ModelWrite → Prop
  | .create _ => True
  | .createMany _ => True
  | .update _ _ _ => False
  | .delete _ => False

variable {db : Database} {m : BoundModel} {w : ModelWrite} {s s' : Session MemoryStore}
  (hmade : w.Creates → ∀ params item n n',
    ExceptT.run (m.model.materialize db.ids params none) n = (.ok item, n') →
    item.get? partitionKeyName = some m.partition)

include hmade

/-- Items that are made together carry the value of the partition key if each one does. -/
theorem get?_partition_of_mapM (hw : w.Creates) {params : List Params} {items : List Item} {n n' : Nat}
    (h : ExceptT.run (params.mapM (fun p => m.model.materialize db.ids p none)) n = (.ok items, n')) :
    ∀ item ∈ items, item.get? partitionKeyName = some m.partition := by
  intro item hitem
  obtain ⟨p, -, u, u', hp⟩ := (run_mapM_eq_ok h).2 item hitem
  exact hmade hw p item u u' hp

/-- All that a write of a bound model asks the store for lies in the partition of the model. -/
theorem writesIn_request {r : StoreCall} (h : (w.call db m).request? s = some r) :
    r.WritesIn db.config.name m.partition := by
  cases w with
  | create params =>
      obtain ⟨item, hitem, rfl⟩ := SessionCall.putOf_eq_some h
      obtain ⟨drawn, hdrawn, -⟩ := run_ofDrawing_eq_ok_iff.mp (Prod.ext hitem rfl)
      exact StoreCall.writesIn_put (hmade trivial params item _ _ hdrawn)
  | createMany params =>
      obtain ⟨items, hitems, rfl⟩ := SessionCall.batchOf_eq_some h
      obtain ⟨drawn, hdrawn, -⟩ := run_ofDrawing_eq_ok_iff.mp (Prod.ext hitems rfl)
      exact StoreCall.writesIn_batchWrite (get?_partition_of_mapM hmade trivial hdrawn)
  | update sort params upsert =>
      obtain ⟨item, hitem, rfl⟩ := SessionCall.putOf_eq_some h
      obtain ⟨-, made, -, -, -, rfl, -⟩ := Database.run_prepareUpdate_eq_ok (Prod.ext hitem rfl)
      exact StoreCall.writesIn_put (by simp)
  | delete sort =>
      cases h
      exact StoreCall.writesIn_delete (Database.get?_keyItem m.partition sort partitionKeyName)

/-- All that a write of a bound model returns lies in the partition of the model. -/
theorem get?_partition_of_run {items : List Item} (h : ExceptT.run (w.run db m) s = (.ok items, s')) :
    ∀ item ∈ items, item.get? partitionKeyName = some m.partition := by
  cases w with
  | create params =>
      obtain ⟨item, u, hitem, heq⟩ := run_bind_eq_ok_iff.mp h
      cases heq
      obtain ⟨drawn, hdrawn, -⟩ := Database.run_create_eq_ok_iff.mp hitem
      exact List.forall_mem_singleton.mpr (hmade trivial params item _ _ hdrawn)
  | createMany params =>
      have hdrawn := (Database.run_createMany_eq_ok_iff.mp h).1
      exact get?_partition_of_mapM hmade trivial hdrawn
  | update sort params upsert =>
      obtain ⟨item, u, hitem, heq⟩ := run_bind_eq_ok_iff.mp h
      cases heq
      obtain ⟨v, hprepare, -⟩ := Database.run_update_eq_ok_iff.mp hitem
      obtain ⟨-, made, -, -, -, rfl, -⟩ := Database.run_prepareUpdate_eq_ok hprepare
      exact List.forall_mem_singleton.mpr (by simp)
  | delete sort =>
      obtain ⟨-, u, -, heq⟩ := run_bind_eq_ok_iff.mp h
      cases heq
      exact nofun

end ModelWrite

/-- A model of an accepted schema stays in its own partition, in every state of the store. Whatever its
updates and deletes, and its creates if its partition key ignores the parameters, return or ask the store
to write carries the value that the model is bound to; other tables stay as they are, and so do all
partitions of other values of the table, where this is partitioned by the partition key of models. -/
theorem Database.write_stays_in_partition {db : Database} {models : List Model}
    {globalIndexes : List GlobalIndex} {localIndexes : List LocalIndex}
    (hbuild : Schema.build models globalIndexes localIndexes = .ok db.schema)
    (hmodels : ∀ m ∈ models, Model.build m.name m.fields = .ok m) {name : String} {m : BoundModel}
    (hm : db.model name = .ok m) (w : ModelWrite) (hfixed : w.Creates → m.model.FixedPartition)
    (s : Session MemoryStore) :
    (∀ items s', ExceptT.run (w.run db m) s = (.ok items, s') →
        ∀ item ∈ items, item.get? partitionKeyName = some m.partition)
      ∧ (∀ r, (w.call db m).request? s = some r → r.WritesIn db.config.name m.partition)
      ∧ (∀ n, n ≠ db.config.name →
          (s.after (w.run db m)).store.tables.get? n = s.store.tables.get? n)
      ∧ ∀ t, s.store.tables.get? db.config.name = some t →
          t.schema.partition.name = partitionKeyName →
          ∃ t', (s.after (w.run db m)).store.tables.get? db.config.name = some t'
            ∧ t.SameOutside m.partition t' := by
  obtain ⟨hmem, f, hf, hpartition⟩ := model_eq_ok hm
  rw [(Schema.build_eq_ok_iff.mp hbuild).1] at hmem
  have hwf : m.model.WellFormed := (Model.build_eq_ok_iff.mp (hmodels m.model hmem)).2
  have hmade : w.Creates → ∀ params item n n',
      ExceptT.run (m.model.materialize db.ids params none) n = (.ok item, n') →
      item.get? partitionKeyName = some m.partition := fun hw _ _ _ _ hrun =>
    (Model.makes_of_materialize hwf hrun).partition hwf (hfixed hw) hf hpartition
  refine ⟨fun items s' h => ModelWrite.get?_partition_of_run hmade h,
    fun r hr => ModelWrite.writesIn_request hmade hr, ?_⟩
  rw [← ModelWrite.after_call, SessionCall.store_after]
  cases hrequest : (w.call db m).request? s with
  | none => exact ⟨fun _ _ => rfl, fun t ht _ => ⟨t, ht, .refl _ t⟩⟩
  | some r => exact (ModelWrite.writesIn_request hmade hrequest).after s.store

/-- What is handed in for the first book. -/
def firstBook : Params := Dict.ofList [("number", .string "1"), ("author", .string "a")]

theorem fixedPartition_book : book.FixedPartition := by
  intro f hf value hvalue params
  obtain rfl : .partitionKey .string (.constant (.string "books")) = f := Option.some.inj hf
  obtain rfl : ValueFunction.constant (.string "books") = value := Option.some.inj hvalue
  rfl

theorem create_on_shelf :
    Schema.build [book, reader] [byAuthor] [] = .ok library.schema
      ∧ (∀ m ∈ [book, reader], Model.build m.name m.fields = .ok m)
      ∧ library.model "book" = .ok books ∧ book.FixedPartition
      ∧ ∃ items s', ExceptT.run ((ModelWrite.create firstBook).run library books) newLibrary
          = (.ok items, s')
        ∧ items.length = 1 ∧ ∀ item ∈ items, item.get? partitionKeyName = some (.string "books") := by
  have hbound : library.model "book" = .ok books := rfl
  obtain ⟨hreturned, -⟩ := Database.write_stays_in_partition build_library build_models_library hbound
    (.create firstBook) (fun _ => fixedPartition_book) newLibrary
  exact ⟨build_library, build_models_library, hbound, fixedPartition_book, _, _, rfl, rfl,
    hreturned _ _ rfl⟩

/-! ## A model that leaves its partition -/

/-- A tally counts its parameters, and the count is its partition key. -/
def tally : Model where
  name := "tally"
  fields := [
    .partitionKey .number (fun params => some (.ofNat params.size)),
    .sortKey .string (.parameter "id"),
    { name := "id", kind := .required, validator := .string }]

/-- A database of tallies. -/
def tallies : Database where
  config := { name := "tallies" }
  schema := { models := [tally] }
  ids := fun _ => ""

/-- A model that is bound to one partition value may create an item under another one: its partition key
is computed without parameters when it is bound, and from the parameters when it creates. -/
theorem create_in_other_partition :
    Schema.build [tally] [] [] = .ok tallies.schema
      ∧ Model.build tally.name tally.fields = .ok tally
      ∧ ∃ m item s', tallies.model "tally" = .ok m
        ∧ ExceptT.run (tallies.create m (Dict.ofList [("id", .string "a")]))
            (noTables.after tallies.createTable) = (.ok item, s')
        ∧ m.partition = .number "0" ∧ item.get? partitionKeyName = some (.number "1") :=
  ⟨rfl, rfl, ⟨tally, .number "0"⟩, _, _, rfl, rfl, rfl, rfl⟩

end SingleTable
