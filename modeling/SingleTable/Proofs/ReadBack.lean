import SingleTable.Proofs.Isolation

set_option autoImplicit false

/-!
# Writes of a model are read back

A write of a bound model changes what is found under one key only. What it has stored is found under this
key as it is, and what it has deleted is not found any more; a write that fails changes nothing
(`Database.reads_back`).
-/

namespace SingleTable

/-! ## Keys of the table -/

/-- The address of an item in the table of a schema. -/
def PrimaryKey.ofValues (partition sort : AttributeValue) : PrimaryKey :=
  ⟨partition, some (SortKey.ofValueD sort)⟩

namespace Schema

/-- The values carry the types of the partition key and of the sort key of the table. -/
structure AdmitsKey (s : Schema) (partition sort : AttributeValue) : Prop where
  partition : KeyAttribute.Admits ⟨partitionKeyName, s.keyType partitionKeyName⟩ partition
  sort : KeyAttribute.Admits ⟨sortKeyName, s.keyType sortKeyName⟩ sort

/-- The place of an item is that of its sort key. -/
theorem placeOf_tableKeys {s : Schema} {item : Item} {sort : AttributeValue}
    (hsort : item.get? sortKeyName = some sort) :
    s.tableKeys.placeOf item = SortKey.ofValueD sort := by
  simp only [KeySchema.placeOf, tableKeys, hsort, Option.elim]

/-- The key of an item consists of the values of its partition key and of its sort key. -/
theorem extract_eq_ok_iff {s : Schema} {item : Item} {key : PrimaryKey} :
    s.tableKeys.extract item = .ok key
      ↔ ∃ partition sort, item.get? partitionKeyName = some partition
        ∧ item.get? sortKeyName = some sort ∧ s.AdmitsKey partition sort
        ∧ key = .ofValues partition sort := by
  rw [KeySchema.extract_eq_ok_iff]
  constructor
  · rintro ⟨hfits, hpartition, hsort⟩
    obtain ⟨p, hp, hpadm⟩ := hfits ⟨partitionKeyName, s.keyType partitionKeyName⟩
      (by simp [KeySchema.attributes, tableKeys])
    obtain ⟨k, hk, hkadm⟩ := hfits ⟨sortKeyName, s.keyType sortKeyName⟩
      (by simp [KeySchema.attributes, tableKeys])
    refine ⟨p, k, hp, hk, ⟨hpadm, hkadm⟩, ?_⟩
    obtain ⟨kp, ks⟩ := key
    obtain rfl : p = kp := Option.some.inj (hp.symm.trans hpartition)
    rw [placeOf_tableKeys hk] at hsort
    rw [PrimaryKey.ofValues]
    exact congrArg _ hsort
  · rintro ⟨p, k, hp, hk, hadm, rfl⟩
    refine ⟨?_, hp, ?_⟩
    · intro key hkey
      simp only [KeySchema.attributes, tableKeys, Option.toList_some, List.mem_cons,
        List.not_mem_nil, or_false] at hkey
      rcases hkey with rfl | rfl
      · exact ⟨p, hp, hadm.partition⟩
      · exact ⟨k, hk, hadm.sort⟩
    · rw [placeOf_tableKeys hk]
      rfl

end Schema

theorem PrimaryKey.same_ofValues_iff {p q k l : AttributeValue} :
    (PrimaryKey.ofValues p k).same (.ofValues q l) = true ↔ p = q ∧ k.keyOrder l = .eq :=
  PrimaryKey.same_iff

namespace Database

variable {db : Database} {t t' : StoredTable} {s s' : Session MemoryStore}

/-- A key is looked up if its values carry the types of the keys. -/
theorem exactKey_keyItem_iff (hkeys : t.schema = db.schema.tableKeys)
    {partition sort : AttributeValue} {key : PrimaryKey} :
    t.exactKey (keyItem partition sort) = .ok key
      ↔ db.schema.AdmitsKey partition sort ∧ key = .ofValues partition sort := by
  rw [StoredTable.exactKey_eq_ok_iff, hkeys, Schema.extract_eq_ok_iff]
  have hsize : (keyItem partition sort).size = db.schema.tableKeys.size :=
    size_keyItem partition sort
  constructor
  · rintro ⟨-, p, k, hp, hk, hadm, rfl⟩
    cases (get?_keyItem partition sort partitionKeyName).symm.trans hp
    cases (get?_keyItem partition sort sortKeyName).symm.trans hk
    exact ⟨hadm, rfl⟩
  · rintro ⟨hadm, rfl⟩
    exact ⟨hsize, partition, sort, get?_keyItem partition sort partitionKeyName,
      get?_keyItem partition sort sortKeyName, hadm, rfl⟩

/-- Tables of one schema answer alike where they find the same under the key. -/
theorem get_congr (hschema : t'.schema = t.schema) {item : Item}
    (hfind : ∀ key, t.exactKey item = .ok key → t'.storage.get? key = t.storage.get? key) :
    t'.get item = t.get item := by
  have hexact : t'.exactKey item = t.exactKey item := by
    rw [StoredTable.exactKey, StoredTable.exactKey, hschema]
  rw [StoredTable.get, StoredTable.get, hexact]
  cases hkey : t.exactKey item with
  | error e => rfl
  | ok key =>
      show Except.ok (t'.storage.get? key) = Except.ok (t.storage.get? key)
      rw [hfind key hkey]

/-- What is found under a key of the types of the keys is what is stored at its address. -/
theorem run_get_of_admitsKey (ht : s.store.tables.get? db.config.name = some t)
    (hkeys : t.schema = db.schema.tableKeys) {partition sort : AttributeValue}
    (hadm : db.schema.AdmitsKey partition sort) :
    ExceptT.run (db.get partition sort) s
      = (.ok (t.storage.get? (.ofValues partition sort)), s) := by
  have hget : t.get (keyItem partition sort) = .ok (t.storage.get? (.ofValues partition sort)) :=
    StoredTable.get_eq_ok_iff.mpr ⟨_, (exactKey_keyItem_iff hkeys).mpr ⟨hadm, rfl⟩, rfl⟩
  rw [run_get_of_table ht, hget]
  rfl

/-- In both sessions the same is found under every key but those of one place, and all other tables are
the same. -/
structure SameElsewhere (db : Database) (partition sort : AttributeValue)
    (s s' : Session MemoryStore) : Prop where
  keys : ∀ p k, (SortKey.ofValueD k).Comparable → ¬ (p = partition ∧ k.keyOrder sort = .eq) →
    (ExceptT.run (db.get p k) s').1 = (ExceptT.run (db.get p k) s).1
  tables : ∀ n, n ≠ db.config.name → s'.store.tables.get? n = s.store.tables.get? n

/-- Only the stores of the sessions matter. -/
theorem SameElsewhere.of_store_eq {partition sort : AttributeValue} {u : Session MemoryStore}
    (h : db.SameElsewhere partition sort u s') (hstore : u.store = s.store) :
    db.SameElsewhere partition sort s s' := by
  refine ⟨fun p k hc hne => ?_, fun n hn => ?_⟩
  · rw [h.keys p k hc hne, run_get, run_get, hstore]
  · rw [h.tables n hn, hstore]

section

variable (ht : s.store.tables.get? db.config.name = some t)
  (hkeys : t.schema = db.schema.tableKeys)

include ht hkeys

/-- A write that binds one address to what is found there from now on changes what is found under the
keys of this place only. -/
theorem readBack_of_setTable {partition sort : AttributeValue} {found : Option Item}
    (hadm : db.schema.AdmitsKey partition sort)
    (hplace : (PrimaryKey.ofValues partition sort).place.Comparable)
    (hs' : s' = { s with store := s.store.setTable db.config.name t' })
    (hschema : t'.schema = t.schema)
    (hfind : ∀ key : PrimaryKey, key.place.Comparable → t'.storage.get? key
      = if key.same (.ofValues partition sort) then found else t.storage.get? key) :
    ExceptT.run (db.get partition sort) s' = (.ok found, s')
      ∧ db.SameElsewhere partition sort s s' := by
  have ht' : s'.store.tables.get? db.config.name = some t' := by
    rw [hs']
    exact (MemoryStore.get?_setTable _ _ _ _).trans (if_pos rfl)
  refine ⟨?_, fun p k hc hne => ?_, fun n hn => ?_⟩
  · have hself : (PrimaryKey.ofValues partition sort).same (.ofValues partition sort) = true :=
      PrimaryKey.same_ofValues_iff.mpr ⟨rfl, SortKey.compare_self _⟩
    rw [run_get_of_admitsKey ht' (hschema.trans hkeys) hadm, hfind _ hplace, if_pos hself]
  · have hget : t'.get (keyItem p k) = t.get (keyItem p k) := by
      refine get_congr hschema fun key hkey => ?_
      obtain ⟨-, rfl⟩ := (exactKey_keyItem_iff hkeys).mp hkey
      rw [hfind (.ofValues p k) hc, if_neg]
      rw [PrimaryKey.same_ofValues_iff]
      exact hne
    rw [run_get_of_table ht', run_get_of_table ht, hget]
  · rw [hs']
    exact (MemoryStore.get?_setTable _ _ _ _).trans (if_neg hn)

variable (hsound : t.Sound)

include hsound

/-- A stored item is found under its key, and nothing else has changed. -/
theorem readBack_of_putItem {item : Item} (h : ExceptT.run (db.putItem item) s = (.ok (), s')) :
    ∃ partition sort, item.get? partitionKeyName = some partition
      ∧ item.get? sortKeyName = some sort
      ∧ ((SortKey.ofValueD sort).Comparable →
          ExceptT.run (db.get partition sort) s' = (.ok (some item), s')
            ∧ db.SameElsewhere partition sort s s') := by
  obtain ⟨u, t', hu, hput, hs'⟩ := run_putItem_eq_ok_iff.mp h
  obtain rfl : t = u := Option.some.inj (ht.symm.trans hu)
  obtain ⟨-, key, hkey, rfl⟩ := StoredTable.put_eq_ok_iff.mp hput
  rw [hkeys] at hkey
  obtain ⟨p, k, hp, hk, hadm, rfl⟩ := Schema.extract_eq_ok_iff.mp hkey
  refine ⟨p, k, hp, hk, fun hplace => readBack_of_setTable ht hkeys hadm hplace hs' rfl ?_⟩
  intro key hc
  have hplace' : (PrimaryKey.ofValues p k).place.Comparable := hplace
  exact Storage.get?_putAt hsound.storage hplace' hc item

/-- Nothing is found under a deleted key, and nothing else has changed. -/
theorem readBack_of_deleteItem {m : BoundModel} {sort : AttributeValue}
    (h : ExceptT.run (db.deleteItem m sort) s = (.ok (), s'))
    (hplace : (SortKey.ofValueD sort).Comparable) :
    ExceptT.run (db.getItem m sort) s' = (.ok none, s')
      ∧ db.SameElsewhere m.partition sort s s' := by
  obtain ⟨u, t', hu, hdelete, hs'⟩ := run_deleteItem_eq_ok_iff.mp h
  obtain rfl : t = u := Option.some.inj (ht.symm.trans hu)
  obtain ⟨key, hkey, rfl⟩ := StoredTable.delete_eq_ok_iff.mp hdelete
  obtain ⟨hadm, rfl⟩ := (exactKey_keyItem_iff hkeys).mp hkey
  refine readBack_of_setTable ht hkeys hadm hplace hs' (Storage.delete_schema _ _) ?_
  intro key hc
  have hplace' : (PrimaryKey.ofValues m.partition sort).place.Comparable := hplace
  exact Storage.get?_delete hsound.storage hplace' hc

end

/-! ## Updates -/

/-- An item that is made by an update has the keys of its place, and keeps the generated and required
values of the item that it replaces. -/
theorem item_of_prepareUpdate {m : BoundModel} (hwf : m.model.WellFormed) {sort : AttributeValue}
    {params : Params} {upsert : Bool} {item : Item}
    (h : ExceptT.run (db.prepareUpdate m sort params upsert) s = (.ok item, s')) :
    item.get? partitionKeyName = some m.partition ∧ item.get? sortKeyName = some sort
      ∧ ∀ old, ExceptT.run (db.getItem m sort) s = (.ok (some old), s) →
          ∀ f ∈ m.model.fields, f.kind.isComputed = false →
            ∀ v, old.get? f.name = some v → item.get? f.name = some v := by
  obtain ⟨existing, made, drawn, hget, hmade, rfl, -⟩ := run_prepareUpdate_eq_ok h
  refine ⟨by simp, by simp [partitionKeyName, sortKeyName], fun old hold f hf hkind v hv => ?_⟩
  have hexisting : existing = some old :=
    Except.ok.inj (Prod.mk.inj (hget.symm.trans hold)).1
  -- generated and required fields have other names than the keys, which are set last
  have hname : Model.isKeyName f.name = false :=
    hwf.not_isKeyName hf (FieldKind.isComputed_eq_false_iff.mp hkind)
  rw [get?_insert_keys hname]
  exact (Model.makes_of_materialize hwf hmade).kept hexisting hf hkind hv

/-- An update reports that there is no item exactly if none is found and none is to be made. -/
theorem update_itemNotFound_iff {m : BoundModel} {sort : AttributeValue} {params : Params}
    {upsert : Bool} :
    (∃ s', ExceptT.run (db.update m sort params upsert) s
        = (.error (.itemNotFound m.model.name sort), s'))
      ↔ ExceptT.run (db.getItem m sort) s = (.ok none, s) ∧ upsert = false := by
  constructor
  · rintro ⟨s', h⟩
    rcases run_bind_eq_error_iff.mp h with h | ⟨item, u, -, h⟩
    · rcases run_bind_eq_error_iff.mp h with hget | ⟨existing, u, hget, -⟩
      · obtain ⟨_, hcause⟩ := run_get_eq_error hget
        cases hcause
      · obtain rfl : u = s := (Prod.mk.inj (hget.symm.trans (run_get db m.partition sort s))).2
        rw [run_prepareUpdate_of_get hget] at h
        split at h
        · rename_i hmissing
          rw [Bool.and_eq_true, Bool.not_eq_true', Option.isNone_iff_eq_none] at hmissing
          exact ⟨hmissing.1 ▸ hget, hmissing.2⟩
        · -- what is made is found at fault by a field
          rcases run_bind_eq_error_iff.mp h with h | ⟨_, _, -, h⟩
          · obtain ⟨_, hcause⟩ := run_ofDrawing_eq_error h
            cases hcause
          · cases h
    · -- what is stored is refused by the store
      rcases run_bind_eq_error_iff.mp h with h | ⟨_, _, -, h⟩
      · obtain ⟨-, _, -, hcause⟩ := run_ofStore_writing_eq_error h
        cases hcause
      · cases h
  · rintro ⟨hget, rfl⟩
    exact ⟨s, run_bind_of_error (run_prepareUpdate_of_get hget)⟩

/-! ## All writes of a model -/

/-- The items of the table of the database. -/
def storedItems (db : Database) (s : Session MemoryStore) : List Item :=
  (s.store.tables.get? db.config.name).elim [] (fun t => t.storage.items)

/-- The item stands at the place of a partition value and a sort value. -/
def IsAt (partition sort : AttributeValue) (item : Item) : Prop :=
  item.get? partitionKeyName = some partition
    ∧ ∃ k, item.get? sortKeyName = some k ∧ k.keyOrder sort = .eq

/-- Nothing is found under a key exactly if no stored item stands there. -/
theorem run_get_eq_none_iff (ht : s.store.tables.get? db.config.name = some t)
    (hkeys : t.schema = db.schema.tableKeys) (hsound : t.Sound) {partition sort : AttributeValue}
    (hadm : db.schema.AdmitsKey partition sort) (hplace : (SortKey.ofValueD sort).Comparable) :
    ExceptT.run (db.get partition sort) s = (.ok none, s)
      ↔ ∀ item ∈ db.storedItems s, ¬ IsAt partition sort item := by
  have hitems : db.storedItems s = t.storage.items := by
    rw [storedItems, ht]
    rfl
  have hplace' : (PrimaryKey.ofValues partition sort).place.Comparable := hplace
  have hextract : ∀ {item key}, t.storage.schema.extract item = .ok key → ∃ p k,
      item.get? partitionKeyName = some p ∧ item.get? sortKeyName = some k ∧ key = .ofValues p k := by
    intro item key hkey
    have hkey : t.schema.extract item = .ok key := hkey
    rw [hkeys] at hkey
    obtain ⟨p, k, hp, hk, -, heq⟩ := Schema.extract_eq_ok_iff.mp hkey
    exact ⟨p, k, hp, hk, heq⟩
  rw [run_get_of_admitsKey ht hkeys hadm, hitems]
  constructor
  · rintro h item hitem ⟨hpartition, l, hl, horder⟩
    obtain ⟨key, hkey, hc, hget⟩ := hsound.storage.mem_items_iff.mp hitem
    obtain ⟨p, k, hp, hk, rfl⟩ := hextract hkey
    obtain rfl : partition = p := Option.some.inj (hpartition.symm.trans hp)
    obtain rfl : l = k := Option.some.inj (hl.symm.trans hk)
    have hsame := hsound.storage.get?_congr hc hplace'
      (PrimaryKey.same_ofValues_iff.mpr ⟨rfl, horder⟩)
    rw [← hsame, hget] at h
    cases h
  · intro h
    cases hget : t.storage.get? (.ofValues partition sort) with
    | none => rfl
    | some item =>
        obtain ⟨key, hkey, hc, hsame⟩ := hsound.storage.extract_of_get? hplace' hget
        obtain ⟨p, k, hp, hk, rfl⟩ := hextract hkey
        obtain ⟨rfl, horder⟩ := PrimaryKey.same_ofValues_iff.mp hsame
        have hfound := hsound.storage.get?_congr hc hplace' hsame
        exact absurd ⟨hp, k, hk, horder⟩
          (h item (hsound.storage.mem_items_iff.mpr ⟨_, hkey, hc, hfound.trans hget⟩))

/-- The writes of a bound model are read back in a session, and each of them touches one key only. -/
structure ReadsBack (db : Database) (m : BoundModel) (s : Session MemoryStore) : Prop where
  /-- A created item is found under its key. -/
  created : ∀ params item s', ExceptT.run (db.create m params) s = (.ok item, s') →
    ∃ partition sort, item.get? partitionKeyName = some partition
      ∧ item.get? sortKeyName = some sort
      ∧ ((SortKey.ofValueD sort).Comparable →
          ExceptT.run (db.get partition sort) s' = (.ok (some item), s')
            ∧ db.SameElsewhere partition sort s s')
  /-- An updated item has the keys of its place, keeps the generated and required values of the item
  that stood there, and is found there. -/
  updated : ∀ sort params upsert item s',
    ExceptT.run (db.update m sort params upsert) s = (.ok item, s') →
    item.get? partitionKeyName = some m.partition ∧ item.get? sortKeyName = some sort
      ∧ (∀ old, ExceptT.run (db.getItem m sort) s = (.ok (some old), s) →
          ∀ f ∈ m.model.fields, f.kind.isComputed = false →
            ∀ v, old.get? f.name = some v → item.get? f.name = some v)
      ∧ ((SortKey.ofValueD sort).Comparable →
          ExceptT.run (db.getItem m sort) s' = (.ok (some item), s')
            ∧ db.SameElsewhere m.partition sort s s')
  /-- A deleted item is not found any more. -/
  deleted : ∀ sort s', ExceptT.run (db.deleteItem m sort) s = (.ok (), s') →
    (SortKey.ofValueD sort).Comparable →
    ExceptT.run (db.getItem m sort) s' = (.ok none, s') ∧ db.SameElsewhere m.partition sort s s'
  /-- A write that fails leaves the store as it is. -/
  refused : ∀ (w : ModelWrite) e s', ExceptT.run (w.run db m) s = (.error e, s') →
    s'.store = s.store
  /-- An update of a key of the table reports a missing item exactly if nothing is stored there and
  nothing is to be inserted. -/
  missing : ∀ sort params upsert, db.schema.AdmitsKey m.partition sort →
    (SortKey.ofValueD sort).Comparable →
    ((∃ s', ExceptT.run (db.update m sort params upsert) s
        = (.error (.itemNotFound m.model.name sort), s'))
      ↔ (∀ item ∈ db.storedItems s, ¬ IsAt m.partition sort item) ∧ upsert = false)

/-- The writes of every model of an accepted schema are read back, in every session that is reached from
the creation of the table by any writes. Among sort keys that are numbers all have to have texts of
numbers, the stored ones (`SessionCall.Readable`) and those of the write. -/
theorem reads_back {models : List Model} {globalIndexes : List GlobalIndex}
    {localIndexes : List LocalIndex}
    (hbuild : Schema.build models globalIndexes localIndexes = .ok db.schema)
    (hmodels : ∀ m ∈ models, Model.build m.name m.fields = .ok m)
    {s₀ s₁ : Session MemoryStore} {reply : TableReply}
    (hcreate : ExceptT.run db.createTable s₀ = (.ok reply, s₁))
    (hrun : Session.Reached db.config.name s₁ s) {name : String} {m : BoundModel}
    (hm : db.model name = .ok m) : db.ReadsBack m s := by
  have hmem := (model_eq_ok hm).1
  rw [(Schema.build_eq_ok_iff.mp hbuild).1] at hmem
  have hwf : m.model.WellFormed := (Model.build_eq_ok_iff.mp (hmodels m.model hmem)).2
  obtain ⟨t₁, ht₁, hsound₁, hkeys₁, -, -⟩ := table_of_createTable hcreate
  obtain ⟨t, ht, hsound, hsame⟩ := hrun.table ht₁ hsound₁
  have hkeys : t.schema = db.schema.tableKeys := hsame.schema.trans hkeys₁
  refine ⟨?created, ?updated, ?deleted, ?refused, ?missing⟩
  case created =>
    intro params item s' h
    obtain ⟨drawn, -, hput⟩ := run_create_eq_ok_iff.mp h
    obtain ⟨p, k, hp, hk, hread⟩ :=
      readBack_of_putItem (s := { s with drawn }) ht hkeys hsound hput
    exact ⟨p, k, hp, hk, fun hc => ⟨(hread hc).1, (hread hc).2.of_store_eq rfl⟩⟩
  case updated =>
    intro sort params upsert item s' h
    obtain ⟨u, hprepare, hput⟩ := run_update_eq_ok_iff.mp h
    obtain ⟨hpartition, hsort, hkept⟩ := item_of_prepareUpdate hwf hprepare
    have hstore : u.store = s.store :=
      (SessionCall.keepsStore_prepareUpdate db m sort params upsert).store_eq hprepare
    have htu : u.store.tables.get? db.config.name = some t := by
      rw [hstore]
      exact ht
    obtain ⟨p, k, hp, hk, hread⟩ := readBack_of_putItem htu hkeys hsound hput
    obtain rfl : m.partition = p := Option.some.inj (hpartition.symm.trans hp)
    obtain rfl : sort = k := Option.some.inj (hsort.symm.trans hk)
    exact ⟨hpartition, hsort, hkept, fun hc => ⟨(hread hc).1, (hread hc).2.of_store_eq hstore⟩⟩
  case deleted =>
    intro sort s' h hc
    exact readBack_of_deleteItem ht hkeys hsound h hc
  case refused =>
    intro w e s' h
    exact ModelWrite.keepsStoreOnError db m w s e s' h
  case missing =>
    intro sort params upsert hadm hc
    rw [update_itemNotFound_iff]
    exact and_congr_left fun _ => run_get_eq_none_iff ht hkeys hsound hadm hc

end Database

/-- The first book as it is stored. -/
def firstBookItem : Item :=
  ((Database.keyItem (.string "books") (.string "1")).insert "number" (.string "1")).insert "author"
    (.string "a")

theorem get_after_create :
    Schema.build [book, reader] [byAuthor] [] = .ok library.schema
      ∧ (∀ m ∈ [book, reader], Model.build m.name m.fields = .ok m)
      ∧ (∃ reply, ExceptT.run library.createTable noTables = (.ok reply, newLibrary))
      ∧ library.model "book" = .ok books
      ∧ ∃ s', ExceptT.run (library.create books firstBook) newLibrary = (.ok firstBookItem, s')
        ∧ ExceptT.run (library.get (.string "books") (.string "1")) s'
          = (.ok (some firstBookItem), s') := by
  have hcreate : ∃ reply, ExceptT.run library.createTable noTables = (.ok reply, newLibrary) :=
    ⟨_, rfl⟩
  have hbound : library.model "book" = .ok books := rfl
  obtain ⟨reply, hreply⟩ := hcreate
  have h := Database.reads_back build_library build_models_library hreply .start hbound
  have hmade : ∃ s', ExceptT.run (library.create books firstBook) newLibrary
      = (.ok firstBookItem, s') := ⟨_, rfl⟩
  obtain ⟨s', hs'⟩ := hmade
  obtain ⟨p, k, hp, hk, hread⟩ := h.created firstBook firstBookItem s' hs'
  cases hp
  cases hk
  exact ⟨build_library, build_models_library, ⟨reply, hreply⟩, hbound, s', hs', (hread trivial).1⟩

end SingleTable
