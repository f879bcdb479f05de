import Mathlib.Data.List.Perm.Subperm
import SingleTable.Memory.Table
import SingleTable.Proofs.Storage

set_option autoImplicit false

/-!
# Writes to one table

When a table accepts a write, and what the write does to it. Whether a write is accepted depends on
the declaration of the table alone, not on the stored items (`StoredTable.Accepts`). The check that a
batch makes of each write beforehand accepts exactly the writes that are carried out
(`checkWrite_eq_ok_iff`, `write_of_accepts`).
-/

namespace SingleTable

/-! ## Keys given as items -/

namespace KeySchema

/-- The names of the key attributes differ. -/
def Distinct (schema : KeySchema) : Prop := (schema.attributes.map KeyAttribute.name).Nodup

instance (schema : KeySchema) : Decidable schema.Distinct :=
  inferInstanceAs (Decidable (List.Nodup _))

/-- The item consists of exactly the key attributes, each one with a value of its declared type. -/
def IsKey (schema : KeySchema) (key : Item) : Prop :=
  schema.Fits key
    ∧ ∀ n, (key.get? n).isSome = true → n ∈ schema.attributes.map KeyAttribute.name

theorem names_subset_of_fits {schema : KeySchema} {item : Item} (h : schema.Fits item) :
    schema.attributes.map KeyAttribute.name ⊆ item.keys := by
  intro n hn
  obtain ⟨key, hkey, rfl⟩ := List.mem_map.mp hn
  obtain ⟨v, hv, -⟩ := h key hkey
  exact Dict.mem_keys_iff.mpr (by rw [hv]; rfl)

/-- An item with all key attributes has no other one exactly if it has as many attributes as the
key. -/
theorem isKey_iff_size {schema : KeySchema} (hd : schema.Distinct) {item : Item} :
    schema.IsKey item ↔ item.size = schema.size ∧ schema.Fits item := by
  have hlen : item.keys.length = item.size := List.length_map Prod.fst
  have hnames : (schema.attributes.map KeyAttribute.name).length = schema.size :=
    List.length_map KeyAttribute.name
  constructor
  · rintro ⟨hfits, hall⟩
    refine ⟨?_, hfits⟩
    -- both lists of names are without repetition, and each contains the other
    have hsub : item.keys ⊆ schema.attributes.map KeyAttribute.name :=
      fun n hn => hall n (Dict.mem_keys_iff.mp hn)
    have h₁ := (List.subperm_of_subset item.nodup_keys hsub).length_le
    have h₂ := (List.subperm_of_subset hd (names_subset_of_fits hfits)).length_le
    omega
  · rintro ⟨hsize, hfits⟩
    refine ⟨hfits, fun n hn => ?_⟩
    have hperm := (List.subperm_of_subset hd (names_subset_of_fits hfits)).perm_of_length_le
      (by omega)
    exact hperm.mem_iff.mpr (Dict.mem_keys_iff.mpr hn)

end KeySchema

/-- A write can be read back under a schema: what it puts or deletes has a comparable place. -/
def WriteRequest.Readable (w : WriteRequest) (schema : KeySchema) : Prop :=
  (∀ item, w.put = some item → schema.Readable item)
    ∧ ∀ key, w.delete = some key → schema.Readable key

namespace StoredTable

theorem exactKey_eq_ok_iff {t : StoredTable} {item : Item} {key : PrimaryKey} :
    t.exactKey item = .ok key ↔ item.size = t.schema.size ∧ t.schema.extract item = .ok key := by
  rw [exactKey]
  split
  · rename_i hsize
    cases t.schema.extract item with
    | error e => exact ⟨nofun, nofun⟩
    | ok k =>
        rw [Except.ok.injEq, Except.ok.injEq]
        exact ⟨fun h => ⟨hsize, h⟩, fun h => h.2⟩
  · rename_i hsize
    exact ⟨nofun, fun h => absurd h.1 hsize⟩

/-- A key is accepted exactly if it consists of the key attributes and nothing else. -/
theorem exactKey_isOk_iff {t : StoredTable} (hd : t.schema.Distinct) {item : Item} :
    (∃ key, t.exactKey item = .ok key) ↔ t.schema.IsKey item := by
  rw [KeySchema.isKey_iff_size hd, ← KeySchema.extract_isOk_iff]
  constructor
  · rintro ⟨key, h⟩
    obtain ⟨hsize, hkey⟩ := exactKey_eq_ok_iff.mp h
    exact ⟨hsize, key, hkey⟩
  · rintro ⟨hsize, key, hkey⟩
    exact ⟨key, exactKey_eq_ok_iff.mpr ⟨hsize, hkey⟩⟩

/-! ## Index attributes -/

/-- Where the item has a key attribute of an index, its value is of the declared type. -/
def IndexTyped (t : StoredTable) (item : Item) : Prop :=
  ∀ i ∈ t.indexes, ∀ key ∈ i.schema.attributes, ∀ v, item.get? key.name = some v → key.Admits v

theorem checkIfPresent_eq_ok_iff {item : Item} {key : KeyAttribute} :
    checkIfPresent item key = .ok () ↔ ∀ v, item.get? key.name = some v → key.Admits v := by
  rw [checkIfPresent]
  cases item.get? key.name with
  | none => exact ⟨fun _ _ h => (nomatch h), fun _ => rfl⟩
  | some w =>
      rw [KeyAttribute.check_eq_ok_iff]
      exact ⟨fun h v hv => Option.some.inj hv ▸ h, fun h => h w rfl⟩

theorem checkIndexKeys_eq_ok_iff {t : StoredTable} {item : Item} :
    t.checkIndexKeys item = .ok () ↔ t.IndexTyped item := by
  rw [checkIndexKeys, forM_eq_ok_iff]
  simp only [checkIfPresent_eq_ok_iff, List.mem_flatMap]
  exact ⟨fun h i hi key hkey => h key ⟨i, hi, hkey⟩, fun h key ⟨i, hi, hkey⟩ => h i hi key hkey⟩

/-! ## Single writes -/

theorem put_eq_ok_iff {t t' : StoredTable} {item : Item} :
    t.put item = .ok t'
      ↔ t.IndexTyped item ∧ ∃ key, t.schema.extract item = .ok key
        ∧ t' = { t with storage := t.storage.putAt key item } := by
  rw [← checkIndexKeys_eq_ok_iff, put]
  cases t.checkIndexKeys item with
  | error e =>
      constructor
      · intro h
        cases h
      · intro h
        cases h.1
  | ok _ =>
      cases hkey : t.schema.extract item with
      | error e =>
          have hput : t.storage.put item = .error e := by
            rw [Storage.put]
            exact congrArg (· >>= _) hkey
          rw [hput]
          constructor
          · intro h
            cases h
          · rintro ⟨-, k, hk, -⟩
            cases hk
      | ok key =>
          rw [Storage.put_of_extract hkey]
          constructor
          · intro h
            cases h
            exact ⟨rfl, key, rfl, rfl⟩
          · rintro ⟨-, k, hk, rfl⟩
            cases hk
            rfl

/-- Where an item has been put, an item with the same key is put as if the first one had never been. -/
theorem put_of_put {t t' : StoredTable} {item item' : Item} (h : t.put item = .ok t')
    (hsame : t.schema.extract item' = t.schema.extract item) : t'.put item' = t.put item' := by
  obtain ⟨-, key, hkey, rfl⟩ := put_eq_ok_iff.mp h
  have hkey' : t.schema.extract item' = .ok key := hsame.trans hkey
  have hchecked : checkIndexKeys { t with storage := t.storage.putAt key item } item'
      = t.checkIndexKeys item' := rfl
  have hput : (t.storage.putAt key item).put item'
      = .ok (some item, t.storage.putAt key item') := by
    have hkey'' : (t.storage.putAt key item).schema.extract item' = .ok key := hkey'
    rw [Storage.put_of_extract hkey'', Storage.get?_putAt_self, Storage.putAt_putAt]
  rw [put, put, hchecked, hput, Storage.put_of_extract hkey']

/-- Putting an item again changes nothing. -/
theorem put_again {t t' : StoredTable} {item : Item} (h : t.put item = .ok t') :
    t'.put item = .ok t' :=
  (put_of_put h rfl).trans h

theorem delete_eq_ok_iff {t t' : StoredTable} {item : Item} :
    t.delete item = .ok t'
      ↔ ∃ key, t.exactKey item = .ok key
        ∧ t' = { t with storage := (t.storage.delete key).2 } := by
  refine bind_eq_ok_iff.trans (exists_congr fun key => and_congr_right fun _ => ?_)
  rw [pure_eq_ok_iff, eq_comm]

theorem get_eq_ok_iff {t : StoredTable} {item : Item} {found : Option Item} :
    t.get item = .ok found ↔ ∃ key, t.exactKey item = .ok key ∧ found = t.storage.get? key := by
  refine bind_eq_ok_iff.trans (exists_congr fun key => and_congr_right fun _ => ?_)
  rw [pure_eq_ok_iff, eq_comm]

/-- A key that is not found out is refused as not valid. -/
theorem code_of_get_error {t : StoredTable} {item : Item} {e : Refusal} (h : t.get item = .error e) :
    e.toStoreError.code = .validation := by
  rw [get, exactKey] at h
  split at h
  · cases hkey : t.schema.extract item with
    | ok k =>
        rw [hkey] at h
        cases h
    | error cause =>
        rw [hkey] at h
        cases h
        rfl
  · cases h
    rfl

/-! ## Accepted writes -/

/-- A write is either a put of an item that has a key and whose index attributes are well typed, or
a delete of a key. -/
def Accepts (t : StoredTable) (w : WriteRequest) : Prop :=
  match w.put, w.delete with
  | some item, none => t.schema.Fits item ∧ t.IndexTyped item
  | none, some key => ∃ k, t.exactKey key = .ok k
  | _, _ => False

theorem checkWrite_eq_ok_iff {t : StoredTable} {w : WriteRequest} :
    t.checkWrite w = .ok () ↔ t.Accepts w := by
  obtain ⟨put, delete⟩ := w
  rw [checkWrite, Accepts]
  cases put with
  | none =>
      cases delete with
      | none => exact ⟨nofun, nofun⟩
      | some key =>
          constructor
          · intro h
            obtain ⟨k, hk, -⟩ := map_eq_ok_iff.mp h
            exact ⟨k, hk⟩
          · rintro ⟨k, hk⟩
            exact map_eq_ok_iff.mpr ⟨k, hk, rfl⟩
  | some item =>
      cases delete with
      | some key => exact ⟨nofun, nofun⟩
      | none =>
          simp only [← KeySchema.extract_isOk_iff, ← checkIndexKeys_eq_ok_iff]
          cases t.schema.extract item with
          | error e => exact ⟨nofun, fun ⟨⟨_, h⟩, _⟩ => nomatch h⟩
          | ok key =>
              cases t.checkIndexKeys item with
              | error e => exact ⟨nofun, fun ⟨_, h⟩ => nomatch h⟩
              | ok _ => exact ⟨fun _ => ⟨⟨key, rfl⟩, rfl⟩, fun _ => rfl⟩

/-- The tables have the same declaration; only their items may differ. -/
structure SameDeclaration (t t' : StoredTable) : Prop where
  definition : t'.definition = t.definition
  indexes : t'.indexes = t.indexes
  created : t'.created = t.created
  schema : t'.schema = t.schema

theorem SameDeclaration.refl (t : StoredTable) : SameDeclaration t t := ⟨rfl, rfl, rfl, rfl⟩

theorem SameDeclaration.trans {t u v : StoredTable} (h : SameDeclaration t u)
    (h' : SameDeclaration u v) : SameDeclaration t v :=
  ⟨h'.definition.trans h.definition, h'.indexes.trans h.indexes, h'.created.trans h.created,
    h'.schema.trans h.schema⟩

/-- What a table accepts is settled by its declaration. -/
theorem SameDeclaration.accepts_iff {t t' : StoredTable} (h : SameDeclaration t t')
    (w : WriteRequest) : t'.Accepts w ↔ t.Accepts w := by
  have hexact : ∀ key, t'.exactKey key = t.exactKey key := by
    intro key
    rw [exactKey, exactKey, h.schema]
  simp only [Accepts, IndexTyped, h.schema, h.indexes, hexact]

theorem sameDeclaration_write {t t' : StoredTable} {w : WriteRequest} (h : t.write w = .ok t') :
    SameDeclaration t t' := by
  rw [write] at h
  split at h
  · obtain ⟨-, key, -, rfl⟩ := put_eq_ok_iff.mp h
    exact ⟨rfl, rfl, rfl, rfl⟩
  · obtain ⟨key, -, rfl⟩ := delete_eq_ok_iff.mp h
    exact ⟨rfl, rfl, rfl, Storage.delete_schema _ _⟩
  · cases h
    exact SameDeclaration.refl t

/-- Every accepted write can be carried out. -/
theorem write_of_accepts {t : StoredTable} {w : WriteRequest} (h : t.Accepts w) :
    ∃ t', t.write w = .ok t' := by
  obtain ⟨put, delete⟩ := w
  cases put with
  | none =>
      cases delete with
      | none => cases h
      | some key =>
          obtain ⟨k, hk⟩ := h
          exact ⟨_, delete_eq_ok_iff.mpr ⟨k, hk, rfl⟩⟩
  | some item =>
      cases delete with
      | some key => cases h
      | none =>
          obtain ⟨hfits, htyped⟩ := h
          obtain ⟨k, hk⟩ := KeySchema.extract_isOk_iff.mpr hfits
          exact ⟨_, put_eq_ok_iff.mpr ⟨htyped, k, hk, rfl⟩⟩

theorem sameDeclaration_foldlM_write {t t' : StoredTable} {writes : List WriteRequest}
    (h : writes.foldlM write t = .ok t') : SameDeclaration t t' :=
  foldlM_keeps (P := SameDeclaration t)
    (fun _ _ _ _ hb hw => hb.trans (sameDeclaration_write hw)) (SameDeclaration.refl t) h

/-- What each of some writes keeps, from a table of the same declaration, all of them keep. -/
theorem keeps_foldlM_write {P : StoredTable → Prop} {t t' : StoredTable}
    {writes : List WriteRequest}
    (hstep : ∀ w ∈ writes, ∀ u u', SameDeclaration t u → P u → u.write w = .ok u' → P u')
    (h : P t) (hw : writes.foldlM write t = .ok t') : P t' := by
  have hboth : ∀ w ∈ writes, ∀ u u', (SameDeclaration t u ∧ P u) → u.write w = .ok u' →
      (SameDeclaration t u' ∧ P u') := by
    rintro w hmem u u' ⟨hdecl, hu⟩ huw
    exact ⟨hdecl.trans (sameDeclaration_write huw), hstep w hmem u u' hdecl hu huw⟩
  exact (foldlM_keeps hboth ⟨SameDeclaration.refl t, h⟩ hw).2

/-- Accepted writes can be carried out one after the other, since no write changes what is
accepted. -/
theorem foldlM_write_of_accepts {t : StoredTable} {writes : List WriteRequest}
    (h : ∀ w ∈ writes, t.Accepts w) : ∃ t', writes.foldlM write t = .ok t' := by
  have hstep : ∀ w ∈ writes, ∀ u, SameDeclaration t u → ∃ u', u.write w = .ok u' ∧
      SameDeclaration t u' := by
    intro w hw u hu
    obtain ⟨u', hu'⟩ := write_of_accepts ((hu.accepts_iff w).mpr (h w hw))
    exact ⟨u', hu', hu.trans (sameDeclaration_write hu')⟩
  obtain ⟨t', ht', -⟩ := foldlM_succeeds hstep (SameDeclaration.refl t)
  exact ⟨t', ht'⟩

/-- Items that are put one after the other are all accepted at the start. -/
theorem accepts_of_foldlM_write {t t' : StoredTable} {items : List Item}
    (h : (items.map WriteRequest.ofItem).foldlM write t = .ok t') :
    ∀ item ∈ items, t.Accepts (.ofItem item) := by
  induction items generalizing t with
  | nil => exact nofun
  | cons item items ih =>
      obtain ⟨u, hu, hrest⟩ := bind_eq_ok_iff.mp h
      obtain ⟨hindexes, key, hkey, -⟩ := put_eq_ok_iff.mp hu
      rintro other (_ | ⟨_, hother⟩)
      · exact ⟨KeySchema.extract_isOk_iff.mp ⟨key, hkey⟩, hindexes⟩
      · exact ((sameDeclaration_write hu).accepts_iff _).mp (ih hrest other hother)

/-- What a table holds after a write it has held before, or it is what has been put. -/
theorem mem_items_write {t t' : StoredTable} {w : WriteRequest} (hw : t.write w = .ok t')
    {item : Item} (hitem : item ∈ t'.storage.items) :
    w.put = some item ∨ item ∈ t.storage.items := by
  rw [write] at hw
  split at hw
  · rename_i put hput
    obtain ⟨-, key, -, rfl⟩ := put_eq_ok_iff.mp hw
    rcases Storage.mem_items_putAt hitem with rfl | hitem
    · exact Or.inl hput
    · exact Or.inr hitem
  · obtain ⟨key, -, rfl⟩ := delete_eq_ok_iff.mp hw
    exact Or.inr (Storage.mem_items_delete hitem)
  · cases hw
    exact Or.inr hitem

theorem mem_items_foldlM_write {t t' : StoredTable} {writes : List WriteRequest}
    (hw : writes.foldlM write t = .ok t') {item : Item} (hitem : item ∈ t'.storage.items) :
    (∃ w ∈ writes, w.put = some item) ∨ item ∈ t.storage.items := by
  refine keeps_foldlM_write (P := fun u => ∀ other ∈ u.storage.items,
    (∃ w ∈ writes, w.put = some other) ∨ other ∈ t.storage.items) ?_ (fun _ => Or.inr) hw item hitem
  intro w hmem u u' _ hu huw other hother
  rcases mem_items_write huw hother with hput | hother
  · exact Or.inl ⟨w, hmem, hput⟩
  · exact hu other hother

/-! ## New tables -/

/-- A new table has no items. -/
theorem storage_of_ofRequest {r : CreateTableRequest} {created : Int} {t : StoredTable}
    (h : ofRequest r created = .ok t) :
    ∃ schema, KeySchema.ofElements r.keys r.definitions = .ok schema ∧ t.storage = { schema }
      ∧ t.definition = r ∧ t.created = created := by
  rw [ofRequest] at h
  split at h
  · cases h
  · obtain ⟨schema, hschema, h⟩ := bind_eq_ok_iff.mp h
    obtain ⟨globals, -, h⟩ := bind_eq_ok_iff.mp h
    obtain ⟨indexes, -, h⟩ := bind_eq_ok_iff.mp h
    refine ⟨schema, hschema, ?_⟩
    split at h
    · cases h
    · cases h
      exact ⟨rfl, rfl, rfl⟩

/-! ## Sound tables -/

/-- The table is as it was made from its definition but for its items, its storage is sound, and the
index attributes of all stored items are well typed. -/
structure Sound (t : StoredTable) : Prop where
  made : ∃ fresh, ofRequest t.definition t.created = .ok fresh ∧ SameDeclaration fresh t
  storage : t.storage.Sound
  typed : ∀ item ∈ t.storage.items, t.IndexTyped item

theorem sound_of_ofRequest {r : CreateTableRequest} {created : Int} {t : StoredTable}
    (h : ofRequest r created = .ok t) : t.Sound := by
  obtain ⟨schema, -, hstorage, hdef, hcreated⟩ := storage_of_ofRequest h
  refine ⟨?_, ?_, ?_⟩
  · rw [hdef, hcreated]
    exact ⟨t, h, SameDeclaration.refl t⟩
  · rw [hstorage]
    exact Storage.sound_empty schema
  · intro item hitem
    rw [hstorage] at hitem
    cases hitem

/-- Every readable write keeps a table sound. -/
theorem Sound.write {t t' : StoredTable} (h : t.Sound) {w : WriteRequest}
    (hr : w.Readable t.schema) (hw : t.write w = .ok t') : t'.Sound := by
  obtain ⟨fresh, hfresh, hsame⟩ := h.made
  have hdecl := sameDeclaration_write hw
  have hmade : ∃ fresh, ofRequest t'.definition t'.created = .ok fresh ∧ SameDeclaration fresh t' := by
    rw [hdecl.definition, hdecl.created]
    exact ⟨fresh, hfresh, hsame.trans hdecl⟩
  have htyped : ∀ other ∈ t'.storage.items, t'.IndexTyped other := by
    intro other hother
    have hsame : t'.IndexTyped other ↔ t.IndexTyped other := by
      rw [IndexTyped, IndexTyped, hdecl.indexes]
    rcases mem_items_write hw hother with hput | hother
    · rw [StoredTable.write, hput] at hw
      exact hsame.mpr (put_eq_ok_iff.mp hw).1
    · exact hsame.mpr (h.typed other hother)
  refine ⟨hmade, ?_, htyped⟩
  rw [StoredTable.write] at hw
  split at hw
  · rename_i item hput
    obtain ⟨-, key, hkey, rfl⟩ := put_eq_ok_iff.mp hw
    exact h.storage.putAt hkey ((hr.1 item hput).comparable hkey)
  · obtain ⟨key, -, rfl⟩ := delete_eq_ok_iff.mp hw
    exact h.storage.delete key
  · cases hw
    exact h.storage

/-- Readable writes one after the other keep a table sound. -/
theorem Sound.foldlM_write {t t' : StoredTable} (h : t.Sound) {writes : List WriteRequest}
    (hr : ∀ w ∈ writes, w.Readable t.schema) (hw : writes.foldlM StoredTable.write t = .ok t') :
    t'.Sound := by
  refine keeps_foldlM_write ?_ h hw
  intro w hmem u u' hdecl hu huw
  refine hu.write ?_ huw
  rw [hdecl.schema]
  exact hr w hmem

end StoredTable

end SingleTable
