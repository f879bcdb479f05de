import SingleTable.Proofs.BaseQuery
import SingleTable.Proofs.FilterMeaning
import SingleTable.Proofs.Sessions

set_option autoImplicit false

/-!
# Queries of a model

What the query of a bound model answers in every session that is reached from the creation of the
table (`Database.queryItems_exact`): the stored items of the model's partition whose sort keys the
filter accepts, or a refusal where the filter is not typed.
-/

namespace SingleTable

/-! ## The table of a schema -/

namespace Schema

/-- The type of a key field in the table of the schema. -/
def keyType (s : Schema) (name : String) : AttributeType := (s.fieldType? name).getD .string

/-- The key schema of the table of the schema. -/
def tableKeys (s : Schema) : KeySchema where
  partition := ⟨partitionKeyName, s.keyType partitionKeyName⟩
  sort := some ⟨sortKeyName, s.keyType sortKeyName⟩

/-- A key attribute of the table has the type of the key field, which is a type of keys. -/
theorem attributeOf_definitions {s : Schema} {key : KeyElement} {a : KeyAttribute}
    (h : KeySchema.attributeOf s.definitions key = .ok a) :
    a = ⟨key.name, s.keyType key.name⟩ ∧ a.type.isKey = true := by
  rw [KeySchema.attributeOf] at h
  split at h
  · cases h
  · rename_i d hd
    have hname : d.name = key.name := by simpa using List.find?_some hd
    obtain ⟨name, -, rfl⟩ := List.mem_map.mp (List.mem_of_find?_eq_some hd)
    dsimp only at hname
    subst hname
    split at h
    · rename_i hk
      cases h
      exact ⟨rfl, hk⟩
    · cases h

/-- The keys of the table are the partition key and the sort key of every model. -/
theorem ofElements_createRequest {s : Schema} {config : TableConfig} {schema : KeySchema}
    (h : KeySchema.ofElements (s.createRequest config).keys (s.createRequest config).definitions
      = .ok schema) :
    schema = s.tableKeys ∧ (s.keyType partitionKeyName).isKey = true
      ∧ (s.keyType sortKeyName).isKey = true := by
  obtain ⟨partition, hp, h⟩ := bind_eq_ok_iff.mp h
  obtain ⟨sort, hs, h⟩ := bind_eq_ok_iff.mp h
  cases h
  obtain ⟨rfl, hpk⟩ := attributeOf_definitions hp
  obtain ⟨rfl, hsk⟩ := attributeOf_definitions hs
  exact ⟨rfl, hpk, hsk⟩

end Schema

/-- A query of a table lists what its condition selects, or is refused because the condition cannot be
read under the key schema that it asks for. -/
theorem MemoryStore.query_eq {s : MemoryStore} {r : QueryRequest} {t : StoredTable} {text : String}
    {schema : KeySchema} (ht : s.tables.get? r.table = some t) (htext : r.condition = some text)
    (hschema : t.schemaFor r.index = .ok schema) :
    s.query r = (match KeyCondition.ofText schema r.values text with
      | .ok c => .ok (listing (t.query r.index c schema (r.forward.getD true)))
      | .error e => .error (.condition e)) := by
  unfold query
  rw [table_eq_ok_iff.mpr ht, htext]
  dsimp only [bind, Except.bind]
  rw [hschema]
  dsimp only
  cases KeyCondition.ofText schema r.values text <;> rfl

/-! ## Order by sort key -/

/-- The sort key of the first item comes before that of the second. -/
def SortsBefore (x y : Item) : Prop :=
  ∃ v w, x.get? sortKeyName = some v ∧ y.get? sortKeyName = some w ∧ v.keyOrder w = .lt

theorem SortsBefore.asymm {x y : Item} (h : SortsBefore x y) : ¬ SortsBefore y x := by
  rintro ⟨w', v', hw', hv', hgt⟩
  obtain ⟨v, w, hv, hw, hlt⟩ := h
  obtain rfl : v = v' := Option.some.inj (hv.symm.trans hv')
  obtain rfl : w = w' := Option.some.inj (hw.symm.trans hw')
  rw [AttributeValue.keyOrder, SortKey.compare_swap] at hgt
  rw [AttributeValue.keyOrder] at hlt
  rw [hlt] at hgt
  cases hgt

/-- Strictly ascending items are listed once each. -/
theorem nodup_of_pairwise_sortsBefore {xs : List Item} (h : xs.Pairwise SortsBefore) : xs.Nodup := by
  refine h.imp ?_
  rintro x y hxy rfl
  exact hxy.asymm hxy

/-- Strictly ascending items can be listed in one order only. -/
theorem eq_of_pairwise_sortsBefore {xs ys : List Item} (hxs : xs.Pairwise SortsBefore)
    (hys : ys.Pairwise SortsBefore) (h : ∀ item, item ∈ xs ↔ item ∈ ys) : xs = ys := by
  have hperm : xs.Perm ys := (List.perm_ext_iff_of_nodup (nodup_of_pairwise_sortsBefore hxs)
    (nodup_of_pairwise_sortsBefore hys)).mpr h
  refine List.Perm.eq_of_pairwise ?_ hxs hys hperm
  intro x y _ _ hxy hyx
  exact absurd hyx hxy.asymm

namespace Database

/-- A table that has just been created is the one of its request. -/
theorem made_of_createTable {db : Database} {s₀ s₁ : Session MemoryStore} {reply : TableReply}
    (h : ExceptT.run db.createTable s₀ = (.ok reply, s₁)) :
    ∃ t, StoredTable.ofRequest (db.schema.createRequest db.config) s₀.store.clock = .ok t
      ∧ s₁.store.tables.get? db.config.name = some t := by
  obtain ⟨store, hw, rfl⟩ := run_ofStore_writing_eq_ok_iff.mp h
  obtain ⟨t, ht, hset⟩ := bind_eq_ok_iff.mp hw
  refine ⟨t, ht, ?_⟩
  split at hset
  · cases hset
  · cases hset
    exact (MemoryStore.get?_setTable _ _ _ _).trans (if_pos rfl)

/-- A table that has just been created is sound and has the keys of the schema. -/
theorem table_of_createTable {db : Database} {s₀ s₁ : Session MemoryStore} {reply : TableReply}
    (h : ExceptT.run db.createTable s₀ = (.ok reply, s₁)) :
    ∃ t, s₁.store.tables.get? db.config.name = some t ∧ t.Sound ∧ t.schema = db.schema.tableKeys
      ∧ (db.schema.keyType partitionKeyName).isKey = true
      ∧ (db.schema.keyType sortKeyName).isKey = true := by
  obtain ⟨t, ht, hget⟩ := made_of_createTable h
  obtain ⟨schema, hschema, hstorage, -⟩ := StoredTable.storage_of_ofRequest ht
  obtain ⟨rfl, hpk, hsk⟩ := Schema.ofElements_createRequest hschema
  refine ⟨t, hget, StoredTable.sound_of_ofRequest ht, ?_, hpk, hsk⟩
  rw [StoredTable.schema, hstorage]

/-! ## One query -/

theorem isName_keyNames : IsName partitionKeyName ∧ IsName sortKeyName :=
  ⟨Token.spells_of_word rfl rfl rfl rfl, Token.spells_of_word rfl rfl rfl rfl⟩

/-- A query that is compiled answers what the store answers, and changes nothing. -/
theorem run_query_of_compile {db : Database} {s : Session MemoryStore} {q : KeyQuery}
    {request : QueryRequest} (h : q.compile? db.config.name = some request) :
    ExceptT.run (db.query q) s
      = ((s.store.query request).mapError (fun e => .store e.toStoreError), s) := by
  have hcompile : ExceptT.run (SessionM.ofSchema (db.compile q)) s = (.ok request, s) := by
    rw [compile, h]
    rfl
  have hquery : ExceptT.run (Store.query request : StoreM MemoryStore ItemsReply) s.store
      = ((s.store.query request).mapError Refusal.toStoreError, s.store) :=
    MemoryStore.reading_eq (·.query request) s.store
  rw [query, run_bind_of_ok hcompile, run_ofStore hquery]
  cases s.store.query request <;> rfl

/-- The query of a model lists what its terms select from the table, or is refused because they do not
fit the keys of the table. -/
theorem run_queryItems {db : Database} {s : Session MemoryStore} {t : StoredTable}
    (ht : s.store.tables.get? db.config.name = some t) (m : BoundModel) (f : SortFilter) :
    ExceptT.run (db.queryItems m f) s
      = (match KeyCondition.ofTerms t.schema (modelQuery m f).terms with
        | .ok c => .ok (MemoryStore.listing (t.storage.query c.partition c.sort true))
        | .error e => .error (.store (Refusal.condition (.mismatch e)).toStoreError), s) := by
  have hcollides : Placeholder.collides partitionKeyName = false := by decide
  have hterms := KeyQuery.ofText_compiled (q := modelQuery m f) isName_keyNames.1 hcollides
    isName_keyNames.2
  -- the compiled text is read back by the store into the terms of the query
  have hread := KeyCondition.ofText_of_terms t.schema hterms
  obtain ⟨request, hrequest, hanswer⟩ : ∃ request,
      (modelQuery m f).compile? db.config.name = some request
      ∧ s.store.query request = (match (KeyCondition.ofTerms t.schema (modelQuery m f).terms).mapError
          .mismatch with
        | .ok c => .ok (MemoryStore.listing (t.storage.query c.partition c.sort true))
        | .error e => .error (.condition e)) := by
    refine ⟨_, rfl, ?_⟩
    rw [← hread]
    exact MemoryStore.query_eq ht rfl rfl
  rw [queryItems, run_query_of_compile hrequest, hanswer]
  cases KeyCondition.ofTerms t.schema (modelQuery m f).terms <;> rfl

section

variable {db : Database} {t : StoredTable} (hsound : t.Sound)
  (hkeys : t.schema = db.schema.tableKeys)

include hsound hkeys

/-- Every stored item has a sort key value, which is its place. -/
theorem exists_sortValue {item : Item} (hitem : item ∈ t.storage.items) :
    ∃ v, item.get? sortKeyName = some v
      ∧ KeyAttribute.Admits ⟨sortKeyName, db.schema.keyType sortKeyName⟩ v
      ∧ t.schema.placeOf item = SortKey.ofValueD v := by
  obtain ⟨key, hkey, -⟩ := hsound.storage.mem_items_iff.mp hitem
  have hfits : t.schema.Fits item := (KeySchema.extract_eq_ok_iff.mp hkey).1
  rw [hkeys] at hfits ⊢
  obtain ⟨v, hv, hadm⟩ := hfits ⟨sortKeyName, db.schema.keyType sortKeyName⟩
    (by simp [KeySchema.attributes, Schema.tableKeys])
  refine ⟨v, hv, hadm, ?_⟩
  simp only [KeySchema.placeOf, Schema.tableKeys, hv, Option.elim]

variable {q : KeyQuery} (hsk : (db.schema.keyType sortKeyName).isKey = true)
  (hq : q.filter.Typed (db.schema.keyType sortKeyName))
  (hc : ∀ v ∈ q.filter.values, (SortKey.ofValueD v).Comparable)

include hsk hq hc

/-- A typed query lists exactly the items of the partition whose sort keys the filter accepts. -/
theorem mem_query_conditions {value : AttributeValue} {item : Item} :
    item ∈ t.storage.query value (q.conditions ⟨sortKeyName, db.schema.keyType sortKeyName⟩) true
      ↔ item ∈ t.storage.items ∧ item.get? partitionKeyName = some value
        ∧ ∃ v, item.get? sortKeyName = some v ∧ q.filter.Accepts v := by
  have hpart : t.storage.schema.partition.name = partitionKeyName := by
    show t.schema.partition.name = partitionKeyName
    rw [hkeys]
    rfl
  rw [hsound.storage.mem_query value (KeyQuery.comparable_conditions hc _), hpart]
  refine and_congr_right fun hitem => and_congr_right fun _ => ?_
  obtain ⟨v, hv, hadm, hplace⟩ := exists_sortValue hsound hkeys hitem
  have haccepts := KeyQuery.forall_accepts_iff hsk hq hadm
  have hplace' : t.storage.schema.placeOf item = SortKey.ofValueD v := hplace
  rw [hplace', haccepts]
  constructor
  · intro h
    exact ⟨v, hv, h⟩
  · rintro ⟨w, hw, h⟩
    obtain rfl : v = w := Option.some.inj (hv.symm.trans hw)
    exact h

/-- A typed query lists items in strictly ascending order of sort key. -/
theorem pairwise_query_conditions (value : AttributeValue) :
    (t.storage.query value (q.conditions ⟨sortKeyName, db.schema.keyType sortKeyName⟩)
      true).Pairwise SortsBefore := by
  have hasc := hsound.storage.pairwise_query value
    (q.conditions ⟨sortKeyName, db.schema.keyType sortKeyName⟩)
  refine hasc.imp_of_mem ?_
  intro x y hx hy hlt
  have hxitem := ((mem_query_conditions hsound hkeys hsk hq hc).mp hx).1
  have hyitem := ((mem_query_conditions hsound hkeys hsk hq hc).mp hy).1
  obtain ⟨v, hv, -, hvplace⟩ := exists_sortValue hsound hkeys hxitem
  obtain ⟨w, hw, -, hwplace⟩ := exists_sortValue hsound hkeys hyitem
  have hlt' : compare (t.schema.placeOf x) (t.schema.placeOf y) = .lt := hlt
  rw [hvplace, hwplace] at hlt'
  exact ⟨v, w, hv, hw, hlt'⟩

end

/-- What the query of a bound model answers, in every session that is reached from the creation of the
table by any writes. The partition value has to carry the type of the partition key. If the filter is
typed, the answer lists exactly the stored items of the model's partition whose sort keys the filter
accepts, each once, in strictly ascending order of sort key; otherwise the call is refused as not
valid. All numbers among sort keys have to have texts of numbers (`SessionCall.Readable`). -/
theorem queryItems_exact {db : Database} {s₀ s₁ s : Session MemoryStore} {reply : TableReply}
    (hcreate : ExceptT.run db.createTable s₀ = (.ok reply, s₁))
    (hrun : Session.Reached db.config.name s₁ s) {m : BoundModel}
    (hm : (db.schema.keyType partitionKeyName).holds m.partition = true) (f : SortFilter) :
    ∃ t, s.store.tables.get? db.config.name = some t
      ∧ (f.Typed (db.schema.keyType sortKeyName) →
          (∀ v ∈ f.values, (SortKey.ofValueD v).Comparable) →
          ∃ reply, ExceptT.run (db.queryItems m f) s = (.ok reply, s) ∧ reply.Whole
            ∧ (∀ item, item ∈ reply.items
                ↔ item ∈ t.storage.items ∧ item.get? partitionKeyName = some m.partition
                  ∧ ∃ v, item.get? sortKeyName = some v ∧ f.Accepts v)
            ∧ reply.items.Nodup
            ∧ reply.items.Pairwise SortsBefore)
      ∧ (¬ f.Typed (db.schema.keyType sortKeyName) →
          ∃ e, ExceptT.run (db.queryItems m f) s = (.error (.store e), s)
            ∧ e.code = .validation) := by
  obtain ⟨t₁, ht₁, hsound₁, hkeys₁, hpk, hsk⟩ := table_of_createTable hcreate
  obtain ⟨t, ht, hsound, hsame⟩ := hrun.table ht₁ hsound₁
  have hkeys : t.schema = db.schema.tableKeys := hsame.schema.trans hkeys₁
  have hpart : t.schema.partition = ⟨partitionKeyName, db.schema.keyType partitionKeyName⟩ := by
    rw [hkeys]
    rfl
  have hsort : t.schema.sort = some ⟨sortKeyName, db.schema.keyType sortKeyName⟩ := by
    rw [hkeys]
    rfl
  have hadm : t.schema.partition.Admits (modelQuery m f).partitionValue := by
    rw [hpart]
    exact ⟨hpk, hm⟩
  have hname : t.schema.partition.name = (modelQuery m f).partitionName := by
    rw [hpart]
    rfl
  have hne : (modelQuery m f).sortName ≠ (modelQuery m f).partitionName := by
    show sortKeyName ≠ partitionKeyName
    decide
  -- the query answers by its terms; whether these fit the keys is whether the filter is typed
  have hanswer := run_queryItems ht m f
  refine ⟨t, ht, fun htyped hc => ?_, fun htyped => ?_⟩
  · rw [KeyQuery.ofTerms_of_typed hname hadm hsort rfl hne hsk htyped] at hanswer
    have hmem := fun {item} => @mem_query_conditions db t hsound hkeys (modelQuery m f) hsk htyped
      hc m.partition item
    have hasc := @pairwise_query_conditions db t hsound hkeys (modelQuery m f) hsk htyped hc
      m.partition
    exact ⟨_, hanswer, MemoryStore.whole_listing _, fun item => hmem,
      nodup_of_pairwise_sortsBefore hasc, hasc⟩
  · obtain ⟨e, he⟩ := KeyQuery.ofTerms_of_not_typed hname hadm hsort rfl hne hsk htyped
    rw [he] at hanswer
    exact ⟨_, hanswer, rfl⟩

end Database

/-! ## Pages of a diary -/

/-- The pages of one author by title. -/
def page : Model where
  name := "page"
  fields := [.partitionKey .string (.constant (.string "ada")), .sortKey .string (.parameter "title")]

/-- A database of pages. -/
def diary : Database where
  config := { name := "diary" }
  schema := { models := [page] }
  ids := fun _ => ""

/-- The model of pages, bound to its author. -/
def pages : BoundModel := ⟨page, .string "ada"⟩

/-- The page of a title as it is stored. -/
def pageItem (title : String) : Item := Database.keyItem (.string "ada") (.string title)

/-- Write the page of a title. -/
def writePage (title : String) : SessionCall :=
  .create diary pages (Dict.empty.insert "title" (.string title))

/-- The session in which the table has just been created. -/
def newDiary : Session MemoryStore := Session.after { store := {} } diary.createTable

/-- The session after three pages have been written, the last title first. -/
def threePages : Session MemoryStore :=
  (writePage "aa").after ((writePage "ab").after ((writePage "b").after newDiary))

/-- The titles that start with `a` and come before `b`. -/
def underA : SortFilter := { less := some (.string "b"), beginsWith := some (.string "a") }

/-- A page holds strings only, so its place is comparable under every schema. -/
theorem readable_pageItem (schema : KeySchema) (title : String) :
    schema.Readable (pageItem title) := by
  refine KeySchema.readable_of_comparable (fun n v hv => ?_) schema
  rw [pageItem, Database.keyItem, Dict.get?_ofList] at hv
  simp only [List.reverse_cons, List.reverse_nil, List.nil_append, List.cons_append,
    lookup_cons_eq_ite, List.lookup_nil] at hv
  split at hv
  · cases hv
    trivial
  · split at hv <;> cases hv
    trivial

theorem readable_writePage {title : String} {s : Session MemoryStore}
    (h : (writePage title).request? s = some (.put ⟨"diary", pageItem title⟩)) :
    (writePage title).Readable s := by
  intro r hr e he t _ w hw
  rw [h] at hr
  cases hr
  cases List.mem_singleton.mp he
  cases List.mem_singleton.mp hw
  refine ⟨fun item hitem => ?_, nofun⟩
  cases hitem
  exact readable_pageItem t.schema title

theorem accepts_underA {title : String} (hless : compare title "b" = .lt)
    (hstart : "a".toList <+: title.toList) : underA.Accepts (.string title) := by
  refine ⟨nofun, ?_, nofun, nofun, nofun, nofun, ?_⟩
  · rintro _ ⟨⟩
    exact hless
  · rintro _ ⟨⟩
    exact startsWith_string_iff.mpr hstart

/-- Of the three pages two are listed, in order of title. -/
theorem query_threePages :
    (∃ reply, ExceptT.run diary.createTable ({ store := {} } : Session MemoryStore)
        = (.ok reply, newDiary))
      ∧ Session.Reached "diary" newDiary threePages
      ∧ (diary.schema.keyType partitionKeyName).holds pages.partition = true
      ∧ underA.Typed (diary.schema.keyType sortKeyName)
      ∧ (∀ v ∈ underA.values, (SortKey.ofValueD v).Comparable)
      ∧ ∃ reply, ExceptT.run (diary.queryItems pages underA) threePages = (.ok reply, threePages)
        ∧ reply.items = [pageItem "aa", pageItem "ab"] ∧ reply.count = 2 := by
  have hcreate : ∃ reply, ExceptT.run diary.createTable ({ store := {} } : Session MemoryStore)
      = (.ok reply, newDiary) := ⟨_, rfl⟩
  have hrun : Session.Reached "diary" newDiary threePages :=
    ((Session.Reached.start.write (writePage "b") nofun (readable_writePage rfl)).write
      (writePage "ab") nofun (readable_writePage rfl)).write
      (writePage "aa") nofun (readable_writePage rfl)
  have htyped : underA.Typed (diary.schema.keyType sortKeyName) := by
    refine ⟨?_, nofun⟩
    decide
  have hvalues : ∀ v ∈ underA.values, (SortKey.ofValueD v).Comparable := by decide
  obtain ⟨created, hcreated⟩ := hcreate
  obtain ⟨t, ht, hexact, -⟩ := Database.queryItems_exact hcreated hrun (m := pages) rfl underA
  obtain ⟨reply, hreply, hwhole, hmem, -, hasc⟩ := hexact htyped hvalues
  have hstored : (threePages.store.tables.get? "diary").map (fun t => t.storage.items)
      = some [pageItem "aa", pageItem "ab", pageItem "b"] := rfl
  have hall : t.storage.items = [pageItem "aa", pageItem "ab", pageItem "b"] := by
    rw [show threePages.store.tables.get? "diary" = some t from ht] at hstored
    exact Option.some.inj hstored
  have hitems : reply.items = [pageItem "aa", pageItem "ab"] := by
    refine eq_of_pairwise_sortsBefore hasc ?_ fun item => ?_
    · refine List.pairwise_pair.mpr ⟨.string "aa", .string "ab", rfl, rfl, ?_⟩
      decide
    · rw [hmem, hall]
      simp only [List.mem_cons, List.not_mem_nil, or_false]
      constructor
      · rintro ⟨rfl | rfl | rfl, -, v, hv, haccepts⟩
        · exact .inl rfl
        · exact .inr rfl
        · cases hv
          exact absurd (haccepts.less (.string "b") rfl) (by decide)
      · rintro (rfl | rfl)
        · exact ⟨.inl rfl, rfl, .string "aa", rfl, accepts_underA (by decide) ⟨['a'], rfl⟩⟩
        · exact ⟨.inr (.inl rfl), rfl, .string "ab", rfl, accepts_underA (by decide) ⟨['b'], rfl⟩⟩
  have hcount : reply.count.toInt = 2 := by
    rw [hwhole.count, hitems]
    rfl
  exact ⟨⟨created, hcreated⟩, hrun, rfl, htyped, hvalues, reply, hreply, hitems,
    Int32.toInt_inj.mp hcount⟩

end SingleTable
