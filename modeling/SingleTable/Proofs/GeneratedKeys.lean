import SingleTable.Proofs.BatchCreation
import SingleTable.Proofs.FieldByField
import SingleTable.Proofs.Remaking

set_option autoImplicit false

/-!
# Sort keys that are generated

Where every model takes its sort key from a generated field, and no id is drawn twice, created items never
replace each other. Whatever is created on a table without items, by whichever models, the table then holds
exactly the items that have been returned (`Database.created_are_stored`).
-/

namespace SingleTable

namespace Model

/-- The sort key of an item is the id that a generated field has. -/
def SortsByGenerated (m : Model) : Prop :=
  ∃ g ∈ m.fields, g.kind = .generated ∧ g.validator = .string
    ∧ Field.sortKey .string (.parameter g.name) ∈ m.fields

variable {m : Model} {ids : IdSource} {params : Params} {supplied item : Item} {n n' : Nat}

/-- A generated field of a new item has the id that comes after those of the earlier fields. -/
theorem Filled.get?_generated {g : Field} {earlier later : List Field}
    (h : Filled false (fun earlier => suppliedValue ids params none (n + idsFor none earlier))
      m.fields {} supplied)
    (hfields : m.fields = earlier ++ g :: later) (hkind : g.kind = .generated)
    (hvalidator : g.validator = .string) :
    supplied.get? g.name = some (.string (ids (n + idsFor none earlier))) := by
  have hdraws : draws none g = true := (draws_of_generated hkind).trans rfl
  obtain ⟨v, hv, hget⟩ := h.taken earlier g later hfields (by rw [hkind]; rfl)
  rw [suppliedValue, show kept? none g = none from rfl] at hv
  simp only [hdraws, if_true, hvalidator] at hv
  cases hv
  exact hget

/-- A sort key that is taken from a field has its text. -/
theorem Filled.get?_sortKey {known : Params} {name text : String}
    (h : Filled true (fun _ => computedValue known) m.fields supplied item)
    (hsort : Field.sortKey .string (.parameter name) ∈ m.fields)
    (hknown : known.get? name = some (.string text)) :
    item.get? sortKeyName = some (.string text) := by
  obtain ⟨before, after, hfields⟩ := List.append_of_mem hsort
  obtain ⟨v, hv, hget⟩ := h.taken before _ after hfields rfl
  have hparse : Validator.parse .string (known.get? name) = .ok v := hv
  rw [hknown] at hparse
  cases hparse
  exact hget

/-- The sort key of a new item is one of the ids that have been drawn for it. -/
theorem SortsByGenerated.sort_of_materialize (h : m.SortsByGenerated) (hm : m.WellFormed)
    (hmade : ExceptT.run (m.materialize ids params none) n = (.ok item, n')) :
    ∃ k, n ≤ k ∧ k < n' ∧ item.get? sortKeyName = some (.string (ids k)) := by
  obtain ⟨g, hg, hkind, hvalidator, hsort⟩ := h
  obtain ⟨earlier, later, hfields⟩ := List.append_of_mem hg
  cases yields_of_run hm.distinct hmade with
  | @made supplied _ known hsupplied hknown hcomputed =>
      refine ⟨n + idsFor none earlier, by omega, ?_, hcomputed.get?_sortKey hsort ?_⟩
      · -- the field draws an id of its own, so there are more ids than before it
        have hdraws : draws none g = true := (draws_of_generated hkind).trans rfl
        rw [hfields, idsFor, idsFor, List.countP_append, List.countP_cons_of_pos hdraws]
        omega
      · rw [hknown.supplied g hg (by rw [hkind]; rfl),
          hsupplied.get?_generated hfields hkind hvalidator]
        rfl

end Model

/-! ## Sort keys of several items -/

/-- The sort keys of the items are ids that have been drawn between the two numbers, one after the other and
one for each item. -/
def DrawnSorts (ids : IdSource) (n n' : Nat) (items : List Item) : Prop :=
  ∃ ks : List Nat, ks.Pairwise (· < ·) ∧ (∀ k ∈ ks, n ≤ k ∧ k < n')
    ∧ items.map (fun item => item.get? sortKeyName) = ks.map (fun k => some (.string (ids k)))

namespace DrawnSorts

variable {ids : IdSource} {n u n' : Nat} {items more : List Item}

theorem nil (ids : IdSource) (n n' : Nat) : DrawnSorts ids n n' [] :=
  ⟨[], List.Pairwise.nil, by simp, rfl⟩

theorem append (h : DrawnSorts ids n u items) (h' : DrawnSorts ids u n' more) (hn : n ≤ u)
    (hu : u ≤ n') : DrawnSorts ids n n' (items ++ more) := by
  obtain ⟨ks, hks, hrange, hsorts⟩ := h
  obtain ⟨ks', hks', hrange', hsorts'⟩ := h'
  refine ⟨ks ++ ks', List.pairwise_append.mpr ⟨hks, hks', fun k hk k' hk' => ?_⟩, fun k hk => ?_, ?_⟩
  · have hlt := (hrange k hk).2
    have hle := (hrange' k' hk').1
    omega
  · rcases List.mem_append.mp hk with hk | hk
    · have := hrange k hk
      omega
    · have := hrange' k hk
      omega
  · rw [List.map_append, List.map_append, hsorts, hsorts']

/-- No two items have the same sort key if no id is drawn twice. -/
theorem nodup (h : DrawnSorts ids n n' items) (hids : Function.Injective ids) :
    (items.map fun item => item.get? sortKeyName).Nodup := by
  obtain ⟨ks, hks, -, hsorts⟩ := h
  rw [hsorts]
  refine List.pairwise_map.mpr (hks.imp fun {k k'} hlt heq => ?_)
  have hk : k = k' := hids (AttributeValue.string.inj (Option.some.inj heq))
  omega

/-- Every item has an id as its sort key. -/
theorem exists_id (h : DrawnSorts ids n n' items) {item : Item} (hitem : item ∈ items) :
    ∃ k, item.get? sortKeyName = some (.string (ids k)) := by
  obtain ⟨ks, -, -, hsorts⟩ := h
  have hmem : item.get? sortKeyName ∈ items.map fun item => item.get? sortKeyName :=
    List.mem_map_of_mem hitem
  rw [hsorts] at hmem
  obtain ⟨k, -, hk⟩ := List.mem_map.mp hmem
  exact ⟨k, hk.symm⟩

end DrawnSorts

/-- Items that are made one after the other have the ids as sort keys that are drawn for them. -/
theorem Model.SortsByGenerated.drawnSorts_of_mapM {m : Model} (h : m.SortsByGenerated)
    (hm : m.WellFormed) {ids : IdSource} {params : List Params} {items : List Item} {n n' : Nat}
    (hmade : ExceptT.run (params.mapM (fun p => m.materialize ids p none)) n = (.ok items, n')) :
    n ≤ n' ∧ DrawnSorts ids n n' items := by
  induction params generalizing n items with
  | nil =>
      cases hmade
      exact ⟨Nat.le_refl _, .nil _ _ _⟩
  | cons p params ih =>
      obtain ⟨item, u, rest, hitem, hrest, rfl⟩ := run_mapM_cons_eq_ok_iff.mp hmade
      obtain ⟨k, hnk, hku, hk⟩ := h.sort_of_materialize hm hitem
      obtain ⟨hle, hsorts⟩ := ih hrest
      have hfirst : DrawnSorts ids n u [item] :=
        ⟨[k], List.pairwise_singleton _ _, by simpa using ⟨hnk, hku⟩, by simp [hk]⟩
      exact ⟨by omega, hfirst.append hsorts (by omega) hle⟩

/-! ## String keys -/

namespace Schema

variable {s : Schema} (hstring : s.keyType sortKeyName = .string)

include hstring

theorem exists_string {v : AttributeValue}
    (h : KeyAttribute.Admits ⟨sortKeyName, s.keyType sortKeyName⟩ v) : ∃ text, v = .string text := by
  have htext : KeyAttribute.Admits ⟨sortKeyName, s.keyType sortKeyName⟩ (.string "") := by
    rw [hstring]
    exact ⟨rfl, rfl⟩
  exact htext.exists_string h

/-- Where the sort keys are strings, every item has a place in the order. -/
theorem readable_of_string (item : Item) : s.tableKeys.Readable item := by
  intro hfits
  obtain ⟨v, hv, hadm⟩ := hfits ⟨sortKeyName, s.keyType sortKeyName⟩
    (by simp [KeySchema.attributes, tableKeys])
  obtain ⟨text, rfl⟩ := exists_string hstring hadm
  rw [placeOf_tableKeys hv]
  trivial

/-- Under keys for the same place items have the same sort key. -/
theorem sort_eq_of_same {item item' : Item} {key key' : PrimaryKey}
    (h : s.tableKeys.extract item = .ok key) (h' : s.tableKeys.extract item' = .ok key')
    (hsame : key.same key' = true) : item.get? sortKeyName = item'.get? sortKeyName := by
  obtain ⟨p, k, -, hk, hadm, rfl⟩ := extract_eq_ok_iff.mp h
  obtain ⟨p', k', -, hk', hadm', rfl⟩ := extract_eq_ok_iff.mp h'
  obtain ⟨text, rfl⟩ := exists_string hstring hadm.sort
  obtain ⟨text', rfl⟩ := exists_string hstring hadm'.sort
  have hcompare : compare text text' = .eq := (PrimaryKey.same_ofValues_iff.mp hsame).2
  rw [hk, hk', Std.LawfulEqCmp.eq_of_compare hcompare]

omit hstring in
/-- The sort keys are strings if every model takes them from generated fields. -/
theorem keyType_of_sortsByGenerated (h : s.Consistent)
    (hmodels : ∀ m ∈ s.models, m.WellFormed ∧ m.SortsByGenerated) :
    s.keyType sortKeyName = .string := by
  obtain ⟨-, ⟨m, hm, -⟩, hall⟩ :=
    h.keyType_spec (mem_keyFieldNames.mpr (Or.inr (Or.inl rfl)))
  obtain ⟨hwf, g, -, -, -, hsort⟩ := hmodels m hm
  exact (hall m hm _ (hwf.field?_eq_some_iff.mpr ⟨hsort, rfl⟩)).symm

end Schema

/-! ## What is stored -/

namespace Database

variable {db : Database} {items made : List Item} {item : Item}

/-- The store holds a sound table of the database with exactly these items. -/
def Holds (db : Database) (s : MemoryStore) (items : List Item) : Prop :=
  ∃ t, s.tables.get? db.config.name = some t ∧ t.Sound ∧ t.schema = db.schema.tableKeys
    ∧ t.storage.items.Perm items

section

variable (hstring : db.schema.keyType sortKeyName = .string)

include hstring

/-- An item with a new sort key is stored besides the others. -/
theorem Holds.put {s s' : MemoryStore} (h : db.Holds s items)
    (hnew : ∀ old ∈ items, old.get? sortKeyName ≠ item.get? sortKeyName)
    (hput : s.put ⟨db.config.name, item⟩ = .ok s') : db.Holds s' (items ++ [item]) := by
  obtain ⟨t, ht, hsound, hkeys, hperm⟩ := h
  obtain ⟨u, t', hu, hput', rfl⟩ := MemoryStore.setTable_eq_ok_iff.mp hput
  obtain rfl : t = u := Option.some.inj (ht.symm.trans hu)
  have hreadable : t.schema.Readable item := hkeys ▸ Schema.readable_of_string hstring item
  have hsound' : t'.Sound := by
    refine hsound.write (w := .ofItem item) ⟨fun other hother => ?_, nofun⟩ hput'
    cases hother
    exact hreadable
  obtain ⟨-, key, hkey, rfl⟩ := StoredTable.put_eq_ok_iff.mp hput'
  have hc : key.place.Comparable := hreadable.comparable hkey
  -- the place is free: an item that stands there has the same sort key
  have hfree : t.storage.get? key = none := by
    cases hget : t.storage.get? key with
    | none => rfl
    | some old =>
        obtain ⟨k, hk, -, hsame⟩ := hsound.storage.extract_of_get? hc hget
        have hold : old ∈ items := hperm.mem_iff.mp (Storage.mem_items_of_get? hget)
        rw [StoredTable.schema] at hkeys hkey
        rw [hkeys] at hk hkey
        exact absurd (Schema.sort_eq_of_same hstring hk hkey hsame) (hnew old hold)
  refine ⟨_, by rw [MemoryStore.get?_setTable, if_pos rfl], hsound', hkeys, ?_⟩
  calc (t.storage.putAt key item).items
      _ |>.Perm (item :: t.storage.items) := hsound.storage.perm_items_putAt hkey hc hfree
      _ |>.Perm (item :: items) := hperm.cons item
      _ |>.Perm (items ++ [item]) := List.perm_append_singleton item items |>.symm

/-- Items with new sort keys, each of them another one, are stored besides the others. -/
theorem Holds.putOneByOne {s s' : MemoryStore} (h : db.Holds s items)
    (hnodup : ((items ++ made).map fun item => item.get? sortKeyName).Nodup)
    (hput : s.putOneByOne db.config.name made = .ok s') : db.Holds s' (items ++ made) := by
  induction made generalizing s items with
  | nil =>
      cases hput
      rwa [List.append_nil]
  | cons item made ih =>
      obtain ⟨u, hitem, hmade⟩ := bind_eq_ok_iff.mp hput
      rw [List.append_cons] at hnodup ⊢
      refine ih (h.put hstring (fun old hold heq => ?_) hitem) hnodup hmade
      rw [List.map_append, List.map_append] at hnodup
      have hfirst := (List.nodup_append.mp hnodup).1
      exact (List.nodup_append.mp hfirst).2.2 _ (List.mem_map_of_mem hold) _ (by simp) heq

end

/-- What the table holds is found under its key. -/
theorem Holds.run_get {s : Session MemoryStore} (h : db.Holds s.store items) (hitem : item ∈ items) :
    ∃ partition sort, item.get? partitionKeyName = some partition
      ∧ item.get? sortKeyName = some sort
      ∧ ExceptT.run (db.get partition sort) s = (.ok (some item), s) := by
  obtain ⟨t, ht, hsound, hkeys, hperm⟩ := h
  obtain ⟨key, hkey, -, hget⟩ := hsound.storage.mem_items_iff.mp (hperm.mem_iff.mpr hitem)
  have hkey : t.schema.extract item = .ok key := hkey
  rw [hkeys] at hkey
  obtain ⟨p, k, hp, hk, hadm, rfl⟩ := Schema.extract_eq_ok_iff.mp hkey
  exact ⟨p, k, hp, hk, by rw [run_get_of_admitsKey ht hkeys hadm, hget]⟩

/-- What the table holds is what is listed. -/
theorem Holds.run_all {s : Session MemoryStore} (h : db.Holds s.store items) :
    ∃ reply, ExceptT.run db.all s = (.ok reply, s) ∧ reply.Whole ∧ reply.items.Perm items := by
  obtain ⟨t, ht, -, -, hperm⟩ := h
  refine ⟨_, run_ofStore (MemoryStore.run_scan_of_table ht), MemoryStore.whole_listing _, ?_⟩
  rw [MemoryStore.items_listing]
  calc t.storage.scan
      _ |>.Perm t.storage.items := t.storage.perm_scan
      _ |>.Perm items := hperm

/-! ## Runs of creations -/

/-- From the first session models of the database have created these items, one by one or many at a time,
and each of the calls has answered. -/
inductive Creations (db : Database) (s : Session MemoryStore) : List Item → Session MemoryStore → Prop
  | start : Creations db s [] s
  | create {items : List Item} {u u' : Session MemoryStore} (h : Creations db s items u)
      {name : String} {m : BoundModel} (hm : db.model name = .ok m) {params : Params} {item : Item}
      (hrun : ExceptT.run (db.create m params) u = (.ok item, u')) :
      Creations db s (items ++ [item]) u'
  | createMany {items : List Item} {u u' : Session MemoryStore} (h : Creations db s items u)
      {name : String} {m : BoundModel} (hm : db.model name = .ok m) {params : List Params}
      {made : List Item} (hrun : ExceptT.run (db.createMany m params) u = (.ok made, u')) :
      Creations db s (items ++ made) u'

/-- The items that have been created are stored, under sort keys that have been drawn for them. -/
structure Created (db : Database) (s : Session MemoryStore) (items : List Item)
    (s' : Session MemoryStore) : Prop where
  drawn : s.drawn ≤ s'.drawn
  sorts : DrawnSorts db.ids s.drawn s'.drawn items
  holds : db.Holds s'.store items

section

variable {s s' u u' : Session MemoryStore} (hids : Function.Injective db.ids)
  (hmodels : ∀ m ∈ db.schema.models, m.WellFormed ∧ m.SortsByGenerated)
  (hstring : db.schema.keyType sortKeyName = .string)

include hids hmodels hstring

/-- Items that are made next and put one by one are stored besides those that have been created. -/
theorem Created.step (h : db.Created s items u) {name : String} {m : BoundModel}
    (hm : db.model name = .ok m) {params : List Params}
    (hmade : ExceptT.run (params.mapM (fun p => m.model.materialize db.ids p none)) u.drawn
      = (.ok made, u'.drawn))
    (hput : u.store.putOneByOne db.config.name made = .ok u'.store) :
    db.Created s (items ++ made) u' := by
  obtain ⟨hwf, hsorts⟩ := hmodels m.model (model_eq_ok hm).1
  -- the ids that are drawn now come after those of the items before
  obtain ⟨hle, hnew⟩ := hsorts.drawnSorts_of_mapM hwf hmade
  have hall : DrawnSorts db.ids s.drawn u'.drawn (items ++ made) := h.sorts.append hnew h.drawn hle
  exact ⟨h.drawn.trans hle, hall, h.holds.putOneByOne hstring (hall.nodup hids) hput⟩

/-- Whatever has been created, one by one or many at a time, is stored. -/
theorem Creations.created (h : db.Creations s items s') (hempty : db.Holds s.store []) :
    db.Created s items s' := by
  induction h with
  | start => exact ⟨Nat.le_refl _, .nil _ _ _, hempty⟩
  | @create items u u' h name m hm params item hrun ih =>
      -- one item is created as many are, if there is only this one
      have hone : ExceptT.run ([params].mapM (db.create m)) u = (.ok [item], u') :=
        run_mapM_cons_eq_ok_iff.mpr ⟨item, u', [], hrun, rfl, rfl⟩
      obtain ⟨hmade, hput⟩ := run_mapM_create_eq_ok_iff.mp hone
      exact ih.step hids hmodels hstring hm hmade hput
  | createMany h hm hrun ih =>
      obtain ⟨hmade, -, hput⟩ := run_createMany_eq_ok_iff.mp hrun
      exact ih.step hids hmodels hstring hm hmade hput

end

/-- Where every model of an accepted schema takes its sort key from a generated field and no id is drawn
twice, no creation loses an item. Whichever models create items on a table without items, one by one or
many at a time, in whatever order: the table counts as many items as have been returned, each of them is
found unchanged under its key, its sort key is an id and no other item has the same one, and exactly
these items are listed. -/
theorem created_are_stored {models : List Model} {globalIndexes : List GlobalIndex}
    {localIndexes : List LocalIndex}
    (hbuild : Schema.build models globalIndexes localIndexes = .ok db.schema)
    (hmodels : ∀ m ∈ models, Model.build m.name m.fields = .ok m)
    (hgenerated : ∀ m ∈ models, m.SortsByGenerated) (hids : Function.Injective db.ids)
    {s₀ s₁ s s' : Session MemoryStore} {reply : TableReply}
    (hcreate : ExceptT.run db.createTable s₀ = (.ok reply, s₁))
    (hrun : Session.Continued db.config.name s₁ s) (hempty : db.storedItems s = [])
    (h : db.Creations s items s') :
    (∃ t, s'.store.tables.get? db.config.name = some t ∧ t.storage.count = items.length)
      ∧ (∀ item ∈ items, ∃ partition n, item.get? partitionKeyName = some partition
          ∧ item.get? sortKeyName = some (.string (db.ids n))
          ∧ ExceptT.run (db.get partition (.string (db.ids n))) s' = (.ok (some item), s'))
      ∧ (items.map fun item => item.get? sortKeyName).Nodup
      ∧ ∃ listed, ExceptT.run db.all s' = (.ok listed, s') ∧ listed.Whole
          ∧ listed.items.Perm items := by
  obtain ⟨hschema, hconsistent⟩ := Schema.build_eq_ok_iff.mp hbuild
  have hmodels : ∀ m ∈ db.schema.models, m.WellFormed ∧ m.SortsByGenerated := by
    rw [hschema]
    exact fun m hm => ⟨(Model.build_eq_ok_iff.mp (hmodels m hm)).2, hgenerated m hm⟩
  have hstring := Schema.keyType_of_sortsByGenerated hconsistent hmodels
  obtain ⟨t₁, ht₁, hsound₁, hkeys₁, -, -⟩ := table_of_createTable hcreate
  obtain ⟨t, ht, hsound, hsame⟩ := hrun.table_sound ht₁ hsound₁
    (hkeys₁ ▸ Schema.readable_of_string hstring)
  have hstart : db.Holds s.store [] := by
    rw [storedItems, ht] at hempty
    exact ⟨t, ht, hsound, hsame.schema.trans hkeys₁, List.perm_nil.mpr hempty⟩
  obtain ⟨-, hsorts, hholds⟩ := h.created hids hmodels hstring hstart
  refine ⟨?_, fun item hitem => ?_, hsorts.nodup hids, hholds.run_all⟩
  · obtain ⟨t', ht', hsound', -, hperm⟩ := hholds
    refine ⟨t', ht', ?_⟩
    calc t'.storage.count
        = t'.storage.items.length := hsound'.storage.count_eq
      _ = items.length := hperm.length_eq
  · obtain ⟨p, k, hp, hk, hget⟩ := hholds.run_get hitem
    obtain ⟨n, hn⟩ := hsorts.exists_id hitem
    obtain rfl : k = .string (db.ids n) := Option.some.inj (hk.symm.trans hn)
    exact ⟨p, n, hp, hk, hget⟩

end Database

/-! ## The desk of a library -/

/-- The desk of a library, where readers and loans are told apart by strokes: each has one more than the
last. -/
def desk : Database where
  config := { name := "desk" }
  schema := { models := [reader, loan] }
  ids := fun n => String.ofList (List.replicate n.succ '|')

/-- The model of loans, bound to the desk. -/
def loans : BoundModel := ⟨loan, .string "loans"⟩

/-- The session in which the table of the desk has just been created. -/
def newDesk : Session MemoryStore := noTables.after desk.createTable

/-- Two readers come to the desk together, and one of them takes a loan. -/
theorem desk_keeps_all :
    Schema.build [reader, loan] [] [] = .ok desk.schema
      ∧ (∀ m ∈ [reader, loan], Model.build m.name m.fields = .ok m)
      ∧ (∀ m ∈ [reader, loan], m.SortsByGenerated) ∧ Function.Injective desk.ids
      ∧ (∃ reply, ExceptT.run desk.createTable noTables = (.ok reply, newDesk))
      ∧ desk.storedItems newDesk = []
      ∧ ∃ items s', desk.Creations newDesk items s' ∧ items.length = 3
        ∧ (∃ t, s'.store.tables.get? "desk" = some t ∧ t.storage.count = 3)
        ∧ ∃ listed, ExceptT.run desk.all s' = (.ok listed, s') ∧ listed.items.Perm items
          ∧ listed.count = 3 := by
  have hbuild : Schema.build [reader, loan] [] [] = .ok desk.schema := rfl
  have hmodels : ∀ m ∈ [reader, loan], Model.build m.name m.fields = .ok m := by
    simp only [List.forall_mem_cons, List.not_mem_nil, false_imp_iff, implies_true, and_true]
    exact ⟨rfl, rfl⟩
  have hgenerated : ∀ m ∈ [reader, loan], m.SortsByGenerated := by
    simp only [List.forall_mem_cons, List.not_mem_nil, false_imp_iff, implies_true, and_true]
    exact ⟨⟨{ name := "id", kind := .generated, validator := .string }, by simp [reader], rfl, rfl,
        by simp [reader]⟩,
      ⟨{ name := "number", kind := .generated, validator := .string }, by simp [loan], rfl, rfl,
        by simp [loan]⟩⟩
  have hids : Function.Injective desk.ids := by
    intro n n' h
    have hlength := congrArg String.length h
    simp only [desk, String.length_ofList, List.length_replicate] at hlength
    omega
  obtain ⟨reply, hreply⟩ : ∃ reply, ExceptT.run desk.createTable noTables = (.ok reply, newDesk) :=
    ⟨_, rfl⟩
  have hempty : desk.storedItems newDesk = [] := rfl
  obtain ⟨made, u, item, s', hmany, hone, hlength⟩ : ∃ made u item s',
      ExceptT.run (desk.createMany readers [{}, {}]) newDesk = (.ok made, u)
        ∧ ExceptT.run (desk.create loans (Dict.ofList [("reader", .string "|")])) u = (.ok item, s')
        ∧ (made ++ [item]).length = 3 := ⟨_, _, _, _, rfl, rfl, rfl⟩
  have hreaders : desk.model "reader" = .ok readers := rfl
  have hloans : desk.model "loan" = .ok loans := rfl
  have hitems : desk.Creations newDesk (made ++ [item]) s' :=
    (Database.Creations.start.createMany hreaders hmany).create hloans hone
  obtain ⟨⟨t, ht, hcount⟩, -, -, listed, hall, hwhole, hperm⟩ :=
    Database.created_are_stored hbuild hmodels hgenerated hids hreply .start hempty hitems
  have hlisted : listed.count.toInt = 3 := by
    rw [hwhole.count, hperm.length_eq, hlength]
    rfl
  exact ⟨hbuild, hmodels, hgenerated, hids, ⟨reply, hreply⟩, hempty, made ++ [item], s', hitems,
    hlength, ⟨t, ht, hcount.trans hlength⟩, listed, hall, hperm, Int32.toInt_inj.mp hlisted⟩

end SingleTable
