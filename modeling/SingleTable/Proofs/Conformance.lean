import SingleTable.Proofs.ReadBack

set_option autoImplicit false

/-!
# Stored items conform to their model

An item conforms to a model if it has exactly the fields of the model, each with a value that the field's
validator returns (`Model.Conforms`). A model makes conforming items of conforming ones
(`Model.Makes.conforms`), and so all that a run of its writes stores conforms, but for sort keys: an update
writes the sort value that it is called with over the one that has been validated
(`Database.stored_conforms`, `event_storedUnvalidated`).
-/

namespace SingleTable

/-- The item has exactly the fields of the model, each with a value that the field's validator returns for
some raw value or for none. The sort key may also be one of the given values. -/
structure Model.Conforms (m : Model) (sorts : AttributeValue → Prop) (item : Item) : Prop where
  names : ∀ n, (item.get? n).isSome = true ↔ n ∈ m.fields.map Field.name
  values : ∀ f ∈ m.fields, ∃ v, item.get? f.name = some v
    ∧ ((∃ raw, f.validator.parse raw = .ok v) ∨ f.name = sortKeyName ∧ sorts v)

namespace Model

variable {m : Model} {sorts : AttributeValue → Prop} {item : Item}

/-- What is made of a conforming item, or of none, conforms. -/
theorem Makes.conforms {ids : IdSource} {params : Params} {existing : Option Item} (hm : m.WellFormed)
    (h : m.Makes ids params existing item)
    (hold : ∀ old, existing = some old → m.Conforms sorts old) : m.Conforms sorts item := by
  refine ⟨h.names, fun f hf => ?_⟩
  obtain ⟨v, hv, hparsed | ⟨hfun, hkept⟩⟩ := h.parsed_or_kept hf
  · exact ⟨v, hv, Or.inl hparsed⟩
  · -- generated and required fields are no keys, so what they keep has been validated
    obtain ⟨old, hexisting, hget⟩ := Option.bind_eq_some_iff.mp hkept
    obtain ⟨w, hw, hparsed⟩ := (hold old hexisting).values f hf
    obtain rfl : w = v := Option.some.inj (hw.symm.trans hget)
    refine ⟨w, hv, hparsed.imp_right fun ⟨hname, _⟩ => ?_⟩
    have hkey := hm.not_isKeyName hf hfun
    rw [hname] at hkey
    cases hkey

/-- A conforming item conforms with other keys if the partition value has been validated. -/
theorem Conforms.withKeys (h : m.Conforms sorts item) (hm : m.WellFormed) {f : Field}
    (hf : m.field? partitionKeyName = some f) {partition sort : AttributeValue}
    (hpartition : ∃ raw, f.validator.parse raw = .ok partition) (hsort : sorts sort) :
    m.Conforms sorts ((item.insert sortKeyName sort).insert partitionKeyName partition) := by
  constructor
  · intro n
    rw [Dict.get?_insert, Dict.get?_insert]
    split
    · rename_i hn
      obtain ⟨hmem, hname⟩ := hm.field?_eq_some_iff.mp hf
      exact iff_of_true rfl (hn ▸ hname ▸ List.mem_map_of_mem hmem)
    · split
      · rename_i hn
        obtain ⟨g, hg, hname⟩ := hm.keys sortKeyName (by simp)
        exact iff_of_true rfl (hn ▸ hname ▸ List.mem_map_of_mem hg)
      · exact h.names n
  · intro g hg
    rw [Dict.get?_insert, Dict.get?_insert]
    split
    · rename_i hname
      obtain rfl : g = f := Option.some.inj ((hm.field?_eq_some_iff.mpr ⟨hg, hname⟩).symm.trans hf)
      exact ⟨partition, rfl, Or.inl hpartition⟩
    · split
      · rename_i hname
        exact ⟨sort, rfl, Or.inr ⟨hname, hsort⟩⟩
      · exact h.values g hg

end Model

/-! ## Runs of writes -/

/-- The sort value under which an update stores its item. -/
def ModelWrite.sort? : ModelWrite → Option AttributeValue
  | .update sort _ _ => some sort
  | .create _ => none
  | .createMany _ => none
  | .delete _ => none

/-- The session after writes of a bound model, made one after the other. -/
def Session.afterWrites (s : Session MemoryStore) (db : Database) (m : BoundModel)
    (writes : List ModelWrite) : Session MemoryStore :=
  writes.foldl (fun s w => s.after (w.run db m)) s

namespace Database

variable {db : Database} {s : Session MemoryStore} {item : Item}

theorem mem_storedItems_iff :
    item ∈ db.storedItems s
      ↔ ∃ t, s.store.tables.get? db.config.name = some t ∧ item ∈ t.storage.items := by
  rw [storedItems]
  cases s.store.tables.get? db.config.name with
  | none => simp
  | some t => simp

/-- What is fetched is a stored item. -/
theorem mem_storedItems_of_get {partition sort : AttributeValue}
    (h : ExceptT.run (db.get partition sort) s = (.ok (some item), s)) :
    item ∈ db.storedItems s := by
  obtain ⟨-, t, key, ht, -, hfound⟩ := run_get_eq_ok_iff.mp h
  exact mem_storedItems_iff.mpr ⟨t, ht, Storage.mem_items_of_get? hfound.symm⟩

/-- What is stored after a write has been stored before, or the write puts it. -/
theorem mem_storedItems_after {c : SessionCall} (h : item ∈ db.storedItems (c.after s)) :
    item ∈ db.storedItems s
      ∨ ∃ r, c.request? s = some r ∧ ∃ e ∈ r.writes, ∃ w ∈ e.2, w.put = some item := by
  obtain ⟨t', ht', hitem⟩ := mem_storedItems_iff.mp h
  rw [c.store_after] at ht'
  cases hr : c.request? s with
  | none =>
      rw [hr] at ht'
      exact Or.inl (mem_storedItems_iff.mpr ⟨t', ht', hitem⟩)
  | some r =>
      rw [hr] at ht'
      rcases StoreCall.mem_items_after ht' hitem with hold | hput
      · exact Or.inl (mem_storedItems_iff.mpr hold)
      · exact Or.inr ⟨r, rfl, hput⟩

end Database

namespace ModelWrite

variable {db : Database} {m : BoundModel} {w : ModelWrite} {s : Session MemoryStore} {item : Item}

/-- What a write of a bound model puts has been made of parameters alone, or it has been made of the item
that an update replaces and has got the keys of its place. -/
theorem made_of_request {r : StoreCall} (h : (w.call db m).request? s = some r)
    {e : String × List WriteRequest} (he : e ∈ r.writes) {u : WriteRequest} (hu : u ∈ e.2)
    (hput : u.put = some item) :
    (∃ params n n', ExceptT.run (m.model.materialize db.ids params none) n = (.ok item, n'))
      ∨ ∃ sort params existing made n n', w.sort? = some sort
        ∧ ExceptT.run (db.getItem m sort) s = (.ok existing, s)
        ∧ ExceptT.run (m.model.materialize db.ids params existing) n = (.ok made, n')
        ∧ item = (made.insert sortKeyName sort).insert partitionKeyName m.partition := by
  cases w with
  | create params =>
      obtain ⟨made, hmade, rfl⟩ := SessionCall.putOf_eq_some h
      obtain ⟨drawn, hdrawn, -⟩ := run_ofDrawing_eq_ok_iff.mp (Prod.ext hmade rfl)
      rw [List.mem_singleton.mp he] at hu
      rw [List.mem_singleton.mp hu] at hput
      cases hput
      exact Or.inl ⟨params, _, drawn, hdrawn⟩
  | createMany params =>
      obtain ⟨items, hitems, rfl⟩ := SessionCall.batchOf_eq_some h
      obtain ⟨drawn, hdrawn, -⟩ := run_ofDrawing_eq_ok_iff.mp (Prod.ext hitems rfl)
      have he : e = (db.config.name, items.map WriteRequest.ofItem) := List.mem_singleton.mp he
      rw [he] at hu
      obtain ⟨made, hmade, rfl⟩ := List.mem_map.mp hu
      cases hput
      obtain ⟨p, -, n, n', hp⟩ := (run_mapM_eq_ok hdrawn).2 item hmade
      exact Or.inl ⟨p, n, n', hp⟩
  | update sort params upsert =>
      obtain ⟨stored, hstored, rfl⟩ := SessionCall.putOf_eq_some h
      rw [List.mem_singleton.mp he] at hu
      rw [List.mem_singleton.mp hu] at hput
      cases hput
      obtain ⟨existing, made, n', hget, hmade, hitem, -⟩ :=
        Database.run_prepareUpdate_eq_ok (Prod.ext hstored rfl)
      exact Or.inr ⟨sort, _, existing, made, _, n', rfl, hget, hmade, hitem⟩
  | delete sort =>
      cases h
      rw [List.mem_singleton.mp he] at hu
      rw [List.mem_singleton.mp hu] at hput
      cases hput

/-- A write keeps all stored items conforming, where its own sort value counts as one of the given. -/
theorem conforms_after {sorts : AttributeValue → Prop} (hm : m.model.WellFormed)
    (hbound : Database.bindModel m.model = .ok m) (hsort : ∀ sort, w.sort? = some sort → sorts sort)
    (h : ∀ item ∈ db.storedItems s, m.model.Conforms sorts item) :
    ∀ item ∈ db.storedItems (s.after (w.run db m)), m.model.Conforms sorts item := by
  intro item hitem
  rw [← after_call] at hitem
  rcases Database.mem_storedItems_after hitem with hitem | ⟨r, hr, e, he, u, hu, hput⟩
  · exact h item hitem
  rcases made_of_request hr he hu hput with ⟨params, n, n', hmade⟩ |
    ⟨sort, params, existing, made, n, n', hw, hget, hmade, rfl⟩
  · exact (Model.makes_of_materialize hm hmade).conforms hm nofun
  · obtain ⟨-, f, hf, hpartition⟩ := Database.bindModel_eq_ok hbound
    refine ((Model.makes_of_materialize hm hmade).conforms hm ?_).withKeys hm hf
      ⟨_, Field.value_eq_ok_iff.mp hpartition⟩ (hsort sort hw)
    rintro old rfl
    exact h old (Database.mem_storedItems_of_get hget)

end ModelWrite

/-- Whatever writes a model makes on a table without items, all that is stored afterwards has exactly the
fields of the model, and the field's validator returns the value of each field. Only a sort key may be one
that no validator has seen: it is then the sort value of an update of the run. -/
theorem Database.stored_conforms {db : Database} {name : String} {fields : List Field} {m : BoundModel}
    (hbuild : Model.build name fields = .ok m.model) (hbound : bindModel m.model = .ok m)
    {s : Session MemoryStore} (hempty : db.storedItems s = []) (writes : List ModelWrite) :
    ∀ item ∈ db.storedItems (s.afterWrites db m writes),
      m.model.Conforms (fun v => ∃ w ∈ writes, w.sort? = some v) item := by
  have hm : m.model.WellFormed := (Model.build_eq_ok_iff.mp hbuild).2
  have hrun : ∀ (sorts : AttributeValue → Prop) (ws : List ModelWrite) (s : Session MemoryStore),
      (∀ w ∈ ws, ∀ sort, w.sort? = some sort → sorts sort) →
      (∀ item ∈ db.storedItems s, m.model.Conforms sorts item) →
      ∀ item ∈ db.storedItems (s.afterWrites db m ws), m.model.Conforms sorts item := by
    intro sorts ws
    induction ws with
    | nil => exact fun s _ h => h
    | cons w ws ih =>
        intro s hsorts h
        exact ih _ (fun u hu => hsorts u (List.mem_cons_of_mem _ hu))
          (ModelWrite.conforms_after hm hbound (hsorts w (by simp)) h)
  refine hrun _ writes s (fun w hw sort hsort => ⟨w, hw, hsort⟩) fun item hitem => ?_
  rw [hempty] at hitem
  cases hitem

/-! ## Events -/

/-- An event stands under the time at which it happens. -/
def event : Model where
  name := "event"
  fields := [
    .partitionKey .string (.constant (.string "events")),
    .sortKey .timestamp (.parameter "at"),
    { name := "at", kind := .required, validator := .timestamp }]

/-- A database of events. -/
def calendar : Database where
  config := { name := "calendar" }
  schema := { models := [event] }
  ids := fun _ => ""

/-- The model of events, bound to the calendar. -/
def events : BoundModel := ⟨event, .string "events"⟩

/-- The session in which the table of the calendar has just been created. -/
def newCalendar : Session MemoryStore := noTables.after calendar.createTable

/-- A time at which an event may happen. -/
def noon : String := "2024-02-29T12:00:00Z"

/-- The item of an event at noon, under some sort value. -/
def eventAt (sort : String) : Item :=
  (Database.keyItem (.string "events") (.string sort)).insert "at" (.string noon)

/-- A creation of an event and an upsert of another. -/
def calendarWrites : List ModelWrite :=
  [.create (Dict.ofList [("at", .string noon)]),
    .update (.string "soon") (Dict.ofList [("at", .string noon)]) true]

theorem calendar_conforms :
    Model.build event.name event.fields = .ok event
      ∧ Database.bindModel event = .ok events
      ∧ calendar.storedItems newCalendar = []
      ∧ calendar.storedItems (newCalendar.afterWrites calendar events calendarWrites)
        = [eventAt noon, eventAt "soon"]
      ∧ ∀ item ∈ calendar.storedItems (newCalendar.afterWrites calendar events calendarWrites),
        event.Conforms (fun v => ∃ w ∈ calendarWrites, w.sort? = some v) item := by
  have hbuild : Model.build event.name event.fields = .ok event := rfl
  have hbound : Database.bindModel event = .ok events := rfl
  have hempty : calendar.storedItems newCalendar = [] := rfl
  exact ⟨hbuild, hbound, hempty, rfl,
    Database.stored_conforms (m := events) hbuild hbound hempty calendarWrites⟩

/-- An upsert stores an event under a sort value that is no time, though the validator of the sort key
returns times only. -/
theorem event_storedUnvalidated :
    Model.build event.name event.fields = .ok event
      ∧ calendar.model "event" = .ok events
      ∧ calendar.storedItems newCalendar = []
      ∧ calendar.storedItems (newCalendar.afterWrites calendar events
          [.update (.string "soon") (Dict.ofList [("at", .string noon)]) true]) = [eventAt "soon"]
      ∧ (eventAt "soon").get? sortKeyName = some (.string "soon")
      ∧ ∀ f, event.field? sortKeyName = some f →
          ∀ raw, f.validator.parse raw ≠ .ok (.string "soon") := by
  refine ⟨rfl, rfl, rfl, rfl, rfl, ?_⟩
  intro f hf raw hparse
  obtain rfl : .sortKey .timestamp (.parameter "at") = f := Option.some.inj hf
  obtain ⟨text, -, hchecked⟩ := bind_eq_ok_iff.mp hparse
  split at hchecked
  · rename_i hcheck
    cases hchecked
    cases hcheck
  · cases hchecked

end SingleTable
