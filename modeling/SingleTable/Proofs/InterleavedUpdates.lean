import SingleTable.Proofs.HiddenParameters
import SingleTable.Proofs.ModelCalls
import SingleTable.Proofs.Remaking

set_option autoImplicit false

/-!
# Interleaved updates

An update reads an item, makes it anew and writes it back, and nothing keeps other updates from taking their
steps in between. Here any number of updates of one item take their steps in any order
(`Updates.advance`). The values that the item has been generated with and those that its creator has
supplied are never lost, and the item is always what the last update that has written would have left behind
alone (`Database.interleaved_updates`).
-/

namespace SingleTable

/-! ## Items that are made from the same values -/

namespace Model

/-- The items have the same generated and required values. -/
def SameSupplied (m : Model) (item item' : Item) : Prop :=
  ∀ f ∈ m.fields, f.kind.isComputed = false → item.get? f.name = item'.get? f.name

variable {m : Model} {item item' : Item}

/-- Of an existing item the generated and required values matter, and nothing else. -/
theorem SameSupplied.materialize_eq (h : m.SameSupplied item item') (ids : IdSource)
    (params : Params) :
    m.materialize ids params (some item) = m.materialize ids params (some item') := by
  have hsupply : ∀ f ∈ m.fields, ∀ made : Item,
      supply ids m.name params (some item) made f
        = supply ids m.name params (some item') made f := by
    intro f hf made
    -- the value of a computed field is not looked at
    by_cases hkind : f.kind.isComputed = false
    · have hkept : kept? (some item) f = kept? (some item') f := h f hf hkind
      rw [supply, hkept, supply]
    · unfold supply
      cases hf : f.kind with
      | key value => rfl
      | derived value => rfl
      | generated => simp [hf, FieldKind.isComputed, FieldKind.function?] at hkind
      | required => simp [hf, FieldKind.isComputed, FieldKind.function?] at hkind
  rw [materialize, materialize, foldlM_congr hsupply]

end Model

/-! ## Items under one key -/

/-- What an item has a key for is settled by its key attributes. -/
theorem KeySchema.extract_congr {schema : KeySchema} {item item' : Item}
    (h : ∀ key ∈ schema.attributes, item.get? key.name = item'.get? key.name) :
    schema.extract item = schema.extract item' := by
  obtain ⟨partition, sort⟩ := schema
  have hvalue : ∀ key ∈ KeySchema.attributes ⟨partition, sort⟩,
      key.valueIn item = key.valueIn item' := by
    intro key hkey
    rw [KeyAttribute.valueIn, KeyAttribute.valueIn, h key hkey]
  rw [extract, extract, hvalue partition (by simp [attributes])]
  cases sort with
  | none => rfl
  | some key => simp only [hvalue key (by simp [attributes])]

/-- An item with the values of a key that is looked up has this key. -/
theorem StoredTable.extract_of_exactKey {t : StoredTable} {partition sort : AttributeValue}
    {key : PrimaryKey} (h : t.exactKey (Database.keyItem partition sort) = .ok key) {item : Item}
    (hpartition : item.get? partitionKeyName = some partition)
    (hsort : item.get? sortKeyName = some sort) : t.schema.extract item = .ok key := by
  have hkey := (exactKey_eq_ok_iff.mp h).2
  rw [← hkey]
  refine KeySchema.extract_congr fun k hk => ?_
  obtain ⟨v, hv, -⟩ := (KeySchema.extract_eq_ok_iff.mp hkey).1 k hk
  rw [hv]
  rw [Database.get?_keyItem] at hv
  split at hv
  · rename_i hname
    rw [hname, hsort, hv]
  · split at hv
    · rename_i hname
      rw [hname, hpartition, hv]
    · cases hv

/-! ## Updates and their steps -/

/-- What an update is called with, besides the place of the item. -/
structure UpdateCall where
  params : Params
  upsert : Bool

/-- How far an update has come. -/
inductive Phase where
  | called
  | fetched (existing : Option Item)
  | made (item : Item)
  | stored (item : Item)
  | failed (cause : DatabaseError)

/-- What an update makes of the item that it has fetched. -/
def Database.remake (db : Database) (m : BoundModel) (sort : AttributeValue) (c : UpdateCall)
    (existing : Option Item) : SessionM MemoryStore Item := do
  if existing.isNone && !c.upsert then
    throw (.itemNotFound m.model.name sort)
  let item ←
    SessionM.ofDrawing (m.model.materialize db.ids (c.params.erase sortKeyName) existing)
  return (item.insert sortKeyName sort).insert partitionKeyName m.partition

/-- The next step of an update, with what it writes to the log: that it has put its item. -/
def Phase.next (db : Database) (m : BoundModel) (sort : AttributeValue) (c : UpdateCall) :
    Phase → SessionM MemoryStore (Phase × List UpdateCall)
  | .called => do return (.fetched (← db.getItem m sort), [])
  | .fetched existing => do return (.made (← db.remake m sort c existing), [])
  | .made item => do
      db.putItem item
      return (.stored item, [c])
  | .stored item => return (.stored item, [])
  | .failed cause => return (.failed cause, [])

/-- Updates of one item, each as far as it has come, and the log of those that have put their item, the
last one first. -/
structure Updates where
  session : Session MemoryStore
  calls : List (UpdateCall × Phase)
  puts : List UpdateCall := []

namespace Updates

/-- All updates have been called and none has taken a step. -/
def start (s : Session MemoryStore) (calls : List UpdateCall) : Updates :=
  { session := s, calls := calls.map fun c => (c, .called) }

/-- The update at a place of the list takes its next step. -/
def advance (db : Database) (m : BoundModel) (sort : AttributeValue) (u : Updates) (i : Nat) :
    Updates :=
  match u.calls[i]? with
  | none => u
  | some (c, phase) =>
      match ExceptT.run (phase.next db m sort c) u.session with
      | (.ok (phase, puts), session) => ⟨session, u.calls.set i (c, phase), puts ++ u.puts⟩
      | (.error cause, session) => ⟨session, u.calls.set i (c, .failed cause), u.puts⟩

/-- The updates take steps in the order of a schedule. -/
def run (db : Database) (m : BoundModel) (sort : AttributeValue) (u : Updates)
    (schedule : List Nat) : Updates :=
  schedule.foldl (advance db m sort) u

end Updates

namespace Database

variable {db : Database} {m : BoundModel} {sort : AttributeValue} {c : UpdateCall}
  {s s' : Session MemoryStore} {item item' : Item}

/-- An update is its steps in a row. -/
theorem update_eq (db : Database) (m : BoundModel) (sort : AttributeValue) (c : UpdateCall) :
    (db.update m sort c.params c.upsert : SessionM MemoryStore Item) = (do
      let existing ← db.getItem m sort
      let item ← db.remake m sort c existing
      db.putItem item
      return item) := by
  simp only [update, prepareUpdate, remake, bind_assoc]

end Database

section

variable {db : Database} {m : BoundModel} {sort : AttributeValue} {c : UpdateCall}

namespace Updates

/-- An update that has failed takes no more steps. -/
theorem run_failed (cause : DatabaseError) (s : Session MemoryStore) (puts : List UpdateCall)
    (schedule : List Nat) :
    run db m sort ⟨s, [(c, .failed cause)], puts⟩ schedule = ⟨s, [(c, .failed cause)], puts⟩ := by
  induction schedule with
  | nil => rfl
  | cons i schedule ih =>
      have hstep : advance db m sort ⟨s, [(c, .failed cause)], puts⟩ i
          = ⟨s, [(c, .failed cause)], puts⟩ := by
        cases i with
        | zero => rfl
        | succ i => rfl
      rw [run, List.foldl_cons, hstep]
      exact ih

/-- If the next step of an update makes a call, and its other steps do what comes after the call, then all
of them do both. -/
theorem session_run_of_next {α β : Type} {phase : Phase} {call : SessionM MemoryStore α}
    {next : α → Phase × List UpdateCall} {rest : α → SessionM MemoryStore β} {schedule : List Nat}
    (hnext : phase.next db m sort c = call >>= fun a => pure (next a))
    (hrest : ∀ a s puts, (run db m sort ⟨s, [(c, (next a).1)], puts⟩ schedule).session
      = s.after (rest a)) (s : Session MemoryStore) (puts : List UpdateCall) :
    (run db m sort ⟨s, [(c, phase)], puts⟩ (0 :: schedule)).session = s.after (call >>= rest) := by
  obtain ⟨result, u, hcall⟩ : ∃ result u, ExceptT.run call s = (result, u) := ⟨_, _, rfl⟩
  cases result with
  | error cause =>
      have hphase : ExceptT.run (phase.next db m sort c) s = (.error cause, u) := by
        rw [hnext, run_bind_of_error hcall]
      have hstep : advance db m sort ⟨s, [(c, phase)], puts⟩ 0 = ⟨u, [(c, .failed cause)], puts⟩ := by
        simp [advance, hphase]
      rw [run, List.foldl_cons, hstep, Session.after, run_bind_of_error hcall]
      exact congrArg session (run_failed cause u puts schedule)
  | ok a =>
      have hphase : ExceptT.run (phase.next db m sort c) s = (.ok (next a), u) := by
        rw [hnext, run_bind_of_ok hcall]
        rfl
      have hstep : advance db m sort ⟨s, [(c, phase)], puts⟩ 0
          = ⟨u, [(c, (next a).1)], (next a).2 ++ puts⟩ := by
        simp [advance, hphase]
      rw [run, List.foldl_cons, hstep, Session.after, run_bind_of_ok hcall]
      exact hrest a u _

end Updates

/-- Three steps of one update, with no other one in between, do what the update does. -/
theorem Database.run_alone (db : Database) (m : BoundModel) (sort : AttributeValue) (c : UpdateCall)
    (s : Session MemoryStore) :
    ((Updates.start s [c]).run db m sort [0, 0, 0]).session
      = s.after (db.update m sort c.params c.upsert) := by
  rw [update_eq]
  refine Updates.session_run_of_next rfl (fun existing s puts => ?_) s []
  refine Updates.session_run_of_next rfl (fun item s puts => ?_) s puts
  exact Updates.session_run_of_next rfl (fun _ s puts => rfl) s puts

end

namespace Database

variable {db : Database} {m : BoundModel} {sort : AttributeValue} {c : UpdateCall}
  {s s' : Session MemoryStore} {item item' : Item}

/-- Where an item is there and making it anew draws no id, an update changes nothing before it puts. -/
theorem run_remake {result : Except FieldError Item}
    (h : ExceptT.run (m.model.materialize db.ids (c.params.erase sortKeyName) (some item)) s.drawn
      = (result, s.drawn)) :
    ExceptT.run (db.remake m sort c (some item)) s
      = ((result.mapError .field).map
          (fun made => (made.insert sortKeyName sort).insert partitionKeyName m.partition), s) := by
  have hmake := run_ofDrawing h
  rw [remake, if_neg (by simp)]
  cases result with
  | error cause => exact run_bind_of_error hmake
  | ok made => exact run_bind_of_ok hmake

theorem run_putItem_of_table {t : StoredTable} (ht : s.store.tables.get? db.config.name = some t) :
    ExceptT.run (db.putItem item) s = match t.put item with
      | .ok t' => (.ok (), { s with store := s.store.setTable db.config.name t' })
      | .error refusal => (.error (.store refusal.toStoreError), s) := by
  cases hput : t.put item with
  | ok t' => exact run_putItem_eq_ok_iff.mpr ⟨t, t', ht, hput, rfl⟩
  | error refusal =>
      have hwrite : (s.store.put ⟨db.config.name, item⟩).map (((), ·)) = .error refusal := by
        rw [MemoryStore.put, MemoryStore.table_eq_ok_iff.mpr ht]
        show (t.put item >>= _).map _ = _
        rw [hput]
        rfl
      have hcall : MemoryStore.writing
          (fun store => (store.put ⟨db.config.name, item⟩).map (((), ·))) s.store
            = (.error refusal.toStoreError, s.store) := by
        rw [MemoryStore.writing, hwrite]
      exact run_ofStore (show ExceptT.run (MemoryStore.writing _) s.store = _ from hcall)

/-- Items under one key replace each other: where the first one has been put, it is found, and another one
is put as if the first one had never been. -/
theorem run_putItem_of_put {partition : AttributeValue} {found : Option Item}
    (hget : ExceptT.run (db.get partition sort) s = (.ok found, s))
    (hpartition : item.get? partitionKeyName = some partition)
    (hsort : item.get? sortKeyName = some sort)
    (hpartition' : item'.get? partitionKeyName = some partition)
    (hsort' : item'.get? sortKeyName = some sort)
    (hput : ExceptT.run (db.putItem item) s = (.ok (), s')) :
    ExceptT.run (db.get partition sort) s' = (.ok (some item), s')
      ∧ ((∃ u, ExceptT.run (db.putItem item') s' = (.ok (), u)
            ∧ ExceptT.run (db.putItem item') s = (.ok (), u))
        ∨ ∃ cause, ExceptT.run (db.putItem item') s' = (.error cause, s')
            ∧ ExceptT.run (db.putItem item') s = (.error cause, s)) := by
  obtain ⟨-, t, key, ht, hkey, -⟩ := run_get_eq_ok_iff.mp hget
  obtain ⟨u, t', hu, hput', rfl⟩ := run_putItem_eq_ok_iff.mp hput
  obtain rfl : t = u := Option.some.inj (ht.symm.trans hu)
  have hextract := StoredTable.extract_of_exactKey hkey hpartition hsort
  have hextract' := StoredTable.extract_of_exactKey hkey hpartition' hsort'
  have ht' : (s.store.setTable db.config.name t').tables.get? db.config.name = some t' := by
    rw [MemoryStore.get?_setTable, if_pos rfl]
  -- both items have the key that is looked up, so the second put covers what the first one did
  constructor
  · obtain ⟨-, k, hk, rfl⟩ := StoredTable.put_eq_ok_iff.mp hput'
    obtain rfl : key = k := Except.ok.inj (hextract.symm.trans hk)
    exact run_get_eq_ok_iff.mpr ⟨rfl, _, key, ht', hkey, (Storage.get?_putAt_self _ _ _).symm⟩
  · rw [run_putItem_of_table (s := { s with store := s.store.setTable db.config.name t' }) ht',
      run_putItem_of_table ht, StoredTable.put_of_put hput' (hextract'.trans hextract.symm)]
    cases t.put item' with
    | ok t'' =>
        refine Or.inl ⟨_, ?_, rfl⟩
        simp only [MemoryStore.setTable_setTable]
    | error refusal => exact Or.inr ⟨_, rfl, rfl⟩

end Database

/-! ## What updates keep -/

section

variable {db : Database} {m : BoundModel} {sort : AttributeValue} {original : Item}
  {s₀ s s' : Session MemoryStore} {c : UpdateCall} {item : Item}

/-- The update alone, in the session before all updates, stores the item and leaves a session behind. -/
def Database.StoresAlone (db : Database) (m : BoundModel) (sort : AttributeValue)
    (s₀ : Session MemoryStore) (c : UpdateCall) (item : Item) (s : Session MemoryStore) : Prop :=
  ExceptT.run (db.update m sort c.params c.upsert) s₀ = (.ok item, s)

/-- What an update in flight holds fits with its run alone: an item that it has fetched has the original
generated and required values, and the item that it has made is the one that it would have made alone. -/
def Phase.Fits (db : Database) (m : BoundModel) (sort : AttributeValue) (s₀ : Session MemoryStore)
    (original : Item) (c : UpdateCall) : Phase → Prop
  | .called => True
  | .fetched existing => ∃ item, existing = some item ∧ m.model.SameSupplied item original
  | .made item => ExceptT.run (db.prepareUpdate m sort c.params c.upsert) s₀ = (.ok item, s₀)
  | .stored item => ∃ s, db.StoresAlone m sort s₀ c item s
  | .failed cause => ExceptT.run (db.update m sort c.params c.upsert) s₀ = (.error cause, s₀)

/-- The session is the one before all updates, or one that some update alone would leave behind. -/
def Database.LeftAlone (db : Database) (m : BoundModel) (sort : AttributeValue)
    (s₀ s : Session MemoryStore) : Prop :=
  s = s₀ ∨ ∃ c item, db.StoresAlone m sort s₀ c item s

/-- Every update in flight fits with its run alone, and the session is the one that the last update that
has put its item would have left behind. -/
structure Updates.Fits (db : Database) (m : BoundModel) (sort : AttributeValue)
    (s₀ : Session MemoryStore) (original : Item) (u : Updates) : Prop where
  calls : ∀ c phase, (c, phase) ∈ u.calls → phase.Fits db m sort s₀ original c
  untouched : u.puts = [] → u.session = s₀
  last : ∀ c rest, u.puts = c :: rest → ∃ item, db.StoresAlone m sort s₀ c item u.session

variable (hm : m.model.WellFormed)
  (hget : ExceptT.run (db.getItem m sort) s₀ = (.ok (some original), s₀))
  (hcomplete : ∀ f ∈ m.model.fields, f.kind.isComputed = false →
    (original.get? f.name).isSome = true)

include hm hget hcomplete

namespace Database

/-- From an item with the original generated and required values an update makes what it makes of the
original. -/
theorem run_remake_of_same (hdrawn : s.drawn = s₀.drawn)
    (hsame : m.model.SameSupplied item original) :
    ∃ result, ExceptT.run (db.remake m sort c (some item)) s = (result, s)
      ∧ ExceptT.run (db.prepareUpdate m sort c.params c.upsert) s₀ = (result, s₀) := by
  obtain ⟨supplied, known, -, hmake⟩ := Model.run_materialize_of_complete hm hcomplete db.ids
    (c.params.erase sortKeyName) s₀.drawn
  have hprepare : ExceptT.run (db.prepareUpdate m sort c.params c.upsert) s₀
      = ExceptT.run (db.remake m sort c (some original)) s₀ := run_bind_of_ok hget
  refine ⟨_, run_remake (by rw [hsame.materialize_eq, hdrawn]; exact hmake), ?_⟩
  rw [hprepare, run_remake hmake]

/-- The item that an update makes has the place and the generated and required values of the original. -/
theorem keeps_of_prepareUpdate
    (h : ExceptT.run (db.prepareUpdate m sort c.params c.upsert) s₀ = (.ok item, s')) :
    s' = s₀ ∧ item.get? partitionKeyName = some m.partition ∧ item.get? sortKeyName = some sort
      ∧ m.model.SameSupplied item original := by
  obtain ⟨result, -, hresult⟩ :=
    run_remake_of_same (c := c) hm hget hcomplete rfl fun _ _ _ => rfl
  have hs' : s' = s₀ := (Prod.mk.inj (h.symm.trans hresult)).2
  obtain ⟨existing, made, drawn, hfound, hmade, rfl, -⟩ := run_prepareUpdate_eq_ok h
  obtain rfl : some original = existing := Except.ok.inj (Prod.mk.inj (hget.symm.trans hfound)).1
  refine ⟨hs', by simp, ?_, fun f hf hkind => ?_⟩
  · rw [Dict.get?_insert, if_neg (by decide), Dict.get?_insert, if_pos rfl]
  · obtain ⟨v, hv⟩ := Option.isSome_iff_exists.mp (hcomplete f hf hkind)
    have hname := hm.not_isKeyName hf (FieldKind.isComputed_eq_false_iff.mp hkind)
    rw [get?_insert_keys hname, hv]
    exact (Model.makes_of_materialize hm hmade).kept rfl hf hkind hv

theorem storesAlone_iff : db.StoresAlone m sort s₀ c item s
    ↔ ExceptT.run (db.prepareUpdate m sort c.params c.upsert) s₀ = (.ok item, s₀)
      ∧ ExceptT.run (db.putItem item) s₀ = (.ok (), s) := by
  rw [StoresAlone, run_update_eq_ok_iff]
  constructor
  · rintro ⟨u, hprepare, hput⟩
    obtain rfl := (keeps_of_prepareUpdate hm hget hcomplete hprepare).1
    exact ⟨hprepare, hput⟩
  · rintro ⟨hprepare, hput⟩
    exact ⟨s₀, hprepare, hput⟩

/-- Wherever updates have led, an item with the original generated and required values is found, and no id
has been drawn. -/
theorem LeftAlone.found (h : db.LeftAlone m sort s₀ s) :
    s.drawn = s₀.drawn ∧ ∃ item, ExceptT.run (db.getItem m sort) s = (.ok (some item), s)
      ∧ m.model.SameSupplied item original := by
  rcases h with rfl | ⟨c, item, h⟩
  · exact ⟨rfl, original, hget, fun _ _ _ => rfl⟩
  · obtain ⟨hprepare, hput⟩ := (storesAlone_iff hm hget hcomplete).mp h
    obtain ⟨-, hpartition, hsort, hsame⟩ := keeps_of_prepareUpdate hm hget hcomplete hprepare
    obtain ⟨t, t', -, -, rfl⟩ := run_putItem_eq_ok_iff.mp hput
    exact ⟨rfl, item, (run_putItem_of_put hget hpartition hsort hpartition hsort hput).1, hsame⟩

/-- Wherever updates have led, an item that an update has made is put as it would have been alone. -/
theorem LeftAlone.run_putItem (h : db.LeftAlone m sort s₀ s)
    (hprepare : ExceptT.run (db.prepareUpdate m sort c.params c.upsert) s₀ = (.ok item, s₀)) :
    (∃ u, ExceptT.run (db.putItem item) s = (.ok (), u)
        ∧ ExceptT.run (db.putItem item) s₀ = (.ok (), u))
      ∨ ∃ cause, ExceptT.run (db.putItem item) s = (.error cause, s)
        ∧ ExceptT.run (db.putItem item) s₀ = (.error cause, s₀) := by
  obtain ⟨-, hpartition, hsort, -⟩ := keeps_of_prepareUpdate hm hget hcomplete hprepare
  rcases h with rfl | ⟨c', item', h⟩
  · obtain ⟨-, t, -, ht, -⟩ := run_get_eq_ok_iff.mp hget
    rw [run_putItem_of_table ht]
    cases t.put item with
    | ok t' => exact Or.inl ⟨_, rfl, rfl⟩
    | error refusal => exact Or.inr ⟨_, rfl, rfl⟩
  · obtain ⟨hprepare', hput⟩ := (storesAlone_iff hm hget hcomplete).mp h
    obtain ⟨-, hpartition', hsort', -⟩ := keeps_of_prepareUpdate hm hget hcomplete hprepare'
    exact (run_putItem_of_put hget hpartition' hsort' hpartition hsort hput).2

end Database

/-! ## Steps and schedules -/

/-- The next step of an update that fits with its run alone leaves the session as it is, or puts the item
that the update would have put alone. -/
theorem Phase.run_next (hs : db.LeftAlone m sort s₀ s) {phase : Phase}
    (h : phase.Fits db m sort s₀ original c) :
    (∃ next, ExceptT.run (phase.next db m sort c) s = (.ok (next, []), s)
        ∧ next.Fits db m sort s₀ original c)
      ∨ (∃ item u, ExceptT.run (phase.next db m sort c) s = (.ok (.stored item, [c]), u)
        ∧ db.StoresAlone m sort s₀ c item u)
      ∨ ∃ cause, ExceptT.run (phase.next db m sort c) s = (.error cause, s)
        ∧ (Phase.failed cause).Fits db m sort s₀ original c := by
  obtain ⟨hdrawn, found, hfound, hsame⟩ := hs.found hm hget hcomplete
  cases phase with
  | called => exact Or.inl ⟨_, run_bind_of_ok hfound, found, rfl, hsame⟩
  | fetched existing =>
      -- the item may have been replaced since, but what an update makes of it is the same
      obtain ⟨item, rfl, hitem⟩ := h
      obtain ⟨result, hremake, hprepare⟩ :=
        Database.run_remake_of_same (c := c) hm hget hcomplete hdrawn hitem
      cases result with
      | ok made => exact Or.inl ⟨_, run_bind_of_ok hremake, hprepare⟩
      | error cause =>
          exact Or.inr (Or.inr ⟨cause, run_bind_of_error hremake, run_bind_of_error hprepare⟩)
  | made item =>
      rcases hs.run_putItem hm hget hcomplete h with ⟨u, hput, halone⟩ | ⟨cause, hput, halone⟩
      · exact Or.inr (Or.inl ⟨item, u, run_bind_of_ok hput,
          (Database.storesAlone_iff hm hget hcomplete).mpr ⟨h, halone⟩⟩)
      · refine Or.inr (Or.inr ⟨cause, run_bind_of_error hput, ?_⟩)
        show ExceptT.run (db.update m sort c.params c.upsert) s₀ = (.error cause, s₀)
        rw [Database.update, run_bind_of_ok h, run_bind_of_error halone]
  | stored item => exact Or.inl ⟨_, rfl, h⟩
  | failed cause => exact Or.inl ⟨_, rfl, h⟩

namespace Updates

omit hm hget hcomplete in
theorem fits_start (calls : List UpdateCall) :
    (start s₀ calls).Fits db m sort s₀ original := by
  refine ⟨fun c phase hmem => ?_, fun _ => rfl, fun c rest hputs => nomatch hputs⟩
  obtain ⟨c', -, heq⟩ := List.mem_map.mp hmem
  cases heq
  exact trivial

variable {u : Updates}

omit hm hget hcomplete in
theorem Fits.leftAlone (h : u.Fits db m sort s₀ original) : db.LeftAlone m sort s₀ u.session := by
  cases hputs : u.puts with
  | nil => exact Or.inl (h.untouched hputs)
  | cons c rest =>
      obtain ⟨item, hitem⟩ := h.last c rest hputs
      exact Or.inr ⟨c, item, hitem⟩

omit hm hget hcomplete in
/-- A new phase of one update leaves the other updates as they are. -/
theorem Fits.set (h : u.Fits db m sort s₀ original) {phase : Phase}
    (hphase : phase.Fits db m sort s₀ original c) (i : Nat) :
    ∀ c' phase', (c', phase') ∈ u.calls.set i (c, phase) → phase'.Fits db m sort s₀ original c' := by
  intro c' phase' hmem
  rcases List.mem_or_eq_of_mem_set hmem with hmem | heq
  · exact h.calls c' phase' hmem
  · cases heq
    exact hphase

/-- Whichever update takes its next step, all of them still fit. -/
theorem Fits.advance (h : u.Fits db m sort s₀ original) (i : Nat) :
    (u.advance db m sort i).Fits db m sort s₀ original := by
  unfold Updates.advance
  cases hcall : u.calls[i]? with
  | none => exact h
  | some call =>
      obtain ⟨c, phase⟩ := call
      have hphase := h.calls c phase (List.mem_of_getElem? hcall)
      -- nothing happens but for the phase of this update, or its item is put
      rcases Phase.run_next hm hget hcomplete h.leftAlone hphase with
        ⟨next, hnext, hfits⟩ | ⟨item, s, hnext, halone⟩ | ⟨cause, hnext, hfits⟩
      · simp only [hnext]
        exact ⟨h.set hfits i, h.untouched, h.last⟩
      · have hstored : (Phase.stored item).Fits db m sort s₀ original c := ⟨s, halone⟩
        simp only [hnext]
        refine ⟨h.set hstored i, nofun, fun c' rest hputs => ?_⟩
        cases hputs
        exact ⟨item, halone⟩
      · simp only [hnext]
        exact ⟨h.set hfits i, h.untouched, h.last⟩

theorem Fits.run (h : u.Fits db m sort s₀ original) (schedule : List Nat) :
    (u.run db m sort schedule).Fits db m sort s₀ original := by
  induction schedule generalizing u with
  | nil => exact h
  | cons i schedule ih => exact ih (h.advance hm hget hcomplete i)

end Updates

end

/-- Any number of updates of a stored item that has all generated and required fields of its model take
their steps in any order. At every moment no id has been drawn, and the item that is found has the original
generated and required values. As long as no update has put its item nothing has changed; from then on the
session is the one that the last update to put its item leaves behind when it runs alone on the original
item, and its item is found. An update that has ended has stored the same or failed alike as alone. -/
theorem Database.interleaved_updates {db : Database} {m : BoundModel} {name : String}
    {fields : List Field} (hbuild : Model.build name fields = .ok m.model) {sort : AttributeValue}
    {s₀ : Session MemoryStore} {original : Item}
    (hget : ExceptT.run (db.getItem m sort) s₀ = (.ok (some original), s₀))
    (hcomplete : ∀ f ∈ m.model.fields, f.kind.isComputed = false →
      (original.get? f.name).isSome = true)
    (calls : List UpdateCall) (schedule : List Nat) {u : Updates}
    (hu : (Updates.start s₀ calls).run db m sort schedule = u) :
    u.session.drawn = s₀.drawn
      ∧ (∃ item, ExceptT.run (db.getItem m sort) u.session = (.ok (some item), u.session)
          ∧ m.model.SameSupplied item original)
      ∧ (u.puts = [] → u.session = s₀)
      ∧ (∀ c rest, u.puts = c :: rest → ∃ item,
          ExceptT.run (db.update m sort c.params c.upsert) s₀ = (.ok item, u.session)
          ∧ ExceptT.run (db.getItem m sort) u.session = (.ok (some item), u.session))
      ∧ (∀ c item, (c, Phase.stored item) ∈ u.calls →
          (ExceptT.run (db.update m sort c.params c.upsert) s₀).1 = .ok item)
      ∧ (∀ c cause, (c, Phase.failed cause) ∈ u.calls →
          ExceptT.run (db.update m sort c.params c.upsert) s₀ = (.error cause, s₀)) := by
  have hm : m.model.WellFormed := (Model.build_eq_ok_iff.mp hbuild).2
  have hfits : u.Fits db m sort s₀ original := by
    rw [← hu]
    exact (Updates.fits_start calls).run hm hget hcomplete schedule
  obtain ⟨hdrawn, hfound⟩ := hfits.leftAlone.found hm hget hcomplete
  refine ⟨hdrawn, hfound, hfits.untouched, fun c rest hputs => ?_, fun c item hmem => ?_,
    fun c cause hmem => hfits.calls c _ hmem⟩
  · obtain ⟨item, halone⟩ := hfits.last c rest hputs
    obtain ⟨hprepare, hput⟩ := (storesAlone_iff hm hget hcomplete).mp halone
    obtain ⟨-, hpartition, hsort, -⟩ := keeps_of_prepareUpdate hm hget hcomplete hprepare
    exact ⟨item, halone,
      (run_putItem_of_put hget hpartition hsort hpartition hsort hput).1⟩
  · obtain ⟨s, halone⟩ := hfits.calls c _ hmem
    exact congrArg Prod.fst halone

/-! ## A guest book -/

/-- A guest book of visits. -/
def guestBook : Database where
  config := { name := "guestBook" }
  schema := { models := [visit] }
  ids := fun n => "v" ++ toString n

/-- The model of visits, bound to the guest book. -/
def visits : BoundModel := ⟨visit, .string "visits"⟩

/-- The session in which Ada's visit on a monday has been entered as the first one. -/
def entered : Session MemoryStore :=
  (Session.after { store := {} } guestBook.createTable).after
    (guestBook.create visits (Dict.ofList [("day", .string "monday"), ("guest", .string "ada")]))

/-- The first visit as it is entered, on whatever day. -/
def firstVisit (day : String) : Item := Dict.ofList [
  ("number", .string "v0"), ("guest", .string "ada"), ("pk", .string "visits"), ("sk", .string "v0"),
  ("record", .map [("day", .string day), ("guest", .string "ada"), ("number", .string "v0")])]

/-- The visit is moved to another day. -/
def moved (day : String) : UpdateCall := ⟨Dict.ofList [("day", .string day)], false⟩

/-- Two updates read the visit before either of them writes it. The one that writes last wins, as if the
other one had never been. -/
theorem firstVisit_movedTwice :
    Model.build visit.name visit.fields = .ok visit
      ∧ ExceptT.run (guestBook.getItem visits (.string "v0")) entered
          = (.ok (some (firstVisit "monday")), entered)
      ∧ (∀ f ∈ visit.fields, f.kind.isComputed = false →
          ((firstVisit "monday").get? f.name).isSome = true)
      ∧ ∃ u, (Updates.start entered [moved "friday", moved "sunday"]).run guestBook visits
            (.string "v0") [0, 1, 0, 1, 1, 0] = u
        ∧ u.puts = [moved "friday", moved "sunday"]
        ∧ ExceptT.run (guestBook.update visits (.string "v0") (moved "friday").params false) entered
          = (.ok (firstVisit "friday"), u.session)
        ∧ ExceptT.run (guestBook.getItem visits (.string "v0")) u.session
          = (.ok (some (firstVisit "friday")), u.session) := by
  have hbuild : Model.build visit.name visit.fields = .ok visit := rfl
  have hget : ExceptT.run (guestBook.getItem visits (.string "v0")) entered
      = (.ok (some (firstVisit "monday")), entered) := rfl
  have hcomplete : ∀ f ∈ visit.fields, f.kind.isComputed = false →
      ((firstVisit "monday").get? f.name).isSome = true := by
    intro f hf _
    simp only [visit, List.mem_cons, List.not_mem_nil, or_false] at hf
    rcases hf with rfl | rfl | rfl | rfl | rfl <;> rfl
  obtain ⟨u, hu⟩ : ∃ u, (Updates.start entered [moved "friday", moved "sunday"]).run guestBook visits
      (.string "v0") [0, 1, 0, 1, 1, 0] = u := ⟨_, rfl⟩
  have hputs : u.puts = [moved "friday", moved "sunday"] := by
    rw [← hu]
    rfl
  obtain ⟨-, -, -, hlast, -⟩ :=
    Database.interleaved_updates (m := visits) hbuild hget hcomplete _ _ hu
  obtain ⟨item, halone, hfound⟩ := hlast _ _ hputs
  have hitem : (ExceptT.run (guestBook.update visits (.string "v0") (moved "friday").params false)
      entered).1 = .ok (firstVisit "friday") := rfl
  obtain rfl : item = firstVisit "friday" :=
    Except.ok.inj ((congrArg Prod.fst halone).symm.trans hitem)
  exact ⟨hbuild, hget, hcomplete, u, hu, hputs, halone, hfound⟩

end SingleTable
