import SingleTable.Proofs.Sessions

set_option autoImplicit false

/-!
# The calls of a bound model

What is known when one of the calls of a bound model has answered or failed: an item that is written has
been made first, then the table has taken it (`run_create_eq_ok_iff`, `run_update_eq_ok_iff`). A call that
fails leaves the store as it is (`ModelWrite.keepsStoreOnError`).
-/

namespace SingleTable

/-! ## Writes of a bound model -/

/-- A write of a bound model. -/
inductive ModelWrite where
  | create (params : Params)
  | createMany (params : List Params)
  | update (sort : AttributeValue) (params : Params) (upsert : Bool)
  | delete (sort : AttributeValue)

namespace ModelWrite

/-- Make a write, which returns the items that it has written. -/
def run {σ : Type} [Store σ] (db : Database) (m : BoundModel) : ModelWrite → SessionM σ (List Item)
  | .create params => do return [← db.create m params]
  | .createMany params => db.createMany m params
  | .update sort params upsert => do return [← db.update m sort params upsert]
  | .delete sort => do
      db.deleteItem m sort
      return []

/-- The write as one in a session. -/
def call (db : Database) (m : BoundModel) : ModelWrite → SessionCall
  | .create params => .create db m params
  | .createMany params => .createMany db m params
  | .update sort params upsert => .update db m sort params upsert
  | .delete sort => .delete db m sort

theorem after_call (db : Database) (m : BoundModel) (w : ModelWrite) (s : Session MemoryStore) :
    (w.call db m).after s = s.after (w.run db m) := by
  cases w with
  | createMany params => rfl
  | create params => exact (snd_run_bind_pure (db.create m params) (fun item => [item]) s).symm
  | update sort params upsert =>
      exact (snd_run_bind_pure (db.update m sort params upsert) (fun item => [item]) s).symm
  | delete sort => exact (snd_run_bind_pure (db.deleteItem m sort) (fun _ => []) s).symm

end ModelWrite

/-! ## Single calls -/

namespace MemoryStore

variable {name : String} {change : StoredTable → Except Refusal StoredTable}

theorem setTable_eq_ok_iff {s s' : MemoryStore} :
    (do
      let t ← s.table name
      return s.setTable name (← change t)) = .ok s'
      ↔ ∃ t t', s.tables.get? name = some t ∧ change t = .ok t' ∧ s' = s.setTable name t' := by
  simp only [bind_eq_ok_iff, table_eq_ok_iff, pure_eq_ok_iff, eq_comm (a := s'), exists_and_left]

/-- A session can change a table if there is the table, and it takes the change. -/
theorem run_setTable_eq_ok_iff {s s' : Session MemoryStore} :
    ExceptT.run (SessionM.ofStore (writing fun store => Except.map (((), ·)) (do
      let t ← store.table name
      return store.setTable name (← change t)))) s = (.ok (), s')
      ↔ ∃ t t', s.store.tables.get? name = some t ∧ change t = .ok t'
        ∧ s' = { s with store := s.store.setTable name t' } := by
  refine run_ofStore_writing_eq_ok_iff.trans ?_
  simp only [map_eq_ok_iff, setTable_eq_ok_iff, Prod.mk.injEq, true_and]
  constructor
  · rintro ⟨_, ⟨_, ⟨t, t', ht, hchange, rfl⟩, rfl⟩, rfl⟩
    exact ⟨t, t', ht, hchange, rfl⟩
  · rintro ⟨t, t', ht, hchange, rfl⟩
    exact ⟨_, ⟨_, ⟨t, t', ht, hchange, rfl⟩, rfl⟩, rfl⟩

end MemoryStore

namespace Database

/-- A key has a partition value, a sort value and nothing else. -/
@[simp] theorem get?_keyItem (partition sort : AttributeValue) (n : String) :
    (keyItem partition sort).get? n
      = if n = sortKeyName then some sort else if n = partitionKeyName then some partition
        else none := by
  rw [keyItem, Dict.get?_ofList]
  simp only [List.reverse_cons, List.reverse_nil, List.nil_append, List.cons_append,
    lookup_cons_eq_ite, List.lookup_nil]

theorem size_keyItem (partition sort : AttributeValue) : (keyItem partition sort).size = 2 := by
  have hlt : ¬ sortKeyName < partitionKeyName := by decide
  have hne : ¬ sortKeyName = partitionKeyName := by decide
  show (sortEntries [(partitionKeyName, partition), (sortKeyName, sort)]).length = 2
  rw [sortEntries, List.foldl_cons, List.foldl_cons, List.foldl_nil, insertEntry, insertEntry,
    if_neg hlt, if_neg hne]
  rfl

variable {db : Database} {s s' : Session MemoryStore}

/-- Fetching an item asks the store for its key. -/
theorem run_get (db : Database) (partition sort : AttributeValue) (s : Session MemoryStore) :
    ExceptT.run (db.get partition sort) s
      = (((s.store.get ⟨db.config.name, keyItem partition sort⟩).map GetReply.item).mapError
          (fun e => .store e.toStoreError), s) := by
  have hstore : ExceptT.run (Store.get ⟨db.config.name, keyItem partition sort⟩) s.store
      = ((s.store.get ⟨db.config.name, keyItem partition sort⟩).mapError Refusal.toStoreError,
        s.store) := MemoryStore.reading_eq (·.get ⟨db.config.name, keyItem partition sort⟩) s.store
  have hcall := run_ofStore (s := s) hstore
  rw [get]
  cases hget : s.store.get ⟨db.config.name, keyItem partition sort⟩ with
  | ok reply =>
      rw [hget] at hcall
      rw [run_bind_of_ok hcall]
      rfl
  | error e =>
      rw [hget] at hcall
      rw [run_bind_of_error hcall]
      rfl

theorem run_get_of_table {t : StoredTable} (ht : s.store.tables.get? db.config.name = some t)
    (partition sort : AttributeValue) :
    ExceptT.run (db.get partition sort) s
      = ((t.get (keyItem partition sort)).mapError (fun e => .store e.toStoreError), s) := by
  rw [run_get, MemoryStore.get, MemoryStore.table_eq_ok_iff.mpr ht]
  show (((t.get (keyItem partition sort) >>= fun item => pure (GetReply.mk item)).map
    GetReply.item).mapError _, s) = _
  cases t.get (keyItem partition sort) <;> rfl

/-- What is found under a key is what the table has under it. -/
theorem run_get_eq_ok_iff {partition sort : AttributeValue} {found : Option Item} :
    ExceptT.run (db.get partition sort) s = (.ok found, s')
      ↔ s' = s ∧ ∃ t key, s.store.tables.get? db.config.name = some t
        ∧ t.exactKey (keyItem partition sort) = .ok key ∧ found = t.storage.get? key := by
  cases ht : s.store.tables.get? db.config.name with
  | none =>
      have hget : s.store.get ⟨db.config.name, keyItem partition sort⟩
          = .error (.noTable db.config.name) := by
        rw [MemoryStore.get, MemoryStore.table, ht]
        rfl
      rw [run_get, hget]
      constructor
      · intro h
        cases h
      · rintro ⟨-, t, key, hnone, -⟩
        cases hnone
  | some t =>
      rw [run_get_of_table ht]
      constructor
      · intro h
        cases hget : t.get (keyItem partition sort) with
        | error e =>
            rw [hget] at h
            cases h
        | ok item =>
            rw [hget] at h
            cases h
            obtain ⟨key, hkey, hfound⟩ := StoredTable.get_eq_ok_iff.mp hget
            exact ⟨rfl, t, key, rfl, hkey, hfound⟩
      · rintro ⟨rfl, u, key, hu, hkey, hfound⟩
        obtain rfl : t = u := Option.some.inj hu
        rw [StoredTable.get_eq_ok_iff.mpr ⟨key, hkey, hfound⟩]
        rfl

theorem run_get_eq_error {partition sort : AttributeValue} {e : DatabaseError}
    (h : ExceptT.run (db.get partition sort) s = (.error e, s')) : ∃ cause, e = .store cause := by
  rw [run_get] at h
  cases hget : s.store.get ⟨db.config.name, keyItem partition sort⟩ with
  | ok reply =>
      rw [hget] at h
      cases h
  | error refusal =>
      rw [hget] at h
      cases h
      exact ⟨_, rfl⟩

/-- An item that has been stored has been taken by the table. -/
theorem run_putItem_eq_ok_iff {item : Item} :
    ExceptT.run (db.putItem item) s = (.ok (), s')
      ↔ ∃ t t', s.store.tables.get? db.config.name = some t ∧ t.put item = .ok t'
        ∧ s' = { s with store := s.store.setTable db.config.name t' } :=
  MemoryStore.run_setTable_eq_ok_iff

/-- A key that has been deleted has been taken by the table. -/
theorem run_deleteItem_eq_ok_iff {m : BoundModel} {sort : AttributeValue} :
    ExceptT.run (db.deleteItem m sort) s = (.ok (), s')
      ↔ ∃ t t', s.store.tables.get? db.config.name = some t
        ∧ t.delete (keyItem m.partition sort) = .ok t'
        ∧ s' = { s with store := s.store.setTable db.config.name t' } :=
  MemoryStore.run_setTable_eq_ok_iff

/-! ## The writes of a model -/

variable {m : BoundModel}

/-- An item that is created has been made by the model, and then the table has taken it. -/
theorem run_create_eq_ok_iff {params : Params} {item : Item} :
    ExceptT.run (db.create m params) s = (.ok item, s')
      ↔ ∃ drawn, ExceptT.run (m.model.materialize db.ids params none) s.drawn = (.ok item, drawn)
        ∧ ExceptT.run (db.putItem item) { s with drawn } = (.ok (), s') := by
  rw [create, run_bind_eq_ok_iff]
  constructor
  · rintro ⟨made, u, hmake, h⟩
    obtain ⟨drawn, hmade, rfl⟩ := run_ofDrawing_eq_ok_iff.mp hmake
    obtain ⟨_, v, hput, hitem⟩ := run_bind_eq_ok_iff.mp h
    cases hitem
    exact ⟨drawn, hmade, hput⟩
  · rintro ⟨drawn, hmade, hput⟩
    exact ⟨item, _, run_ofDrawing_eq_ok_iff.mpr ⟨drawn, hmade, rfl⟩,
      run_bind_eq_ok_iff.mpr ⟨(), s', hput, rfl⟩⟩

/-- A batch of items has been stored if there are 1 to 25 of them and the store takes them one after the
other. -/
theorem run_batchItems_eq_ok_iff {items : List Item} :
    ExceptT.run (discard (SessionM.ofStore (Store.batchWrite
        ⟨Dict.ofList [(db.config.name, items.map WriteRequest.ofItem)]⟩))) s = (.ok (), s')
      ↔ (1 ≤ items.length ∧ items.length ≤ 25)
        ∧ s.store.putOneByOne db.config.name items = .ok s'.store ∧ s'.drawn = s.drawn := by
  rw [run_discard_eq_ok_iff]
  constructor
  · rintro ⟨reply, h⟩
    obtain ⟨store, hbatch, rfl⟩ := run_ofStore_writing_eq_ok_iff.mp h
    obtain rfl : reply = {} := (MemoryStore.written_of_batchWrite hbatch).1
    obtain ⟨hsize, hput⟩ := MemoryStore.batchWrite_ofItems_eq_ok_iff.mp hbatch
    exact ⟨hsize, hput, rfl⟩
  · rintro ⟨hsize, hput, hdrawn⟩
    refine ⟨{}, run_ofStore_writing_eq_ok_iff.mpr
      ⟨s'.store, MemoryStore.batchWrite_ofItems_eq_ok_iff.mpr ⟨hsize, hput⟩, ?_⟩⟩
    rw [← hdrawn]

/-- Items that are created together have all been made first, and then the store has taken them, which are
at most 25. -/
theorem run_createMany_eq_ok_iff {params : List Params} {items : List Item} :
    ExceptT.run (db.createMany m params) s = (.ok items, s')
      ↔ ExceptT.run (params.mapM (fun p => m.model.materialize db.ids p none)) s.drawn
            = (.ok items, s'.drawn)
        ∧ items.length ≤ 25 ∧ s.store.putOneByOne db.config.name items = .ok s'.store := by
  rw [createMany, run_bind_eq_ok_iff]
  constructor
  · rintro ⟨made, u, hmake, h⟩
    obtain ⟨drawn, hmade, rfl⟩ := run_ofDrawing_eq_ok_iff.mp hmake
    cases made with
    | nil =>
        cases h
        exact ⟨hmade, by simp, rfl⟩
    | cons item made =>
        obtain ⟨_, v, hbatch, hitems⟩ := run_bind_eq_ok_iff.mp h
        cases hitems
        obtain ⟨hsize, hput, hdrawn⟩ := run_batchItems_eq_ok_iff.mp hbatch
        exact ⟨hdrawn ▸ hmade, hsize.2, hput⟩
  · rintro ⟨hmade, hlen, hput⟩
    obtain ⟨store, drawn⟩ := s'
    refine ⟨items, _, run_ofDrawing_eq_ok_iff.mpr ⟨drawn, hmade, rfl⟩, ?_⟩
    cases items with
    | nil =>
        cases hput
        rfl
    | cons item items =>
        exact run_bind_eq_ok_iff.mpr
          ⟨(), _, run_batchItems_eq_ok_iff.mpr ⟨⟨by simp, hlen⟩, hput, rfl⟩, rfl⟩

/-- An update fails where there is no item and none is to be made; otherwise it makes the item that
replaces what is there. -/
theorem run_prepareUpdate_of_get {sort : AttributeValue} {params : Params} {upsert : Bool}
    {existing : Option Item} (hget : ExceptT.run (db.getItem m sort) s = (.ok existing, s)) :
    ExceptT.run (db.prepareUpdate m sort params upsert) s
      = if existing.isNone && !upsert then (.error (.itemNotFound m.model.name sort), s)
        else ExceptT.run (do
          let made ← SessionM.ofDrawing
            (m.model.materialize db.ids (params.erase sortKeyName) existing)
          return (made.insert sortKeyName sort).insert partitionKeyName m.partition) s := by
  rw [prepareUpdate, run_bind_of_ok hget]
  cases existing.isNone && !upsert <;> rfl

/-- Only the keys of an item are set. -/
theorem get?_insert_keys {n : String} (hn : Model.isKeyName n = false) (made : Item)
    (partition sort : AttributeValue) :
    ((made.insert sortKeyName sort).insert partitionKeyName partition).get? n = made.get? n := by
  rw [Model.isKeyName, Bool.or_eq_false_iff, beq_eq_false_iff_ne, beq_eq_false_iff_ne] at hn
  rw [Dict.get?_insert, if_neg hn.1, Dict.get?_insert, if_neg hn.2]

/-- The item that an update stores has been made from the item at the sort value, if there is one, and
has the keys of this place. -/
theorem run_prepareUpdate_eq_ok {sort : AttributeValue} {params : Params} {upsert : Bool}
    {item : Item} (h : ExceptT.run (db.prepareUpdate m sort params upsert) s = (.ok item, s')) :
    ∃ existing made drawn, ExceptT.run (db.getItem m sort) s = (.ok existing, s)
      ∧ ExceptT.run (m.model.materialize db.ids (params.erase sortKeyName) existing) s.drawn
        = (.ok made, drawn)
      ∧ item = (made.insert sortKeyName sort).insert partitionKeyName m.partition
      ∧ s' = { s with drawn } := by
  obtain ⟨existing, u, hget, -⟩ := run_bind_eq_ok_iff.mp h
  obtain rfl : u = s := (Prod.mk.inj (hget.symm.trans (run_get db m.partition sort s))).2
  rw [run_prepareUpdate_of_get hget] at h
  split at h
  · cases h
  · obtain ⟨made, v, hmade, hitem⟩ := run_bind_eq_ok_iff.mp h
    obtain ⟨drawn, hdrawn, rfl⟩ := run_ofDrawing_eq_ok_iff.mp hmade
    cases hitem
    exact ⟨existing, made, drawn, hget, hdrawn, rfl, rfl⟩

/-- An item that an update returns has been taken by the table. -/
theorem run_update_eq_ok_iff {sort : AttributeValue} {params : Params} {upsert : Bool}
    {item : Item} :
    ExceptT.run (db.update m sort params upsert) s = (.ok item, s')
      ↔ ∃ u, ExceptT.run (db.prepareUpdate m sort params upsert) s = (.ok item, u)
        ∧ ExceptT.run (db.putItem item) u = (.ok (), s') := by
  rw [update, run_bind_eq_ok_iff]
  constructor
  · rintro ⟨made, u, hmade, h⟩
    obtain ⟨_, v, hput, hitem⟩ := run_bind_eq_ok_iff.mp h
    cases hitem
    exact ⟨u, hmade, hput⟩
  · rintro ⟨u, hmade, hput⟩
    exact ⟨item, u, hmade, run_bind_eq_ok_iff.mpr ⟨(), s', hput, rfl⟩⟩

end Database

/-! ## Calls that fail -/

namespace SessionCall

/-- If the call fails then the store is as it was. -/
def KeepsStoreOnError {α : Type} (call : SessionM MemoryStore α) : Prop :=
  ∀ s e s', ExceptT.run call s = (.error e, s') → s'.store = s.store

variable {α β : Type}

theorem KeepsStore.onError {call : SessionM MemoryStore α} (h : KeepsStore call) :
    KeepsStoreOnError call :=
  fun _ _ _ hrun => h.store_eq hrun

/-- A call that writes last fails before it has written, or its last write fails. -/
theorem KeepsStore.bind_onError {x : SessionM MemoryStore α} {f : α → SessionM MemoryStore β}
    (hx : KeepsStore x) (hf : ∀ a, KeepsStoreOnError (f a)) : KeepsStoreOnError (x >>= f) := by
  intro s e s' h
  rcases run_bind_eq_error_iff.mp h with h | ⟨a, u, hu, h⟩
  · exact hx.store_eq h
  · exact (hf a u e s' h).trans (hx.store_eq hu)

theorem KeepsStoreOnError.bind_pure {x : SessionM MemoryStore α} (hx : KeepsStoreOnError x)
    (g : α → β) : KeepsStoreOnError (x >>= fun a => pure (g a)) := by
  intro s e s' h
  rcases run_bind_eq_error_iff.mp h with h | ⟨a, u, -, h⟩
  · exact hx s e s' h
  · cases h

theorem keepsStoreOnError_writing (write : MemoryStore → Except Refusal (α × MemoryStore)) :
    KeepsStoreOnError (.ofStore (MemoryStore.writing write)) := by
  intro s e s' h
  rw [(run_ofStore_writing_eq_error h).1]

end SessionCall

/-- A write of a bound model that fails leaves the store as it was. -/
theorem ModelWrite.keepsStoreOnError (db : Database) (m : BoundModel) (w : ModelWrite) :
    SessionCall.KeepsStoreOnError (w.run db m) := by
  have hput : ∀ item, SessionCall.KeepsStoreOnError (db.putItem item >>= fun _ => pure item) :=
    fun item => (SessionCall.keepsStoreOnError_writing _).bind_pure _
  cases w with
  | create params =>
      exact ((SessionCall.keepsStore_ofDrawing _).bind_onError hput).bind_pure _
  | update sort params upsert =>
      exact ((SessionCall.keepsStore_prepareUpdate db m sort params upsert).bind_onError
        hput).bind_pure _
  | delete sort => exact (SessionCall.keepsStoreOnError_writing _).bind_pure _
  | createMany params =>
      refine (SessionCall.keepsStore_ofDrawing _).bind_onError fun items => ?_
      cases items with
      | nil => exact (SessionCall.keepsStore_pure _).onError
      | cons item items =>
          have hbatch : SessionCall.KeepsStoreOnError (discard (SessionM.ofStore
              (Store.batchWrite ⟨Dict.ofList [(db.config.name,
                (item :: items).map WriteRequest.ofItem)]⟩ : StoreM MemoryStore BatchReply))) :=
            (SessionCall.keepsStoreOnError_writing _).bind_pure _
          exact hbatch.bind_pure _

end SingleTable
