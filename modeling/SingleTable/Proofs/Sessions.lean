import SingleTable.Database
import SingleTable.Proofs.Runs

set_option autoImplicit false

/-!
# Sessions over the memory store

Whatever is written in a session, through a database or directly to the store, changes the store by at
most one call (`SessionCall.store_after`). Hence a table that is not deleted keeps its declaration,
whatever is written in the session (`Session.Continued.table`), and stays sound where all that is written
is readable (`Session.Reached.table`).
-/

namespace SingleTable

/-! ## Calls in a session -/

/-- A call to the store in a session does to the store what it does there. -/
theorem run_ofStore {σ α : Type} {call : StoreM σ α} {s : Session σ} {result : Except StoreError α}
    {store : σ}
    (h : ExceptT.run call s.store = (result, store)) :
    ExceptT.run (SessionM.ofStore call) s = (result.mapError .store, { s with store }) := by
  have hrun : ExceptT.run (SessionM.ofStore call) s
      = ((ExceptT.run call s.store : Except StoreError α × σ).1.mapError .store,
        { s with store := (ExceptT.run call s.store : Except StoreError α × σ).2 }) := rfl
  rw [hrun, h]

/-- A computation that draws ids leaves the store alone. -/
theorem run_ofDrawing {σ α : Type} {make : Drawing α} {s : Session σ} {result : Except FieldError α}
    {drawn : Nat} (h : ExceptT.run make s.drawn = (result, drawn)) :
    ExceptT.run (SessionM.ofDrawing make) s = (result.mapError .field, { s with drawn }) := by
  have hrun : ExceptT.run (SessionM.ofDrawing make) s
      = ((ExceptT.run make s.drawn : Except FieldError α × Nat).1.mapError .field,
        { s with drawn := (ExceptT.run make s.drawn : Except FieldError α × Nat).2 }) := rfl
  rw [hrun, h]

section

variable {α : Type} {write : MemoryStore → Except Refusal (α × MemoryStore)}
  {s s' : Session MemoryStore}

theorem run_ofStore_writing_eq_ok_iff {a : α} :
    ExceptT.run (SessionM.ofStore (MemoryStore.writing write)) s = (.ok a, s')
      ↔ ∃ store, write s.store = .ok (a, store) ∧ s' = { s with store } := by
  obtain ⟨result, store, h⟩ : ∃ result store, MemoryStore.writing write s.store = (result, store) :=
    ⟨_, _, rfl⟩
  rw [run_ofStore (show ExceptT.run (MemoryStore.writing write) s.store = _ from h)]
  constructor
  · intro heq
    cases result with
    | error e => cases heq
    | ok b =>
        cases heq
        exact ⟨store, MemoryStore.writing_eq_ok_iff.mp h, rfl⟩
  · rintro ⟨_, hw, rfl⟩
    rw [MemoryStore.writing_eq_ok_iff.mpr hw] at h
    cases h
    rfl

theorem run_ofStore_writing_eq_error {e : DatabaseError}
    (h : ExceptT.run (SessionM.ofStore (MemoryStore.writing write)) s = (.error e, s')) :
    s' = s ∧ ∃ refusal, write s.store = .error refusal ∧ e = .store refusal.toStoreError := by
  obtain ⟨result, store, hw⟩ : ∃ result store, MemoryStore.writing write s.store = (result, store) :=
    ⟨_, _, rfl⟩
  rw [run_ofStore (show ExceptT.run (MemoryStore.writing write) s.store = _ from hw)] at h
  cases result with
  | ok a => cases h
  | error cause =>
      cases h
      obtain ⟨rfl, refusal, hrefusal, rfl⟩ := MemoryStore.writing_eq_error hw
      exact ⟨rfl, refusal, hrefusal, rfl⟩

theorem run_ofDrawing_eq_ok_iff {make : Drawing α} {a : α} :
    ExceptT.run (SessionM.ofDrawing make) s = (.ok a, s')
      ↔ ∃ drawn, ExceptT.run make s.drawn = (.ok a, drawn) ∧ s' = { s with drawn } := by
  obtain ⟨result, drawn, h⟩ : ∃ result drawn, ExceptT.run make s.drawn = (result, drawn) :=
    ⟨_, _, rfl⟩
  rw [run_ofDrawing h, h]
  cases result with
  | error e => exact ⟨nofun, fun ⟨_, hmade, _⟩ => nomatch hmade⟩
  | ok b =>
      constructor
      · intro heq
        cases heq
        exact ⟨drawn, rfl, rfl⟩
      · rintro ⟨_, hmade, rfl⟩
        cases hmade
        rfl

theorem run_ofDrawing_eq_error {make : Drawing α} {e : DatabaseError}
    (h : ExceptT.run (SessionM.ofDrawing make) s = (.error e, s')) : ∃ cause, e = .field cause := by
  obtain ⟨result, drawn, hmake⟩ : ∃ result drawn, ExceptT.run make s.drawn = (result, drawn) :=
    ⟨_, _, rfl⟩
  rw [run_ofDrawing hmake] at h
  cases result with
  | ok a => cases h
  | error cause =>
      cases h
      exact ⟨cause, rfl⟩

end

/-! ## Writes in a session -/

/-- A write in a session: a call to the store, or a write of a bound model of a database. -/
inductive SessionCall where
  | store (c : StoreCall)
  | create (db : Database) (m : BoundModel) (params : Params)
  | createMany (db : Database) (m : BoundModel) (params : List Params)
  | update (db : Database) (m : BoundModel) (sort : AttributeValue) (params : Params)
      (upsert : Bool)
  | delete (db : Database) (m : BoundModel) (sort : AttributeValue)

/-- The session after a call, whether it has answered or failed. -/
def Session.after {α : Type} (s : Session MemoryStore) (call : SessionM MemoryStore α) :
    Session MemoryStore :=
  (ExceptT.run call s : Except DatabaseError α × Session MemoryStore).2

namespace SessionCall

/-- The session after a write. -/
def after (s : Session MemoryStore) : SessionCall → Session MemoryStore
  | .store c => { s with store := c.after s.store }
  | .create db m params => s.after (db.create m params)
  | .createMany db m params => s.after (db.createMany m params)
  | .update db m sort params upsert => s.after (db.update m sort params upsert)
  | .delete db m sort => s.after (db.deleteItem m sort)

/-- The request that puts the item that a computation makes, if it makes one. -/
def putOf (db : Database) : Except DatabaseError Item → Option StoreCall
  | .ok item => some (.put ⟨db.config.name, item⟩)
  | .error _ => none

/-- The request that puts the items that a computation makes in one batch, if it makes any. -/
def batchOf (db : Database) : Except DatabaseError (List Item) → Option StoreCall
  | .ok [] => none
  | .ok items =>
      some (.batchWrite ⟨Dict.ofList [(db.config.name, items.map WriteRequest.ofItem)]⟩)
  | .error _ => none

theorem putOf_eq_some {db : Database} {made : Except DatabaseError Item} {r : StoreCall}
    (h : putOf db made = some r) : ∃ item, made = .ok item ∧ r = .put ⟨db.config.name, item⟩ := by
  cases made with
  | error e => cases h
  | ok item => exact ⟨item, rfl, (Option.some.inj h).symm⟩

theorem batchOf_eq_some {db : Database} {made : Except DatabaseError (List Item)} {r : StoreCall}
    (h : batchOf db made = some r) : ∃ items, made = .ok items
      ∧ r = .batchWrite ⟨Dict.ofList [(db.config.name, items.map WriteRequest.ofItem)]⟩ := by
  cases made with
  | error e => cases h
  | ok items =>
      cases items with
      | nil => cases h
      | cons item items => exact ⟨_, rfl, (Option.some.inj h).symm⟩

/-- The call by which a write changes the store, if it comes to one. -/
def request? (s : Session MemoryStore) : SessionCall → Option StoreCall
  | .store c => some c
  | .create db m params =>
      putOf db (ExceptT.run (SessionM.ofDrawing (m.model.materialize db.ids params none)) s).1
  | .createMany db m params =>
      batchOf db (ExceptT.run (SessionM.ofDrawing
        (params.mapM (fun p => m.model.materialize db.ids p none))) s).1
  | .update db m sort params upsert =>
      putOf db (ExceptT.run (db.prepareUpdate m sort params upsert) s).1
  | .delete db m sort =>
      some (.delete ⟨db.config.name, Database.keyItem m.partition sort⟩)

/-! ## What a write does to the store -/

theorem store_after_putItem (db : Database) (item : Item) (s : Session MemoryStore) :
    (s.after (db.putItem item)).store
      = (StoreCall.put ⟨db.config.name, item⟩).after s.store :=
  (snd_run_bind_pure (Store.put ⟨db.config.name, item⟩) (fun _ => StoreAnswer.done)
    s.store).symm

theorem store_after_deleteItem (db : Database) (m : BoundModel) (sort : AttributeValue)
    (s : Session MemoryStore) :
    (s.after (db.deleteItem m sort)).store
      = (StoreCall.delete ⟨db.config.name, Database.keyItem m.partition sort⟩).after s.store :=
  (snd_run_bind_pure (Store.delete ⟨db.config.name, Database.keyItem m.partition sort⟩)
    (fun _ => StoreAnswer.done) s.store).symm

/-- The call leaves the store as it is. -/
def KeepsStore {α : Type} (call : SessionM MemoryStore α) : Prop :=
  ∀ s, (Session.after s call).store = s.store

theorem KeepsStore.store_eq {α : Type} {call : SessionM MemoryStore α} (h : KeepsStore call)
    {s s' : Session MemoryStore} {result : Except DatabaseError α}
    (hrun : ExceptT.run call s = (result, s')) : s'.store = s.store := by
  have hs := h s
  rw [Session.after, hrun] at hs
  exact hs

theorem keepsStore_pure {α : Type} (a : α) : KeepsStore (pure a) := fun _ => rfl

theorem keepsStore_throw {α : Type} (e : DatabaseError) : KeepsStore (throw e : SessionM _ α) :=
  fun _ => rfl

theorem keepsStore_ofDrawing {α : Type} (make : Drawing α) : KeepsStore (.ofDrawing make) :=
  fun _ => rfl

theorem KeepsStore.bind {α β : Type} {x : SessionM MemoryStore α} {f : α → SessionM MemoryStore β}
    (hx : KeepsStore x) (hf : ∀ a, KeepsStore (f a)) : KeepsStore (x >>= f) := by
  intro s
  obtain ⟨result, s', h⟩ : ∃ result s', ExceptT.run x s = (result, s') := ⟨_, _, rfl⟩
  have hs' := hx.store_eq h
  cases result with
  | ok a =>
      rw [Session.after, run_bind_of_ok h, ← hs']
      exact hf a s'
  | error e =>
      rw [Session.after, run_bind_of_error h]
      exact hs'

theorem keepsStore_get (db : Database) (partition sort : AttributeValue) :
    KeepsStore (db.get partition sort) := by
  have hget : KeepsStore (SessionM.ofStore
      (Store.get ⟨db.config.name, Database.keyItem partition sort⟩)) := by
    intro s
    show (MemoryStore.reading (·.get _) s.store).2 = s.store
    rw [MemoryStore.reading_eq]
  exact hget.bind (fun reply => keepsStore_pure _)

/-- Fetching an item and making the one that replaces it leaves the store as it is. -/
theorem keepsStore_prepareUpdate (db : Database) (m : BoundModel) (sort : AttributeValue)
    (params : Params) (upsert : Bool) : KeepsStore (db.prepareUpdate m sort params upsert) := by
  refine (keepsStore_get db m.partition sort).bind (fun existing => ?_)
  have hmake := (keepsStore_ofDrawing (m.model.materialize db.ids (params.erase sortKeyName)
    existing)).bind (fun item => keepsStore_pure
      ((item.insert sortKeyName sort).insert partitionKeyName m.partition))
  show KeepsStore (if _ then _ else _)
  split
  · exact (keepsStore_throw _).bind (fun _ => hmake)
  · exact hmake

/-- Making items and then writing them changes the store by the request that writes them. -/
theorem store_after_bind {α β : Type} {make : SessionM MemoryStore α} (hmake : KeepsStore make)
    {write : α → SessionM MemoryStore β} {request : Except DatabaseError α → Option StoreCall}
    (hwrite : ∀ a s, (Session.after s (write a)).store
      = (request (.ok a)).elim s.store (fun c => c.after s.store))
    (herror : ∀ e, request (.error e) = none) (s : Session MemoryStore) :
    (s.after (make >>= write)).store
      = (request (ExceptT.run make s).1).elim s.store (fun c => c.after s.store) := by
  obtain ⟨result, s', h⟩ : ∃ result s', ExceptT.run make s = (result, s') := ⟨_, _, rfl⟩
  have hs' := hmake.store_eq h
  rw [Session.after, h]
  -- the items are made from the session, and written to the store that is still the same
  cases result with
  | ok a =>
      rw [run_bind_of_ok h, ← hs']
      exact hwrite a s'
  | error e =>
      rw [run_bind_of_error h, herror]
      exact hs'

theorem store_after_put_return (db : Database) (item : Item) (s : Session MemoryStore) :
    (s.after (db.putItem item >>= fun _ => pure item)).store
      = (putOf db (.ok item)).elim s.store (fun c => c.after s.store) := by
  rw [Session.after, snd_run_bind_pure]
  exact store_after_putItem db item s

theorem store_after_batch_return (db : Database) (items : List Item) (s : Session MemoryStore) :
    (s.after (if items.isEmpty then pure items else
      discard (SessionM.ofStore (Store.batchWrite
        ⟨Dict.ofList [(db.config.name, items.map WriteRequest.ofItem)]⟩)) >>= fun _ =>
      pure items)).store
      = (batchOf db (.ok items)).elim s.store (fun c => c.after s.store) := by
  cases items with
  | nil => rfl
  | cons item items =>
      show (Session.after s (_ >>= fun _ => pure (item :: items))).store = _
      rw [Session.after, snd_run_bind_pure, snd_run_discard]
      exact (snd_run_bind_pure (Store.batchWrite _) StoreAnswer.batch s.store).symm

/-- A write in a session changes the store by its request, if it comes to one. -/
theorem store_after (c : SessionCall) (s : Session MemoryStore) :
    (c.after s).store = (c.request? s).elim s.store (fun r => r.after s.store) := by
  cases c with
  | store c => rfl
  | create db m params =>
      exact store_after_bind (keepsStore_ofDrawing _) (store_after_put_return db) (fun _ => rfl) s
  | createMany db m params =>
      exact store_after_bind (keepsStore_ofDrawing _) (store_after_batch_return db) (fun _ => rfl) s
  | update db m sort params upsert =>
      exact store_after_bind (keepsStore_prepareUpdate db m sort params upsert)
        (store_after_put_return db) (fun _ => rfl) s
  | delete db m sort => exact store_after_deleteItem db m sort s

/-- The write does not delete the table of the name. -/
def Keeps (n : String) (c : SessionCall) : Prop := ∀ r, c = .store (.deleteTable r) → r.table ≠ n

/-- The request that the write comes to is readable where it is made. -/
def Readable (s : Session MemoryStore) (c : SessionCall) : Prop :=
  ∀ r, c.request? s = some r → r.Readable s.store

theorem Keeps.request {n : String} {c : SessionCall} (h : c.Keeps n) {s : Session MemoryStore}
    {r : TableRequest} (hr : c.request? s = some (.deleteTable r)) : r.table ≠ n := by
  cases c with
  | store c =>
      cases hr
      exact h r rfl
  | create db m params =>
      obtain ⟨_, -, hput⟩ := putOf_eq_some hr
      cases hput
  | createMany db m params =>
      obtain ⟨_, -, hbatch⟩ := batchOf_eq_some hr
      cases hbatch
  | update db m sort params upsert =>
      obtain ⟨_, -, hput⟩ := putOf_eq_some hr
      cases hput
  | delete db m sort => cases hr

end SessionCall

/-! ## One table of the store -/

/-- What holds of a table that a call does not delete, and is kept by the writes that the call holds for
it, holds after the call. -/
theorem StoreCall.table_after_of {P : StoredTable → Prop} {c : StoreCall} {s : MemoryStore}
    {n : String} {t : StoredTable} (ht : s.tables.get? n = some t) (hP : P t)
    (hkeep : ∀ r, c = .deleteTable r → r.table ≠ n)
    (hwrite : ∀ e ∈ c.writes, e.1 = n → ∀ t', e.2.foldlM StoredTable.write t = .ok t' → P t') :
    ∃ t', (c.after s).tables.get? n = some t' ∧ P t' := by
  cases hc : c.attempt s with
  | error e =>
      rw [after_of_error hc]
      exact ⟨t, ht, hP⟩
  | ok as =>
      obtain ⟨a, s'⟩ := as
      rw [after_of_ok hc]
      rcases attempt_cases hc with ⟨r, fresh, rfl, -, hnew, rfl⟩ | ⟨r, rfl, rfl⟩ | ⟨-, hcan, hw⟩
      · have hne : n ≠ r.table := by
          rintro rfl
          rw [ht] at hnew
          cases hnew
        rw [MemoryStore.get?_setTable, if_neg hne]
        exact ⟨t, ht, hP⟩
      · rw [Dict.get?_erase, if_neg (hkeep r rfl).symm]
        exact ⟨t, ht, hP⟩
      · by_cases hn : n ∈ c.writes.map Prod.fst
        · obtain ⟨e, he, rfl⟩ := List.mem_map.mp hn
          obtain ⟨u, u', hu, hu'⟩ := hcan e he
          obtain rfl : t = u := Option.some.inj (ht.symm.trans hu)
          exact ⟨u', hw.named e he t u' ht hu', hwrite e he rfl u' hu'⟩
        · rw [hw.others n hn]
          exact ⟨t, ht, hP⟩

theorem SessionCall.table_after_of {P : StoredTable → Prop} {c : SessionCall}
    {s : Session MemoryStore} {n : String} {t : StoredTable}
    (ht : s.store.tables.get? n = some t) (hP : P t) (hkeep : c.Keeps n)
    (hwrite : ∀ r, c.request? s = some r → ∀ e ∈ r.writes, e.1 = n →
      ∀ t', e.2.foldlM StoredTable.write t = .ok t' → P t') :
    ∃ t', (c.after s).store.tables.get? n = some t' ∧ P t' := by
  rw [c.store_after s]
  cases hreq : c.request? s with
  | none => exact ⟨t, ht, hP⟩
  | some r =>
      refine StoreCall.table_after_of ht hP ?_ (hwrite r hreq)
      rintro d rfl
      exact hkeep.request hreq

/-- A sound table that a write does not delete stays sound and keeps its declaration. -/
theorem SessionCall.table_after {c : SessionCall} {s : Session MemoryStore} {n : String}
    {t : StoredTable} (ht : s.store.tables.get? n = some t) (hsound : t.Sound) (hkeep : c.Keeps n)
    (hr : c.Readable s) :
    ∃ t', (c.after s).store.tables.get? n = some t' ∧ t'.Sound
      ∧ StoredTable.SameDeclaration t t' := by
  refine table_after_of (P := fun t' => t'.Sound ∧ StoredTable.SameDeclaration t t') ht
    ⟨hsound, .refl t⟩ hkeep ?_
  rintro r hreq e he rfl t' ht'
  exact ⟨hsound.foldlM_write (hr r hreq e he t ht) ht', StoredTable.sameDeclaration_foldlM_write ht'⟩

namespace Session

/-- The second session is reached from the first by writes that are readable where they are made, none
of which deletes the table of the name. -/
inductive Reached (n : String) (s : Session MemoryStore) : Session MemoryStore → Prop
  | start : Reached n s s
  | write {u : Session MemoryStore} (h : Reached n s u) (c : SessionCall) (hkeep : c.Keeps n)
      (hr : c.Readable u) : Reached n s (c.after u)

/-- A sound table stays sound and keeps its declaration. -/
theorem Reached.table {n : String} {s s' : Session MemoryStore} (h : Reached n s s')
    {t : StoredTable} (ht : s.store.tables.get? n = some t) (hsound : t.Sound) :
    ∃ t', s'.store.tables.get? n = some t' ∧ t'.Sound ∧ StoredTable.SameDeclaration t t' := by
  induction h with
  | start => exact ⟨t, ht, hsound, .refl t⟩
  | write h c hkeep hr ih =>
      obtain ⟨t₁, ht₁, hsound₁, hsame₁⟩ := ih
      obtain ⟨t₂, ht₂, hsound₂, hsame₂⟩ := SessionCall.table_after ht₁ hsound₁ hkeep hr
      exact ⟨t₂, ht₂, hsound₂, hsame₁.trans hsame₂⟩

/-- The second session is reached from the first by any writes, none of which deletes the table of the
name. -/
inductive Continued (n : String) (s : Session MemoryStore) : Session MemoryStore → Prop
  | start : Continued n s s
  | write {u : Session MemoryStore} (h : Continued n s u) (c : SessionCall) (hkeep : c.Keeps n) :
      Continued n s (c.after u)

/-- A table keeps its declaration, whatever is written. -/
theorem Continued.table {n : String} {s s' : Session MemoryStore} (h : Continued n s s')
    {t : StoredTable} (ht : s.store.tables.get? n = some t) :
    ∃ t', s'.store.tables.get? n = some t' ∧ StoredTable.SameDeclaration t t' := by
  induction h with
  | start => exact ⟨t, ht, .refl t⟩
  | write h c hkeep ih =>
      obtain ⟨t₁, ht₁, hsame₁⟩ := ih
      refine SessionCall.table_after_of ht₁ hsame₁ hkeep ?_
      rintro r - e - rfl t₂ ht₂
      exact hsame₁.trans (StoredTable.sameDeclaration_foldlM_write ht₂)

/-- A sound table stays sound, whatever is written, if every item is readable under its key schema. -/
theorem Continued.table_sound {n : String} {s s' : Session MemoryStore} (h : Continued n s s')
    {t : StoredTable} (ht : s.store.tables.get? n = some t) (hsound : t.Sound)
    (hreadable : ∀ item, t.schema.Readable item) :
    ∃ t', s'.store.tables.get? n = some t' ∧ t'.Sound ∧ StoredTable.SameDeclaration t t' := by
  induction h with
  | start => exact ⟨t, ht, hsound, .refl t⟩
  | write h c hkeep ih =>
      obtain ⟨t₁, ht₁, hsound₁, hsame₁⟩ := ih
      refine SessionCall.table_after_of (P := fun t' => t'.Sound ∧ StoredTable.SameDeclaration t t')
        ht₁ ⟨hsound₁, hsame₁⟩ hkeep ?_
      rintro r - e - rfl t₂ ht₂
      refine ⟨hsound₁.foldlM_write (fun w _ => ⟨fun item _ => ?_, fun item _ => ?_⟩) ht₂,
        hsame₁.trans (StoredTable.sameDeclaration_foldlM_write ht₂)⟩
      · rw [hsame₁.schema]
        exact hreadable item
      · rw [hsame₁.schema]
        exact hreadable item

end Session

end SingleTable
