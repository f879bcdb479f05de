import SingleTable.Proofs.Batch

set_option autoImplicit false

/-!
# Runs of the memory store

A run is a list of calls, made one after the other. Whatever the call, one of three things has
happened to the tables when it has answered (`attempt_cases`): a new empty table, a table less, or
each table that the call names has taken the writes that the call holds for it. From this we get what
every run keeps: all tables are sound (`sound_of_run`).
-/

namespace SingleTable

/-! ## Calls -/

/-- A call to a store. -/
inductive StoreCall where
  | createTable (r : CreateTableRequest)
  | deleteTable (r : TableRequest)
  | put (r : PutRequest)
  | get (r : KeyRequest)
  | delete (r : KeyRequest)
  | query (r : QueryRequest)
  | scan (r : TableRequest)
  | batchWrite (r : BatchRequest)

/-- What a store answers to a call. -/
inductive StoreAnswer where
  | table (reply : TableReply)
  | done
  | item (reply : GetReply)
  | items (reply : ItemsReply)
  | batch (reply : BatchReply)

namespace StoreCall

/-- Make a call. -/
def run {σ : Type} [Store σ] : StoreCall → StoreM σ StoreAnswer
  | .createTable r => do return .table (← Store.createTable r)
  | .deleteTable r => do return .table (← Store.deleteTable r)
  | .put r => do
      Store.put r
      return .done
  | .get r => do return .item (← Store.get r)
  | .delete r => do
      Store.delete r
      return .done
  | .query r => do return .items (← Store.query r)
  | .scan r => do return .items (← Store.scan r)
  | .batchWrite r => do return .batch (← Store.batchWrite r)

/-- What the memory store makes of a call: the answer and the store after it, or a refusal. -/
def attempt (c : StoreCall) (s : MemoryStore) : Except Refusal (StoreAnswer × MemoryStore) :=
  match c with
  | .createTable r => (s.createTable r).map (fun a => (.table a.1, a.2))
  | .deleteTable r => (s.deleteTable r).map (fun a => (.table a.1, a.2))
  | .put r => (s.put r).map (fun s' => (.done, s'))
  | .get r => (s.get r).map (fun a => (.item a, s))
  | .delete r => (s.delete r).map (fun s' => (.done, s'))
  | .query r => (s.query r).map (fun a => (.items a, s))
  | .scan r => (s.scan r).map (fun a => (.items a, s))
  | .batchWrite r => (s.batchWrite r).map (fun a => (.batch a.1, a.2))

theorem run_writing {α : Type} (write : MemoryStore → Except Refusal (α × MemoryStore))
    (f : α → StoreAnswer) (s : MemoryStore) :
    ExceptT.run (do return f (← (MemoryStore.writing write : StoreM MemoryStore α))) s
      = MemoryStore.writing (fun s => (write s).map (fun a => (f a.1, a.2))) s := by
  simp only [ExceptT.run, bind, ExceptT.bind, ExceptT.mk, StateT.bind, MemoryStore.writing]
  cases write s <;> rfl

theorem run_reading {α : Type} (read : MemoryStore → Except Refusal α) (f : α → StoreAnswer)
    (s : MemoryStore) :
    ExceptT.run (do return f (← (MemoryStore.reading read : StoreM MemoryStore α))) s
      = MemoryStore.writing (fun s => (read s).map (fun a => (f a, s))) s := by
  simp only [ExceptT.run, bind, ExceptT.bind, ExceptT.mk, StateT.bind, MemoryStore.reading,
    MemoryStore.writing]
  cases read s <;> rfl

/-- A call leads where its attempt leads; a refused one leaves the store as it is. -/
theorem run_eq (c : StoreCall) (s : MemoryStore) :
    ExceptT.run c.run s = MemoryStore.writing c.attempt s := by
  cases c with
  | createTable r => exact run_writing (·.createTable r) StoreAnswer.table s
  | deleteTable r => exact run_writing (·.deleteTable r) StoreAnswer.table s
  | put r =>
      refine (run_writing (fun s => (s.put r).map (((), ·))) (fun _ => .done) s).trans ?_
      simp only [MemoryStore.writing, attempt]
      cases s.put r <;> rfl
  | get r => exact run_reading (·.get r) StoreAnswer.item s
  | delete r =>
      refine (run_writing (fun s => (s.delete r).map (((), ·))) (fun _ => .done) s).trans ?_
      simp only [MemoryStore.writing, attempt]
      cases s.delete r <;> rfl
  | query r => exact run_reading (·.query r) StoreAnswer.items s
  | scan r => exact run_reading (·.scan r) StoreAnswer.items s
  | batchWrite r => exact run_writing (·.batchWrite r) StoreAnswer.batch s

/-- The store after a call. -/
def after (c : StoreCall) (s : MemoryStore) : MemoryStore :=
  (ExceptT.run c.run s : Except StoreError StoreAnswer × MemoryStore).2

theorem after_of_ok {c : StoreCall} {s s' : MemoryStore} {a : StoreAnswer}
    (h : c.attempt s = .ok (a, s')) : c.after s = s' := by
  rw [after, run_eq, MemoryStore.writing_eq_ok_iff.mpr h]

theorem after_of_error {c : StoreCall} {s : MemoryStore} {e : Refusal}
    (h : c.attempt s = .error e) : c.after s = s := by
  rw [after, run_eq, MemoryStore.writing, h]

/-! ## What an answered call has done -/

/-- The tables that a call names. -/
def names : StoreCall → List String
  | .createTable r => [r.table]
  | .deleteTable r => [r.table]
  | .put r => [r.table]
  | .get r => [r.table]
  | .delete r => [r.table]
  | .query r => [r.table]
  | .scan r => [r.table]
  | .batchWrite r => r.writes.keys

/-- The writes of items that a call holds, by table. -/
def writes : StoreCall → List (String × List WriteRequest)
  | .put r => [(r.table, [{ put := some r.item }])]
  | .delete r => [(r.table, [{ delete := some r.key }])]
  | .batchWrite r => r.writes.entries
  | _ => []

theorem nodup_writes (c : StoreCall) : (c.writes.map Prod.fst).Nodup := by
  cases c with
  | batchWrite r => exact r.writes.nodup_keys
  | _ => simp [writes]

theorem mem_names_of_mem_writes {c : StoreCall} {n : String} (h : n ∈ c.writes.map Prod.fst) :
    n ∈ c.names := by
  cases c with
  | batchWrite r => exact h
  | put r => exact h
  | delete r => exact h
  | _ => simp [writes] at h

/-- The call creates no table and deletes none. -/
def KeepsTables (c : StoreCall) : Prop := (∀ r, c ≠ .createTable r) ∧ ∀ r, c ≠ .deleteTable r

/-- What a call has done when it has answered: it has created an empty table, deleted a table, or
written to the tables that it holds writes for. -/
theorem attempt_cases {c : StoreCall} {s s' : MemoryStore} {a : StoreAnswer}
    (h : c.attempt s = .ok (a, s')) :
    (∃ r t, c = .createTable r ∧ StoredTable.ofRequest r s.clock = .ok t
        ∧ s.tables.get? r.table = none ∧ s' = s.setTable r.table t)
      ∨ (∃ r, c = .deleteTable r ∧ s' = { s with tables := s.tables.erase r.table })
      ∨ (c.KeepsTables ∧ s.CanWrite c.writes ∧ MemoryStore.Written c.writes s s') := by
  -- a call that only reads writes to no table
  have hread : ∀ {c : StoreCall}, c.KeepsTables → c.writes = [] →
      c.KeepsTables ∧ s.CanWrite c.writes ∧ MemoryStore.Written c.writes s s := by
    intro c hc hw
    rw [hw]
    exact ⟨hc, by simp [MemoryStore.CanWrite], MemoryStore.Written.refl s⟩
  cases c with
  | createTable r =>
      obtain ⟨⟨reply, u⟩, hu, hus⟩ := map_eq_ok_iff.mp h
      cases hus
      obtain ⟨t, ht, hu⟩ := bind_eq_ok_iff.mp hu
      split at hu
      · cases hu
      · rename_i hnew
        cases hu
        refine Or.inl ⟨r, t, rfl, ht, ?_, rfl⟩
        simpa [Dict.contains] using hnew
  | deleteTable r =>
      obtain ⟨⟨reply, u⟩, hu, hus⟩ := map_eq_ok_iff.mp h
      cases hus
      obtain ⟨t, ht, hu⟩ := bind_eq_ok_iff.mp hu
      cases hu
      exact Or.inr (Or.inl ⟨r, rfl, rfl⟩)
  | put r =>
      obtain ⟨u, hu, hus⟩ := map_eq_ok_iff.mp h
      cases hus
      obtain ⟨t, ht, hu⟩ := bind_eq_ok_iff.mp hu
      obtain ⟨t', ht', hu⟩ := bind_eq_ok_iff.mp hu
      cases hu
      refine Or.inr (Or.inr ⟨⟨nofun, nofun⟩, ?_⟩)
      refine MemoryStore.written_setTable (MemoryStore.table_eq_ok_iff.mp ht) ?_
      exact bind_eq_ok_iff.mpr ⟨t', ht', rfl⟩
  | delete r =>
      obtain ⟨u, hu, hus⟩ := map_eq_ok_iff.mp h
      cases hus
      obtain ⟨t, ht, hu⟩ := bind_eq_ok_iff.mp hu
      obtain ⟨t', ht', hu⟩ := bind_eq_ok_iff.mp hu
      cases hu
      refine Or.inr (Or.inr ⟨⟨nofun, nofun⟩, ?_⟩)
      refine MemoryStore.written_setTable (MemoryStore.table_eq_ok_iff.mp ht) ?_
      exact bind_eq_ok_iff.mpr ⟨t', ht', rfl⟩
  | batchWrite r =>
      obtain ⟨⟨reply, u⟩, hu, hus⟩ := map_eq_ok_iff.mp h
      cases hus
      obtain ⟨-, hchecks, hw, -⟩ := MemoryStore.written_of_batchWrite hu
      exact Or.inr (Or.inr ⟨⟨nofun, nofun⟩, MemoryStore.canWrite_of_checkWrites hchecks, hw⟩)
  | get r =>
      obtain ⟨reply, -, hus⟩ := map_eq_ok_iff.mp h
      cases hus
      exact Or.inr (Or.inr (hread ⟨nofun, nofun⟩ rfl))
  | query r =>
      obtain ⟨reply, -, hus⟩ := map_eq_ok_iff.mp h
      cases hus
      exact Or.inr (Or.inr (hread ⟨nofun, nofun⟩ rfl))
  | scan r =>
      obtain ⟨reply, -, hus⟩ := map_eq_ok_iff.mp h
      cases hus
      exact Or.inr (Or.inr (hread ⟨nofun, nofun⟩ rfl))

/-- A call leaves the tables alone that it does not name. -/
theorem get?_after_of_not_mem {c : StoreCall} {n : String} (hn : n ∉ c.names) (s : MemoryStore) :
    (c.after s).tables.get? n = s.tables.get? n := by
  cases h : c.attempt s with
  | error e => rw [after_of_error h]
  | ok as =>
      obtain ⟨a, s'⟩ := as
      rw [after_of_ok h]
      rcases attempt_cases h with ⟨r, t, rfl, -, -, rfl⟩ | ⟨r, rfl, rfl⟩ | ⟨-, -, hw⟩
      · rw [MemoryStore.get?_setTable, if_neg (by simpa [names] using hn)]
      · rw [Dict.get?_erase, if_neg (by simpa [names] using hn)]
      · exact hw.others n (fun hmem => hn (mem_names_of_mem_writes hmem))

/-- What a table holds after a call it has held before, or the call has put it. -/
theorem mem_items_after {c : StoreCall} {s : MemoryStore} {n : String} {t' : StoredTable}
    (ht' : (c.after s).tables.get? n = some t') {item : Item} (hitem : item ∈ t'.storage.items) :
    (∃ t, s.tables.get? n = some t ∧ item ∈ t.storage.items)
      ∨ ∃ e ∈ c.writes, ∃ w ∈ e.2, w.put = some item := by
  cases hc : c.attempt s with
  | error e =>
      rw [after_of_error hc] at ht'
      exact Or.inl ⟨t', ht', hitem⟩
  | ok as =>
      obtain ⟨a, s'⟩ := as
      rw [after_of_ok hc] at ht'
      rcases attempt_cases hc with ⟨r, t, rfl, ht, -, rfl⟩ | ⟨r, rfl, rfl⟩ | ⟨-, hcan, hw⟩
      · rw [MemoryStore.get?_setTable] at ht'
        split at ht'
        · -- a new table is empty
          cases ht'
          obtain ⟨schema, -, hstorage, -⟩ := StoredTable.storage_of_ofRequest ht
          rw [hstorage] at hitem
          cases hitem
        · exact Or.inl ⟨t', ht', hitem⟩
      · rw [Dict.get?_erase] at ht'
        split at ht'
        · cases ht'
        · exact Or.inl ⟨t', ht', hitem⟩
      · by_cases hn : n ∈ c.writes.map Prod.fst
        · obtain ⟨e, he, rfl⟩ := List.mem_map.mp hn
          obtain ⟨t, u, ht, hu⟩ := hcan e he
          obtain rfl : u = t' := Option.some.inj ((hw.named e he t u ht hu).symm.trans ht')
          rcases StoredTable.mem_items_foldlM_write hu hitem with ⟨w, hmem, hput⟩ | hitem
          · exact Or.inr ⟨e, he, w, hmem, hput⟩
          · exact Or.inl ⟨t, ht, hitem⟩
        · rw [hw.others n hn] at ht'
          exact Or.inl ⟨t', ht', hitem⟩

/-! ## What every call keeps -/

/-- All writes that the call holds for existing tables are readable there. -/
def Readable (s : MemoryStore) (c : StoreCall) : Prop :=
  ∀ e ∈ c.writes, ∀ t, s.tables.get? e.1 = some t → ∀ w ∈ e.2, w.Readable t.schema

theorem readable_put {s : MemoryStore} {r : PutRequest}
    (h : ∀ t, s.tables.get? r.table = some t → t.schema.Readable r.item) :
    (StoreCall.put r).Readable s := by
  intro e he t ht w hw
  cases List.mem_singleton.mp he
  cases List.mem_singleton.mp hw
  exact ⟨fun item hitem => Option.some.inj hitem ▸ h t ht, nofun⟩

theorem readable_delete {s : MemoryStore} {r : KeyRequest}
    (h : ∀ t, s.tables.get? r.table = some t → t.schema.Readable r.key) :
    (StoreCall.delete r).Readable s := by
  intro e he t ht w hw
  cases List.mem_singleton.mp he
  cases List.mem_singleton.mp hw
  exact ⟨nofun, fun key hkey => Option.some.inj hkey ▸ h t ht⟩

end StoreCall

/-- All tables of the store are sound. -/
def MemoryStore.Sound (s : MemoryStore) : Prop := ∀ n t, s.tables.get? n = some t → t.Sound

theorem MemoryStore.sound_empty (clock : Int) : Sound { clock } := by
  intro n t ht
  cases ht

/-- What holds of new tables, and is kept where a call writes, holds of all tables after the call. -/
theorem MemoryStore.forall_tables_after {P : StoredTable → Prop} {s : MemoryStore} {c : StoreCall}
    (h : ∀ n t, s.tables.get? n = some t → P t)
    (hnew : ∀ r created t, StoredTable.ofRequest r created = .ok t → P t)
    (hwrite : ∀ e ∈ c.writes, ∀ t t', s.tables.get? e.1 = some t → P t →
      e.2.foldlM StoredTable.write t = .ok t' → P t') :
    ∀ n t, (c.after s).tables.get? n = some t → P t := by
  intro n u hu
  cases hc : c.attempt s with
  | error e =>
      rw [StoreCall.after_of_error hc] at hu
      exact h n u hu
  | ok as =>
      obtain ⟨a, s'⟩ := as
      rw [StoreCall.after_of_ok hc] at hu
      rcases StoreCall.attempt_cases hc with ⟨r, t, rfl, ht, -, rfl⟩ | ⟨r, rfl, rfl⟩ | ⟨-, hcan, hw⟩
      · rw [get?_setTable] at hu
        split at hu
        · cases hu
          exact hnew r s.clock _ ht
        · exact h n u hu
      · rw [Dict.get?_erase] at hu
        split at hu
        · cases hu
        · exact h n u hu
      · by_cases hn : n ∈ c.writes.map Prod.fst
        · obtain ⟨e, he, rfl⟩ := List.mem_map.mp hn
          obtain ⟨t, t', ht, ht'⟩ := hcan e he
          rw [hw.named e he t t' ht ht', Option.some.injEq] at hu
          rw [← hu]
          exact hwrite e he t t' ht (h e.1 t ht) ht'
        · rw [hw.others n hn] at hu
          exact h n u hu

/-- Every readable call keeps all tables sound. -/
theorem MemoryStore.Sound.after {s : MemoryStore} (h : s.Sound) {c : StoreCall}
    (hr : c.Readable s) : (c.after s).Sound := by
  refine forall_tables_after h (fun _ _ _ => StoredTable.sound_of_ofRequest) ?_
  intro e he t t' ht hsound hw
  exact hsound.foldlM_write (hr e he t ht) hw

/-! ## Runs -/

/-- Make calls one after the other. -/
def runCalls (s : MemoryStore) (calls : List StoreCall) : MemoryStore :=
  calls.foldl (fun s c => c.after s) s

/-- A property of states and calls holds of every call of a run, in the state in which it is made. -/
def AllAlong (P : MemoryStore → StoreCall → Prop) : MemoryStore → List StoreCall → Prop
  | _, [] => True
  | s, c :: calls => P s c ∧ AllAlong P (c.after s) calls

/-- Every readable run keeps all tables sound. -/
theorem sound_of_run {s : MemoryStore} (h : s.Sound) {calls : List StoreCall}
    (hr : AllAlong (fun s c => c.Readable s) s calls) : (runCalls s calls).Sound := by
  induction calls generalizing s with
  | nil => exact h
  | cons c calls ih => exact ih (h.after hr.1) hr.2

end SingleTable
