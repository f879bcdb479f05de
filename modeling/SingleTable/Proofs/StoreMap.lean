import SingleTable.Proofs.Runs
import SingleTable.Proofs.Scan

set_option autoImplicit false

/-!
# The memory store as a map of maps

A *logical store* is a map from table names to tables, and a table is a map from primary keys to items.
The calls of a run that were answered make a logical store (`logicalRun`): a put binds the key of its
item, a delete unbinds a key, a new table binds nothing. Main statement: after every run the memory
store answers as this logical store does (`behavesAsMap_of_run`).
-/

namespace SingleTable

/-! ## Logical tables -/

/-- A table as a map from primary keys to items, with the schema that gives items their keys. -/
structure LogicalTable where
  schema : KeySchema
  items : PrimaryKey → Option Item

namespace LogicalTable

/-- The table without items. -/
def empty (schema : KeySchema) : LogicalTable := ⟨schema, fun _ => none⟩

/-- Let a key, and every key for the same place, stand for an item or for nothing. -/
def bind (T : LogicalTable) (key : PrimaryKey) (item : Option Item) : LogicalTable :=
  { T with items := fun k => if k.same key then item else T.items k }

/-- Take one write. What has no key changes nothing. -/
def write (T : LogicalTable) (w : WriteRequest) : LogicalTable :=
  match w.put, w.delete with
  | some item, _ =>
      match T.schema.extract item with
      | .ok key => T.bind key (some item)
      | .error _ => T
  | none, some key =>
      match T.schema.extract key with
      | .ok key => T.bind key none
      | .error _ => T
  | none, none => T

/-- The logical table finds what the stored table finds, under every comparable key. -/
structure Represents (T : LogicalTable) (t : StoredTable) : Prop where
  schema : T.schema = t.schema
  items : ∀ key : PrimaryKey, key.place.Comparable → T.items key = t.storage.get? key

theorem represents_empty {r : CreateTableRequest} {created : Int} {t : StoredTable}
    {schema : KeySchema} (h : StoredTable.ofRequest r created = .ok t)
    (hs : KeySchema.ofElements r.keys r.definitions = .ok schema) : (empty schema).Represents t := by
  obtain ⟨schema', hs', hstorage, -⟩ := StoredTable.storage_of_ofRequest h
  rw [hs] at hs'
  cases hs'
  refine ⟨?_, fun key _ => ?_⟩
  · rw [StoredTable.schema, hstorage]
    rfl
  · rw [hstorage]
    rfl

/-- Each write does the same to both tables. -/
theorem Represents.write {T : LogicalTable} {t t' : StoredTable} (h : T.Represents t)
    (hs : t.Sound) {w : WriteRequest} (hr : w.Readable t.schema) (hw : t.write w = .ok t') :
    (T.write w).Represents t' := by
  obtain ⟨put, delete⟩ := w
  cases put with
  | some item =>
      obtain ⟨-, key, hkey, rfl⟩ := StoredTable.put_eq_ok_iff.mp hw
      have hc := (hr.1 item rfl).comparable hkey
      simp only [LogicalTable.write, h.schema, hkey]
      refine ⟨h.schema, fun k hk => ?_⟩
      rw [Storage.get?_putAt hs.storage hc hk, ← h.items k hk]
      rfl
  | none =>
      cases delete with
      | some item =>
          obtain ⟨key, hkey, rfl⟩ := StoredTable.delete_eq_ok_iff.mp hw
          have hkey := (StoredTable.exactKey_eq_ok_iff.mp hkey).2
          have hc := (hr.2 item rfl).comparable hkey
          simp only [LogicalTable.write, h.schema, hkey]
          refine ⟨?_, fun k hk => ?_⟩
          · rw [StoredTable.schema, Storage.delete_schema]
            exact h.schema
          · rw [Storage.get?_delete hs.storage hc hk, ← h.items k hk]
            rfl
      | none =>
          cases hw
          exact h

theorem Represents.foldlM_write {T : LogicalTable} {t t' : StoredTable} (h : T.Represents t)
    (hs : t.Sound) {writes : List WriteRequest} (hr : ∀ w ∈ writes, w.Readable t.schema)
    (hw : writes.foldlM StoredTable.write t = .ok t') :
    (writes.foldl LogicalTable.write T).Represents t' := by
  induction writes generalizing T t with
  | nil =>
      cases hw
      exact h
  | cons w writes ih =>
      rw [List.foldlM_cons] at hw
      obtain ⟨u, hu, hw⟩ := bind_eq_ok_iff.mp hw
      have hrw := hr w (by simp)
      refine ih (h.write hs hrw hu) (hs.write hrw hu) ?_ hw
      intro w' hw'
      rw [(StoredTable.sameDeclaration_write hu).schema]
      exact hr w' (List.mem_cons_of_mem w hw')

end LogicalTable

/-! ## Logical stores -/

/-- A store as a map from names to tables. -/
abbrev LogicalStore := String → Option LogicalTable

namespace LogicalStore

/-- The store without tables. -/
def empty : LogicalStore := fun _ => none

/-- Let a name stand for a table or for nothing. -/
def set (L : LogicalStore) (name : String) (T : Option LogicalTable) : LogicalStore :=
  fun n => if n = name then T else L n

/-- Let each table take its writes in order. -/
def writeAll (L : LogicalStore) (entries : List (String × List WriteRequest)) : LogicalStore :=
  entries.foldl (fun L e => L.set e.1 ((L e.1).map (e.2.foldl LogicalTable.write))) L

theorem writeAll_of_not_mem {entries : List (String × List WriteRequest)} {n : String}
    (hn : n ∉ entries.map Prod.fst) (L : LogicalStore) : L.writeAll entries n = L n := by
  induction entries generalizing L with
  | nil => rfl
  | cons e entries ih =>
      rw [List.map_cons, List.mem_cons, not_or] at hn
      refine (ih hn.2 _).trans ?_
      exact if_neg hn.1

theorem writeAll_of_mem {entries : List (String × List WriteRequest)}
    (hnd : (entries.map Prod.fst).Nodup) {e : String × List WriteRequest} (he : e ∈ entries)
    (L : LogicalStore) :
    L.writeAll entries e.1 = (L e.1).map (e.2.foldl LogicalTable.write) := by
  induction entries generalizing L with
  | nil => cases he
  | cons f entries ih =>
      obtain ⟨hf, hrest⟩ := List.nodup_cons.mp hnd
      rcases List.mem_cons.mp he with rfl | he
      · exact (writeAll_of_not_mem hf _).trans (if_pos rfl)
      · have hne : e.1 ≠ f.1 := fun heq => hf (heq ▸ List.mem_map_of_mem he)
        exact (ih hrest he _).trans (congrArg (Option.map _) (if_neg hne))

/-- Every table of the one store represents the table of the same name in the other. -/
def Represents (L : LogicalStore) (s : MemoryStore) : Prop :=
  ∀ n, Option.Rel LogicalTable.Represents (L n) (s.tables.get? n)

end LogicalStore

/-- What an answered call does to a logical store. -/
def StoreCall.effect (c : StoreCall) (L : LogicalStore) : LogicalStore :=
  match c with
  | .createTable r =>
      match KeySchema.ofElements r.keys r.definitions with
      | .ok schema => L.set r.table (some (.empty schema))
      | .error _ => L
  | .deleteTable r => L.set r.table none
  | c => L.writeAll c.writes

/-- An answered call does the same to both stores. -/
theorem LogicalStore.Represents.after {L : LogicalStore} {s : MemoryStore} (h : L.Represents s)
    (hs : s.Sound) {c : StoreCall} (hr : c.Readable s) {a : StoreAnswer} {s' : MemoryStore}
    (hc : c.attempt s = .ok (a, s')) : (c.effect L).Represents s' := by
  intro n
  rcases StoreCall.attempt_cases hc with ⟨r, t, rfl, ht, -, rfl⟩ | ⟨r, rfl, rfl⟩ | ⟨hkeep, hcan, hw⟩
  · obtain ⟨schema, hschema, -⟩ := StoredTable.storage_of_ofRequest ht
    simp only [StoreCall.effect, hschema, set, MemoryStore.get?_setTable]
    split
    · exact .some (LogicalTable.represents_empty ht hschema)
    · exact h n
  · simp only [StoreCall.effect, set, Dict.get?_erase]
    split
    · exact .none
    · exact h n
  · -- a call that keeps its tables does nothing but its writes
    have heffect : c.effect L = L.writeAll c.writes := by
      cases c with
      | createTable r => exact absurd rfl (hkeep.1 r)
      | deleteTable r => exact absurd rfl (hkeep.2 r)
      | _ => rfl
    rw [heffect]
    by_cases hn : n ∈ c.writes.map Prod.fst
    · obtain ⟨e, he, rfl⟩ := List.mem_map.mp hn
      obtain ⟨t, t', ht, ht'⟩ := hcan e he
      rw [writeAll_of_mem c.nodup_writes he, hw.named e he t t' ht ht']
      have hrel := h e.1
      rw [ht] at hrel
      cases hL : L e.1 with
      | none =>
          rw [hL] at hrel
          cases hrel
      | some T =>
          rw [hL] at hrel
          cases hrel with
          | some hT => exact .some (hT.foldlM_write (hs e.1 t ht) (hr e he t ht) ht')
    · rw [writeAll_of_not_mem hn, hw.others n hn]
      exact h n

/-! ## Runs -/

/-- The calls of a run that are answered. -/
def answered (s : MemoryStore) : List StoreCall → List StoreCall
  | [] => []
  | c :: calls =>
      match c.attempt s with
      | .ok _ => c :: answered (c.after s) calls
      | .error _ => answered (c.after s) calls

/-- The logical store that the answered calls of a run make of an empty one. -/
def logicalRun (s : MemoryStore) (calls : List StoreCall) : LogicalStore :=
  (answered s calls).foldl (fun L c => c.effect L) LogicalStore.empty

theorem represents_of_run {s : MemoryStore} {L : LogicalStore} (hs : s.Sound) (h : L.Represents s)
    {calls : List StoreCall} (hr : AllAlong (fun s c => c.Readable s) s calls) :
    ((answered s calls).foldl (fun L c => c.effect L) L).Represents (runCalls s calls) := by
  induction calls generalizing s L with
  | nil => exact h
  | cons c calls ih =>
      rw [answered]
      cases hc : c.attempt s with
      | error e =>
          have hafter := StoreCall.after_of_error hc
          refine ih (hs.after hr.1) ?_ hr.2
          rw [hafter]
          exact h
      | ok as =>
          obtain ⟨a, s'⟩ := as
          refine ih (hs.after hr.1) ?_ hr.2
          rw [StoreCall.after_of_ok hc]
          exact h.after hs hr.1 hc

/-! ## Answers -/

/-- The store answers as a logical store does. Keys are looked up by their partition value and, up to
equal places, their sort key. -/
structure BehavesAsMap (s : MemoryStore) (L : LogicalStore) : Prop where
  /-- The same tables exist. -/
  names : ∀ n, n ∈ s.tableNames ↔ (L n).isSome = true
  /-- A key of a table finds the item that the logical table binds to it, or nothing. -/
  get : ∀ r T key, L r.table = some T → r.key.size = T.schema.size →
    T.schema.extract r.key = .ok key → key.place.Comparable →
    ExceptT.run (Store.get r) s = (.ok { item := T.items key }, s)
  /-- What is not a key of the table is refused. -/
  get_malformed : ∀ r T, L r.table = some T →
    ¬ (r.key.size = T.schema.size ∧ T.schema.Fits r.key) →
    ∃ e, ExceptT.run (Store.get r) s = (.error e, s) ∧ e.code = .validation
  /-- A scan lists the items that the logical table binds to their keys. -/
  scan : ∀ r T, L r.table = some T → ∃ reply,
    ExceptT.run (Store.scan r) s = (.ok reply, s) ∧ reply.Whole
      ∧ IsListing T.schema
          (fun item => ∃ key, T.schema.extract item = .ok key ∧ key.place.Comparable
            ∧ T.items key = some item)
          reply.items
  /-- No table is read that does not exist. -/
  get_missing : ∀ r, L r.table = none →
    ∃ e, ExceptT.run (Store.get r) s = (.error e, s) ∧ e.code = .resourceNotFound
  scan_missing : ∀ r, L r.table = none →
    ∃ e, ExceptT.run (Store.scan r) s = (.error e, s) ∧ e.code = .resourceNotFound
  /-- A valid definition is refused, as in use, exactly if there is a table of its name. -/
  create : ∀ r t, StoredTable.ofRequest r s.clock = .ok t →
    ((∃ e, ExceptT.run (Store.createTable r) s = (.error e, s) ∧ e.code = .resourceInUse)
      ↔ (L r.table).isSome = true)
  create_new : ∀ r t, StoredTable.ofRequest r s.clock = .ok t → L r.table = none →
    ∃ reply, ExceptT.run (Store.createTable r) s = (.ok reply, s.setTable r.table t)
  /-- A table is empty when it has been created, whatever there was under its name before. -/
  create_empty : ∀ r reply s', ExceptT.run (Store.createTable r) s = (.ok reply, s') →
    ExceptT.run (Store.scan { table := r.table }) s' = (.ok { items := [], count := 0 }, s')
  /-- A refused call changes nothing. -/
  refused : ∀ (c : StoreCall) e s', ExceptT.run c.run s = (.error e, s') → s' = s
  /-- No call changes a table that it does not name. -/
  unnamed : ∀ (c : StoreCall) n, n ∉ c.names → (c.after s).tables.get? n = s.tables.get? n

namespace MemoryStore

variable {s : MemoryStore}

theorem run_get_of_table {r : KeyRequest} {t : StoredTable} (ht : s.tables.get? r.table = some t) :
    ExceptT.run (Store.get r) s
      = (((t.get r.key).map (fun item => { item })).mapError Refusal.toStoreError, s) := by
  have hget : s.get r = (t.get r.key).map (fun item => { item }) := by
    rw [MemoryStore.get, table_eq_ok_iff.mpr ht]
    show (t.get r.key >>= fun item => pure (GetReply.mk item)) = _
    cases t.get r.key <;> rfl
  rw [← hget]
  exact reading_eq (·.get r) s

theorem run_scan_of_table {r : TableRequest} {t : StoredTable}
    (ht : s.tables.get? r.table = some t) :
    ExceptT.run (Store.scan r) s = (.ok (listing t.storage.scan), s) := by
  refine (reading_eq (·.scan r) s).trans ?_
  rw [MemoryStore.scan, table_eq_ok_iff.mpr ht]
  rfl

theorem table_of_none {name : String} (h : s.tables.get? name = none) :
    s.table name = .error (.noTable name) := by
  rw [table, h]

theorem run_get_of_none {r : KeyRequest} (h : s.tables.get? r.table = none) :
    ExceptT.run (Store.get r) s = (.error (Refusal.noTable r.table).toStoreError, s) := by
  refine (reading_eq (·.get r) s).trans ?_
  rw [MemoryStore.get, table_of_none h]
  rfl

theorem run_scan_of_none {r : TableRequest} (h : s.tables.get? r.table = none) :
    ExceptT.run (Store.scan r) s = (.error (Refusal.noTable r.table).toStoreError, s) := by
  refine (reading_eq (·.scan r) s).trans ?_
  rw [MemoryStore.scan, table_of_none h]
  rfl

/-- A table that has just been created lists nothing. -/
theorem run_scan_after_createTable {r : CreateTableRequest} {reply : TableReply} {s' : MemoryStore}
    (h : ExceptT.run (Store.createTable r) s = (.ok reply, s')) :
    ExceptT.run (Store.scan { table := r.table }) s' = (.ok { items := [], count := 0 }, s') := by
  have hwriting : writing (·.createTable r) s = (.ok reply, s') := h
  have hattempt : (StoreCall.createTable r).attempt s = .ok (.table reply, s') :=
    map_eq_ok_iff.mpr ⟨_, writing_eq_ok_iff.mp hwriting, rfl⟩
  rcases StoreCall.attempt_cases hattempt with ⟨r', t, hr', ht, -, rfl⟩ | ⟨r', hr', -⟩ | ⟨hkeep, -⟩
  · cases hr'
    obtain ⟨schema, -, hstorage, -⟩ := StoredTable.storage_of_ofRequest ht
    have hnew : (s.setTable r.table t).tables.get? r.table = some t := by simp
    rw [run_scan_of_table hnew, hstorage]
    rfl
  · cases hr'
  · exact absurd rfl (hkeep.1 r)

theorem run_createTable_of_valid {r : CreateTableRequest} {t : StoredTable}
    (ht : StoredTable.ofRequest r s.clock = .ok t) :
    ExceptT.run (Store.createTable r) s
      = if (s.tables.get? r.table).isSome then (.error (Refusal.tableExists r.table).toStoreError, s)
        else (.ok { description := some (t.describe .active) }, s.setTable r.table t) := by
  have hcreate : s.createTable r
      = if (s.tables.get? r.table).isSome then .error (.tableExists r.table)
        else .ok ({ description := some (t.describe .active) }, s.setTable r.table t) := by
    rw [MemoryStore.createTable, ht]
    rfl
  show writing (·.createTable r) s = _
  rw [writing, hcreate]
  cases (s.tables.get? r.table).isSome <;> rfl

end MemoryStore

namespace LogicalStore.Represents

variable {L : LogicalStore} {s : MemoryStore} (h : L.Represents s)

include h

theorem exists_table {n : String} {T : LogicalTable} (hT : L n = some T) :
    ∃ t, s.tables.get? n = some t ∧ T.Represents t := by
  have hrel := h n
  rw [hT] at hrel
  cases ht : s.tables.get? n with
  | none =>
      rw [ht] at hrel
      cases hrel
  | some t =>
      rw [ht] at hrel
      cases hrel with
      | some hTt => exact ⟨t, rfl, hTt⟩

theorem get?_eq_none {n : String} (hn : L n = none) : s.tables.get? n = none := by
  have hrel := h n
  rw [hn] at hrel
  cases ht : s.tables.get? n with
  | none => rfl
  | some t =>
      rw [ht] at hrel
      cases hrel

theorem isSome_get? (n : String) : (s.tables.get? n).isSome = (L n).isSome := by
  cases hL : L n with
  | none =>
      rw [h.get?_eq_none hL]
      rfl
  | some T =>
      obtain ⟨t, ht, -⟩ := h.exists_table hL
      rw [ht]
      rfl

/-- A store whose tables are sound answers as the logical store that represents it. -/
theorem behavesAsMap (hs : s.Sound) : BehavesAsMap s L := by
  refine ⟨?names, ?get, ?malformed, ?scan, ?getMissing, ?scanMissing, ?create, ?createNew,
    ?createEmpty, ?refused, ?unnamed⟩
  case names =>
    intro n
    rw [← h.isSome_get?]
    exact Dict.mem_keys_iff
  case get =>
    intro r T key hT hsize hkey hc
    obtain ⟨t, ht, hrep⟩ := h.exists_table hT
    rw [MemoryStore.run_get_of_table ht]
    rw [hrep.schema] at hsize hkey
    have hget : t.get r.key = .ok (t.storage.get? key) :=
      StoredTable.get_eq_ok_iff.mpr ⟨key, StoredTable.exactKey_eq_ok_iff.mpr ⟨hsize, hkey⟩, rfl⟩
    rw [hget, hrep.items key hc]
    rfl
  case malformed =>
    intro r T hT hnot
    obtain ⟨t, ht, hrep⟩ := h.exists_table hT
    rw [MemoryStore.run_get_of_table ht]
    cases hget : t.get r.key with
    | ok found =>
        obtain ⟨key, hexact, -⟩ := StoredTable.get_eq_ok_iff.mp hget
        obtain ⟨hsize, hkey⟩ := StoredTable.exactKey_eq_ok_iff.mp hexact
        rw [← hrep.schema] at hsize hkey
        exact absurd ⟨hsize, KeySchema.extract_isOk_iff.mp ⟨key, hkey⟩⟩ hnot
    | error e => exact ⟨_, rfl, StoredTable.code_of_get_error hget⟩
  case scan =>
    intro r T hT
    obtain ⟨t, ht, hrep⟩ := h.exists_table hT
    refine ⟨_, MemoryStore.run_scan_of_table ht, MemoryStore.whole_listing _, ?_⟩
    have hstorage := (hs r.table t ht).storage
    have hlist := hstorage.isListing_scan
    rw [hrep.schema, MemoryStore.items_listing]
    refine ⟨hlist.nodup, fun item => ?_, hlist.blocks⟩
    -- the stored items are those that the look-ups find, and both tables answer look-ups alike
    rw [hlist.mem_iff, hstorage.mem_items_iff]
    refine exists_congr fun key => and_congr_right fun _ => and_congr_right fun hc => ?_
    rw [hrep.items key hc]
  case getMissing =>
    intro r hn
    exact ⟨_, MemoryStore.run_get_of_none (h.get?_eq_none hn), rfl⟩
  case scanMissing =>
    intro r hn
    exact ⟨_, MemoryStore.run_scan_of_none (h.get?_eq_none hn), rfl⟩
  case create =>
    intro r t ht
    rw [MemoryStore.run_createTable_of_valid ht, h.isSome_get?]
    cases (L r.table).isSome with
    | true => exact ⟨fun _ => rfl, fun _ => ⟨_, rfl, rfl⟩⟩
    | false => exact ⟨nofun, nofun⟩
  case createNew =>
    intro r t ht hn
    rw [MemoryStore.run_createTable_of_valid ht, h.isSome_get?, hn]
    exact ⟨_, rfl⟩
  case createEmpty =>
    intro r reply s' hc
    exact MemoryStore.run_scan_after_createTable hc
  case refused =>
    intro c e s' hc
    rw [StoreCall.run_eq] at hc
    exact (MemoryStore.writing_eq_error hc).1
  case unnamed =>
    intro c n hn
    exact StoreCall.get?_after_of_not_mem hn s

end LogicalStore.Represents

/-- After every run of calls on an empty store, in any order, the memory store answers as the logical
store of the calls that were answered. All sort keys that are numbers have to be texts of numbers
(`StoreCall.Readable`). -/
theorem behavesAsMap_of_run (clock : Int) (calls : List StoreCall)
    (hr : AllAlong (fun s c => c.Readable s) { clock } calls) :
    BehavesAsMap (runCalls { clock } calls) (logicalRun { clock } calls) :=
  (represents_of_run (MemoryStore.sound_empty clock) (fun _ => .none) hr).behavesAsMap
    (sound_of_run (MemoryStore.sound_empty clock) hr)

/-- Put three notes into a new table and delete the first one. -/
def threeNotes : List StoreCall :=
  [.createTable notesRequest, .put { table := "notes", item := note "ada" "b" },
    .put { table := "notes", item := note "eve" "c" },
    .put { table := "notes", item := note "ada" "a" },
    .delete { table := "notes", key := note "ada" "b" }]

/-- The table of notes as the answered calls make it. -/
def twoNotes : LogicalTable :=
  (((LogicalTable.empty notes.schema).bind ⟨.string "ada", some (.string "b")⟩ (some (note "ada" "b"))
    |>.bind ⟨.string "eve", some (.string "c")⟩ (some (note "eve" "c")))
    |>.bind ⟨.string "ada", some (.string "a")⟩ (some (note "ada" "a")))
    |>.bind ⟨.string "ada", some (.string "b")⟩ none

/-- The first note is neither found nor listed, and the others are. -/
theorem read_after_threeNotes :
    AllAlong (fun s c => c.Readable s) { clock := 0 } threeNotes
      ∧ ExceptT.run (Store.get { table := "notes", key := note "ada" "b" })
          (runCalls { clock := 0 } threeNotes)
        = (.ok { item := none }, runCalls { clock := 0 } threeNotes)
      ∧ ∃ reply, ExceptT.run (Store.scan { table := "notes" }) (runCalls { clock := 0 } threeNotes)
          = (.ok reply, runCalls { clock := 0 } threeNotes)
        ∧ note "eve" "c" ∈ reply.items ∧ note "ada" "a" ∈ reply.items
        ∧ note "ada" "b" ∉ reply.items := by
  have hput : ∀ author title (s : MemoryStore),
      (StoreCall.put { table := "notes", item := note author title }).Readable s :=
    fun author title _ => StoreCall.readable_put fun t _ => readable_note t.schema author title
  have hdelete : ∀ s, (StoreCall.delete { table := "notes", key := note "ada" "b" }).Readable s :=
    fun _ => StoreCall.readable_delete fun t _ => readable_note t.schema "ada" "b"
  have hr : AllAlong (fun s c => c.Readable s) { clock := 0 } threeNotes :=
    ⟨nofun, hput _ _ _, hput _ _ _, hput _ _ _, hdelete _, trivial⟩
  have hbehaves := behavesAsMap_of_run 0 threeNotes hr
  have htable : logicalRun { clock := 0 } threeNotes "notes" = some twoNotes := rfl
  have hget := hbehaves.get { table := "notes", key := note "ada" "b" } twoNotes
    ⟨.string "ada", some (.string "b")⟩ htable rfl rfl trivial
  obtain ⟨reply, hscan, -, hlist⟩ := hbehaves.scan { table := "notes" } twoNotes htable
  refine ⟨hr, hget, reply, hscan, ?_, ?_, ?_⟩
  · exact (hlist.mem_iff _).mpr ⟨⟨.string "eve", some (.string "c")⟩, rfl, trivial, rfl⟩
  · exact (hlist.mem_iff _).mpr ⟨⟨.string "ada", some (.string "a")⟩, rfl, trivial, rfl⟩
  · intro hmem
    obtain ⟨key, hkey, -, hitem⟩ := (hlist.mem_iff _).mp hmem
    have hplace : twoNotes.schema.extract (note "ada" "b")
        = .ok ⟨.string "ada", some (.string "b")⟩ := rfl
    obtain rfl := Except.ok.inj (hplace.symm.trans hkey)
    cases hitem

end SingleTable
