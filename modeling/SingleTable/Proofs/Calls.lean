import SingleTable.Memory
import SingleTable.Proofs.TableWrites

set_option autoImplicit false

/-!
# Calls to the memory store

The store seen through the tables that it binds to names, and what is known when a call has answered
or has been refused. A reply of the store that lists items is whole (`MemoryStore.whole_listing`).
-/

namespace SingleTable

namespace MemoryStore

/-! ## One table of the store -/

theorem table_eq_ok_iff {s : MemoryStore} {name : String} {t : StoredTable} :
    s.table name = .ok t ↔ s.tables.get? name = some t := by
  rw [table]
  cases s.tables.get? name with
  | none => exact ⟨nofun, nofun⟩
  | some u => rw [Except.ok.injEq, Option.some.injEq]

@[simp] theorem get?_setTable (s : MemoryStore) (name n : String) (t : StoredTable) :
    (s.setTable name t).tables.get? n = if n = name then some t else s.tables.get? n :=
  Dict.get?_insert s.tables name n t

/-- A store is settled by its tables and its clock. -/
theorem ext_tables {s s' : MemoryStore} (h : ∀ n, s.tables.get? n = s'.tables.get? n)
    (hc : s.clock = s'.clock) : s = s' := by
  obtain ⟨tables, clock⟩ := s
  obtain ⟨tables', clock'⟩ := s'
  obtain rfl : tables = tables' := Dict.ext_get? h
  obtain rfl : clock = clock' := hc
  rfl

theorem setTable_self {s : MemoryStore} {name : String} {t : StoredTable}
    (h : s.tables.get? name = some t) : s.setTable name t = s := by
  refine ext_tables (fun n => ?_) rfl
  rw [get?_setTable]
  split
  · rename_i hn
    rw [hn, h]
  · rfl

theorem setTable_setTable (s : MemoryStore) (name : String) (t u : StoredTable) :
    (s.setTable name t).setTable name u = s.setTable name u := by
  refine ext_tables (fun n => ?_) rfl
  simp only [get?_setTable]
  split <;> rfl

/-! ## Reads and writes as calls -/

section

variable {α : Type} {s s' : MemoryStore}

theorem reading_eq (read : MemoryStore → Except Refusal α) (s : MemoryStore) :
    reading read s = ((read s).mapError Refusal.toStoreError, s) := by
  rw [reading]
  cases read s <;> rfl

theorem writing_eq_ok_iff {write : MemoryStore → Except Refusal (α × MemoryStore)} {a : α} :
    writing write s = (.ok a, s') ↔ write s = .ok (a, s') := by
  rw [writing]
  cases write s with
  | error e => exact ⟨nofun, nofun⟩
  | ok as =>
      obtain ⟨b, u⟩ := as
      constructor
      · intro h
        cases h
        rfl
      · intro h
        cases h
        rfl

/-- A write that is refused leaves the store as it was. -/
theorem writing_eq_error {write : MemoryStore → Except Refusal (α × MemoryStore)} {e : StoreError}
    (h : writing write s = (.error e, s')) :
    s' = s ∧ ∃ refusal, write s = .error refusal ∧ e = refusal.toStoreError := by
  rw [writing] at h
  cases hw : write s with
  | error refusal =>
      rw [hw] at h
      cases h
      exact ⟨rfl, refusal, rfl, rfl⟩
  | ok as =>
      rw [hw] at h
      cases h

end

end MemoryStore

/-! ## Replies that list items -/

/-- The reply is the whole answer: it counts the items that it lists, as far as a count reaches, and
leaves nothing for a later call. -/
structure ItemsReply.Whole (reply : ItemsReply) : Prop where
  count : reply.count.toInt = min (reply.items.length : Int) 2147483647
  scanned : reply.scanned = reply.count
  lastKey : reply.lastKey = {}

namespace MemoryStore

@[simp] theorem items_listing (items : List Item) : (listing items).items = items := rfl

theorem whole_listing (items : List Item) : (listing items).Whole where
  count := by
    have hmax : Int32.maxValue.toInt = 2147483647 := rfl
    have hlength : (0 : Int) ≤ items.length := Int.natCast_nonneg _
    show (Int32.ofInt (min items.length Int32.maxValue.toInt)).toInt = _
    rw [hmax]
    exact Int32.toInt_ofInt_of_le (by omega) (by omega)
  scanned := rfl
  lastKey := rfl

end MemoryStore

end SingleTable
