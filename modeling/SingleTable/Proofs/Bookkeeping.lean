import SingleTable.Proofs.IndexQuery
import SingleTable.Proofs.Scan

set_option autoImplicit false

/-!
# The books of a table

A table keeps a count beside its partitions, partition values beside the items, and sort keys beside
the items' own attributes. Main statement: whatever has been put, deleted or written in batches, all of
this agrees with the stored items (`wellKept_of_run`). Every write keeps a table sound
(`StoredTable.Sound.write`), and the books of a sound table are in order
(`StoredTable.Sound.wellKept`).
-/

namespace SingleTable

/-- A value that a key attribute admits is of the declared type, which is one of three. -/
theorem KeyAttribute.Admits.typeName_eq {key : KeyAttribute} {v : AttributeValue}
    (h : key.Admits v) :
    (key.type = .string ∨ key.type = .number ∨ key.type = .binary) ∧ v.typeName = key.type.name :=
  ⟨h.cases.imp And.left (Or.imp And.left And.left), (beq_iff_eq.mp h.2).symm⟩

namespace StoredTable

/-- The books of a table agree with its items. -/
structure WellKept (t : StoredTable) : Prop where
  /-- The count is the number of entries of all partitions. -/
  counted : t.storage.count = (t.storage.partitions.flatMap Prod.snd).length
  /-- A scan shows as many items. -/
  scanned : t.storage.scan.length = t.storage.count
  /-- The description gives the count, up to the greatest 64-bit integer. -/
  described : ∀ status, (t.describe status).itemCount.map Int64.toInt
    = some (min (t.storage.count : Int) Int64.maxValue.toInt)
  /-- What is deleted has been counted before. -/
  deleted : ∀ key item, t.storage.get? key = some item →
    (t.storage.delete key).2.count + 1 = t.storage.count
  nonempty : ∀ e ∈ t.storage.partitions, e.2 ≠ []
  /-- Entries are listed under the partition value of their items. -/
  partitioned : ∀ e ∈ t.storage.partitions, ∀ f ∈ e.2,
    f.2.get? t.schema.partition.name = some e.1
  /-- Entries of a table without a sort key are at the one place that there is. -/
  unsorted : t.schema.sort = none →
    ∀ e ∈ t.storage.partitions, ∀ f ∈ e.2, f.1 = .absent
  /-- Entries of a table with a sort key are at the places that their items give. -/
  sorted : ∀ key, t.schema.sort = some key → ∀ e ∈ t.storage.partitions, ∀ f ∈ e.2,
    ∃ v place, f.2.get? key.name = some v ∧ SortKey.ofValue key.name v = .ok place
      ∧ compare place f.1 = .eq
  /-- Key attributes of the table and of its indexes have values of their declared types. -/
  typed : ∀ item ∈ t.storage.items, ∀ schema ∈ t.schema :: t.indexes.map TableIndex.schema,
    ∀ key ∈ schema.attributes, ∀ v, item.get? key.name = some v →
      (key.type = .string ∨ key.type = .number ∨ key.type = .binary) ∧ v.typeName = key.type.name
  /-- Every partition value can be sorted by. -/
  sortable : ∀ e ∈ t.storage.partitions, SortKey.ofValue "" e.1 = .ok (SortKey.ofValueD e.1)
  /-- An index leaves an item out only if the item lacks the sort attribute of the index. -/
  indexed : ∀ item ∈ t.storage.items, ∀ i ∈ t.indexes,
    Storage.indexSort? i.schema item = none →
      ∃ key, i.schema.sort = some key ∧ item.get? key.name = none

/-- The key attributes that a stored item has are well typed, those of the table as those of the
indexes. -/
theorem Sound.admits {t : StoredTable} (h : t.Sound) {item : Item} (hitem : item ∈ t.storage.items)
    {schema : KeySchema} (hschema : schema ∈ t.schema :: t.indexes.map TableIndex.schema)
    {key : KeyAttribute} (hkey : key ∈ schema.attributes) {v : AttributeValue}
    (hv : item.get? key.name = some v) : key.Admits v := by
  rcases List.mem_cons.mp hschema with rfl | hschema
  · obtain ⟨value, f, hf, rfl⟩ := h.storage.mem_items.mp hitem
    obtain ⟨w, hw, hadmits⟩ := (h.storage.entry hf).1 key hkey
    exact Option.some.inj (hw.symm.trans hv) ▸ hadmits
  · obtain ⟨i, hi, rfl⟩ := List.mem_map.mp hschema
    exact h.typed item hitem i hi key hkey v hv

/-- The books of a sound table are in order. -/
theorem Sound.wellKept {t : StoredTable} (h : t.Sound) : t.WellKept where
  counted := h.storage.counted
  scanned := by
    rw [h.storage.count_eq]
    exact t.storage.perm_scan.length_eq
  described status := by
    have hcount : (0 : Int) ≤ t.storage.count := Int.natCast_nonneg _
    have hmax := Int64.toInt_maxValue
    rw [describe, Option.map_some, Int64.toInt_ofInt_of_le] <;> omega
  deleted key item hitem := by
    have hstored := List.length_pos_of_mem (Storage.mem_items_of_get? hitem)
    rw [← h.storage.count_eq] at hstored
    rw [Storage.delete, hitem]
    exact Nat.sub_add_cancel hstored
  nonempty := h.storage.nonempty
  partitioned e he f hf := by
    obtain ⟨key, hkey, hpart, -⟩ := h.storage.keyed e he f hf
    rw [← hpart]
    exact (KeySchema.extract_eq_ok_iff.mp hkey).2.1
  unsorted hsort e he f hf := by
    obtain ⟨key, hkey, -, -, heq⟩ := h.storage.keyed e he f hf
    have hsort : t.storage.schema.sort = none := hsort
    rw [KeySchema.place_of_extract hkey, KeySchema.placeOf, hsort] at heq
    cases hf1 : f.1 with
    | absent => rfl
    | _ =>
        rw [hf1] at heq
        cases heq
  sorted sort hsort e he f hf := by
    obtain ⟨key, hkey, -, -, heq⟩ := h.storage.keyed e he f hf
    have hsort : t.storage.schema.sort = some sort := hsort
    have hmem : sort ∈ t.storage.schema.attributes := by simp [KeySchema.attributes, hsort]
    obtain ⟨v, hv, hadmits⟩ := (KeySchema.extract_eq_ok_iff.mp hkey).1 sort hmem
    rw [KeySchema.place_of_extract hkey, KeySchema.placeOf, hsort] at heq
    simp only [hv, Option.elim] at heq
    exact ⟨v, SortKey.ofValueD v, hv, hadmits.ofValue sort.name, heq⟩
  typed item hitem schema hschema key hkey v hv := (h.admits hitem hschema hkey hv).typeName_eq
  sortable e he := by
    obtain ⟨f, hf⟩ := List.exists_mem_of_ne_nil _ (h.storage.nonempty e he)
    obtain ⟨key, hkey, hpart, -⟩ := h.storage.keyed e he f hf
    obtain ⟨hfits, hvalue, -⟩ := KeySchema.extract_eq_ok_iff.mp hkey
    obtain ⟨v, hv, hadmits⟩ := hfits t.storage.schema.partition List.mem_cons_self
    rw [← hpart, ← Option.some.inj (hv.symm.trans hvalue)]
    exact hadmits.ofValue ""
  indexed item hitem i hi hnone := by
    rw [Storage.indexSort?] at hnone
    cases hsort : i.schema.sort with
    | none =>
        rw [hsort] at hnone
        cases hnone
    | some key =>
        refine ⟨key, rfl, ?_⟩
        rw [Option.eq_none_iff_forall_ne_some]
        intro v hv
        have hmem : key ∈ i.schema.attributes := by simp [KeySchema.attributes, hsort]
        have hadmits := h.typed item hitem i hi key hmem v hv
        simp only [hsort, hv, Option.bind_some, hadmits.ofValue] at hnone
        cases hnone

end StoredTable

/-- After every run of calls on an empty store the books of every table are in order. All sort keys
that are numbers have to be texts of numbers (`StoreCall.Readable`). -/
theorem wellKept_of_run (clock : Int) (calls : List StoreCall)
    (hr : AllAlong (fun s c => c.Readable s) { clock } calls) {name : String} {t : StoredTable}
    (ht : (runCalls { clock } calls).tables.get? name = some t) : t.WellKept :=
  (sound_of_run (MemoryStore.sound_empty clock) hr name t ht).wellKept

/-! ## A run with every kind of write -/

/-- Put a note and delete it again. -/
def putAndDelete : BatchRequest where
  writes := Dict.empty.insert "notes"
    [{ put := some (note "ada" "b") }, { delete := some (note "ada" "b") }]

/-- Put three notes, the first of them twice, delete the last one, and write a batch that puts the
first one once more and deletes it. -/
def writtenNotes : List StoreCall :=
  [.createTable notesRequest, .put { table := "notes", item := note "ada" "b" },
    .put { table := "notes", item := note "ada" "b" },
    .put { table := "notes", item := note "ada" "a" },
    .put { table := "notes", item := note "eve" "c" },
    .delete { table := "notes", key := note "eve" "c" }, .batchWrite putAndDelete]

/-- The table of notes with the one that is left. -/
def keptNotes : StoredTable :=
  { notes with
    storage :=
      { schema := notes.schema
        partitions := [(.string "ada", [(.string "a", note "ada" "a")])]
        count := 1 } }

theorem keptNotes_wellKept :
    AllAlong (fun s c => c.Readable s) { clock := 0 } writtenNotes
      ∧ (runCalls { clock := 0 } writtenNotes).tables.get? "notes" = some keptNotes
      ∧ keptNotes.storage.scan.length = 1 := by
  have hput : ∀ author title (s : MemoryStore),
      (StoreCall.put { table := "notes", item := note author title }).Readable s :=
    fun author title _ => StoreCall.readable_put fun t _ => readable_note t.schema author title
  have hdelete : ∀ s, (StoreCall.delete { table := "notes", key := note "eve" "c" }).Readable s :=
    fun _ => StoreCall.readable_delete fun t _ => readable_note t.schema "eve" "c"
  have hbatch : ∀ s, (StoreCall.batchWrite putAndDelete).Readable s := by
    intro s e he t _ w hw
    cases List.mem_singleton.mp he
    rcases List.mem_pair.mp hw with rfl | rfl
    · exact ⟨fun item hitem => Option.some.inj hitem ▸ readable_note t.schema "ada" "b", nofun⟩
    · exact ⟨nofun, fun key hkey => Option.some.inj hkey ▸ readable_note t.schema "ada" "b"⟩
  have hr : AllAlong (fun s c => c.Readable s) { clock := 0 } writtenNotes :=
    ⟨nofun, hput _ _ _, hput _ _ _, hput _ _ _, hput _ _ _, hdelete _, hbatch _, trivial⟩
  have ht : (runCalls { clock := 0 } writtenNotes).tables.get? "notes" = some keptNotes := rfl
  exact ⟨hr, ht, (wellKept_of_run 0 writtenNotes hr ht).scanned⟩

end SingleTable
