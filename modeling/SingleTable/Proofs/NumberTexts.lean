import SingleTable.Proofs.DecimalValue
import SingleTable.Proofs.Isolation
import SingleTable.Proofs.Runs

set_option autoImplicit false

/-!
# Spellings of numbers in keys

A number in a key keeps its text. As a sort key, and in conditions on sort keys, the text stands for its
value: all spellings of a decimal number address one place. As a partition value, of a table or of an
index, the text stands for itself: different spellings of one number are different partition values, and
what is stored under one of them is not found under another. Main statement: `numberTexts_of_run`.
-/

namespace SingleTable

namespace Storage

variable {s : Storage} {v w : AttributeValue}

/-! ## Where items are listed -/

/-- Every item is listed under the partition value that it carries, and no value is listed twice. This
holds in all runs, whatever the texts of numbers are. -/
structure Filed (s : Storage) : Prop where
  distinct : (s.partitions.map Prod.fst).Nodup
  carried : ∀ e ∈ s.partitions, ∀ f ∈ e.2, f.2.get? s.schema.partition.name = some e.1

theorem filed_empty (schema : KeySchema) : Filed { schema } := ⟨List.nodup_nil, nofun⟩

namespace Filed

variable (h : s.Filed)

include h

theorem get?_of_mem {f : SortKey × Item} (hf : f ∈ s.partition v) :
    f.2.get? s.schema.partition.name = some v := by
  obtain ⟨p, hp, hfp⟩ := exists_of_mem_partition hf
  exact h.carried (v, p) hp f hfp

/-- A partition may be set to items that carry its value. -/
theorem setPartition {p : Partition} {count : Nat}
    (hp : ∀ f ∈ p, f.2.get? s.schema.partition.name = some v) :
    Filed { s with partitions := Storage.setPartition s.partitions v p, count } where
  distinct := nodup_setPartition h.distinct p
  carried e he f hf := by
    rcases eq_or_mem_of_mem_setPartition he with rfl | he
    · exact hp f hf
    · exact h.carried e he f hf

theorem putAt {item : Item} {key : PrimaryKey} (hkey : s.schema.extract item = .ok key) :
    (s.putAt key item).Filed := by
  refine h.setPartition fun f hf => ?_
  rcases Partition.mem_insert hf with ⟨hitem, -⟩ | hf
  · rw [hitem]
    exact (KeySchema.extract_eq_ok_iff.mp hkey).2.1
  · exact h.get?_of_mem hf

theorem delete (key : PrimaryKey) : (s.delete key).2.Filed := by
  rw [Storage.delete]
  cases s.get? key with
  | none => exact h
  | some old =>
      exact h.setPartition fun f hf => h.get?_of_mem ((Partition.erase_sublist _ _).subset hf)

end Filed

/-! ## Partition values that act alike -/

/-- Look-ups, deletes and queries under the two partition values act on the same items. -/
structure ActAlike (s : Storage) (v w : AttributeValue) : Prop where
  get : ∀ sort, s.get? ⟨v, sort⟩ = s.get? ⟨w, sort⟩
  delete : ∀ sort, s.delete ⟨v, sort⟩ = s.delete ⟨w, sort⟩
  query : ∀ conditions forward, s.query v conditions forward = s.query w conditions forward

theorem ActAlike.symm (h : s.ActAlike v w) : s.ActAlike w v :=
  ⟨fun sort => (h.get sort).symm, fun sort => (h.delete sort).symm,
    fun conditions forward => (h.query conditions forward).symm⟩

/-- A stored item has the partition value. -/
def Occurs (s : Storage) (v : AttributeValue) : Prop :=
  ∃ item ∈ s.items, item.get? s.schema.partition.name = some v

namespace Filed

variable (h : s.Filed)

include h

theorem partition_eq_nil_iff : s.partition v = [] ↔ ¬ s.Occurs v := by
  constructor
  · rintro hnil ⟨item, hitem, hv⟩
    obtain ⟨⟨u, p⟩, he, hmem⟩ := List.mem_flatMap.mp hitem
    obtain ⟨f, hf, rfl⟩ := List.mem_map.mp hmem
    obtain rfl : u = v := Option.some.inj ((h.carried _ he f hf).symm.trans hv)
    rw [partition, (lookup_eq_some_iff h.distinct).mpr he] at hnil
    exact List.ne_nil_of_mem hf hnil
  · intro hnot
    rw [List.eq_nil_iff_forall_not_mem]
    exact fun f hf => hnot ⟨f.2, mem_items_of_mem_partition hf, h.get?_of_mem hf⟩

/-- If what is found under two different partition values is the same, then nothing is. -/
theorem not_occurs_of_actAlike (halike : s.ActAlike v w) (hne : v ≠ w) : ¬ s.Occurs v := by
  rw [← h.partition_eq_nil_iff]
  cases hp : s.partition v with
  | nil => rfl
  | cons e p =>
      have he : e ∈ s.partition v := hp ▸ List.mem_cons_self
      -- the first entry is found under its own key, so that it is in the other partition, too
      have hget : s.get? ⟨v, some e.1⟩ = some e.2 := by
        show (s.partition v).get? e.1 = some e.2
        rw [hp, Partition.get?, SortKey.compare_self]
      rw [halike.get] at hget
      obtain ⟨f, hf, -, hfe⟩ := Partition.mem_of_get? hget
      have hw := h.get?_of_mem hf
      rw [hfe, h.get?_of_mem he] at hw
      exact absurd (Option.some.inj hw) hne

/-- Different partition values act alike only if there is no item under either. -/
theorem actAlike_iff : s.ActAlike v w ↔ v = w ∨ ¬ s.Occurs v ∧ ¬ s.Occurs w := by
  constructor
  · intro halike
    by_cases hvw : v = w
    · exact Or.inl hvw
    · exact Or.inr ⟨h.not_occurs_of_actAlike halike hvw,
        h.not_occurs_of_actAlike halike.symm (Ne.symm hvw)⟩
  · rintro (rfl | ⟨hv, hw⟩)
    · exact ⟨fun _ => rfl, fun _ => rfl, fun _ _ => rfl⟩
    · rw [← h.partition_eq_nil_iff] at hv hw
      have hget : ∀ sort, s.get? ⟨v, sort⟩ = none ∧ s.get? ⟨w, sort⟩ = none := by
        intro sort
        rw [get?, get?, hv, hw]
        exact ⟨rfl, rfl⟩
      refine ⟨fun sort => ?_, fun sort => ?_, fun conditions forward => ?_⟩
      · rw [(hget sort).1, (hget sort).2]
      · rw [Storage.delete, Storage.delete, (hget sort).1, (hget sort).2]
      · rw [query, query, hv, hw]

end Filed

/-- Items that are put under keys of different partition values do not touch each other. -/
theorem put_of_ne {key key' : PrimaryKey} (hne : key.partition ≠ key'.partition) {item other : Item}
    (hkey : s.schema.extract item = .ok key) (hkey' : s.schema.extract other = .ok key') :
    ∃ s₁ s₂, s.put item = .ok (s.get? key, s₁) ∧ s₁.put other = .ok (s.get? key', s₂)
      ∧ s₂.get? key = some item ∧ s₂.get? key' = some other := by
  have hold : (s.putAt key item).get? key' = s.get? key' := by
    rw [get?, get?, partition_putAt_of_ne hne.symm]
  have hput := put_of_extract (s := s.putAt key item) hkey'
  rw [hold] at hput
  refine ⟨_, _, put_of_extract hkey, hput, ?_, get?_putAt_self _ key' other⟩
  rw [get?, partition_putAt_of_ne hne, ← get?, get?_putAt_self]

/-! ## Indexes -/

/-- The index shows a stored item under the partition value. -/
def Shows (s : Storage) (schema : KeySchema) (v : AttributeValue) : Prop :=
  ∃ item ∈ s.items, item.get? schema.partition.name = some v ∧ (indexSort? schema item).isSome = true

/-- Queries of the index under the two partition values list the same items. -/
def IndexActsAlike (s : Storage) (schema : KeySchema) (v w : AttributeValue) : Prop :=
  ∀ conditions forward,
    s.queryIndex schema v conditions forward = s.queryIndex schema w conditions forward

/-- A hit stands for an item of the index that has the partition value. -/
theorem of_hit?_eq_some {schema : KeySchema} {conditions : List SortCondition}
    {basePartition : AttributeValue} {f : SortKey × Item} {hit : IndexHit}
    (h : hit? schema v conditions basePartition f = some hit) :
    hit.item = f.2 ∧ f.2.get? schema.partition.name = some v
      ∧ (indexSort? schema f.2).isSome = true := by
  rw [hit?] at h
  split at h
  · rename_i hv
    split at h
    · cases h
    · rename_i hsort
      split at h
      · cases h
        exact ⟨rfl, hv, by rw [hsort]; rfl⟩
      · cases h
  · cases h

theorem mem_queryIndex_iff_hit {schema : KeySchema} {conditions : List SortCondition} {item : Item}
    {forward : Bool} :
    item ∈ s.queryIndex schema v conditions forward
      ↔ ∃ e ∈ s.partitions, ∃ f ∈ e.2, ∃ hit, hit? schema v conditions e.1 f = some hit
          ∧ hit.item = item := by
  rw [(perm_queryIndex_hits s schema v conditions forward).mem_iff, List.mem_map]
  simp only [hits, List.mem_flatMap, List.mem_filterMap]
  constructor
  · rintro ⟨hit, ⟨e, he, f, hf, hhit⟩, hitem⟩
    exact ⟨e, he, f, hf, hit, hhit, hitem⟩
  · rintro ⟨e, he, f, hf, hit, hhit, hitem⟩
    exact ⟨hit, ⟨e, he, f, hf, hhit⟩, hitem⟩

/-- Whatever its conditions, a query of the index lists items that it shows under the value. -/
theorem shown_of_mem_queryIndex {schema : KeySchema} {conditions : List SortCondition} {item : Item}
    {forward : Bool} (h : item ∈ s.queryIndex schema v conditions forward) :
    item ∈ s.items ∧ item.get? schema.partition.name = some v
      ∧ (indexSort? schema item).isSome = true := by
  obtain ⟨e, he, f, hf, hit, hhit, rfl⟩ := mem_queryIndex_iff_hit.mp h
  obtain ⟨hitem, hv, hsort⟩ := of_hit?_eq_some hhit
  rw [hitem]
  exact ⟨List.mem_flatMap.mpr ⟨e, he, List.mem_map_of_mem hf⟩, hv, hsort⟩

/-- Without conditions it lists all of them. -/
theorem mem_queryIndex_of_shown {schema : KeySchema} {item : Item} (hitem : item ∈ s.items)
    (hv : item.get? schema.partition.name = some v)
    (hsort : (indexSort? schema item).isSome = true) : item ∈ s.queryIndex schema v [] true := by
  obtain ⟨e, he, hmem⟩ := List.mem_flatMap.mp hitem
  obtain ⟨f, hf, rfl⟩ := List.mem_map.mp hmem
  obtain ⟨place, hplace⟩ := Option.isSome_iff_exists.mp hsort
  refine mem_queryIndex_iff_hit.mpr ⟨e, he, f, hf, ⟨place, SortKey.ofValueD e.1, f.1, f.2⟩, ?_, rfl⟩
  rw [hit?, if_pos hv, hplace]
  rfl

theorem not_shows_of_actsAlike {schema : KeySchema} (h : s.IndexActsAlike schema v w) (hne : v ≠ w) :
    ¬ s.Shows schema v := by
  rintro ⟨item, hitem, hv, hsort⟩
  have hmem := mem_queryIndex_of_shown hitem hv hsort
  rw [h] at hmem
  have hw := (shown_of_mem_queryIndex hmem).2.1
  exact hne (Option.some.inj (hv.symm.trans hw))

/-- Different partition values of an index act alike only if the index shows no item under either. -/
theorem indexActsAlike_iff {schema : KeySchema} :
    s.IndexActsAlike schema v w ↔ v = w ∨ ¬ s.Shows schema v ∧ ¬ s.Shows schema w := by
  constructor
  · intro h
    by_cases hvw : v = w
    · exact Or.inl hvw
    · have hsymm : s.IndexActsAlike schema w v := fun conditions forward => (h conditions forward).symm
      exact Or.inr ⟨not_shows_of_actsAlike h hvw, not_shows_of_actsAlike hsymm (Ne.symm hvw)⟩
  · rintro (rfl | ⟨hv, hw⟩)
    · exact fun _ _ => rfl
    · have hnil : ∀ u, ¬ s.Shows schema u → ∀ conditions forward,
          s.queryIndex schema u conditions forward = [] := by
        intro u hu conditions forward
        rw [List.eq_nil_iff_forall_not_mem]
        exact fun item hitem => hu ⟨item, shown_of_mem_queryIndex hitem⟩
      intro conditions forward
      rw [hnil v hv, hnil w hw]

end Storage

/-! ## Runs -/

/-- Every write keeps the items of a table filed. -/
theorem StoredTable.filed_write {t t' : StoredTable} (h : t.storage.Filed) {w : WriteRequest}
    (hw : t.write w = .ok t') : t'.storage.Filed := by
  rw [write] at hw
  split at hw
  · obtain ⟨-, key, hkey, rfl⟩ := put_eq_ok_iff.mp hw
    exact h.putAt hkey
  · obtain ⟨key, -, rfl⟩ := delete_eq_ok_iff.mp hw
    exact h.delete key
  · cases hw
    exact h

/-- In every state that a run leads to, all items are filed. -/
theorem filed_of_run {s : MemoryStore} (h : ∀ n t, s.tables.get? n = some t → t.storage.Filed)
    (calls : List StoreCall) :
    ∀ n t, (runCalls s calls).tables.get? n = some t → t.storage.Filed := by
  induction calls generalizing s with
  | nil => exact h
  | cons c calls ih =>
      refine ih (MemoryStore.forall_tables_after h ?_ ?_)
      · intro r created t ht
        obtain ⟨schema, -, hstorage, -⟩ := StoredTable.storage_of_ofRequest ht
        rw [hstorage]
        exact Storage.filed_empty schema
      · intro e _ t t' _ hfiled hw
        exact StoredTable.keeps_foldlM_write (P := fun u => u.storage.Filed)
          (fun w _ u u' _ hu huw => StoredTable.filed_write hu huw) hfiled hw

/-! ## Spellings -/

/-- Look-ups, deletes and conditions act on the same items, and puts address one item, whichever of the
two texts is the sort key. -/
structure Storage.SortAlike (s : Storage) (a b : String) : Prop where
  get : ∀ value, s.get? ⟨value, some (.number a)⟩ = s.get? ⟨value, some (.number b)⟩
  delete : ∀ value, s.delete ⟨value, some (.number a)⟩ = s.delete ⟨value, some (.number b)⟩
  put : ∀ value item other, s.schema.extract item = .ok ⟨value, some (.number a)⟩ →
    s.schema.extract other = .ok ⟨value, some (.number b)⟩ →
    ∃ s₁ s₂, s.put item = .ok (s.get? ⟨value, some (.number a)⟩, s₁)
      ∧ s₁.put other = .ok (some item, s₂) ∧ s₂.get? ⟨value, some (.number a)⟩ = some other
      ∧ s₂.count = s₁.count
  query : ∀ value conditions forward, s.query value conditions forward
    = s.query value (conditions.map (.mapKeys (.respell (.number a) (.number b)))) forward
  queryIndex : ∀ schema value conditions forward, s.queryIndex schema value conditions forward
    = s.queryIndex schema value (conditions.map (.mapKeys (.respell (.number a) (.number b)))) forward

theorem Storage.sortAlike_of_decimal? (s : Storage) {a b : String} {q : ℚ}
    (ha : Binary64.decimal? a = some q) (hb : Binary64.decimal? b = some q) : s.SortAlike a b := by
  have halike := SortKey.alike_of_decimal? ha hb
  have hplace : ∀ value, (PrimaryKey.mk value (some (.number a))).place.Alike
      (PrimaryKey.mk value (some (.number b))).place := fun _ => halike
  have hconditions : ∀ conditions, List.Forall₂ SortCondition.Alike conditions
      (conditions.map (.mapKeys (.respell (.number a) (.number b)))) :=
    fun _ => SortCondition.forall₂_alike_map halike.respell
  refine ⟨fun value => get?_alike (hplace value) rfl s,
    fun value => delete_alike (hplace value) rfl s, ?_, ?_, ?_⟩
  · intro value item other hkey hkey'
    obtain ⟨s₁, s₂, hput, hput', hget, -, hcount⟩ := put_alike (hplace value) rfl s hkey hkey'
    exact ⟨s₁, s₂, hput, hput', hget, hcount⟩
  · exact fun value conditions forward => query_alike (hconditions conditions) s value forward
  · exact fun schema value conditions forward =>
      queryIndex_alike (hconditions conditions) s value forward schema

/-- Two texts of one decimal number, in every state that a run of calls on an empty store leads to. As
partition values they act alike only if they are the same text or no item has either, in the table and in
each of its indexes; and of two items with these partition values and the same sort key the second
replaces the first only if the texts are the same, while otherwise each is found under its own key. As
sort keys they always act alike. -/
theorem numberTexts_of_run (clock : Int) (calls : List StoreCall) {table : String} {t : StoredTable}
    (ht : (runCalls { clock } calls).tables.get? table = some t) {a b : String} {q : ℚ}
    (ha : Binary64.decimal? a = some q) (hb : Binary64.decimal? b = some q) :
    (t.storage.ActAlike (.number a) (.number b)
        ↔ a = b ∨ ¬ t.storage.Occurs (.number a) ∧ ¬ t.storage.Occurs (.number b))
      ∧ (∀ i ∈ t.indexes, t.storage.IndexActsAlike i.schema (.number a) (.number b)
        ↔ a = b ∨ ¬ t.storage.Shows i.schema (.number a) ∧ ¬ t.storage.Shows i.schema (.number b))
      ∧ (∀ item other sort, t.schema.extract item = .ok ⟨.number a, sort⟩ →
        t.schema.extract other = .ok ⟨.number b, sort⟩ →
        ∃ s₁ s₂ old, t.storage.put item = .ok (t.storage.get? ⟨.number a, sort⟩, s₁)
          ∧ s₁.put other = .ok (old, s₂) ∧ s₂.get? ⟨.number b, sort⟩ = some other
          ∧ (a = b → old = some item)
          ∧ (a ≠ b → old = t.storage.get? ⟨.number b, sort⟩
            ∧ s₂.get? ⟨.number a, sort⟩ = some item))
      ∧ t.storage.SortAlike a b := by
  have hempty : ∀ n u, ({ clock } : MemoryStore).tables.get? n = some u → u.storage.Filed := by
    intro n u hu
    cases hu
  have hfiled := filed_of_run hempty calls table t ht
  have hnumber : AttributeValue.number a = .number b ↔ a = b := by
    rw [AttributeValue.number.injEq]
  refine ⟨?_, fun i _ => ?_, ?_, t.storage.sortAlike_of_decimal? ha hb⟩
  · rw [hfiled.actAlike_iff, hnumber]
  · rw [Storage.indexActsAlike_iff, hnumber]
  · intro item other sort hkey hkey'
    by_cases hab : a = b
    · subst hab
      obtain ⟨s₁, s₂, hput, hput', hget, -, -⟩ :=
        Storage.put_alike (fun _ => rfl) rfl t.storage hkey hkey'
      exact ⟨s₁, s₂, _, hput, hput', hget, fun _ => rfl, fun hne => absurd rfl hne⟩
    · have hne : AttributeValue.number a ≠ .number b := fun h => hab (hnumber.mp h)
      obtain ⟨s₁, s₂, hput, hput', hget, hget'⟩ := Storage.put_of_ne hne hkey hkey'
      exact ⟨s₁, s₂, _, hput, hput', hget', fun h => absurd h hab, fun _ => ⟨rfl, hget⟩⟩

/-! ## Gauges by number -/

/-- A table of measurements by the number of a gauge and the second, with an index by level. -/
def gaugesRequest : CreateTableRequest where
  table := "gauges"
  keys := [⟨"gauge", .hash⟩, ⟨"second", .range⟩]
  definitions := [⟨"gauge", .number⟩, ⟨"second", .number⟩, ⟨"level", .number⟩]
  globalIndexes := [⟨"levels", [⟨"level", .hash⟩], .everything, none⟩]

/-- The index of measurements by level. -/
def levels : TableIndex := ⟨"levels", ⟨⟨"level", .number⟩, none⟩⟩

/-- A measurement. -/
def measurement (gauge second level : String) : Item :=
  Dict.ofList [("gauge", .number gauge), ("second", .number second), ("level", .number level)]

/-- Create the table of measurements and put one of gauge 7, which is spelled with a point. -/
def firstMeasurement : List StoreCall :=
  [.createTable gaugesRequest, .put { table := "gauges", item := measurement "7.0" "7" "7.0" }]

/-- The table of measurements with the first one. -/
def measuredGauges : StoredTable where
  definition := gaugesRequest
  indexes := [levels]
  created := 0
  storage :=
    { schema := ⟨⟨"gauge", .number⟩, some ⟨"second", .number⟩⟩
      partitions := [(.number "7.0", [(.number "7", measurement "7.0" "7" "7.0")])]
      count := 1 }

theorem run_firstMeasurement :
    (runCalls { clock := 0 } firstMeasurement).tables.get? "gauges" = some measuredGauges := rfl

theorem decimal?_seven :
    Binary64.decimal? "7.0" = some 7 ∧ Binary64.decimal? "7" = some 7 := by
  refine ⟨?_, ?_⟩ <;> decide +kernel

/-- The two spellings of 7 are different gauges, but the same second. -/
theorem gauges_of_seven :
    (runCalls { clock := 0 } firstMeasurement).tables.get? "gauges" = some measuredGauges
      ∧ Binary64.decimal? "7.0" = some 7 ∧ Binary64.decimal? "7" = some 7
      ∧ ¬ measuredGauges.storage.ActAlike (.number "7.0") (.number "7")
      ∧ ¬ measuredGauges.storage.IndexActsAlike levels.schema (.number "7.0") (.number "7")
      ∧ measuredGauges.storage.get? ⟨.number "7.0", some (.number "7.0")⟩
        = some (measurement "7.0" "7" "7.0") := by
  obtain ⟨ha, hb⟩ := decimal?_seven
  obtain ⟨hpartition, hindexes, -, hsort⟩ :=
    numberTexts_of_run 0 firstMeasurement run_firstMeasurement ha hb
  have hlevels := hindexes levels (List.mem_singleton.mpr rfl)
  have hne : "7.0" ≠ "7" := by decide
  refine ⟨run_firstMeasurement, ha, hb, ?_, ?_, (hsort.get _).trans rfl⟩
  · rw [hpartition]
    rintro (heq | ⟨hnot, -⟩)
    · exact hne heq
    · exact hnot ⟨_, List.mem_singleton.mpr rfl, rfl⟩
  · rw [hlevels]
    rintro (heq | ⟨hnot, -⟩)
    · exact hne heq
    · exact hnot ⟨_, List.mem_singleton.mpr rfl, rfl, rfl⟩

/-- A JSON number 7.0 is spelled with a point, and a float 7.0 that is turned into an attribute value is
spelled without it. What is stored under the first spelling is not found, deleted or listed under the
second one, and an item that is put under the second one stands beside it. -/
theorem gauge_notFound :
    (Json.Number.float (Binary64.ofInt 7)).toText = "7.0" ∧ (Binary64.ofInt 7).toPlainText = "7"
      ∧ Binary64.decimal? "7.0" = some 7 ∧ Binary64.decimal? "7" = some 7
      ∧ (runCalls { clock := 0 } firstMeasurement).tables.get? "gauges" = some measuredGauges
      ∧ measuredGauges.storage.get? ⟨.number "7.0", some (.number "7")⟩
        = some (measurement "7.0" "7" "7.0")
      ∧ measuredGauges.storage.get? ⟨.number "7", some (.number "7")⟩ = none
      ∧ (measuredGauges.storage.delete ⟨.number "7", some (.number "7")⟩).1 = none
      ∧ measuredGauges.storage.query (.number "7") [] true = []
      ∧ measuredGauges.storage.queryIndex levels.schema (.number "7") [] true = []
      ∧ ∃ s, measuredGauges.storage.put (measurement "7" "7" "7") = .ok (none, s) ∧ s.count = 2 := by
  obtain ⟨ha, hb⟩ := decimal?_seven
  exact ⟨by decide +kernel, by decide +kernel, ha, hb, rfl, rfl, rfl, rfl, rfl, rfl, _, rfl, rfl⟩

end SingleTable
