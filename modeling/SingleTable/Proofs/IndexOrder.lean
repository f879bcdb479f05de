import SingleTable.Proofs.Sorted
import SingleTable.Proofs.Storage

set_option autoImplicit false

/-!
# What an index query lists

An index query looks through all partitions for the items that match, and sorts them by their place
under the index, then by their own partition value and place. Over a sound storage it lists exactly
the matching items, each once and in this order (`mem_queryIndex`, `nodup_queryIndex`,
`pairwise_queryIndex`), however the partitions are listed.
-/

namespace SingleTable

/-! ## Matching items -/

namespace KeySchema

/-- The partition value of an item as a key that can be compared. -/
def partitionOf (schema : KeySchema) (item : Item) : SortKey :=
  (item.get? schema.partition.name).elim .absent SortKey.ofValueD

/-- The item has the partition value under the schema and, where the schema has a sort key, a value
for it that satisfies all conditions. -/
def Matches (schema : KeySchema) (value : AttributeValue) (conditions : List SortCondition)
    (item : Item) : Prop :=
  item.get? schema.partition.name = some value
    ∧ match schema.sort with
      | none => ∀ c ∈ conditions, c.accepts .absent = true
      | some key => ∃ v, item.get? key.name = some v
          ∧ ∀ c ∈ conditions, c.accepts (SortKey.ofValueD v) = true

/-- The key attributes that the item has are of their declared types, and numbers among them have
texts of numbers. -/
def Sortable (schema : KeySchema) (item : Item) : Prop :=
  ∀ key ∈ schema.attributes, ∀ v, item.get? key.name = some v →
    key.Admits v ∧ (SortKey.ofValueD v).Comparable

/-- Under a schema for which the item is sortable, the item's place can be compared. -/
theorem Sortable.comparable_placeOf {schema : KeySchema} {item : Item}
    (h : schema.Sortable item) : (schema.placeOf item).Comparable := by
  obtain ⟨partition, sort⟩ := schema
  cases sort with
  | none => trivial
  | some key =>
      simp only [placeOf]
      cases hv : item.get? key.name with
      | none => trivial
      | some v => exact (h key (by simp [attributes]) v hv).2

theorem Sortable.comparable_partitionOf {schema : KeySchema} {item : Item}
    (h : schema.Sortable item) : (schema.partitionOf item).Comparable := by
  rw [partitionOf]
  cases hv : item.get? schema.partition.name with
  | none => trivial
  | some v => exact (h schema.partition (by simp [attributes]) v hv).2

/-- The sort key that an index has for an item is the place of the item under the index, where the
item has one. -/
theorem indexSort?_eq {schema : KeySchema} {item : Item} (h : schema.Sortable item) :
    Storage.indexSort? schema item
      = if schema.sort.all (fun key => (item.get? key.name).isSome) then
          some (schema.placeOf item)
        else none := by
  obtain ⟨partition, sort⟩ := schema
  cases sort with
  | none => rfl
  | some key =>
      simp only [Storage.indexSort?, placeOf, Option.all_some]
      rcases Option.eq_none_or_eq_some (item.get? key.name) with hv | ⟨v, hv⟩
      · simp only [hv]
        rfl
      · have hadm := (h key (by simp [attributes]) v hv).1
        simp only [hv, Option.bind_some, hadm.ofValue]
        rfl

/-- An item matches if it has the partition value, is part of the index, and its place under the
index satisfies all conditions. -/
theorem matches_iff {schema : KeySchema} {value : AttributeValue}
    {conditions : List SortCondition} {item : Item} :
    schema.Matches value conditions item
      ↔ item.get? schema.partition.name = some value
        ∧ schema.sort.all (fun key => (item.get? key.name).isSome) = true
        ∧ conditions.all (fun c => c.accepts (schema.placeOf item)) = true := by
  obtain ⟨partition, sort⟩ := schema
  refine and_congr_right fun _ => ?_
  rw [List.all_eq_true]
  cases sort with
  | none => exact ⟨fun h => ⟨rfl, h⟩, fun h => h.2⟩
  | some key =>
      simp only [placeOf, Option.all_some]
      cases item.get? key.name with
      | none =>
          constructor
          · rintro ⟨w, hw, -⟩
            cases hw
          · intro h
            cases h.1
      | some v =>
          constructor
          · rintro ⟨w, hw, h⟩
            cases hw
            exact ⟨rfl, h⟩
          · rintro ⟨-, h⟩
            exact ⟨v, rfl, h⟩

instance (schema : KeySchema) (value : AttributeValue) (conditions : List SortCondition)
    (item : Item) : Decidable (schema.Matches value conditions item) :=
  decidable_of_iff' _ matches_iff

end KeySchema

/-! ## The order of hits -/

namespace Storage

namespace IndexHit

instance : Std.OrientedCmp IndexHit.compare :=
  inferInstanceAs (Std.OrientedCmp
    (compareLex (compareOn IndexHit.indexSort)
      (compareLex (compareOn IndexHit.basePartition) (compareOn IndexHit.baseSort))))

/-- All three keys of a hit can be compared. -/
def Comparable (h : IndexHit) : Prop :=
  h.indexSort.Comparable ∧ h.basePartition.Comparable ∧ h.baseSort.Comparable

/-- Hits with comparable keys, on which the comparison is a total preorder. -/
abbrev Settled := { h : IndexHit // h.Comparable }

instance : Std.TransCmp (fun a b : Settled => a.1.compare b.1) :=
  inferInstanceAs (Std.TransCmp
    (compareLex (compareOn (fun h : Settled => (⟨h.1.indexSort, h.2.1⟩ : SortKey.Settled)))
      (compareLex
        (compareOn (fun h : Settled => (⟨h.1.basePartition, h.2.2.1⟩ : SortKey.Settled)))
        (compareOn (fun h : Settled => (⟨h.1.baseSort, h.2.2.2⟩ : SortKey.Settled))))))

theorem isLE_trans {a b c : IndexHit} (ha : a.Comparable) (hb : b.Comparable) (hc : c.Comparable)
    (hab : (a.compare b).isLE) (hbc : (b.compare c).isLE) : (a.compare c).isLE :=
  @Std.TransCmp.isLE_trans Settled (fun a b => a.1.compare b.1) _ ⟨a, ha⟩ ⟨b, hb⟩ ⟨c, hc⟩ hab hbc

end IndexHit

/-- The order in which an index lists items: by place under the index, then by own partition value,
then by own place. -/
def indexOrder (base index : KeySchema) (x y : Item) : Ordering :=
  (compare (index.placeOf x) (index.placeOf y)).then
    ((compare (base.partitionOf x) (base.partitionOf y)).then
      (compare (base.placeOf x) (base.placeOf y)))

/-! ## The hits of a query -/

/-- The hit of a matching entry. -/
def hitOf (schema : KeySchema) (basePartition : AttributeValue) (f : SortKey × Item) : IndexHit where
  indexSort := schema.placeOf f.2
  basePartition := SortKey.ofValueD basePartition
  baseSort := f.1
  item := f.2

theorem hit?_eq {schema : KeySchema} {f : SortKey × Item} (h : schema.Sortable f.2)
    (value : AttributeValue) (conditions : List SortCondition) (basePartition : AttributeValue) :
    hit? schema value conditions basePartition f
      = if schema.Matches value conditions f.2 then some (hitOf schema basePartition f) else none := by
  rw [hit?, KeySchema.indexSort?_eq h]
  simp only [KeySchema.matches_iff]
  by_cases hv : f.2.get? schema.partition.name = some value
  · rw [if_pos hv]
    by_cases hpart : schema.sort.all (fun key => (f.2.get? key.name).isSome) = true
    · simp only [hv, hpart, true_and]
      rfl
    · rw [if_neg hpart, if_neg (fun hm => hpart hm.2.1)]
  · rw [if_neg hv, if_neg (fun hm => hv hm.1)]

/-- The hits among the entries of one partition stand for the matching items, in order. -/
theorem map_item_filterMap {schema : KeySchema} {p : Partition}
    (hp : ∀ f ∈ p, schema.Sortable f.2) (value : AttributeValue) (conditions : List SortCondition)
    (basePartition : AttributeValue) :
    (p.filterMap (hit? schema value conditions basePartition)).map IndexHit.item
      = (p.map Prod.snd).filter (fun item => schema.Matches value conditions item) := by
  induction p with
  | nil => rfl
  | cons f p ih =>
      have hf := hit?_eq (hp f (by simp)) value conditions basePartition
      have ih := ih (fun g hg => hp g (List.mem_cons_of_mem f hg))
      rw [List.map_cons]
      by_cases hm : schema.Matches value conditions f.2
      · rw [if_pos hm] at hf
        rw [List.filterMap_cons_some hf, List.map_cons, ih, List.filter_cons_of_pos (by simpa using hm)]
        rfl
      · rw [if_neg hm] at hf
        rw [List.filterMap_cons_none hf, ih, List.filter_cons_of_neg (by simpa using hm)]

/-- An index query lists the items of its hits. -/
theorem perm_queryIndex_hits (s : Storage) (schema : KeySchema) (value : AttributeValue)
    (conditions : List SortCondition) (forward : Bool) :
    (s.queryIndex schema value conditions forward).Perm
      ((s.hits schema value conditions).map IndexHit.item) := by
  rw [queryIndex]
  refine List.Perm.map _ ?_
  cases forward with
  | true => exact perm_sortStably _ _
  | false => exact (List.reverse_perm _).trans (perm_sortStably _ _)

section

variable {s : Storage} {schema : KeySchema} (hi : ∀ item ∈ s.items, schema.Sortable item)
  (value : AttributeValue) (conditions : List SortCondition)

include hi

/-- The hits stand for the matching items, in the order in which these are stored. -/
theorem map_item_hits :
    (s.hits schema value conditions).map IndexHit.item
      = s.items.filter (fun item => schema.Matches value conditions item) := by
  have hsortable : ∀ e ∈ s.partitions, ∀ f ∈ e.2, schema.Sortable f.2 := by
    intro e he f hf
    exact hi f.2 (List.mem_flatMap.mpr ⟨e, he, List.mem_map_of_mem hf⟩)
  rw [hits, items, List.map_flatMap, List.filter_flatMap]
  generalize s.partitions = partitions at hsortable
  induction partitions with
  | nil => rfl
  | cons e partitions ih =>
      rw [List.flatMap_cons, List.flatMap_cons, ih (fun f hf => hsortable f (List.mem_cons_of_mem e hf)),
        map_item_filterMap (hsortable e (by simp))]

/-! ## The listed items -/

theorem perm_queryIndex (forward : Bool) :
    (s.queryIndex schema value conditions forward).Perm
      (s.items.filter (fun item => schema.Matches value conditions item)) := by
  rw [← map_item_hits hi]
  exact perm_queryIndex_hits s schema value conditions forward

/-- An index query lists exactly the stored items that match. -/
theorem mem_queryIndex {forward : Bool} {item : Item} :
    item ∈ s.queryIndex schema value conditions forward
      ↔ item ∈ s.items ∧ schema.Matches value conditions item := by
  rw [(perm_queryIndex hi value conditions forward).mem_iff, List.mem_filter, decide_eq_true_eq]

variable (h : s.Sound)

include h

/-- An index query lists no item twice. -/
theorem nodup_queryIndex (forward : Bool) :
    (s.queryIndex schema value conditions forward).Nodup :=
  (perm_queryIndex hi value conditions forward).nodup_iff.mpr (h.nodup_items.filter _)

/-- A hit stands for an entry of a partition whose item matches. -/
theorem mem_hits {hit : IndexHit} (hmem : hit ∈ s.hits schema value conditions) :
    ∃ v, ∃ f ∈ s.partition v, schema.Matches value conditions f.2 ∧ hit = hitOf schema v f := by
  obtain ⟨⟨v, p⟩, he, hmem⟩ := List.mem_flatMap.mp hmem
  obtain ⟨f, hf, hhit⟩ := List.mem_filterMap.mp hmem
  obtain rfl := (h.mem_iff.mp he).2
  rw [hit?_eq (hi f.2 (h.mem_items.mpr ⟨v, f, hf, rfl⟩))] at hhit
  split at hhit
  · rename_i hmatch
    cases hhit
    exact ⟨v, f, hf, hmatch, rfl⟩
  · cases hhit

/-- An index query lists items in the order of the index. Their own partition values have to be
comparable too. -/
theorem pairwise_queryIndex (hb : ∀ item ∈ s.items, (s.schema.partitionOf item).Comparable) :
    (s.queryIndex schema value conditions true).Pairwise
      (fun x y => (indexOrder s.schema schema x y).isLE) := by
  have hhit : ∀ hit ∈ s.hits schema value conditions, hit.Comparable := by
    intro hit hmem
    obtain ⟨v, f, hf, -, rfl⟩ := mem_hits hi value conditions h hmem
    have hitem := h.mem_items.mpr ⟨v, f, hf, rfl⟩
    have hpart := hb f.2 hitem
    rw [KeySchema.partitionOf, (h.entry hf).2.1] at hpart
    exact ⟨(hi f.2 hitem).comparable_placeOf, hpart, (h.ordered_partition v).comparable f hf⟩
  have hsorted := @pairwise_sortStably_compare _ IndexHit.compare _ IndexHit.Comparable
    IndexHit.isLE_trans _ hhit
  refine List.pairwise_map.mpr (hsorted.imp_of_mem ?_)
  intro a b ha hb hab
  -- the keys of a hit are those of its item, the last one up to equal places
  obtain ⟨v, f, hf, -, rfl⟩ := mem_hits hi value conditions h ((perm_sortStably _ _).mem_iff.mp ha)
  obtain ⟨w, g, hg, -, rfl⟩ := mem_hits hi value conditions h ((perm_sortStably _ _).mem_iff.mp hb)
  have hfpart : s.schema.partitionOf f.2 = SortKey.ofValueD v := by
    rw [KeySchema.partitionOf, (h.entry hf).2.1]
    rfl
  have hgpart : s.schema.partitionOf g.2 = SortKey.ofValueD w := by
    rw [KeySchema.partitionOf, (h.entry hg).2.1]
    rfl
  show (indexOrder s.schema schema f.2 g.2).isLE = true
  rw [indexOrder, hfpart, hgpart, h.compare_placeOf hf hg]
  exact hab

end

/-- Backward, an index query lists the same items in reverse. -/
theorem queryIndex_false (s : Storage) (schema : KeySchema) (value : AttributeValue)
    (conditions : List SortCondition) :
    s.queryIndex schema value conditions false
      = (s.queryIndex schema value conditions true).reverse :=
  List.map_reverse

end Storage

end SingleTable
