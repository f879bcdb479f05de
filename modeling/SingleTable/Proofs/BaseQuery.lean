import SingleTable.Proofs.IndexOrder
import SingleTable.Proofs.RangeSearch

set_option autoImplicit false

/-!
# What a query of a partition lists

A query of a sound storage lists exactly the items of the partition whose places satisfy all
conditions, in strictly ascending order of place. An index under the table's own schema gives the same
list (`queryIndex_eq_query`).
-/

namespace SingleTable

namespace Storage

namespace Sound

variable {s : Storage} (h : s.Sound) (value : AttributeValue) {conditions : List SortCondition}
  (hc : ∀ c ∈ conditions, c.Comparable)

include h

/-- Two stored items with one partition value and one place are the same. -/
theorem eq_of_same_place {x y : Item} (hx : x ∈ s.items) (hy : y ∈ s.items)
    (hpart : x.get? s.schema.partition.name = y.get? s.schema.partition.name)
    (hplace : compare (s.schema.placeOf x) (s.schema.placeOf y) = .eq) : x = y := by
  obtain ⟨v, f, hf, rfl⟩ := h.mem_items.mp hx
  obtain ⟨w, g, hg, rfl⟩ := h.mem_items.mp hy
  rw [(h.entry hf).2.1, (h.entry hg).2.1] at hpart
  obtain rfl : v = w := Option.some.inj hpart
  rw [h.compare_placeOf hf hg] at hplace
  rw [(h.ordered_partition v).eq_of_same hf hg hplace]

include hc

theorem query_eq :
    s.query value conditions true
      = ((s.partition value).filter (fun f => conditions.all (fun c => c.accepts f.1))).map
          Prod.snd :=
  Partition.select_eq_filter (h.ordered_partition value) hc

/-- A query lists exactly the items of the partition that satisfy all conditions. -/
theorem mem_query {item : Item} :
    item ∈ s.query value conditions true
      ↔ item ∈ s.items ∧ item.get? s.schema.partition.name = some value
        ∧ ∀ c ∈ conditions, c.accepts (s.schema.placeOf item) = true := by
  have haccepts : ∀ f ∈ s.partition value, ∀ c ∈ conditions,
      c.accepts f.1 = c.accepts (s.schema.placeOf f.2) := by
    intro f hf c hcmem
    obtain ⟨-, -, hplace, heq⟩ := h.entry hf
    have hf1 := (h.ordered_partition value).comparable f hf
    exact (SortCondition.accepts_congr (hc c hcmem) hplace hf1 heq).symm
  rw [h.query_eq value hc, List.mem_map]
  -- conditions are tested on the keys of entries, and these are for the places of the items
  constructor
  · rintro ⟨f, hf, rfl⟩
    obtain ⟨hf, hall⟩ := List.mem_filter.mp hf
    refine ⟨h.mem_items.mpr ⟨value, f, hf, rfl⟩, (h.entry hf).2.1, fun c hcmem => ?_⟩
    rw [← haccepts f hf c hcmem]
    exact List.all_eq_true.mp hall c hcmem
  · rintro ⟨hitem, hpart, hall⟩
    obtain ⟨v, f, hf, rfl⟩ := h.mem_items.mp hitem
    rw [(h.entry hf).2.1] at hpart
    obtain rfl : v = value := Option.some.inj hpart
    refine ⟨f, List.mem_filter.mpr ⟨hf, List.all_eq_true.mpr fun c hcmem => ?_⟩, rfl⟩
    rw [haccepts f hf c hcmem]
    exact hall c hcmem

omit hc

/-- A query lists items in strictly ascending order of place, whatever the conditions are. -/
theorem pairwise_query (conditions : List SortCondition) :
    (s.query value conditions true).Pairwise
      (fun x y => compare (s.schema.placeOf x) (s.schema.placeOf y) = .lt) :=
  (List.pairwise_map.mpr (h.ascending value)).sublist (Partition.select_sublist _ conditions)

/-- How the partitions are listed does not matter for a look-up or a query. -/
theorem partition_perm {partitions : List (AttributeValue × Partition)}
    (hp : partitions.Perm s.partitions) (v : AttributeValue) :
    Storage.partition { s with partitions } v = s.partition v := by
  have hs := h.perm hp
  by_cases hnil : s.partition v = []
  · rw [hnil]
    by_contra hne
    have hmem := hp.mem_iff.mp (hs.mem_iff.mpr ⟨hne, rfl⟩)
    exact hne ((h.mem_iff.mp hmem).2.symm.trans hnil)
  · have hmem := hp.mem_iff.mpr (h.mem_iff.mpr ⟨hnil, rfl⟩)
    exact (hs.mem_iff.mp hmem).2

end Sound

/-- Under the table's own schema an item matches if it has the partition value and its place
satisfies all conditions. -/
theorem Sound.matches_own_schema {s : Storage} (h : s.Sound) {value : AttributeValue}
    {conditions : List SortCondition} {item : Item} (hitem : item ∈ s.items) :
    s.schema.Matches value conditions item
      ↔ item.get? s.schema.partition.name = some value
        ∧ ∀ c ∈ conditions, c.accepts (s.schema.placeOf item) = true := by
  obtain ⟨v, f, hf, rfl⟩ := h.mem_items.mp hitem
  have hfits := (h.entry hf).1
  have hsort : s.schema.sort.all (fun key => (f.2.get? key.name).isSome) = true := by
    cases hkey : s.schema.sort with
    | none => rfl
    | some key =>
        obtain ⟨w, hw, -⟩ := hfits key (by simp [KeySchema.attributes, hkey])
        rw [Option.all_some, hw]
        rfl
  rw [KeySchema.matches_iff, List.all_eq_true, hsort]
  exact and_congr_right fun _ => ⟨fun hm => hm.2, fun hm => ⟨rfl, hm⟩⟩

/-- An index under the table's own schema lists what a query of the table lists. -/
theorem queryIndex_eq_query {s : Storage} (h : s.Sound)
    (hi : ∀ item ∈ s.items, s.schema.Sortable item) (value : AttributeValue)
    {conditions : List SortCondition} (hc : ∀ c ∈ conditions, c.Comparable) (forward : Bool) :
    s.queryIndex s.schema value conditions forward = s.query value conditions forward := by
  have hmem : ∀ item, item ∈ s.queryIndex s.schema value conditions true
      ↔ item ∈ s.query value conditions true := by
    intro item
    rw [mem_queryIndex hi, h.mem_query value hc]
    exact and_congr_right fun hitem => h.matches_own_schema hitem
  have hindex : (s.queryIndex s.schema value conditions true).Pairwise
      (fun x y => (compare (s.schema.placeOf x) (s.schema.placeOf y)).isLE = true) := by
    refine (pairwise_queryIndex hi value conditions h ?_).imp Ordering.isLE_left_of_isLE_then
    exact fun item hitem => (hi item hitem).comparable_partitionOf
  have hquery : (s.query value conditions true).Pairwise
      (fun x y => (compare (s.schema.placeOf x) (s.schema.placeOf y)).isLE = true) := by
    refine (h.pairwise_query value conditions).imp ?_
    intro x y hlt
    rw [hlt]
    rfl
  have hperm : (s.queryIndex s.schema value conditions true).Perm
      (s.query value conditions true) := by
    refine (List.perm_ext_iff_of_nodup (nodup_queryIndex hi value conditions h true) ?_).mpr hmem
    refine (h.pairwise_query value conditions).imp ?_
    rintro x y hlt rfl
    rw [SortKey.compare_self] at hlt
    cases hlt
  have hforward : s.queryIndex s.schema value conditions true = s.query value conditions true := by
    refine List.Perm.eq_of_pairwise ?_ hindex hquery hperm
    -- items of one partition at one place are the same
    intro x y hx hy hxy hyx
    obtain ⟨hx, hxpart, -⟩ := (h.mem_query value hc).mp ((hmem x).mp hx)
    obtain ⟨hy, hypart, -⟩ := (h.mem_query value hc).mp hy
    refine h.eq_of_same_place hx hy (hxpart.trans hypart.symm) ?_
    rw [SortKey.compare_swap, Ordering.isLE_swap] at hyx
    revert hxy hyx
    cases compare (s.schema.placeOf x) (s.schema.placeOf y) <;> decide
  cases forward with
  | true => exact hforward
  | false =>
      rw [queryIndex_false, hforward]
      rfl

end Storage

end SingleTable
