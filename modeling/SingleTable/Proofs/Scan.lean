import SingleTable.Proofs.Sorted
import SingleTable.Proofs.Storage

set_option autoImplicit false

/-!
# Listing a table

A scan lists the partitions one after the other. It shows every stored item exactly once, the items
of one partition in ascending order of place, and no partition directly after one that its value comes
before (`Sound.isListing_scan`). Where all partition values are comparable, the partitions ascend.
-/

namespace SingleTable

/-! ## Listings -/

/-- A list of items shows the items in `live` under a schema: each of them exactly once, partition by
partition, the items of a partition in ascending order of place, and the partitions in order of
their values. -/
structure IsListing (schema : KeySchema) (live : Item → Prop) (items : List Item) : Prop where
  nodup : items.Nodup
  mem_iff : ∀ item, item ∈ items ↔ live item
  blocks : ∃ blocks : List (AttributeValue × List Item),
    items = blocks.flatMap Prod.snd
      ∧ (blocks.map Prod.fst).Nodup
      ∧ (∀ b ∈ blocks, ∀ item ∈ b.2, item.get? schema.partition.name = some b.1)
      ∧ (∀ b ∈ blocks,
          b.2.Pairwise (fun x y => compare (schema.placeOf x) (schema.placeOf y) = .lt))
      ∧ blocks.IsChain (fun b c => (SortKey.ofValueD c.1).before (SortKey.ofValueD b.1) = false)
      ∧ ((∀ b ∈ blocks, (SortKey.ofValueD b.1).Comparable) →
          blocks.Pairwise
            (fun b c => (SortKey.ofValueD c.1).before (SortKey.ofValueD b.1) = false))

namespace Storage

/-- The partitions in the order in which a scan lists them. -/
def scanOrder (s : Storage) : List (AttributeValue × Partition) :=
  sortStably (fun a b => (SortKey.ofValueD a.1).before (SortKey.ofValueD b.1)) s.partitions

theorem perm_scanOrder (s : Storage) : s.scanOrder.Perm s.partitions := perm_sortStably _ _

/-- A scan shows all stored items. -/
theorem perm_scan (s : Storage) : s.scan.Perm s.items := s.perm_scanOrder.flatMap_right _

/-- A scan of a sound storage is a listing of the stored items. -/
theorem Sound.isListing_scan {s : Storage} (h : s.Sound) :
    IsListing s.schema (· ∈ s.items) s.scan where
  nodup := s.perm_scan.nodup_iff.mpr h.nodup_items
  mem_iff item := s.perm_scan.mem_iff
  blocks := by
    have hmem : ∀ e ∈ s.scanOrder, s.partition e.1 = e.2 :=
      fun e he => (h.mem_iff.mp (s.perm_scanOrder.mem_iff.mp he)).2
    refine ⟨s.scanOrder.map (fun e => (e.1, e.2.map Prod.snd)), ?_, ?_, ?_, ?_, ?_, ?_⟩
    · rw [List.flatMap_map]
      rfl
    · rw [List.map_map]
      exact (s.perm_scanOrder.map Prod.fst).nodup_iff.mpr h.distinct
    · rw [List.forall_mem_map]
      intro e he item hitem
      obtain ⟨f, hf, rfl⟩ := List.mem_map.mp hitem
      exact (h.entry (hmem e he ▸ hf)).2.1
    · rw [List.forall_mem_map]
      intro e he
      exact List.pairwise_map.mpr (hmem e he ▸ h.ascending e.1)
    · rw [List.isChain_map]
      exact isChain_sortStably (fun a b => SortKey.before_asymm) s.partitions
    · rw [List.forall_mem_map, List.pairwise_map]
      intro hcomp
      let value (e : AttributeValue × Partition) : SortKey := SortKey.ofValueD e.1
      have hsorted : s.scanOrder.Pairwise (fun e f => (compare (value e) (value f)).isLE) := by
        refine @pairwise_sortStably_compare _ (compareOn value) _ (fun e => (value e).Comparable)
          ?_ _ ?_
        · exact fun ha hb hc hab hbc => SortKey.isLE_trans ha hb hc hab hbc
        · exact fun e he => hcomp e (s.perm_scanOrder.mem_iff.mpr he)
      exact hsorted.imp SortKey.before_eq_false_iff.mpr

end Storage

end SingleTable
