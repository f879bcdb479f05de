import SingleTable.Proofs.ItemKeys
import SingleTable.Proofs.Partition

set_option autoImplicit false

/-!
# Storage as a map from keys to items

A storage that was only ever written under comparable keys is *sound* (`Storage.Sound`): every item
stands under the key that it carries, partitions ascend, and none is empty. A sound storage is a map
from primary keys to items, where keys count as equal if they address the same place
(`PrimaryKey.same`). `get?_putAt` and `get?_delete` say what a write does to every look-up;
`mem_items_iff` says that the stored items are what the look-ups find.
-/

namespace SingleTable

/-! ## Partitions by value -/

/-- The number of entries in all partitions. -/
def Partition.total (partitions : List (AttributeValue × Partition)) : Nat :=
  (partitions.flatMap Prod.snd).length

namespace Storage

section

variable {partitions : List (AttributeValue × Partition)} {value : AttributeValue}

theorem mem_setPartition (h : (partitions.map Prod.fst).Nodup) {p : Partition}
    {e : AttributeValue × Partition} (he : e ∈ setPartition partitions value p) :
    (e = (value, p) ∧ p ≠ []) ∨ (e ∈ partitions ∧ e.1 ≠ value) := by
  induction partitions with
  | nil =>
      rw [setPartition] at he
      split at he
      · cases he
      · rename_i hp
        exact Or.inl ⟨List.mem_singleton.mp he, by simpa using hp⟩
  | cons f partitions ih =>
      obtain ⟨hf, hrest⟩ := List.nodup_cons.mp h
      rw [setPartition] at he
      split at he
      · rename_i hfv
        -- the entry of `value` stands here, so none of the later ones has this value
        have hne : ∀ g ∈ partitions, g.1 ≠ value :=
          fun g hg heq => hf (hfv.trans heq.symm ▸ List.mem_map_of_mem hg)
        split at he
        · exact Or.inr ⟨List.mem_cons_of_mem f he, hne e he⟩
        · rename_i hp
          rcases List.mem_cons.mp he with rfl | he
          · exact Or.inl ⟨rfl, by simpa using hp⟩
          · exact Or.inr ⟨List.mem_cons_of_mem f he, hne e he⟩
      · rename_i hfv
        rcases List.mem_cons.mp he with rfl | he
        · exact Or.inr ⟨by simp, hfv⟩
        · exact (ih hrest he).imp_right (fun ⟨h, hne⟩ => ⟨List.mem_cons_of_mem f h, hne⟩)

/-- Whatever is listed, a partition that is set replaces others or stands with them. -/
theorem eq_or_mem_of_mem_setPartition {p : Partition} {e : AttributeValue × Partition}
    (he : e ∈ setPartition partitions value p) : e = (value, p) ∨ e ∈ partitions := by
  induction partitions with
  | nil =>
      rw [setPartition] at he
      split at he
      · cases he
      · exact Or.inl (List.mem_singleton.mp he)
  | cons f partitions ih =>
      rw [setPartition] at he
      split at he
      · split at he
        · exact Or.inr (List.mem_cons_of_mem f he)
        · exact (List.mem_cons.mp he).imp_right (List.mem_cons_of_mem f)
      · rcases List.mem_cons.mp he with rfl | he
        · exact Or.inr List.mem_cons_self
        · exact (ih he).imp_right (List.mem_cons_of_mem f)

/-- A partition with entries is found under its value once it has been set. -/
theorem lookup_setPartition_self {p : Partition} (hp : p ≠ []) :
    (setPartition partitions value p).lookup value = some p := by
  have hempty : ¬ p.isEmpty = true := by rwa [List.isEmpty_iff]
  induction partitions with
  | nil => rw [setPartition, if_neg hempty, lookup_cons_eq_ite, if_pos rfl]
  | cons f partitions ih =>
      rw [setPartition]
      split
      · rw [lookup_cons_eq_ite, if_pos rfl]
      · rename_i hf
        rw [lookup_cons_eq_ite, if_neg (Ne.symm hf), ih]

/-- Of two partitions with entries that are set under one value the later one stays. -/
theorem setPartition_setPartition {p q : Partition} (hp : p ≠ []) (hq : q ≠ []) :
    setPartition (setPartition partitions value p) value q = setPartition partitions value q := by
  have hp : ¬ p.isEmpty = true := by rwa [List.isEmpty_iff]
  have hq : ¬ q.isEmpty = true := by rwa [List.isEmpty_iff]
  induction partitions with
  | nil =>
      rw [setPartition, setPartition, if_neg hp, if_neg hq, setPartition, if_pos rfl, if_neg hq]
  | cons f partitions ih =>
      rw [setPartition, setPartition]
      by_cases hf : f.1 = value
      · rw [if_pos hf, if_neg hp, if_pos hf, if_neg hq, setPartition, if_pos rfl, if_neg hq]
      · rw [if_neg hf, if_neg hf, setPartition, if_neg hf, ih]

theorem nodup_setPartition (h : (partitions.map Prod.fst).Nodup) (p : Partition) :
    ((setPartition partitions value p).map Prod.fst).Nodup := by
  induction partitions with
  | nil =>
      rw [setPartition]
      split <;> simp
  | cons f partitions ih =>
      obtain ⟨hf, hrest⟩ := List.nodup_cons.mp h
      rw [setPartition]
      split
      · rename_i hfv
        split
        · exact hrest
        · exact List.nodup_cons.mpr ⟨by simpa [← hfv] using hf, hrest⟩
      · rename_i hfv
        refine List.nodup_cons.mpr ⟨?_, ih hrest⟩
        intro hmem
        obtain ⟨e, he, hef⟩ := List.mem_map.mp hmem
        rcases mem_setPartition hrest he with ⟨rfl, -⟩ | ⟨he, -⟩
        · exact hfv hef.symm
        · exact hf (hef ▸ List.mem_map_of_mem he)

/-- Where no value is listed twice, exactly the partition of the given value is replaced. -/
theorem lookup_setPartition (h : (partitions.map Prod.fst).Nodup) (p : Partition)
    (w : AttributeValue) :
    ((setPartition partitions value p).lookup w).getD []
      = if w = value then p else (partitions.lookup w).getD [] := by
  induction partitions with
  | nil =>
      rw [setPartition]
      split
      · rename_i hp
        rw [List.isEmpty_iff.mp hp]
        simp
      · rw [lookup_cons_eq_ite]
        split <;> rfl
  | cons f partitions ih =>
      obtain ⟨v, q⟩ := f
      obtain ⟨hv, hrest⟩ := List.nodup_cons.mp h
      rw [setPartition]
      split
      · rename_i hvv
        have hvv : v = value := hvv
        subst hvv
        split
        · rename_i hp
          rw [List.isEmpty_iff.mp hp]
          by_cases hw : w = v
          · -- the partition that is dropped was the only one of its value
            subst hw
            have hnone : partitions.lookup w = none := by
              refine Option.eq_none_iff_forall_ne_some.mpr fun r hr => hv ?_
              exact List.mem_map.mpr ⟨_, (lookup_eq_some_iff hrest).mp hr, rfl⟩
            rw [hnone, if_pos rfl]
            rfl
          · rw [lookup_cons_eq_ite, if_neg hw, if_neg hw]
        · rw [lookup_cons_eq_ite, lookup_cons_eq_ite]
          split <;> rfl
      · rename_i hvv
        have hvv : v ≠ value := hvv
        rw [lookup_cons_eq_ite, lookup_cons_eq_ite]
        by_cases hw : w = v
        · rw [if_pos hw, if_pos hw, if_neg (hw ▸ hvv)]
        · rw [if_neg hw, if_neg hw, ih hrest]

theorem total_setPartition (p : Partition) :
    Partition.total (setPartition partitions value p) + ((partitions.lookup value).getD []).length
      = Partition.total partitions + p.length := by
  induction partitions with
  | nil =>
      rw [setPartition]
      split
      · rename_i hp
        rw [List.isEmpty_iff.mp hp]
        rfl
      · simp [Partition.total]
  | cons f partitions ih =>
      obtain ⟨v, q⟩ := f
      rw [setPartition, lookup_cons_eq_ite]
      simp only [Partition.total, List.flatMap_cons, List.length_append] at ih ⊢
      split
      · rename_i hvv
        rw [if_pos (Eq.symm hvv)]
        split
        · rename_i hp
          rw [List.isEmpty_iff.mp hp]
          simp only [Option.getD_some, List.length_nil]
          omega
        · simp only [Option.getD_some, List.flatMap_cons, List.length_append]
          omega
      · rename_i hvv
        rw [if_neg (Ne.symm hvv)]
        simp only [List.flatMap_cons, List.length_append]
        omega

end

/-! ## Soundness -/

/-- What every write keeps: no partition is listed twice or empty, each one ascends, every item
stands under the key that it carries, and the count is right. -/
structure Sound (s : Storage) : Prop where
  distinct : (s.partitions.map Prod.fst).Nodup
  nonempty : ∀ e ∈ s.partitions, e.2 ≠ []
  ordered : ∀ e ∈ s.partitions, e.2.Ordered
  keyed : ∀ e ∈ s.partitions, ∀ f ∈ e.2, ∃ key, s.schema.extract f.2 = .ok key ∧
    key.partition = e.1 ∧ key.place.Comparable ∧ compare key.place f.1 = .eq
  counted : s.count = Partition.total s.partitions

theorem sound_empty (schema : KeySchema) : Sound { schema } :=
  ⟨List.nodup_nil, by simp, by simp, by simp, rfl⟩

namespace Sound

variable {s : Storage} (h : s.Sound)

include h

theorem mem_iff {v : AttributeValue} {p : Partition} :
    (v, p) ∈ s.partitions ↔ p ≠ [] ∧ s.partition v = p := by
  rw [← lookup_eq_some_iff h.distinct, partition]
  constructor
  · intro hl
    exact ⟨h.nonempty _ ((lookup_eq_some_iff h.distinct).mp hl), by rw [hl]; rfl⟩
  · rintro ⟨hp, rfl⟩
    cases hl : s.partitions.lookup v with
    | none => rw [hl] at hp; exact absurd rfl hp
    | some q => rfl

theorem ordered_partition (v : AttributeValue) : (s.partition v).Ordered := by
  by_cases hp : s.partition v = []
  · rw [hp]
    exact Partition.ordered_nil
  · exact h.ordered _ (h.mem_iff.mpr ⟨hp, rfl⟩)

theorem keyed_partition {v : AttributeValue} {f : SortKey × Item} (hf : f ∈ s.partition v) :
    ∃ key, s.schema.extract f.2 = .ok key ∧ key.partition = v ∧ key.place.Comparable
      ∧ compare key.place f.1 = .eq :=
  h.keyed _ (h.mem_iff.mpr ⟨List.ne_nil_of_mem hf, rfl⟩) f hf

/-- A write to one partition keeps a storage sound if the new partition is sound by itself. -/
theorem setPartition {v : AttributeValue} {p : Partition} (hp : p.Ordered)
    (hkeyed : ∀ f ∈ p, ∃ key, s.schema.extract f.2 = .ok key ∧ key.partition = v ∧
      key.place.Comparable ∧ compare key.place f.1 = .eq)
    {count : Nat} (hcount : count + (s.partition v).length = s.count + p.length) :
    Sound { s with partitions := Storage.setPartition s.partitions v p, count } where
  distinct := nodup_setPartition h.distinct p
  nonempty e he := by
    rcases mem_setPartition h.distinct he with ⟨rfl, hne⟩ | ⟨he, -⟩
    · exact hne
    · exact h.nonempty e he
  ordered e he := by
    rcases mem_setPartition h.distinct he with ⟨rfl, -⟩ | ⟨he, -⟩
    · exact hp
    · exact h.ordered e he
  keyed e he f hf := by
    rcases mem_setPartition h.distinct he with ⟨rfl, -⟩ | ⟨he, -⟩
    · exact hkeyed f hf
    · exact h.keyed e he f hf
  counted := by
    have htotal := @total_setPartition s.partitions v p
    have hlen : (s.partition v).length = ((s.partitions.lookup v).getD []).length := rfl
    have hc := h.counted
    show count = Partition.total (Storage.setPartition s.partitions v p)
    omega

end Sound

/-! ## Writes and look-ups -/

/-- The storage with an item under a key. -/
def putAt (s : Storage) (key : PrimaryKey) (item : Item) : Storage :=
  { s with
    partitions :=
      setPartition s.partitions key.partition ((s.partition key.partition).insert key.place item)
    count := if (s.get? key).isSome then s.count else s.count + 1 }

theorem put_of_extract {s : Storage} {item : Item} {key : PrimaryKey}
    (h : s.schema.extract item = .ok key) : s.put item = .ok (s.get? key, s.putAt key item) := by
  rw [put, h]
  rfl

@[simp] theorem delete_schema (s : Storage) (key : PrimaryKey) :
    (s.delete key).2.schema = s.schema := by
  rw [delete]
  split <;> rfl

/-- The partition that an item is put into, whatever the storage holds. -/
theorem partition_putAt_self (s : Storage) (key : PrimaryKey) (item : Item) :
    (s.putAt key item).partition key.partition
      = (s.partition key.partition).insert key.place item := by
  rw [partition, putAt, lookup_setPartition_self (Partition.insert_ne_nil _ _ _)]
  rfl

/-- An item that has been put is found under the key that it was put under, whatever the storage
holds. -/
theorem get?_putAt_self (s : Storage) (key : PrimaryKey) (item : Item) :
    (s.putAt key item).get? key = some item := by
  rw [get?, partition_putAt_self, Partition.get?_insert_self]

/-- Of two items that are put under the same key the later one stays. -/
theorem putAt_putAt (s : Storage) (key : PrimaryKey) (item item' : Item) :
    (s.putAt key item).putAt key item' = s.putAt key item' := by
  rw [putAt, get?_putAt_self, partition_putAt_self, Partition.insert_insert]
  simp only [putAt, Option.isSome_some, if_true,
    setPartition_setPartition (Partition.insert_ne_nil _ _ _) (Partition.insert_ne_nil _ _ _)]

theorem partition_putAt {s : Storage} (h : s.Sound) (key : PrimaryKey) (item : Item)
    (v : AttributeValue) :
    (s.putAt key item).partition v
      = if v = key.partition then (s.partition key.partition).insert key.place item
        else s.partition v :=
  lookup_setPartition h.distinct _ v

theorem partition_delete {s : Storage} (h : s.Sound) (key : PrimaryKey) (v : AttributeValue) :
    (s.delete key).2.partition v
      = if v = key.partition ∧ (s.get? key).isSome then (s.partition key.partition).erase key.place
        else s.partition v := by
  rw [delete]
  cases s.get? key with
  | none => simp
  | some old =>
      simp only [Option.isSome_some, and_true]
      exact lookup_setPartition h.distinct _ v

/-- After a put the item is found under its key, and nothing changes under any other key. -/
theorem get?_putAt {s : Storage} (h : s.Sound) {key k : PrimaryKey} (hkey : key.place.Comparable)
    (hk : k.place.Comparable) (item : Item) :
    (s.putAt key item).get? k = if k.same key then some item else s.get? k := by
  rw [get?, partition_putAt h, PrimaryKey.same]
  by_cases hv : k.partition = key.partition
  · rw [if_pos hv, Partition.get?_insert (h.ordered_partition _) hkey hk, decide_eq_true hv,
      Bool.true_and, get?, hv]
  · rw [if_neg hv, decide_eq_false hv, Bool.false_and]
    rfl

/-- After a delete nothing is found under the key, and nothing changes under any other key. -/
theorem get?_delete {s : Storage} (h : s.Sound) {key k : PrimaryKey} (hkey : key.place.Comparable)
    (hk : k.place.Comparable) :
    (s.delete key).2.get? k = if k.same key then none else s.get? k := by
  rw [get?, partition_delete h, PrimaryKey.same]
  by_cases hv : k.partition = key.partition
  · have hord := h.ordered_partition key.partition
    have hkget : s.get? k = (s.partition key.partition).get? k.place := by rw [get?, hv]
    rw [decide_eq_true hv, Bool.true_and, hkget]
    cases hget : s.get? key with
    | some old =>
        rw [if_pos ⟨hv, rfl⟩]
        exact Partition.get?_erase hord hkey hk
    | none =>
        -- nothing stands there, and so nothing is found under a key for the same place
        rw [if_neg (by simp), hv]
        split
        · rename_i hsame
          rw [Partition.get?_congr hord hk hkey (SortKey.same_iff.mp hsame)]
          exact hget
        · rfl
  · rw [if_neg (fun hc => hv hc.1), decide_eq_false hv, Bool.false_and]
    rfl

/-! ## Writes keep a storage sound -/

theorem Sound.putAt {s : Storage} (h : s.Sound) {item : Item} {key : PrimaryKey}
    (hkey : s.schema.extract item = .ok key) (hc : key.place.Comparable) :
    (s.putAt key item).Sound := by
  have hord := h.ordered_partition key.partition
  refine h.setPartition (hord.insert hc item) ?_ ?_
  · intro f hf
    rcases Partition.mem_insert hf with ⟨rfl, hkf⟩ | hf
    · -- an entry whose item is replaced keeps its key, which is one for the same place
      refine ⟨key, hkey, rfl, hc, ?_⟩
      rcases hkf with hkf | hkf
      · rw [hkf]
        exact SortKey.compare_self key.place
      · exact hkf
    · exact h.keyed_partition hf
  · -- the count grows exactly if the place was free
    rw [get?]
    cases hget : (s.partition key.partition).get? key.place with
    | none =>
        rw [Partition.length_insert_of_none hget]
        simp only [Option.isSome_none, Bool.false_eq_true, if_false]
        omega
    | some old =>
        rw [Partition.length_insert_of_some hget]
        rfl

theorem Sound.delete {s : Storage} (h : s.Sound) (key : PrimaryKey) : (s.delete key).2.Sound := by
  rw [Storage.delete]
  cases hget : s.get? key with
  | none => exact h
  | some old =>
      have hord := h.ordered_partition key.partition
      have hsub := Partition.erase_sublist (s.partition key.partition) key.place
      have hlen := Partition.length_erase hget
      have htotal := @total_setPartition s.partitions key.partition
        ((s.partition key.partition).erase key.place)
      have hpart : ((s.partitions.lookup key.partition).getD []).length
          = (s.partition key.partition).length := rfl
      have hcount := h.counted
      refine h.setPartition (hord.sublist hsub) ?_ ?_
      · exact fun f hf => h.keyed_partition (hsub.subset hf)
      · omega

/-- The partitions may be listed in any order. -/
theorem Sound.perm {s : Storage} (h : s.Sound) {partitions : List (AttributeValue × Partition)}
    (hp : partitions.Perm s.partitions) : Sound { s with partitions } where
  distinct := (hp.map Prod.fst).nodup_iff.mpr h.distinct
  nonempty e he := h.nonempty e (hp.mem_iff.mp he)
  ordered e he := h.ordered e (hp.mem_iff.mp he)
  keyed e he := h.keyed e (hp.mem_iff.mp he)
  counted := h.counted.trans (hp.flatMap_right Prod.snd).length_eq.symm

/-! ## The stored items -/

/-- All stored items, partition by partition. -/
def items (s : Storage) : List Item := s.partitions.flatMap (fun e => e.2.map Prod.snd)

theorem length_items (s : Storage) : s.items.length = Partition.total s.partitions := by
  simp [items, Partition.total, List.length_flatMap]

section

variable {s : Storage}

/-- The entries of a partition are listed under its value. -/
theorem exists_of_mem_partition {v : AttributeValue} {f : SortKey × Item}
    (hf : f ∈ s.partition v) : ∃ p, (v, p) ∈ s.partitions ∧ f ∈ p := by
  rw [partition] at hf
  cases hl : s.partitions.lookup v with
  | none =>
      rw [hl] at hf
      cases hf
  | some p =>
      rw [hl] at hf
      obtain ⟨before, after, hsplit, -⟩ := List.lookup_eq_some_iff.mp hl
      refine ⟨p, ?_, hf⟩
      rw [hsplit]
      exact List.mem_append_right before List.mem_cons_self

theorem mem_items_of_mem_partition {v : AttributeValue} {f : SortKey × Item}
    (hf : f ∈ s.partition v) : f.2 ∈ s.items := by
  obtain ⟨p, hp, hfp⟩ := exists_of_mem_partition hf
  exact List.mem_flatMap.mpr ⟨(v, p), hp, List.mem_map_of_mem hfp⟩

/-- What is found is a stored item. -/
theorem mem_items_of_get? {key : PrimaryKey} {item : Item} (h : s.get? key = some item) :
    item ∈ s.items := by
  obtain ⟨f, hf, -, rfl⟩ := Partition.mem_of_get? h
  exact mem_items_of_mem_partition hf

/-- The items of a storage in which a partition has been set. -/
theorem mem_items_setPartition {v : AttributeValue} {p : Partition} {count : Nat} {item : Item}
    (h : item ∈ items { s with partitions := setPartition s.partitions v p, count }) :
    (∃ f ∈ p, f.2 = item) ∨ item ∈ s.items := by
  obtain ⟨e, he, hitem⟩ := List.mem_flatMap.mp h
  rcases eq_or_mem_of_mem_setPartition he with rfl | he
  · exact Or.inl (List.mem_map.mp hitem)
  · exact Or.inr (List.mem_flatMap.mpr ⟨e, he, hitem⟩)

/-- A put stores no other item than the one that is put. -/
theorem mem_items_putAt {key : PrimaryKey} {item other : Item}
    (h : other ∈ (s.putAt key item).items) : other = item ∨ other ∈ s.items := by
  rcases mem_items_setPartition h with ⟨f, hf, rfl⟩ | hother
  · exact (Partition.mem_insert hf).imp And.left mem_items_of_mem_partition
  · exact Or.inr hother

/-- A delete stores no item. -/
theorem mem_items_delete {key : PrimaryKey} {other : Item} (h : other ∈ (s.delete key).2.items) :
    other ∈ s.items := by
  rw [delete] at h
  cases hget : s.get? key with
  | none =>
      rw [hget] at h
      exact h
  | some old =>
      rw [hget] at h
      rcases mem_items_setPartition h with ⟨f, hf, rfl⟩ | hother
      · exact mem_items_of_mem_partition ((Partition.erase_sublist _ _).subset hf)
      · exact hother

end

namespace Sound

variable {s : Storage} (h : s.Sound)

include h

theorem mem_items {item : Item} :
    item ∈ s.items ↔ ∃ v, ∃ f ∈ s.partition v, f.2 = item := by
  rw [items, List.mem_flatMap]
  constructor
  · rintro ⟨⟨v, p⟩, he, hitem⟩
    obtain ⟨f, hf, hfi⟩ := List.mem_map.mp hitem
    exact ⟨v, f, ((h.mem_iff.mp he).2).symm ▸ hf, hfi⟩
  · rintro ⟨v, f, hf, hfi⟩
    exact ⟨_, h.mem_iff.mpr ⟨List.ne_nil_of_mem hf, rfl⟩, List.mem_map.mpr ⟨f, hf, hfi⟩⟩

/-- The count is the number of stored items. -/
theorem count_eq : s.count = s.items.length := h.counted.trans s.length_items.symm

/-- An entry's item carries the partition value and, up to equal places, the entry's place. -/
theorem entry {v : AttributeValue} {f : SortKey × Item} (hf : f ∈ s.partition v) :
    s.schema.Fits f.2 ∧ f.2.get? s.schema.partition.name = some v
      ∧ (s.schema.placeOf f.2).Comparable ∧ compare (s.schema.placeOf f.2) f.1 = .eq := by
  obtain ⟨key, hkey, rfl, hc, heq⟩ := h.keyed_partition hf
  obtain ⟨hfits, hpart, -⟩ := KeySchema.extract_eq_ok_iff.mp hkey
  rw [← KeySchema.place_of_extract hkey]
  exact ⟨hfits, hpart, hc, heq⟩

/-- Two entries are ordered as the places of their items are. -/
theorem compare_placeOf {v w : AttributeValue} {f g : SortKey × Item} (hf : f ∈ s.partition v)
    (hg : g ∈ s.partition w) :
    compare (s.schema.placeOf f.2) (s.schema.placeOf g.2) = compare f.1 g.1 := by
  obtain ⟨-, -, hfc, hfe⟩ := h.entry hf
  obtain ⟨-, -, hgc, hge⟩ := h.entry hg
  have hf1 := (h.ordered_partition v).comparable f hf
  rw [SortKey.compare_congr_left hfc hf1 hgc hfe]
  exact SortKey.compare_congr_right hf1 hgc ((h.ordered_partition w).comparable g hg) hge

/-- The items of a partition stand in strictly ascending order of place. -/
theorem ascending (v : AttributeValue) :
    (s.partition v).Pairwise
      (fun f g => compare (s.schema.placeOf f.2) (s.schema.placeOf g.2) = .lt) := by
  refine (h.ordered_partition v).ascending.imp_of_mem ?_
  intro f g hf hg hlt
  rw [h.compare_placeOf hf hg]
  exact hlt

/-- What is found under a key carries this key. -/
theorem extract_of_get? {key : PrimaryKey} (hc : key.place.Comparable) {item : Item}
    (hitem : s.get? key = some item) :
    ∃ k, s.schema.extract item = .ok k ∧ k.place.Comparable ∧ k.same key = true := by
  obtain ⟨f, hf, hkf, rfl⟩ := Partition.mem_of_get? hitem
  obtain ⟨k, hk, hpart, hkc, hkf'⟩ := h.keyed_partition hf
  have hf1 := (h.ordered_partition _).comparable f hf
  refine ⟨k, hk, hkc, PrimaryKey.same_iff.mpr ⟨hpart, ?_⟩⟩
  rw [SortKey.compare_congr_left hkc hf1 hc hkf']
  exact Std.OrientedCmp.eq_comm.mp hkf

/-- The stored items are what the look-ups find, each one under its own key. -/
theorem mem_items_iff {item : Item} :
    item ∈ s.items
      ↔ ∃ key, s.schema.extract item = .ok key ∧ key.place.Comparable ∧ s.get? key = some item := by
  rw [h.mem_items]
  constructor
  · rintro ⟨v, f, hf, rfl⟩
    obtain ⟨key, hkey, rfl, hc, heq⟩ := h.keyed_partition hf
    exact ⟨key, hkey, hc, Partition.get?_of_mem (h.ordered_partition _) hc hf heq⟩
  · rintro ⟨key, hkey, hc, hget⟩
    obtain ⟨f, hf, -, hfi⟩ := Partition.mem_of_get? hget
    exact ⟨key.partition, f, hf, hfi⟩

/-- Keys for the same place find the same item. -/
theorem get?_congr {a b : PrimaryKey} (ha : a.place.Comparable) (hb : b.place.Comparable)
    (hab : a.same b = true) : s.get? a = s.get? b := by
  obtain ⟨hpart, hplace⟩ := PrimaryKey.same_iff.mp hab
  rw [get?, get?, hpart]
  exact Partition.get?_congr (h.ordered_partition _) ha hb hplace

/-- No item is stored twice. -/
theorem nodup_items : s.items.Nodup := by
  refine List.pairwise_flatMap.mpr ⟨?_, ?_⟩
  · -- items of one partition have different places
    rintro ⟨v, p⟩ he
    obtain rfl := (h.mem_iff.mp he).2
    refine List.pairwise_map.mpr ((h.ascending v).imp ?_)
    rintro f g hlt heq
    rw [heq, SortKey.compare_self] at hlt
    cases hlt
  · -- items of different partitions carry different values
    refine (List.pairwise_map.mp h.distinct).imp_of_mem ?_
    rintro ⟨v, p⟩ ⟨w, q⟩ hp hq hvw _ hv item hw rfl
    obtain rfl := (h.mem_iff.mp hp).2
    obtain rfl := (h.mem_iff.mp hq).2
    obtain ⟨f, hf, rfl⟩ := List.mem_map.mp hv
    obtain ⟨g, hg, hfg⟩ := List.mem_map.mp hw
    have hgw := (h.entry hg).2.1
    rw [hfg, (h.entry hf).2.1] at hgw
    exact hvw (Option.some.inj hgw)

/-- Where the place of an item is free, a put adds the item to the stored ones. -/
theorem perm_items_putAt {item : Item} {key : PrimaryKey} (hkey : s.schema.extract item = .ok key)
    (hc : key.place.Comparable) (hfree : s.get? key = none) :
    (s.putAt key item).items.Perm (item :: s.items) := by
  have hnot : item ∉ s.items := by
    intro hitem
    obtain ⟨k, hk, -, hget⟩ := h.mem_items_iff.mp hitem
    rw [Except.ok.inj (hk.symm.trans hkey), hfree] at hget
    cases hget
  refine (List.perm_ext_iff_of_nodup (h.putAt hkey hc).nodup_items
    (List.nodup_cons.mpr ⟨hnot, h.nodup_items⟩)).mpr fun other => ?_
  rw [List.mem_cons]
  constructor
  · exact mem_items_putAt
  · rintro (rfl | hother)
    · exact mem_items_of_get? (get?_putAt_self s key other)
    · obtain ⟨k, -, hkc, hget⟩ := h.mem_items_iff.mp hother
      have hother : (s.putAt key item).get? k = some other := by
        rw [get?_putAt h hc hkc, if_neg, hget]
        intro hsame
        rw [h.get?_congr hkc hc hsame, hfree] at hget
        cases hget
      exact mem_items_of_get? hother

end Sound

end Storage

end SingleTable
