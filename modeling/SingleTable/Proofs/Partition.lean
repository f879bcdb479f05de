import SingleTable.Proofs.KeyOrder
import SingleTable.Storage

set_option autoImplicit false

/-!
# Partitions as maps from places to items

The entries of a partition that was only ever written at comparable keys strictly ascend
(`Partition.Ordered`). Such a partition is a map from places to items: `get?_insert` and `get?_erase`
say what a write does to every look-up, and the entries are what the look-ups find (`mem_of_get?`,
`get?_of_mem`).
-/

namespace SingleTable

namespace Partition

/-- Every key is comparable, and each one comes before all later ones. -/
structure Ordered (p : Partition) : Prop where
  comparable : ∀ e ∈ p, e.1.Comparable
  ascending : p.Pairwise (fun e f => compare e.1 f.1 = .lt)

theorem ordered_nil : Ordered [] := ⟨by simp, List.Pairwise.nil⟩

theorem ordered_cons {e : SortKey × Item} {p : Partition} :
    Ordered (e :: p) ↔ e.1.Comparable ∧ (∀ f ∈ p, compare e.1 f.1 = .lt) ∧ Ordered p := by
  constructor
  · rintro ⟨hc, ha⟩
    exact ⟨hc e (by simp), (List.pairwise_cons.mp ha).1,
      fun f hf => hc f (List.mem_cons_of_mem e hf), (List.pairwise_cons.mp ha).2⟩
  · rintro ⟨he, hlt, hp⟩
    refine ⟨?_, List.pairwise_cons.mpr ⟨hlt, hp.ascending⟩⟩
    intro f hf
    rcases List.mem_cons.mp hf with rfl | hf
    · exact he
    · exact hp.comparable f hf

theorem Ordered.sublist {p q : Partition} (h : Ordered p) (hq : q.Sublist p) : Ordered q :=
  ⟨fun e he => h.comparable e (hq.subset he), h.ascending.sublist hq⟩

/-! ## Putting an item -/

/-- What is found in a partition after a put: the new entry, which has the key that was there before
if there was one, and the entries at all other places. -/
theorem mem_insert {p : Partition} {k : SortKey} {item : Item} {f : SortKey × Item}
    (h : f ∈ p.insert k item) : (f.2 = item ∧ (f.1 = k ∨ compare k f.1 = .eq)) ∨ f ∈ p := by
  induction p with
  | nil =>
      rw [insert, List.mem_singleton] at h
      subst h
      exact Or.inl ⟨rfl, Or.inl rfl⟩
  | cons e p ih =>
      rw [insert] at h
      split at h
      · rcases List.mem_cons.mp h with rfl | h
        · exact Or.inl ⟨rfl, Or.inl rfl⟩
        · exact Or.inr h
      · rename_i heq
        rcases List.mem_cons.mp h with rfl | h
        · exact Or.inl ⟨rfl, Or.inr heq⟩
        · exact Or.inr (List.mem_cons_of_mem e h)
      · rcases List.mem_cons.mp h with rfl | h
        · exact Or.inr (by simp)
        · exact (ih h).imp_right (List.mem_cons_of_mem e)

theorem Ordered.insert {p : Partition} (h : Ordered p) {k : SortKey} (hk : k.Comparable)
    (item : Item) : Ordered (p.insert k item) := by
  induction p with
  | nil => exact ordered_cons.mpr ⟨hk, by simp, ordered_nil⟩
  | cons e p ih =>
      obtain ⟨he, hlt, hp⟩ := ordered_cons.mp h
      rw [Partition.insert]
      split
      · rename_i hke
        -- the new entry stands in front of `e`, which stands in front of the rest
        refine ordered_cons.mpr ⟨hk, ?_, h⟩
        intro f hf
        rcases List.mem_cons.mp hf with rfl | hf
        · exact hke
        · exact SortKey.lt_trans hk he (hp.comparable f hf) hke (hlt f hf)
      -- the entry at this place takes the new item but keeps its key
      · exact ordered_cons.mpr ⟨he, hlt, hp⟩
      · rename_i hke
        have hek : compare e.1 k = .lt := Std.OrientedCmp.gt_iff_lt.mp hke
        -- behind `e`, the new entry is above `e` as all others are
        refine ordered_cons.mpr ⟨he, ?_, ih hp⟩
        intro f hf
        rcases mem_insert hf with ⟨-, rfl | hkf⟩ | hf
        · exact hek
        · have hf' := (ih hp).comparable f hf
          rwa [← SortKey.compare_congr_right he hk hf' hkf]
        · exact hlt f hf

/-- A key below all keys of a partition is not found. -/
theorem get?_eq_none_of_lt {p : Partition} {k : SortKey} (h : ∀ e ∈ p, compare k e.1 = .lt) :
    p.get? k = none := by
  cases p with
  | nil => rfl
  | cons e p => rw [get?, h e (by simp)]

/-- After a put the item is found at its place, and nothing changes at any other place. -/
theorem get?_insert {p : Partition} (h : Ordered p) {k n : SortKey} (hk : k.Comparable)
    (hn : n.Comparable) (item : Item) :
    (p.insert k item).get? n = if n.same k then some item else p.get? n := by
  induction p with
  | nil =>
      rw [insert, SortKey.same]
      cases hnk : compare n k <;> simp [get?, hnk]
  | cons e p ih =>
      obtain ⟨he, hlt, hp⟩ := ordered_cons.mp h
      rw [insert]
      split
      · rename_i hke
        -- the new entry stands in front, so a key below it is below all others
        rw [get?, SortKey.same]
        cases hnk : compare n k with
        | lt =>
            rw [get?, SortKey.lt_trans hn hk he hnk hke]
            rfl
        | eq => rfl
        | gt => rfl
      · rename_i hke
        -- no look-up can tell the new key from that of `e`
        have hne : compare n k = compare n e.1 := SortKey.compare_congr_right hn hk he hke
        rw [get?, get?, SortKey.same, hne]
        cases compare n e.1 <;> rfl
      · rename_i hke
        have hek : compare e.1 k = .lt := Std.OrientedCmp.gt_iff_lt.mp hke
        -- only a look-up that goes on behind `e` can be for the new place
        rw [get?, get?, ih hp]
        cases hne : compare n e.1 with
        | lt => rw [SortKey.same, SortKey.lt_trans hn he hk hne hek]; rfl
        | eq => rw [SortKey.same, SortKey.compare_congr_left hn he hk hne, hek]; rfl
        | gt => rfl

/-- An item that has been put is found under its own key, in whatever order the entries stand. -/
theorem get?_insert_self (p : Partition) (k : SortKey) (item : Item) :
    (p.insert k item).get? k = some item := by
  induction p with
  | nil =>
      rw [insert, get?, SortKey.compare_self]
  | cons e p ih =>
      rw [insert]
      split
      · rw [get?, SortKey.compare_self]
      · rename_i hke
        rw [get?, hke]
      · rename_i hke
        rw [get?, hke]
        exact ih

theorem insert_ne_nil (p : Partition) (k : SortKey) (item : Item) : p.insert k item ≠ [] := by
  intro hnil
  have hget := get?_insert_self p k item
  rw [hnil] at hget
  cases hget

/-- Of two items that are put under the same key the later one stays. -/
theorem insert_insert (p : Partition) (k : SortKey) (item item' : Item) :
    (p.insert k item).insert k item' = p.insert k item' := by
  induction p with
  | nil => simp [insert]
  | cons e p ih =>
      rw [insert, insert]
      cases hke : compare k e.1 with
      | lt => rw [insert, SortKey.compare_self]
      | eq => rw [insert, hke]
      | gt =>
          rw [insert, hke]
          exact congrArg (e :: ·) ih

/-- Keys that address the same place find the same. -/
theorem get?_congr {p : Partition} (h : Ordered p) {k n : SortKey} (hk : k.Comparable)
    (hn : n.Comparable) (hkn : compare k n = .eq) : p.get? k = p.get? n := by
  induction p with
  | nil => rfl
  | cons e p ih =>
      obtain ⟨he, -, hp⟩ := ordered_cons.mp h
      rw [get?, get?, SortKey.compare_congr_left hk hn he hkn, ih hp]

/-- Putting an item at a free place adds an entry. -/
theorem length_insert_of_none {p : Partition} {k : SortKey} {item : Item} (h : p.get? k = none) :
    (p.insert k item).length = p.length + 1 := by
  induction p with
  | nil => rfl
  | cons e p ih =>
      rw [get?] at h
      rw [insert]
      split at h
      · rfl
      · cases h
      · exact congrArg Nat.succ (ih h)

/-- Putting an item at a taken place replaces an entry. -/
theorem length_insert_of_some {p : Partition} {k : SortKey} {item old : Item}
    (h : p.get? k = some old) : (p.insert k item).length = p.length := by
  induction p with
  | nil => cases h
  | cons e p ih =>
      rw [get?] at h
      rw [insert]
      split at h
      · cases h
      · rfl
      · exact congrArg Nat.succ (ih h)

/-! ## Deleting an item -/

theorem erase_sublist (p : Partition) (k : SortKey) : (p.erase k).Sublist p := by
  induction p with
  | nil => exact List.Sublist.refl _
  | cons e p ih =>
      rw [erase]
      split
      · exact List.Sublist.refl _
      · exact List.sublist_cons_self e p
      · exact ih.cons_cons e

/-- Deleting what is there removes one entry. -/
theorem length_erase {p : Partition} {k : SortKey} {item : Item} (h : p.get? k = some item) :
    (p.erase k).length + 1 = p.length := by
  induction p with
  | nil => cases h
  | cons e p ih =>
      rw [get?] at h
      rw [erase]
      split at h
      · cases h
      · rfl
      · exact congrArg Nat.succ (ih h)

/-- After a delete nothing is found at the place, and nothing changes at any other place. -/
theorem get?_erase {p : Partition} (h : Ordered p) {k n : SortKey} (hk : k.Comparable)
    (hn : n.Comparable) : (p.erase k).get? n = if n.same k then none else p.get? n := by
  induction p with
  | nil => simp [erase, get?]
  | cons e p ih =>
      obtain ⟨he, hlt, hp⟩ := ordered_cons.mp h
      rw [erase]
      split
      · rename_i hke
        -- nothing is deleted, and nothing was to be found there either
        rw [get?, SortKey.same]
        cases hnk : compare n k with
        | lt => rfl
        | eq => rw [SortKey.compare_congr_left hn hk he hnk, hke]; rfl
        | gt => rfl
      · rename_i hke
        -- without `e`, all entries are above what is at its place or below
        have hnk : compare n k = compare n e.1 := SortKey.compare_congr_right hn hk he hke
        rw [get?, SortKey.same, hnk]
        cases hne : compare n e.1 with
        | lt =>
            refine get?_eq_none_of_lt fun f hf => ?_
            exact SortKey.lt_trans hn he (hp.comparable f hf) hne (hlt f hf)
        | eq =>
            refine get?_eq_none_of_lt fun f hf => ?_
            rw [SortKey.compare_congr_left hn he (hp.comparable f hf) hne]
            exact hlt f hf
        | gt => rfl
      · rename_i hke
        have hek : compare e.1 k = .lt := Std.OrientedCmp.gt_iff_lt.mp hke
        rw [get?, get?, ih hp]
        cases hne : compare n e.1 with
        | lt => rw [SortKey.same, SortKey.lt_trans hn he hk hne hek]; rfl
        | eq => rw [SortKey.same, SortKey.compare_congr_left hn he hk hne, hek]; rfl
        | gt => rfl

/-! ## Entries and look-ups -/

/-- What is found is an entry at the same place. -/
theorem mem_of_get? {p : Partition} {k : SortKey} {item : Item} (h : p.get? k = some item) :
    ∃ e ∈ p, compare k e.1 = .eq ∧ e.2 = item := by
  induction p with
  | nil => cases h
  | cons e p ih =>
      rw [get?] at h
      split at h
      · cases h
      · rename_i hke
        cases h
        exact ⟨e, by simp, hke, rfl⟩
      · obtain ⟨f, hf, hkf, rfl⟩ := ih h
        exact ⟨f, List.mem_cons_of_mem e hf, hkf, rfl⟩

/-- Every entry is found at its place. -/
theorem get?_of_mem {p : Partition} (h : Ordered p) {k : SortKey} (hk : k.Comparable)
    {e : SortKey × Item} (he : e ∈ p) (hke : compare k e.1 = .eq) : p.get? k = some e.2 := by
  induction p with
  | nil => cases he
  | cons f p ih =>
      obtain ⟨hf, hlt, hp⟩ := ordered_cons.mp h
      rw [get?]
      rcases List.mem_cons.mp he with rfl | hep
      · rw [hke]
      · -- an earlier entry is below the one that is looked for, so the search passes it
        have hek := SortKey.compare_congr_left hk (hp.comparable e hep) hf hke
        have hgt : compare k f.1 = .gt := by
          rw [hek]
          exact Std.OrientedCmp.gt_iff_lt.mpr (hlt e hep)
        rw [hgt]
        exact ih hp hep

/-- Two entries at one place are one entry. -/
theorem Ordered.eq_of_same {p : Partition} (h : Ordered p) {e f : SortKey × Item} (he : e ∈ p)
    (hf : f ∈ p) (hef : compare e.1 f.1 = .eq) : e = f := by
  induction p with
  | nil => cases he
  | cons g p ih =>
      obtain ⟨-, hlt, hp⟩ := ordered_cons.mp h
      rcases List.mem_cons.mp he with rfl | hep
      · rcases List.mem_cons.mp hf with rfl | hfp
        · rfl
        · rw [hlt f hfp] at hef
          cases hef
      · rcases List.mem_cons.mp hf with rfl | hfp
        · rw [SortKey.compare_swap, hlt e hep] at hef
          cases hef
        · exact ih hp hep hfp

end Partition

end SingleTable
