import SingleTable.Proofs.KeyOrder

set_option autoImplicit false

/-!
# Which keys the order laws hold for

A key attribute of type number admits every text. A text that denotes no number compares equal to
all numbers, so it is no link in a chain of equal keys. Main statement: `SortKey.order_laws`. The
comparison is antisymmetric and its strict part is transitive on all keys; on the comparable keys,
and on no others, equality is transitive and respected by the comparison.
-/

namespace SingleTable

namespace SortKey

/-! ## Keys of one kind -/

theorem rank_eq_of_eq {a b : SortKey} (h : compare a b = .eq) : a.rank = b.rank := by
  have hba : compare b a = .eq := by rw [compare_swap, h]; rfl
  exact Nat.le_antisymm (rank_le_of_isLE (by rw [h]; rfl)) (rank_le_of_isLE (by rw [hba]; rfl))

/-- A key that is not comparable is at every place of its kind. -/
theorem compare_of_not_comparable {a b : SortKey} (ha : ¬ a.Comparable) (hrank : a.rank = b.rank) :
    compare a b = .eq := by
  cases a with
  | number s =>
      have hs : numberOf s = .nan := Decidable.not_not.mp ha
      cases b with
      | number t =>
          rw [compare_number, hs]
          rfl
      | _ => cases hrank
  | _ => exact absurd trivial ha

/-- A key that is not comparable is equal to every number. -/
theorem compare_number_of_not_comparable {a : SortKey} (ha : ¬ a.Comparable) (text : String) :
    compare a (number text) = .eq := by
  refine compare_of_not_comparable ha ?_
  cases a with
  | number s => rfl
  | _ => exact absurd trivial ha

/-- Of two keys of one kind, of which one comes before the other, both are comparable. -/
theorem comparable_of_lt {a b : SortKey} (h : compare a b = .lt) (hrank : a.rank = b.rank) :
    a.Comparable ∧ b.Comparable := by
  constructor
  · by_contra ha
    rw [compare_of_not_comparable ha hrank] at h
    cases h
  · by_contra hb
    rw [compare_swap, compare_of_not_comparable hb hrank.symm] at h
    cases h

/-! ## Laws on all keys -/

/-- The strict part of the order is transitive on all keys. -/
theorem lt_trans_of_any {a b c : SortKey} (hab : compare a b = .lt) (hbc : compare b c = .lt) :
    compare a c = .lt := by
  have hrab := rank_le_of_isLE (a := a) (b := b) (by rw [hab]; rfl)
  have hrbc := rank_le_of_isLE (a := b) (b := c) (by rw [hbc]; rfl)
  rcases Nat.lt_or_ge a.rank c.rank with hlt | hge
  · exact compare_of_rank_lt hlt
  · -- all three are of one kind, where only comparable keys come before others
    obtain ⟨ha, hb⟩ := comparable_of_lt hab (by omega)
    obtain ⟨-, hc⟩ := comparable_of_lt hbc (by omega)
    exact lt_trans ha hb hc hab hbc

/-! ## Laws on comparable keys -/

/-- A comparable key links keys at its place, whatever these are. -/
theorem eq_trans_of_comparable {a b c : SortKey} (hb : b.Comparable) (hab : compare a b = .eq)
    (hbc : compare b c = .eq) : compare a c = .eq := by
  have hrank : a.rank = c.rank := (rank_eq_of_eq hab).trans (rank_eq_of_eq hbc)
  by_cases ha : a.Comparable
  · by_cases hc : c.Comparable
    · exact eq_trans ha hb hc hab hbc
    · rw [compare_swap, compare_of_not_comparable hc hrank.symm]
      rfl
  · exact compare_of_not_comparable ha hrank

/-- Comparable keys at one place are compared alike with every key. -/
theorem compare_congr_of_comparable {a b : SortKey} (ha : a.Comparable) (hb : b.Comparable)
    (hab : compare a b = .eq) (c : SortKey) : compare a c = compare b c := by
  have hrank := rank_eq_of_eq hab
  by_cases hc : c.Comparable
  · exact compare_congr_left ha hb hc hab
  · rcases Nat.lt_trichotomy a.rank c.rank with hlt | heq | hgt
    · rw [compare_of_rank_lt hlt, compare_of_rank_lt (hrank ▸ hlt)]
    · rw [compare_swap a c, compare_swap b c, compare_of_not_comparable hc heq.symm,
        compare_of_not_comparable hc (heq.symm.trans hrank)]
    · rw [compare_swap a c, compare_swap b c, compare_of_rank_lt hgt,
        compare_of_rank_lt (hrank ▸ hgt)]

theorem compare_one_two : compare (number "1") (number "2") = .lt := by decide

/-- The laws of the order at a sort key. Whatever the key, the comparison is antisymmetric and
coming before is transitive. The key is comparable exactly if keys that are equal to it are equal to
each other, and exactly if it is compared like every comparable key that it is equal to. -/
theorem order_laws (a : SortKey) :
    (∀ b, compare a b = (compare b a).swap)
      ∧ (∀ b c, compare a b = .lt → compare b c = .lt → compare a c = .lt)
      ∧ (a.Comparable ↔ ∀ b c, compare b a = .eq → compare a c = .eq → compare b c = .eq)
      ∧ (a.Comparable
          ↔ ∀ b c, b.Comparable → compare a b = .eq → compare a c = compare b c) := by
  refine ⟨compare_swap a, fun _ _ => lt_trans_of_any, ⟨?_, fun h => ?_⟩, ⟨?_, fun h => ?_⟩⟩
  · exact fun ha b c => eq_trans_of_comparable ha
  · -- a key that is equal to all numbers is equal to the different numbers 1 and 2
    by_contra ha
    have hone : compare (number "1") a = .eq := by
      rw [compare_swap, compare_number_of_not_comparable ha]
      rfl
    have h12 := h (number "1") (number "2") hone (compare_number_of_not_comparable ha "2")
    rw [compare_one_two] at h12
    cases h12
  · exact fun ha b c hb hab => compare_congr_of_comparable ha hb hab c
  · by_contra ha
    have hone : Comparable (number "1") := by decide
    have h12 := h (number "1") (number "2") hone (compare_number_of_not_comparable ha "1")
    rw [compare_one_two, compare_number_of_not_comparable ha] at h12
    cases h12

/-- The text `one` is admitted as a number key. It is equal to 1 and to 2, and 1 comes before 2. -/
theorem compare_word_one :
    (KeyAttribute.mk "volume" .number).check (.number "one") = .ok ()
      ∧ ofValue "volume" (.number "one") = .ok (number "one")
      ∧ compare (number "one") (number "1") = .eq
      ∧ compare (number "1") (number "2") = .lt
      ∧ compare (number "one") (number "2") = .eq := by
  refine ⟨rfl, rfl, ?_, compare_one_two, ?_⟩
  · decide
  · decide

end SortKey

end SingleTable
