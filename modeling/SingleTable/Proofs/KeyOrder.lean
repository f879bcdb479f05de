import Mathlib.Tactic.ByContra
import SingleTable.Key.Condition

set_option autoImplicit false

/-!
# The order of sort keys

Sort keys are compared by kind, then by content. A number key whose text denotes no number compares
equal to every number key, so the comparison is an order only on the *comparable* keys
(`SortKey.Comparable`): there it is total and transitive, and keys that compare equal are compared
alike with all others (`SortKey.compare_congr_left`).
-/

namespace SingleTable

namespace Binary64

theorem units?_eq_none_iff (x : Binary64) : x.units? = none ↔ x = .nan := by
  cases x with
  | finite s m e => simp [units?]
  | infinite s => simp [units?]
  | nan => exact ⟨fun _ => rfl, fun _ => rfl⟩

/-- Numbers other than NaN compare by their values. -/
theorem compare?_of_ne_nan {x y : Binary64} (hx : x ≠ .nan) (hy : y ≠ .nan) :
    ∃ u v : Int, x.units? = some u ∧ y.units? = some v ∧ x.compare? y = some (compare u v) := by
  have hxs : x.units? ≠ none := fun h => hx ((units?_eq_none_iff x).mp h)
  have hys : y.units? ≠ none := fun h => hy ((units?_eq_none_iff y).mp h)
  obtain ⟨u, hu⟩ := Option.ne_none_iff_exists'.mp hxs
  obtain ⟨v, hv⟩ := Option.ne_none_iff_exists'.mp hys
  exact ⟨u, v, hu, hv, by simp [compare?, hu, hv]⟩

theorem compare?_swap (x y : Binary64) : y.compare? x = (x.compare? y).map Ordering.swap := by
  unfold compare?
  cases x.units? with
  | none => cases y.units? <;> rfl
  | some u =>
      cases y.units? with
      | none => rfl
      | some v => exact congrArg some Std.OrientedCmp.eq_swap

end Binary64

namespace SortKey

/-! ## Comparable keys -/

/-- A key with a settled place in the order: a number key has to denote a number. -/
def Comparable : SortKey → Prop
  | .number text => numberOf text ≠ .nan
  | _ => True

instance : DecidablePred Comparable
  | .string _ => isTrue trivial
  | .number text => inferInstanceAs (Decidable (numberOf text ≠ .nan))
  | .binary _ => isTrue trivial
  | .absent => isTrue trivial

theorem compare_string (s t : String) : compare (string s) (string t) = compare s t := rfl

theorem compare_binary (s t : Bytes) : compare (binary s) (binary t) = compare s t := rfl

theorem compare_number (s t : String) :
    compare (number s) (number t) = ((numberOf s).compare? (numberOf t)).getD .eq := rfl

/-- Comparing the other way round gives the opposite answer, for all keys. -/
theorem compare_swap (a b : SortKey) : compare a b = (compare b a).swap := by
  cases a with
  | string s =>
      cases b with
      | string t => exact Std.OrientedOrd.eq_swap (a := s) (b := t)
      | _ => rfl
  | number s =>
      cases b with
      | number t =>
          rw [compare_number, compare_number, Binary64.compare?_swap (numberOf t)]
          cases (numberOf t).compare? (numberOf s) <;> rfl
      | _ => rfl
  | binary s =>
      cases b with
      | binary t => exact Std.OrientedOrd.eq_swap (a := s) (b := t)
      | _ => rfl
  | absent => cases b <;> rfl

instance : Std.OrientedOrd SortKey where
  eq_swap := compare_swap _ _

/-- The place of a kind of key among the kinds. -/
def rank : SortKey → Nat
  | .string _ => 0
  | .number _ => 1
  | .binary _ => 2
  | .absent => 3

theorem compare_of_rank_lt {a b : SortKey} (h : a.rank < b.rank) : compare a b = .lt := by
  cases a <;> cases b <;> first | rfl | exact absurd h (by simp [rank])

theorem rank_le_of_isLE {a b : SortKey} (h : (compare a b).isLE) : a.rank ≤ b.rank := by
  by_contra hlt
  rw [compare_swap, compare_of_rank_lt (Nat.lt_of_not_le hlt)] at h
  cases h

theorem isLE_trans {a b c : SortKey} (ha : a.Comparable) (hb : b.Comparable) (hc : c.Comparable)
    (hab : (compare a b).isLE) (hbc : (compare b c).isLE) : (compare a c).isLE := by
  have hrab := rank_le_of_isLE hab
  have hrbc := rank_le_of_isLE hbc
  rcases Nat.lt_or_ge a.rank c.rank with hlt | hge
  · rw [compare_of_rank_lt hlt]
    rfl
  · -- all three keys are of one kind
    have hac : a.rank = c.rank := by omega
    have hbc' : b.rank = c.rank := by omega
    cases a <;> cases c <;> try cases hac
    all_goals cases b <;> try cases hbc'
    · rename_i s u t
      exact Std.TransOrd.isLE_trans (a := s) (b := t) (c := u) hab hbc
    · rename_i s u t
      obtain ⟨i, j, hi, hj, hij⟩ := Binary64.compare?_of_ne_nan ha hb
      obtain ⟨j', k, hj', hk, hjk⟩ := Binary64.compare?_of_ne_nan hb hc
      obtain ⟨i', k', hi', hk', hik⟩ := Binary64.compare?_of_ne_nan ha hc
      cases hi.symm.trans hi'
      cases hj.symm.trans hj'
      cases hk.symm.trans hk'
      rw [compare_number, hij] at hab
      rw [compare_number, hjk] at hbc
      rw [compare_number, hik]
      exact Std.TransOrd.isLE_trans (a := i) (b := j) (c := k) hab hbc
    · rename_i s u t
      exact Std.TransOrd.isLE_trans (a := s) (b := t) (c := u) hab hbc
    · rfl

/-! ## The laws of the order -/

/-- The comparable keys as a type of their own, on which the comparison is a total preorder. -/
abbrev Settled := { k : SortKey // k.Comparable }

instance : Ord Settled := ⟨fun a b => compare a.1 b.1⟩

instance : Std.TransOrd Settled where
  eq_swap {a b} := compare_swap a.1 b.1
  isLE_trans {a b c} hab hbc := isLE_trans a.2 b.2 c.2 hab hbc

section

variable {a b c : SortKey} (ha : a.Comparable) (hb : b.Comparable) (hc : c.Comparable)

include ha hb hc

theorem lt_trans (hab : compare a b = .lt) (hbc : compare b c = .lt) : compare a c = .lt :=
  @Std.TransCmp.lt_trans Settled compare _ ⟨a, ha⟩ ⟨b, hb⟩ ⟨c, hc⟩ hab hbc

theorem lt_of_isLE_of_lt (hab : (compare a b).isLE) (hbc : compare b c = .lt) :
    compare a c = .lt :=
  @Std.TransCmp.lt_of_isLE_of_lt Settled compare _ ⟨a, ha⟩ ⟨b, hb⟩ ⟨c, hc⟩ hab hbc

theorem eq_trans (hab : compare a b = .eq) (hbc : compare b c = .eq) : compare a c = .eq :=
  @Std.TransCmp.eq_trans Settled compare _ ⟨a, ha⟩ ⟨b, hb⟩ ⟨c, hc⟩ hab hbc

/-- Keys at the same place are compared alike with every third key. -/
theorem compare_congr_left (hab : compare a b = .eq) : compare a c = compare b c :=
  @Std.TransCmp.congr_left Settled compare _ ⟨a, ha⟩ ⟨b, hb⟩ ⟨c, hc⟩ hab

theorem compare_congr_right (hbc : compare b c = .eq) : compare a b = compare a c :=
  @Std.TransCmp.congr_right Settled compare _ ⟨a, ha⟩ ⟨b, hb⟩ ⟨c, hc⟩ hbc

end

theorem compare_self (a : SortKey) : compare a a = .eq := Std.ReflCmp.compare_self

theorem same_iff {a b : SortKey} : a.same b = true ↔ compare a b = .eq := by
  unfold same
  cases compare a b <;> decide

theorem before_iff {a b : SortKey} : a.before b = true ↔ compare a b = .lt := by
  unfold before
  cases compare a b <;> decide

end SortKey

end SingleTable
