import Mathlib.Data.List.Basic
import Mathlib.Data.List.TakeWhile
import SingleTable.Json.Reader
import SingleTable.Proofs.Outcome
import SingleTable.Validator

set_option autoImplicit false

/-!
# Integers in decimal

The decimal text of an integer denotes the binary64 number nearest to it (`Binary64.ofText?_toString`),
and as JSON it denotes the integer itself, if a JSON number can be this integer (`Json.ofText_toString`,
`Json.numberOfText?_toString`). A number validator turns the JSON integer back into its text
(`Validator.parse_number_ofInt`).
-/

namespace SingleTable

/-! ## Digits -/

theorem readDigits_toDigits (n : Nat) : readDigits 0 (Nat.toDigits 10 n) = n :=
  Nat.ofDigitChars_ten_toDigits

theorem all_isDigit_toDigits (n : Nat) : (Nat.toDigits 10 n).all Char.isDigit = true :=
  List.all_eq_true.mpr fun _ hc => Nat.isDigit_of_mem_toDigits (by decide) (by decide) hc

theorem takeWhile_isDigit {cs : List Char} (h : cs.all Char.isDigit = true) :
    cs.takeWhile Char.isDigit = cs :=
  List.takeWhile_eq_self_iff.mpr (List.all_eq_true.mp h)

theorem dropWhile_isDigit {cs : List Char} (h : cs.all Char.isDigit = true) :
    cs.dropWhile Char.isDigit = [] :=
  List.dropWhile_eq_nil_iff.mpr (List.all_eq_true.mp h)

/-- Only the number zero has digits that start with zero. -/
theorem head?_toDigits {n : Nat} (hn : 0 < n) : (Nat.toDigits 10 n).head? ≠ some '0' := by
  induction n using Nat.strongRecOn with
  | ind n ih =>
      rcases Nat.lt_or_ge n 10 with hlt | hge
      · rw [Nat.toDigits_of_lt_base hlt, List.head?_singleton, ne_eq, Option.some.injEq,
          Nat.digitChar_eq_zero]
        omega
      · rw [Nat.toDigits_of_base_le (by decide) hge,
          List.head?_append_of_ne_nil _ Nat.toDigits_ne_nil]
        exact ih (n / 10) (by omega) (by omega)

/-- The text of an integer: a minus if it is negative, then the digits of its magnitude. -/
theorem toList_toString_cases (z : Int) :
    (z < 0 ∧ (toString z).toList = '-' :: Nat.toDigits 10 z.natAbs)
      ∨ (0 ≤ z ∧ (toString z).toList = Nat.toDigits 10 z.natAbs) := by
  rw [Int.toString_eq_repr, Int.repr_eq_if]
  by_cases hz : 0 ≤ z
  · refine Or.inr ⟨hz, ?_⟩
    have habs : z.toNat = z.natAbs := by omega
    rw [if_pos hz, Nat.toList_repr, habs]
  · refine Or.inl ⟨by omega, ?_⟩
    have habs : (-z).toNat = z.natAbs := by omega
    rw [if_neg hz, String.toList_append, Nat.toList_repr, habs]
    rfl

theorem toDigits_ne_minus (n : Nat) (cs : List Char) : Nat.toDigits 10 n ≠ '-' :: cs := by
  intro h
  have hall := all_isDigit_toDigits n
  rw [h] at hall
  cases hall

/-- Digits carry no sign. -/
theorem splitSign_of_isDigit {cs : List Char} (h : cs.all Char.isDigit = true) :
    splitSign cs = (false, cs) := by
  unfold splitSign
  split
  · cases h
  · cases h
  · rfl

/-! ## As a binary64 number -/

namespace Binary64

theorem readUnsigned?_of_isDigit {cs : List Char} (hne : cs ≠ []) (h : cs.all Char.isDigit = true)
    (negative : Bool) :
    readUnsigned? negative cs = some (ofDecimal negative (readDigits 0 cs) 0) := by
  have hempty : cs.isEmpty = false := by rwa [List.isEmpty_eq_false_iff]
  simp only [readUnsigned?, takeWhile_isDigit h, dropWhile_isDigit h, hempty, Bool.false_and,
    Bool.false_eq_true, if_false, readExponent?, List.append_nil, List.length_nil]
  rfl

theorem ofDecimal_zero_exponent (negative : Bool) (n : Nat) :
    ofDecimal negative n 0 = ofRatio negative n 1 := by
  rw [ofDecimal]
  split
  · rename_i hn
    rw [ofRatio, if_pos hn]
  · rw [if_neg (by decide), if_neg (by omega), if_pos (Int.le_refl 0)]
    congr 1
    exact Nat.mul_one n

/-- The decimal text of an integer denotes the number nearest to it. -/
theorem ofText?_toString (z : Int) : ofText? (toString z) = some (ofInt z) := by
  have hread : ∀ negative, readUnsigned? negative (Nat.toDigits 10 z.natAbs)
      = some (ofRatio negative z.natAbs 1) := by
    intro negative
    rw [readUnsigned?_of_isDigit Nat.toDigits_ne_nil (all_isDigit_toDigits _),
      readDigits_toDigits, ofDecimal_zero_exponent]
  rcases toList_toString_cases z with ⟨hz, htext⟩ | ⟨hz, htext⟩
  · rw [ofText?, htext, ofInt, decide_eq_true hz]
    simp only [splitSign, hread]
  · rw [ofText?, htext, ofInt, decide_eq_false (by omega)]
    simp only [splitSign_of_isDigit (all_isDigit_toDigits _), hread]

end Binary64

/-! ## As a JSON number -/

namespace Json

theorem le_readDigits (acc : Nat) (cs : List Char) : acc ≤ readDigits acc cs := by
  induction cs generalizing acc with
  | nil => exact Nat.le_refl acc
  | cons c cs ih => exact Nat.le_trans (by omega) (ih (10 * acc + digitValue c))

/-- Digits that denote a number of 64 bits are all taken in. -/
theorem accumulate_of_lt {acc : Nat} {cs : List Char} (h : readDigits acc cs < 1 <<< 64) :
    accumulate acc cs = (readDigits acc cs, []) := by
  induction cs generalizing acc with
  | nil => rfl
  | cons c cs ih =>
      have hnext : 10 * acc + digitValue c < 1 <<< 64 :=
        Nat.lt_of_le_of_lt (le_readDigits (10 * acc + digitValue c) cs) h
      rw [accumulate]
      simp only [hnext, if_true]
      exact ih h

/-- The integers that a JSON number can be. -/
def IsInteger (z : Int) : Prop := -9223372036854775808 ≤ z ∧ z ≤ 18446744073709551615

/-- The literal of an integer. -/
def integerLiteral (z : Int) : NumberLiteral :=
  { negative := z < 0, whole := Nat.toDigits 10 z.natAbs, fraction := none, exponent := none }

theorem scanWhole_toDigits (n : Nat) :
    scanWhole (Nat.toDigits 10 n) = .ok (Nat.toDigits 10 n, []) := by
  have hall := all_isDigit_toDigits n
  have hdigits : scanDigits (Nat.toDigits 10 n) = .ok (Nat.toDigits 10 n, []) := by
    rw [scanDigits, takeWhile_isDigit hall, dropWhile_isDigit hall]
    split
    · rename_i hnil _
      exact absurd hnil Nat.toDigits_ne_nil
    · rename_i hnil _
      exact absurd hnil Nat.toDigits_ne_nil
    · rfl
  have hhead : ¬ ((Nat.toDigits 10 n).head? = some '0' ∧ (Nat.toDigits 10 n).length ≠ 1) := by
    rintro ⟨hzero, hlen⟩
    rcases Nat.eq_zero_or_pos n with rfl | hn
    · exact hlen rfl
    · exact head?_toDigits hn hzero
  rw [scanWhole, hdigits]
  exact if_neg hhead

theorem scanNumber_toString (z : Int) :
    scanNumber (toString z).toList = .ok (integerLiteral z, []) := by
  rcases toList_toString_cases z with ⟨hz, htext⟩ | ⟨hz, htext⟩
  · rw [htext, integerLiteral, decide_eq_true hz]
    exact bind_eq_ok_iff.mpr ⟨_, scanWhole_toDigits _, rfl⟩
  · rw [htext, integerLiteral, decide_eq_false (by omega), scanNumber]
    · exact bind_eq_ok_iff.mpr ⟨_, scanWhole_toDigits _, rfl⟩
    · exact fun cs => toDigits_ne_minus z.natAbs cs

theorem value?_integerLiteral {z : Int} (h : IsInteger z) :
    (integerLiteral z).value? = some (.integer z) := by
  obtain ⟨hlow, hhigh⟩ := h
  have hread := readDigits_toDigits z.natAbs
  have hall : accumulate 0 (Nat.toDigits 10 z.natAbs) = (z.natAbs, []) := by
    rw [accumulate_of_lt] <;> rw [hread]
    show z.natAbs < 18446744073709551616
    omega
  simp only [NumberLiteral.value?, integerLiteral, hall, List.isEmpty_nil, Bool.true_and]
  by_cases hz : z < 0
  · have hpos : 0 < z.natAbs := by omega
    have hle : z.natAbs ≤ 1 <<< 63 := by
      show z.natAbs ≤ 9223372036854775808
      omega
    have hval : -(z.natAbs : Int) = z := by omega
    simp only [hz, hpos, hle, hval, decide_true, Bool.not_true, Bool.false_eq_true, Bool.and_self,
      if_true, if_false]
  · have hval : (z.natAbs : Int) = z := by omega
    simp only [hz, hval, decide_false, Bool.not_false, if_true]

theorem readNumber_toString {z : Int} (h : IsInteger z) :
    readNumber (toString z).toList = .ok (.integer z, []) := by
  refine bind_eq_ok_iff.mpr ⟨_, scanNumber_toString z, ?_⟩
  simp only [value?_integerLiteral h]
  rfl

/-- The text of an integer starts with a minus or a digit. -/
theorem toList_toString_eq_cons (z : Int) :
    ∃ c cs, (toString z).toList = c :: cs ∧ (c = '-' ∨ c.isDigit = true) := by
  rcases toList_toString_cases z with ⟨-, htext⟩ | ⟨-, htext⟩
  · exact ⟨'-', _, htext, Or.inl rfl⟩
  · have hall := all_isDigit_toDigits z.natAbs
    obtain ⟨c, cs, hcs⟩ := List.exists_cons_of_ne_nil (Nat.toDigits_ne_nil (n := z.natAbs) (b := 10))
    rw [hcs, List.all_cons, Bool.and_eq_true] at hall
    exact ⟨c, cs, htext.trans hcs, Or.inr hall.1⟩

/-- There are no blanks to skip before a minus or a digit. -/
theorem skipBlanks_of_minus_or_digit {c : Char} (hc : c = '-' ∨ c.isDigit = true) (cs : List Char) :
    skipBlanks (c :: cs) = c :: cs := by
  refine List.dropWhile_cons_of_neg fun hblank => ?_
  simp only [isBlank, Bool.or_eq_true, decide_eq_true_eq] at hblank
  rcases hblank with ((rfl | rfl) | rfl) | rfl
  all_goals exact absurd hc (by decide)

/-- The decimal text of an integer denotes this integer as a JSON number. -/
theorem numberOfText?_toString {z : Int} (h : IsInteger z) :
    numberOfText? (toString z) = some (.integer z) := by
  have hnumber := readNumber_toString h
  obtain ⟨c, cs, htext, hc⟩ := toList_toString_eq_cons z
  rw [htext] at hnumber
  rw [numberOfText?, htext, skipBlanks_of_minus_or_digit hc, hnumber]
  rfl

/-- What starts with a minus or a digit is read as a number. -/
theorem readValue_of_minus_or_digit {c : Char} (hc : c = '-' ∨ c.isDigit = true) (cs : List Char)
    (fuel depth : Nat) :
    readValue (fuel + 1) depth (c :: cs)
      = (readNumber (c :: cs)).map (fun r => (.number r.1, r.2)) := by
  rw [readValue, skipBlanks_of_minus_or_digit hc]
  split
  case h_1 heq => cases heq
  case h_8 heq =>
    cases heq
    exact if_pos hc
  -- the other values start with other characters
  all_goals
    rename_i heq
    cases heq
    exact absurd hc (by decide)

/-- The decimal text of an integer is JSON for this integer. -/
theorem ofText_toString {z : Int} (h : IsInteger z) : ofText (toString z) = .ok (.ofInt z) := by
  have hnumber := readNumber_toString h
  obtain ⟨c, cs, htext, hc⟩ := toList_toString_eq_cons z
  refine bind_eq_ok_iff.mpr ⟨(.ofInt z, []), ?_, rfl⟩
  rw [htext] at hnumber ⊢
  rw [fuelFor, readValue_of_minus_or_digit hc, hnumber]
  rfl

end Json

/-- The attribute value of an integer is a number with its decimal text. -/
theorem Validator.parse_number_ofInt (z : Int) :
    Validator.number.parse (some (.ofInt z)) = .ok (.number (toString z)) := by
  rw [Validator.parse]
  rfl

end SingleTable
