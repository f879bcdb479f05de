import Mathlib.Data.Int.Log
import Mathlib.Data.Rat.Floor
import Mathlib.Tactic.Linarith
import Mathlib.Tactic.NormNum
import Mathlib.Tactic.Positivity
import SingleTable.Binary64.Text
import SingleTable.Proofs.AlikeKeys
import SingleTable.Proofs.OrderLaws

set_option autoImplicit false

/-!
# Rounding by value

A decimal number may be spelled in many ways, with zeros at either end, a point or an exponent. The
binary64 number nearest to it depends on its value alone (`Binary64.ofDecimal_congr`), so that texts for
the same decimal number are keys for the same place (`SortKey.alike_of_decimal?`).
-/

namespace SingleTable

namespace Binary64

/-! ## Ratios -/

theorem scaleDown_pos (num : Nat) {den : Nat} (hden : 0 < den) (e : Int) :
    0 < (scaleDown num den e).2 := by
  cases e with
  | ofNat n =>
      rw [scaleDown, Nat.shiftLeft_eq]
      exact Nat.mul_pos hden (Nat.two_pow_pos n)
  | negSucc n => exact hden

/-- The scaled ratio is the ratio over a power of two. -/
theorem scaleDown_div (num den : Nat) (e : Int) :
    ((scaleDown num den e).1 : ℚ) / (scaleDown num den e).2 = (num : ℚ) / den / 2 ^ e := by
  cases e with
  | ofNat n =>
      simp only [scaleDown, Nat.shiftLeft_eq, Nat.cast_mul, Nat.cast_pow, Nat.cast_ofNat,
        Int.ofNat_eq_natCast, zpow_natCast, div_div]
  | negSucc n =>
      simp only [scaleDown, Nat.shiftLeft_eq, Nat.cast_mul, Nat.cast_pow, Nat.cast_ofNat,
        zpow_negSucc, div_inv_eq_mul, div_mul_eq_mul_div]

theorem scaleDown_cross {num den num' den' : Nat} (h : num * den' = num' * den) (e : Int) :
    (scaleDown num den e).1 * (scaleDown num' den' e).2
      = (scaleDown num' den' e).1 * (scaleDown num den e).2 := by
  cases e with
  | ofNat n =>
      simp only [scaleDown, Nat.shiftLeft_eq, ← Nat.mul_assoc, h]
  | negSucc n =>
      simp only [scaleDown, Nat.shiftLeft_eq, Nat.mul_right_comm _ (2 ^ (n + 1)), h]

theorem divNearest_mul_right {c : Nat} (hc : 0 < c) (num den : Nat) :
    divNearest (num * c) (den * c) = divNearest num den := by
  have hrest : 2 * (num * c % (den * c)) = 2 * (num % den) * c := by
    rw [Nat.mul_mod_mul_right, Nat.mul_assoc]
  simp only [divNearest, Nat.mul_div_mul_right _ _ hc, hrest, Nat.mul_lt_mul_right hc,
    Nat.mul_left_inj (Nat.pos_iff_ne_zero.mp hc)]

/-- Equal ratios have the same nearest natural. -/
theorem divNearest_congr {num den num' den' : Nat} (hden : 0 < den) (hden' : 0 < den')
    (h : num * den' = num' * den) : divNearest num den = divNearest num' den' := by
  calc divNearest num den = divNearest (num * den') (den * den') :=
        (divNearest_mul_right hden' num den).symm
    _ = divNearest (num' * den) (den' * den) := by rw [h, Nat.mul_comm den]
    _ = divNearest num' den' := divNearest_mul_right hden num' den'

/-! ## The exponent of a ratio -/

section

variable {num den : Nat} (hnum : num ≠ 0) (hden : 0 < den)

include hnum hden

theorem two_zpow_le_ratio :
    (2 : ℚ) ^ ((num.log2 : Int) - den.log2 - 1) ≤ (num : ℚ) / den := by
  have hlow : ((2 ^ num.log2 : Nat) : ℚ) ≤ num := Nat.cast_le.mpr (Nat.log2_self_le hnum)
  have hhigh : (den : ℚ) ≤ ((2 ^ (den.log2 + 1) : Nat) : ℚ) :=
    Nat.cast_le.mpr (Nat.le_of_lt Nat.lt_log2_self)
  have hpos : (0 : ℚ) < den := Nat.cast_pos.mpr hden
  have hexp : (num.log2 : Int) - den.log2 - 1 = num.log2 - ((den.log2 + 1 : Nat) : Int) := by
    push_cast
    omega
  rw [hexp, zpow_sub₀ two_ne_zero, zpow_natCast, zpow_natCast]
  push_cast at hlow hhigh
  exact div_le_div₀ (Nat.cast_nonneg num) hlow hpos hhigh

omit hnum in
theorem ratio_lt_two_zpow :
    (num : ℚ) / den < (2 : ℚ) ^ ((num.log2 : Int) - den.log2 + 1) := by
  have hlow : ((2 ^ den.log2 : Nat) : ℚ) ≤ den :=
    Nat.cast_le.mpr (Nat.log2_self_le (Nat.pos_iff_ne_zero.mp hden))
  have hhigh : (num : ℚ) < ((2 ^ (num.log2 + 1) : Nat) : ℚ) := Nat.cast_lt.mpr Nat.lt_log2_self
  have hexp : (num.log2 : Int) - den.log2 + 1 = ((num.log2 + 1 : Nat) : Int) - den.log2 := by
    push_cast
    omega
  rw [hexp, zpow_sub₀ two_ne_zero, zpow_natCast, zpow_natCast]
  push_cast at hlow hhigh
  exact div_lt_div₀ hhigh hlow (by positivity) (by positivity)

omit hnum in
/-- The mantissa of a ratio at an exponent has 53 bits, or more, unless the ratio is below the power of
two. -/
theorem scaleDown_lt_iff (e : Int) :
    (scaleDown num den e).1 < (scaleDown num den e).2 <<< 52
      ↔ (num : ℚ) / den < (2 : ℚ) ^ (e + 52) := by
  have hpos : (0 : ℚ) < (scaleDown num den e).2 := Nat.cast_pos.mpr (scaleDown_pos num hden e)
  have hexp : (2 : ℚ) ^ (e + 52) = 2 ^ 52 * 2 ^ e := by
    rw [zpow_add₀ two_ne_zero, mul_comm]
    rfl
  have htwo : (0 : ℚ) < 2 ^ e := zpow_pos two_pos e
  calc (scaleDown num den e).1 < (scaleDown num den e).2 <<< 52
      ↔ ((scaleDown num den e).1 : ℚ) < 2 ^ 52 * (scaleDown num den e).2 := by
        rw [Nat.shiftLeft_eq, Nat.mul_comm, ← @Nat.cast_lt ℚ, Nat.cast_mul, Nat.cast_pow,
          Nat.cast_ofNat]
    _ ↔ (num : ℚ) / den / 2 ^ e < 2 ^ 52 := by rw [← scaleDown_div, div_lt_iff₀ hpos]
    _ ↔ (num : ℚ) / den < 2 ^ (e + 52) := by rw [div_lt_iff₀ htwo, hexp]

/-- The exponent depends on the value of the ratio alone. -/
theorem exponentOf_eq_log :
    exponentOf num den = max minExponent (Int.log 2 ((num : ℚ) / den) - 52) := by
  have hpos : (0 : ℚ) < (num : ℚ) / den :=
    div_pos (Nat.cast_pos.mpr (Nat.pos_of_ne_zero hnum)) (Nat.cast_pos.mpr hden)
  have hle := (Int.zpow_le_iff_le_log Nat.one_lt_two hpos).mp (two_zpow_le_ratio hnum hden)
  have hlt := (Int.lt_zpow_iff_log_lt Nat.one_lt_two hpos).mp (ratio_lt_two_zpow hden)
  have hstep : (scaleDown num den ((num.log2 : Int) - den.log2 - 52)).1
        < (scaleDown num den ((num.log2 : Int) - den.log2 - 52)).2 <<< 52
      ↔ Int.log 2 ((num : ℚ) / den) < (num.log2 : Int) - den.log2 := by
    rw [scaleDown_lt_iff hden, Int.sub_add_cancel]
    exact Int.lt_zpow_iff_log_lt Nat.one_lt_two hpos
  simp only [exponentOf, hstep]
  split <;> congr 1 <;> omega

end

/-! ## Rounding ratios -/

/-- Equal ratios are rounded to the same number. -/
theorem ofRatio_congr (negative : Bool) {num den num' den' : Nat} (hden : 0 < den) (hden' : 0 < den')
    (h : num * den' = num' * den) : ofRatio negative num den = ofRatio negative num' den' := by
  by_cases hnum : num = 0
  · have hnum' : num' = 0 := by
      rw [hnum, Nat.zero_mul] at h
      exact (Nat.mul_eq_zero.mp h.symm).resolve_right (Nat.pos_iff_ne_zero.mp hden)
    rw [ofRatio, ofRatio, if_pos hnum, if_pos hnum']
  · have hnum' : num' ≠ 0 := by
      rintro rfl
      rw [Nat.zero_mul] at h
      exact hnum ((Nat.mul_eq_zero.mp h).resolve_right (Nat.pos_iff_ne_zero.mp hden'))
    have hvalue : (num : ℚ) / den = (num' : ℚ) / den' := by
      rw [div_eq_div_iff (Nat.cast_ne_zero.mpr (Nat.pos_iff_ne_zero.mp hden))
        (Nat.cast_ne_zero.mpr (Nat.pos_iff_ne_zero.mp hden'))]
      exact_mod_cast h
    have hexp : exponentOf num den = exponentOf num' den' := by
      rw [exponentOf_eq_log hnum hden, exponentOf_eq_log hnum' hden', hvalue]
    have hmantissa := divNearest_congr (scaleDown_pos num hden (exponentOf num' den'))
      (scaleDown_pos num' hden' (exponentOf num' den')) (scaleDown_cross h _)
    rw [ofRatio, ofRatio, if_neg hnum, if_neg hnum', hexp]
    simp only [hmantissa]

/-- Ratios from the next power of two beyond the finite numbers on are infinite. -/
theorem ofRatio_eq_infinite (negative : Bool) {num den : Nat} (hden : 0 < den)
    (h : den * 2 ^ 1024 ≤ num) : ofRatio negative num den = .infinite negative := by
  have hnum : num ≠ 0 := by
    have := Nat.mul_pos hden (Nat.two_pow_pos 1024)
    omega
  have hcast : (0 : ℚ) < den := Nat.cast_pos.mpr hden
  have hvalue : (2 : ℚ) ^ (1024 : Int) ≤ (num : ℚ) / den := by
    rw [le_div_iff₀ hcast, mul_comm]
    exact_mod_cast h
  have hpos : (0 : ℚ) < (num : ℚ) / den := lt_of_lt_of_le (zpow_pos two_pos _) hvalue
  have hlog := (Int.zpow_le_iff_le_log Nat.one_lt_two hpos).mp hvalue
  have hexp : 972 ≤ exponentOf num den := by
    rw [exponentOf_eq_log hnum hden]
    exact le_max_of_le_right (by omega)
  rw [ofRatio, if_neg hnum]
  dsimp only
  rw [if_pos]
  rw [maxExponent]
  split
  · exact Int.lt_of_lt_of_le (by omega) (Int.le_add_one hexp)
  · exact Int.lt_of_lt_of_le (by omega) hexp

/-! ## Rounding decimal numbers -/

theorem digitCount_mul_ten {n : Nat} (hn : n ≠ 0) : digitCount (n * 10) = digitCount n + 1 := by
  rw [digitCount, Nat.toDigits_of_base_le (by decide) (by omega), List.length_append,
    Nat.mul_div_cancel n (by decide)]
  rfl

theorem digitCount_mul_pow {n : Nat} (hn : n ≠ 0) (k : Nat) :
    digitCount (n * 10 ^ k) = digitCount n + k := by
  induction k with
  | zero => rw [Nat.pow_zero, Nat.mul_one, Nat.add_zero]
  | succ k ih =>
      have hne : n * 10 ^ k ≠ 0 := Nat.mul_ne_zero hn (Nat.pos_iff_ne_zero.mp (Nat.pow_pos (by decide)))
      rw [Nat.pow_succ, ← Nat.mul_assoc, digitCount_mul_ten hne, ih, Nat.add_assoc]

/-- Between the two bounds a decimal number is rounded as a ratio of powers of ten. -/
theorem ofDecimal_eq_ofRatio (negative : Bool) {d : Nat} (hd : d ≠ 0) {e : Int} (hhigh : e ≤ 400)
    (hlow : -400 ≤ e + digitCount d) :
    ofDecimal negative d e = ofRatio negative (d * 10 ^ e.toNat) (10 ^ (-e).toNat) := by
  rw [ofDecimal, if_neg hd, if_neg (by omega), if_neg (by omega)]
  split
  · have hzero : (-e).toNat = 0 := by omega
    rw [hzero]
    rfl
  · have hzero : e.toNat = 0 := by omega
    rw [hzero, Nat.pow_zero, Nat.mul_one]
    rfl

theorem two_pow_le_ten_pow {m n : Nat} (h : m ≤ 3 * n) : 2 ^ m ≤ 10 ^ n := by
  calc 2 ^ m ≤ 2 ^ (3 * n) := Nat.pow_le_pow_right (by decide) h
    _ = 8 ^ n := Nat.pow_mul 2 3 n
    _ ≤ 10 ^ n := Nat.pow_le_pow_left (by decide) n

/-- Decimal numbers that count as infinite are ratios beyond the finite numbers. -/
theorem ofRatio_eq_infinite_of_gt (negative : Bool) {d : Nat} (hd : d ≠ 0) {k : Nat} {e : Int}
    (h : e + k > 400) :
    ofRatio negative (d * 10 ^ k * 10 ^ e.toNat) (10 ^ (-e).toNat) = .infinite negative := by
  refine ofRatio_eq_infinite negative (Nat.pow_pos (by decide)) ?_
  have hexp : k + e.toNat = (-e).toNat + (e + k).toNat := by omega
  calc 10 ^ (-e).toNat * 2 ^ 1024 ≤ 10 ^ (-e).toNat * 10 ^ (e + k).toNat :=
        Nat.mul_le_mul_left _ (two_pow_le_ten_pow (by omega))
    _ = 10 ^ k * 10 ^ e.toNat := by rw [← Nat.pow_add, ← Nat.pow_add, hexp]
    _ ≤ d * 10 ^ k * 10 ^ e.toNat :=
        Nat.mul_le_mul_right _ (Nat.le_mul_of_pos_left _ (Nat.pos_of_ne_zero hd))

/-- Zeros at the end of the digits count like a greater power of ten. -/
theorem ofDecimal_mul_pow (negative : Bool) (d k : Nat) (e : Int) :
    ofDecimal negative (d * 10 ^ k) e = ofDecimal negative d (e + k) := by
  by_cases hd : d = 0
  · rw [hd, Nat.zero_mul]
    rfl
  have hdk : d * 10 ^ k ≠ 0 := Nat.mul_ne_zero hd (Nat.pos_iff_ne_zero.mp (Nat.pow_pos (by decide)))
  have hcount := digitCount_mul_pow hd k
  have hpow : ∀ n, 0 < 10 ^ n := fun n => Nat.pow_pos (by decide)
  by_cases hhigh : e > 400
  · -- both are infinite
    rw [ofDecimal, ofDecimal, if_neg hdk, if_neg hd, if_pos hhigh, if_pos (by omega)]
  by_cases hlow : e + digitCount (d * 10 ^ k) < -400
  · -- both are zero
    have hhigh' : ¬ e + k > 400 := by omega
    have hlow' : e + k + digitCount d < -400 := by omega
    rw [ofDecimal, ofDecimal, if_neg hdk, if_neg hd, if_neg hhigh, if_pos hlow, if_neg hhigh',
      if_pos hlow']
  rw [ofDecimal_eq_ofRatio negative hdk (by omega) (by omega)]
  by_cases hhigh' : e + k > 400
  · -- the ratio is beyond all finite numbers, too
    rw [ofDecimal, if_neg hd, if_pos hhigh', ofRatio_eq_infinite_of_gt negative hd hhigh']
  · rw [ofDecimal_eq_ofRatio negative hd (by omega) (by omega)]
    refine ofRatio_congr negative (hpow _) (hpow _) ?_
    have hexp : k + e.toNat + (-(e + k)).toNat = (e + k).toNat + (-e).toNat := by omega
    rw [Nat.mul_assoc, Nat.mul_assoc, Nat.mul_assoc, ← Nat.pow_add, ← Nat.pow_add, ← Nat.pow_add,
      ← Nat.add_assoc, hexp]

/-- Equal decimal numbers are rounded to the same number. -/
theorem ofDecimal_congr (negative : Bool) {d d' : Nat} {e e' : Int}
    (h : (d : ℚ) * 10 ^ e = (d' : ℚ) * 10 ^ e') :
    ofDecimal negative d e = ofDecimal negative d' e' := by
  wlog hle : e ≤ e' generalizing d d' e e'
  · exact (this h.symm (by omega)).symm
  obtain ⟨k, rfl⟩ := Int.le.dest hle
  have hdigits : d = d' * 10 ^ k := by
    have hten : (10 : ℚ) ^ e ≠ 0 := zpow_ne_zero e (by norm_num)
    rw [zpow_add₀ (by norm_num), zpow_natCast, mul_comm ((10 : ℚ) ^ e), ← mul_assoc] at h
    exact_mod_cast mul_right_cancel₀ hten h
  rw [hdigits, ofDecimal_mul_pow]

theorem ofRatio_ne_nan (negative : Bool) (num den : Nat) : ofRatio negative num den ≠ .nan := by
  simp only [ofRatio, zero]
  split_ifs <;> simp only [ne_eq, reduceCtorEq, not_false_eq_true]

theorem ofDecimal_ne_nan (negative : Bool) (d : Nat) (e : Int) : ofDecimal negative d e ≠ .nan := by
  rw [ofDecimal]
  split_ifs
  · exact Binary64.noConfusion
  · exact Binary64.noConfusion
  · exact Binary64.noConfusion
  · exact ofRatio_ne_nan _ _ _
  · exact ofRatio_ne_nan _ _ _

/-- The decimal number with a sign; true stands for a minus. -/
def signed (negative : Bool) (d : Nat) (e : Int) : ℚ :=
  if negative then -((d : ℚ) * 10 ^ e) else (d : ℚ) * 10 ^ e

/-- Equal decimal numbers with signs are rounded to equal numbers. A zero may have either sign. -/
theorem units?_ofDecimal_congr {negative negative' : Bool} {d d' : Nat} {e e' : Int}
    (h : signed negative d e = signed negative' d' e') :
    (ofDecimal negative d e).units? = (ofDecimal negative' d' e').units? := by
  have hten : ∀ e : Int, (0 : ℚ) < 10 ^ e := fun e => zpow_pos (by norm_num) e
  by_cases hsign : negative = negative'
  · subst hsign
    have hvalue : (d : ℚ) * 10 ^ e = (d' : ℚ) * 10 ^ e' := by
      cases negative with
      | false => exact h
      | true => exact neg_injective h
    rw [ofDecimal_congr negative hvalue]
  · -- numbers of both signs are zeros
    have hsum : (d : ℚ) * 10 ^ e + (d' : ℚ) * 10 ^ e' = 0 := by
      cases negative <;> cases negative' <;>
        simp only [signed, Bool.false_eq_true, if_true, if_false, not_true_eq_false] at h hsign
      · linarith
      · linarith
    have hnonneg : ∀ (n : Nat) (e : Int), (0 : ℚ) ≤ (n : ℚ) * 10 ^ e :=
      fun n e => mul_nonneg (Nat.cast_nonneg n) (hten e).le
    have hd : d = 0 := by
      have hzero : (d : ℚ) * 10 ^ e = 0 :=
        le_antisymm (by linarith [hnonneg d' e']) (hnonneg d e)
      exact_mod_cast (mul_eq_zero.mp hzero).resolve_right (hten e).ne'
    have hd' : d' = 0 := by
      have hzero : (d' : ℚ) * 10 ^ e' = 0 :=
        le_antisymm (by linarith [hnonneg d e]) (hnonneg d' e')
      exact_mod_cast (mul_eq_zero.mp hzero).resolve_right (hten e').ne'
    rw [hd, hd', ofDecimal, ofDecimal, if_pos rfl, if_pos rfl]
    cases negative <;> cases negative' <;> rfl

/-! ## Texts of decimal numbers -/

/-- The digits after an optional point, and the rest of the text. -/
def splitFraction : List Char → List Char × List Char
  | '.' :: rest => (rest.takeWhile Char.isDigit, rest.dropWhile Char.isDigit)
  | rest => ([], rest)

theorem splitFraction_point (cs : List Char) :
    splitFraction ('.' :: cs) = (cs.takeWhile Char.isDigit, cs.dropWhile Char.isDigit) := rfl

theorem splitFraction_of_ne {cs : List Char} (h : ∀ rest, cs = '.' :: rest → False) :
    splitFraction cs = ([], cs) := by
  unfold splitFraction
  split
  · exact (h _ rfl).elim
  · rfl

/-- The digits and the power of ten of the decimal number that an unsigned text spells. -/
def readDecimal? (cs : List Char) : Option (Nat × Int) :=
  let whole := cs.takeWhile Char.isDigit
  let (fraction, rest) := splitFraction (cs.dropWhile Char.isDigit)
  if whole.isEmpty && fraction.isEmpty then none
  else
    (readExponent? rest).map (fun e => (readDigits 0 (whole ++ fraction), e - fraction.length))

/-- The decimal number that a text denotes, before it is rounded. -/
def decimal? (text : String) : Option ℚ :=
  let (negative, cs) := splitSign text.toList
  (readDecimal? cs).map (fun d => signed negative d.1 d.2)

theorem readUnsigned?_eq_map (negative : Bool) (cs : List Char) :
    readUnsigned? negative cs = (readDecimal? cs).map (fun d => ofDecimal negative d.1 d.2) := by
  unfold readUnsigned? readDecimal?
  dsimp only
  generalize cs.dropWhile Char.isDigit = rest
  split
  · -- a point after the whole part
    rename_i rest
    rw [splitFraction_point]
    dsimp only
    split
    · rfl
    · cases readExponent? (rest.dropWhile Char.isDigit) <;> rfl
  · rename_i hpoint
    rw [splitFraction_of_ne hpoint]
    dsimp only
    split
    · rfl
    · cases readExponent? rest <;> rfl

/-- A text of a decimal number is read as the number nearest to it. -/
theorem exists_of_decimal? {text : String} {q : ℚ} (h : decimal? text = some q) :
    ∃ negative d e, ofText? text = some (ofDecimal negative d e) ∧ q = signed negative d e := by
  rw [decimal?] at h
  rw [ofText?]
  generalize splitSign text.toList = split at h ⊢
  obtain ⟨negative, cs⟩ := split
  obtain ⟨⟨d, e⟩, hread, rfl⟩ := Option.map_eq_some_iff.mp h
  refine ⟨negative, d, e, ?_, rfl⟩
  dsimp only
  rw [readUnsigned?_eq_map, hread]
  rfl

end Binary64

namespace SortKey

/-- Texts of the same decimal number are keys for the same place. -/
theorem alike_of_decimal? {a b : String} {q : ℚ} (ha : Binary64.decimal? a = some q)
    (hb : Binary64.decimal? b = some q) : (number a).Alike (number b) := by
  obtain ⟨na, da, ea, hnumber, rfl⟩ := Binary64.exists_of_decimal? ha
  obtain ⟨nb, db, eb, hnumber', hvalue⟩ := Binary64.exists_of_decimal? hb
  have hcomparable : (number a).Comparable := by
    rw [Comparable, numberOf, hnumber]
    exact Binary64.ofDecimal_ne_nan na da ea
  have hcomparable' : (number b).Comparable := by
    rw [Comparable, numberOf, hnumber']
    exact Binary64.ofDecimal_ne_nan nb db eb
  have hunits : (numberOf a).units? = (numberOf b).units? := by
    rw [numberOf, numberOf, hnumber, hnumber']
    exact Binary64.units?_ofDecimal_congr hvalue
  refine compare_congr_of_comparable hcomparable hcomparable' ?_
  obtain ⟨u, v, hu, hv, huv⟩ := Binary64.compare?_of_ne_nan hcomparable hcomparable'
  rw [hu, hv, Option.some.injEq] at hunits
  rw [compare_number, huv, hunits]
  exact Int.compare_eq_eq.mpr rfl

end SortKey

end SingleTable
