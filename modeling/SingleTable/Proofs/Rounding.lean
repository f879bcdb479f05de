import Mathlib.Algebra.Order.Ring.Nat
import SingleTable.Binary64.Whole

set_option autoImplicit false

/-!
# Rounding integers

The binary64 number nearest to an integer is the integer rounded to 53 bits (`Binary64.units?_ofInt`).
Rounding keeps the order of the integers (`Binary64.roundInt_mono`), moves none of them far
(`Binary64.roundInt_near`) and changes none of up to 53 bits (`Binary64.roundInt_of_le`), so that these
are not rounded to the same number as any other integer (`Binary64.roundInt_ne`).
-/

namespace SingleTable

namespace Binary64

/-! ## Nearest multiples -/

theorem divNearest_mul {den : Nat} (hden : 0 < den) (q : Nat) : divNearest (q * den) den = q := by
  simp only [divNearest, Nat.mul_mod_left, Nat.mul_div_cancel q hden, Nat.mul_zero, hden, if_true]

theorem divNearest_one (n : Nat) : divNearest n 1 = n := by
  have hdiv := divNearest_mul Nat.one_pos n
  rwa [Nat.mul_one] at hdiv

theorem div_le_divNearest (num den : Nat) : num / den ≤ divNearest num den := by
  simp only [divNearest]
  split_ifs <;> omega

theorem divNearest_le_div_add_one (num den : Nat) : divNearest num den ≤ num / den + 1 := by
  simp only [divNearest]
  split_ifs <;> omega

theorem divNearest_mono {a b : Nat} (h : a ≤ b) (den : Nat) :
    divNearest a den ≤ divNearest b den := by
  rcases Nat.lt_or_ge (a / den) (b / den) with hlt | hge
  · calc divNearest a den ≤ a / den + 1 := divNearest_le_div_add_one a den
      _ ≤ b / den := hlt
      _ ≤ divNearest b den := div_le_divNearest b den
  · -- between the same two multiples it is the remainders that count
    have hdiv : a / den = b / den := Nat.le_antisymm (Nat.div_le_div_right h) hge
    have hmod : a % den ≤ b % den := by
      have ha := Nat.div_add_mod a den
      have hb := Nat.div_add_mod b den
      rw [hdiv] at ha
      omega
    simp only [divNearest, hdiv]
    split_ifs <;> omega

/-- The nearest multiple is at most half a multiple away. -/
theorem divNearest_near {den : Nat} (hden : 0 < den) (num : Nat) :
    2 * (divNearest num den * den) ≤ 2 * num + den
      ∧ 2 * num ≤ 2 * (divNearest num den * den) + den := by
  have hnum := Nat.div_add_mod' num den
  have hmod := Nat.mod_lt num hden
  have hup : (num / den + 1) * den = num / den * den + den := Nat.succ_mul _ _
  simp only [divNearest]
  split_ifs with hlow htie
  · omega
  · rcases Nat.mod_two_eq_zero_or_one (num / den) with heven | hodd
    · rw [heven, Nat.add_zero]
      omega
    · rw [hodd]
      omega
  · omega

/-! ## Naturals -/

/-- The distance of two numbers of 53 bits that are as long as `n`. -/
def spacing (n : Nat) : Nat := 2 ^ (n.log2 - 52)

/-- The natural rounded to 53 bits; a tie goes to the even one. -/
def roundNat (n : Nat) : Nat := divNearest n (spacing n) * spacing n

theorem spacing_pos (n : Nat) : 0 < spacing n := Nat.two_pow_pos _

theorem log2_le_log2 {a b : Nat} (ha : a ≠ 0) (h : a ≤ b) : a.log2 ≤ b.log2 :=
  (Nat.le_log2 (by omega)).mpr (Nat.le_trans (Nat.log2_self_le ha) h)

theorem spacing_of_log2_le {n : Nat} (h : n.log2 ≤ 52) : spacing n = 1 := by
  rw [spacing, Nat.sub_eq_zero_of_le h]
  rfl

theorem roundNat_of_log2_le {n : Nat} (h : n.log2 ≤ 52) : roundNat n = n := by
  rw [roundNat, spacing_of_log2_le h, divNearest_one, Nat.mul_one]

/-- Powers of two that are as long as `n` are multiples of the distance. -/
theorem two_pow_eq_mul_spacing {n : Nat} (h : 52 ≤ n.log2) (k : Nat) :
    2 ^ (n.log2 + k) = 2 ^ (52 + k) * spacing n := by
  rw [spacing, ← Nat.pow_add]
  congr 1
  omega

theorem two_pow_log2_le_roundNat {n : Nat} (hn : n ≠ 0) : 2 ^ n.log2 ≤ roundNat n := by
  rcases Nat.lt_or_ge n.log2 52 with hlt | hge
  · rw [roundNat_of_log2_le (Nat.le_of_lt hlt)]
    exact Nat.log2_self_le hn
  · have hpow := two_pow_eq_mul_spacing hge 0
    calc 2 ^ n.log2 = 2 ^ 52 * spacing n := hpow
      _ = divNearest (2 ^ 52 * spacing n) (spacing n) * spacing n := by
          rw [divNearest_mul (spacing_pos n)]
      _ ≤ divNearest n (spacing n) * spacing n := by
          refine Nat.mul_le_mul_right _ (divNearest_mono ?_ _)
          exact Nat.le_trans (Nat.le_of_eq hpow.symm) (Nat.log2_self_le hn)

theorem roundNat_le_two_pow (n : Nat) : roundNat n ≤ 2 ^ (n.log2 + 1) := by
  rcases Nat.lt_or_ge n.log2 52 with hlt | hge
  · rw [roundNat_of_log2_le (Nat.le_of_lt hlt)]
    exact Nat.le_of_lt Nat.lt_log2_self
  · have hpow := two_pow_eq_mul_spacing hge 1
    calc roundNat n ≤ divNearest (2 ^ 53 * spacing n) (spacing n) * spacing n := by
          refine Nat.mul_le_mul_right _ (divNearest_mono ?_ _)
          exact Nat.le_trans (Nat.le_of_lt Nat.lt_log2_self) (Nat.le_of_eq hpow)
      _ = 2 ^ 53 * spacing n := by rw [divNearest_mul (spacing_pos n)]
      _ = 2 ^ (n.log2 + 1) := hpow.symm

/-- Rounding keeps the order. -/
theorem roundNat_mono {a b : Nat} (h : a ≤ b) : roundNat a ≤ roundNat b := by
  rcases Nat.eq_zero_or_pos a with rfl | ha
  · rw [roundNat_of_log2_le (by decide)]
    exact Nat.zero_le _
  · have hlog := log2_le_log2 (Nat.pos_iff_ne_zero.mp ha) h
    rcases Nat.lt_or_ge a.log2 b.log2 with hlt | hge
    · -- a power of two lies between the two
      calc roundNat a ≤ 2 ^ (a.log2 + 1) := roundNat_le_two_pow a
        _ ≤ 2 ^ b.log2 := Nat.pow_le_pow_right (by decide) hlt
        _ ≤ roundNat b := two_pow_log2_le_roundNat (by omega)
    · have hspacing : spacing a = spacing b := by rw [spacing, spacing, Nat.le_antisymm hlog hge]
      rw [roundNat, roundNat, hspacing]
      exact Nat.mul_le_mul_right _ (divNearest_mono h _)

/-- Naturals of up to 53 bits and the next one are not changed. -/
theorem roundNat_of_le {n : Nat} (h : n ≤ 2 ^ 53) : roundNat n = n := by
  rcases Nat.lt_or_eq_of_le h with hlt | rfl
  · refine roundNat_of_log2_le ?_
    rcases Nat.eq_zero_or_pos n with rfl | hn
    · decide
    · have := (Nat.log2_lt (Nat.pos_iff_ne_zero.mp hn)).mpr hlt
      omega
  · have hspacing : spacing (2 ^ 53) = 2 := by
      rw [spacing, Nat.log2_two_pow]
      rfl
    rw [roundNat, hspacing]
    exact congrArg (· * 2) (divNearest_mul (by decide) (2 ^ 52))

/-- Rounding goes to the nearest number: it moves a natural by half the distance at most. -/
theorem roundNat_near (n : Nat) :
    2 * roundNat n ≤ 2 * n + spacing n ∧ 2 * n ≤ 2 * roundNat n + spacing n :=
  divNearest_near (spacing_pos n) n

/-! ## Integers -/

/-- The integer rounded to 53 bits; a tie goes to the even one. -/
def roundInt (z : Int) : Int := if z < 0 then -(roundNat z.natAbs) else roundNat z.natAbs

theorem roundInt_mono {m n : Int} (h : m ≤ n) : roundInt m ≤ roundInt n := by
  unfold roundInt
  split
  · split
    · have := @roundNat_mono n.natAbs m.natAbs (by omega)
      omega
    · omega
  · have := @roundNat_mono m.natAbs n.natAbs (by omega)
    rw [if_neg (by omega)]
    omega

theorem roundInt_of_le {z : Int} (h : z.natAbs ≤ 2 ^ 53) : roundInt z = z := by
  rw [roundInt, roundNat_of_le h]
  split <;> omega

/-- An integer of up to 53 bits is not rounded to the same number as any other integer. -/
theorem roundInt_ne {m n : Int} (hm : m.natAbs < 2 ^ 53) (hmn : m ≠ n) : roundInt m ≠ roundInt n := by
  have hself : roundInt m = m := roundInt_of_le (Nat.le_of_lt hm)
  rcases Int.lt_or_gt_of_ne hmn with hlt | hgt
  · -- the next integer is not changed either
    have hnext : roundInt (m + 1) = m + 1 := roundInt_of_le (by omega)
    have := @roundInt_mono (m + 1) n (by omega)
    omega
  · have hprevious : roundInt (m - 1) = m - 1 := roundInt_of_le (by omega)
    have := @roundInt_mono n (m - 1) (by omega)
    omega

theorem roundInt_near (z : Int) :
    2 * roundInt z ≤ 2 * z + spacing z.natAbs ∧ 2 * z ≤ 2 * roundInt z + spacing z.natAbs := by
  have hnear := roundNat_near z.natAbs
  unfold roundInt
  split <;> omega

/-! ## The value of the nearest number -/

/-- The ratio that is rounded to the mantissa: a long natural over the distance, or a short one
scaled up to 53 bits. -/
theorem scaleDown_one (n : Nat) :
    scaleDown n 1 ((n.log2 : Int) - 52) = (n * 2 ^ (52 - n.log2), spacing n) := by
  rcases Nat.lt_or_ge n.log2 52 with hlt | hge
  · have hexp : (n.log2 : Int) - 52 = Int.negSucc (51 - n.log2) := by omega
    have hshift : 51 - n.log2 + 1 = 52 - n.log2 := by omega
    rw [hexp, scaleDown, Nat.shiftLeft_eq, hshift, spacing_of_log2_le (Nat.le_of_lt hlt)]
  · have hexp : (n.log2 : Int) - 52 = Int.ofNat (n.log2 - 52) := by
      rw [Int.ofNat_eq_natCast]
      omega
    rw [hexp, scaleDown, Nat.one_shiftLeft, spacing, Nat.sub_eq_zero_of_le hge]
    exact congrArg (·, _) (Nat.mul_one n).symm

theorem exponentOf_one {n : Nat} (hn : n ≠ 0) : exponentOf n 1 = (n.log2 : Int) - 52 := by
  have hlog : (n.log2 : Int) - (Nat.log2 1 : Int) - 52 = (n.log2 : Int) - 52 := by
    have : Nat.log2 1 = 0 := by decide
    omega
  have hlong : spacing n <<< 52 ≤ n * 2 ^ (52 - n.log2) := by
    calc spacing n <<< 52 = 2 ^ (n.log2 + (52 - n.log2)) := by
          rw [Nat.shiftLeft_eq, spacing, ← Nat.pow_add]
          congr 1
          omega
      _ = 2 ^ n.log2 * 2 ^ (52 - n.log2) := Nat.pow_add _ _ _
      _ ≤ n * 2 ^ (52 - n.log2) := Nat.mul_le_mul_right _ (Nat.log2_self_le hn)
  simp only [exponentOf, hlog, scaleDown_one, Nat.not_lt.mpr hlong, if_false]
  exact max_eq_right (by rw [minExponent]; omega)

/-- The rounded mantissa in units is the rounded natural. -/
theorem mantissa_units (n : Nat) :
    divNearest (n * 2 ^ (52 - n.log2)) (spacing n) <<< ((n.log2 : Int) - 52 - minExponent).toNat
      = roundNat n * unitsPerOne := by
  have hshift : ((n.log2 : Int) - 52 - minExponent).toNat = n.log2 + 1022 := by
    rw [minExponent]
    omega
  rw [hshift, Nat.shiftLeft_eq, unitsPerOne, Nat.one_shiftLeft]
  rcases Nat.lt_or_ge n.log2 52 with hlt | hge
  · have hlog := Nat.le_of_lt hlt
    have hexp : 52 - n.log2 + (n.log2 + 1022) = 1074 := by omega
    rw [spacing_of_log2_le hlog, divNearest_one, roundNat_of_log2_le hlog, Nat.mul_assoc,
      ← Nat.pow_add, hexp]
  · have hexp : n.log2 + 1022 = n.log2 - 52 + 1074 := by omega
    rw [Nat.sub_eq_zero_of_le hge, Nat.pow_zero, Nat.mul_one, hexp, Nat.pow_add, ← Nat.mul_assoc]
    rfl

/-- A carry out of the mantissa does not change the value. -/
theorem units?_carried (negative : Bool) (m : Nat) {e : Int} (hlow : minExponent ≤ e)
    (hhigh : e < maxExponent) :
    units?
        (let carried := if m = 1 <<< 53 then (1 <<< 52, e + 1) else (m, e)
        if carried.2 > maxExponent then .infinite negative
        else .finite negative carried.1 carried.2)
      = units? (.finite negative m e) := by
  dsimp only
  split
  · rename_i hm
    have hshift : (e + 1 - minExponent).toNat = (e - minExponent).toNat + 1 := by omega
    have hvalue : (1 <<< 52) <<< (e + 1 - minExponent).toNat = m <<< (e - minExponent).toNat := by
      have hcarry : 2 * 1 <<< 52 = 1 <<< 53 := by decide
      rw [hm, hshift, Nat.shiftLeft_succ_inside, hcarry]
    rw [if_neg (by omega), units?, units?, hvalue]
  · rw [if_neg (by omega)]

theorem units?_ofRatio_one (negative : Bool) {n : Nat} (h : n.log2 < 1023) :
    (ofRatio negative n 1).units?
      = some (if negative then -((roundNat n * unitsPerOne : Nat) : Int)
          else ((roundNat n * unitsPerOne : Nat) : Int)) := by
  rw [ofRatio]
  split
  · rename_i hn
    rw [hn, roundNat_of_log2_le (by decide), Nat.zero_mul]
    cases negative <;> rfl
  · rename_i hn
    rw [units?_carried]
    · rw [units?, exponentOf_one hn, scaleDown_one, mantissa_units]
    · rw [exponentOf_one hn, minExponent]
      omega
    · rw [exponentOf_one hn, maxExponent]
      omega

/-- The value of the number nearest to an integer: the integer rounded to 53 bits. -/
theorem units?_ofInt {z : Int} (h : z.natAbs.log2 < 1023) :
    (ofInt z).units? = some (roundInt z * unitsPerOne) := by
  rw [ofInt, units?_ofRatio_one _ h, roundInt, Int.natCast_mul]
  by_cases hz : z < 0
  · rw [decide_eq_true hz, if_pos rfl, if_pos hz, Int.neg_mul]
  · rw [decide_eq_false hz, if_neg Bool.false_ne_true, if_neg hz]

end Binary64

end SingleTable
