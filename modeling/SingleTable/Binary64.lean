set_option autoImplicit false

/-!
# Binary64 numbers

The numbers that a 64-bit binary floating point word can hold, with exact rounding and exact
comparison. A finite number is `±mantissa * 2 ^ exponent`, with `mantissa < 2 ^ 53` and
`-1074 ≤ exponent ≤ 971`; rounding always yields the representative whose mantissa has 53 bits,
or the least exponent where that is impossible. All arithmetic is on naturals and integers.
-/

namespace SingleTable

/-- A binary64 number. -/
inductive Binary64 where
  | finite (negative : Bool) (mantissa : Nat) (exponent : Int)
  | infinite (negative : Bool)
  | nan
  deriving DecidableEq, Repr

namespace Binary64

/-- The exponent of the least positive number. -/
def minExponent : Int := -1074

/-- The exponent of the greatest finite number. -/
def maxExponent : Int := 971

/-- A zero with the given sign. -/
def zero (negative : Bool) : Binary64 := .finite negative 0 minExponent

/-! ## Rounding -/

/-- The natural nearest to `num / den`; a half goes to the even neighbour. -/
def divNearest (num den : Nat) : Nat :=
  let q := num / den
  let r := num % den
  if 2 * r < den then q
  else if 2 * r = den then q + q % 2
  else q + 1

/-- Numerator and denominator of `num / den / 2 ^ e`. -/
def scaleDown (num den : Nat) : Int → Nat × Nat
  | .ofNat n => (num, den <<< n)
  | .negSucc n => (num <<< (n + 1), den)

/-- The exponent at which `num / den` has a mantissa of 53 bits, but not below `minExponent`. -/
def exponentOf (num den : Nat) : Int :=
  let e : Int := (num.log2 : Int) - (den.log2 : Int) - 52
  let scaled := scaleDown num den e
  max minExponent (if scaled.1 < scaled.2 <<< 52 then e - 1 else e)

/-- The number nearest to `± num / den`; a tie goes to the even mantissa. -/
def ofRatio (negative : Bool) (num den : Nat) : Binary64 :=
  if num = 0 then zero negative
  else
    let e := exponentOf num den
    let scaled := scaleDown num den e
    let m := divNearest scaled.1 scaled.2
    let carried := if m = 1 <<< 53 then (1 <<< 52, e + 1) else (m, e)
    if carried.2 > maxExponent then .infinite negative
    else .finite negative carried.1 carried.2

/-- The number of decimal digits of a natural. -/
def digitCount (n : Nat) : Nat := (Nat.toDigits 10 n).length

/-- The number nearest to `± digits * 10 ^ exponent`. Values of `10 ^ 400` and more are infinite and
values below `10 ^ (-400)` are zero, so no power beyond these is ever computed. -/
def ofDecimal (negative : Bool) (digits : Nat) (exponent : Int) : Binary64 :=
  if digits = 0 then zero negative
  else if exponent > 400 then .infinite negative
  else if exponent + digitCount digits < -400 then zero negative
  else if 0 ≤ exponent then ofRatio negative (digits * Nat.pow 10 exponent.toNat) 1
  else ofRatio negative digits (Nat.pow 10 (-exponent).toNat)

/-- The number nearest to an integer. -/
def ofInt (n : Int) : Binary64 := ofRatio (n < 0) n.natAbs 1

/-- Numerator and denominator of the magnitude of a finite number. -/
def ratio (mantissa : Nat) (exponent : Int) : Nat × Nat := scaleDown mantissa 1 (-exponent)

/-- The rounded product of two numbers, where both are finite. -/
def mul : Binary64 → Binary64 → Binary64
  | .finite s m e, .finite s' m' e' =>
      let r := ratio (m * m') (e + e')
      ofRatio (s != s') r.1 r.2
  | x, _ => x

/-- The rounded quotient of two numbers, where both are finite and the second is not zero. -/
def div : Binary64 → Binary64 → Binary64
  | .finite s m e, .finite s' m' e' =>
      let r := scaleDown m m' (e' - e)
      ofRatio (s != s') r.1 r.2
  | x, _ => x

/-- The opposite number. -/
def neg : Binary64 → Binary64
  | .finite s m e => .finite (!s) m e
  | .infinite s => .infinite (!s)
  | .nan => .nan

/-- Whether the number is a zero of either sign. -/
def isZero : Binary64 → Bool
  | .finite _ m _ => m == 0
  | _ => false

/-- Whether the number is neither infinite nor NaN. -/
def isFinite : Binary64 → Bool
  | .finite _ _ _ => true
  | _ => false

/-! ## Comparison -/

/-- The value in units of the least positive number. An infinity counts as the value one step past
the greatest finite one; NaN has no value. -/
def units? : Binary64 → Option Int
  | .finite negative m e =>
      let u : Int := (m <<< (e - minExponent).toNat : Nat)
      some (if negative then -u else u)
  | .infinite negative =>
      let u : Int := (1 <<< 2098 : Nat)
      some (if negative then -u else u)
  | .nan => none

/-- How two numbers compare; a NaN compares with nothing. Zeros of either sign are equal. -/
def compare? (x y : Binary64) : Option Ordering :=
  match x.units?, y.units? with
  | some u, some v => some (compare u v)
  | _, _ => none

end Binary64

end SingleTable
