import SingleTable.Binary64

set_option autoImplicit false

/-!
# Shortest decimal digits

The fewest decimal digits that read back as a given binary64 number, and the two ways in which the
library writes such digits: with a point or an exponent (`Binary64.toText`), and in full
(`Binary64.toPlainText`). The two differ also where a number lies half-way between two candidates.
-/

namespace SingleTable

namespace Binary64

/-- The decimal number `coefficient * 10 ^ exponent`. -/
structure Decimal where
  coefficient : Nat
  exponent : Int
  deriving DecidableEq, Repr

/-- Which of two candidates stands for a number half-way between them: the even one, or the greater
one. -/
inductive Tie where
  | toEven
  | up
  deriving DecidableEq, Repr

/-- Whether the lower of two candidates stands for a number half-way between them. -/
def Tie.keepsLower (tie : Tie) (lower : Nat) : Bool :=
  match tie with
  | .toEven => lower % 2 = 0
  | .up => false

/-! ## Digits -/

/-- Twice the distance from the mantissa down to the lower end of the reals that round to it, in
half units: one, or a half where the exponent changes. -/
def lowerGap (mantissa : Nat) (exponent : Int) : Nat :=
  if mantissa = 1 <<< 52 ∧ exponent > minExponent then 1 else 2

/-- Whether the decimal number rounds to `mantissa * 2 ^ exponent`: it lies between the midpoints to
the neighbours, the ends included iff the mantissa is even. -/
def reads (mantissa : Nat) (exponent : Int) (d : Decimal) : Bool :=
  let ten := if 0 ≤ d.exponent then (Nat.pow 10 d.exponent.toNat, 1)
    else (1, Nat.pow 10 (-d.exponent).toNat)
  let two := if 0 ≤ exponent then (1 <<< exponent.toNat, 1) else (1, 1 <<< (-exponent).toNat)
  let value := 4 * d.coefficient * ten.1 * two.2
  let low := (4 * mantissa - lowerGap mantissa exponent) * two.1 * ten.2
  let high := (4 * mantissa + 2) * two.1 * ten.2
  if mantissa % 2 = 0 then low ≤ value ∧ value ≤ high else low < value ∧ value < high

/-- The exponent `p` with `10 ^ p ≤ num / den < 10 ^ (p + 1)`. -/
def magnitude (num den : Nat) : Int :=
  if den ≤ num then (digitCount (num / den) : Int) - 1
  else -(digitCount ((den - 1) / num) : Int)

/-- The value's two neighbours on the grid of multiples of `10 ^ p`, the nearer one first. A number
half-way between them has the one that `tie` names first. -/
def neighbours (tie : Tie) (num den : Nat) (p : Int) : Decimal × Decimal :=
  let scaled := if 0 ≤ p then (num, den * Nat.pow 10 p.toNat)
    else (num * Nat.pow 10 (-p).toNat, den)
  let low := scaled.1 / scaled.2
  let rest := scaled.1 % scaled.2
  let lowFirst := 2 * rest < scaled.2 ∨ (2 * rest = scaled.2 ∧ tie.keepsLower low)
  if lowFirst then (⟨low, p⟩, ⟨low + 1, p⟩) else (⟨low + 1, p⟩, ⟨low, p⟩)

/-- Drop the final zeros of a coefficient, at most `fuel` of them. -/
def dropZeros : Nat → Decimal → Decimal
  | 0, d => d
  | fuel + 1, d =>
      if d.coefficient ≠ 0 ∧ d.coefficient % 10 = 0 then
        dropZeros fuel ⟨d.coefficient / 10, d.exponent + 1⟩
      else d

/-- The shortest decimal number that rounds to `mantissa * 2 ^ exponent`, the nearest of them; of two
at the same distance the one that `tie` names. Grids of one to seventeen digits are tried in turn;
on the last one the nearest always reads back. -/
def shortest (tie : Tie) (mantissa : Nat) (exponent : Int) : Decimal :=
  if mantissa = 0 then ⟨0, 0⟩
  else
    let r := ratio mantissa exponent
    let top := magnitude r.1 r.2
    let tryGrid (k : Nat) : Option Decimal :=
      let near := neighbours tie r.1 r.2 (top - k)
      if reads mantissa exponent near.1 then some near.1
      else if reads mantissa exponent near.2 then some near.2
      else none
    let found := ((List.range 17).findSome? tryGrid).getD (neighbours tie r.1 r.2 (top - 16)).1
    dropZeros 20 found

/-! ## Text -/

/-- The digits of a natural in decimal. -/
def digitChars (n : Nat) : List Char := Nat.toDigits 10 n

/-- The digits `ds` times `10 ^ exponent` without an exponent; `whole` is appended when there is no
fraction. -/
def plainChars (whole : List Char) (ds : List Char) (exponent : Int) : List Char :=
  let point : Int := ds.length + exponent
  if 0 ≤ exponent then ds ++ List.replicate exponent.toNat '0' ++ whole
  else if 0 < point then ds.take point.toNat ++ '.' :: ds.drop point.toNat
  else '0' :: '.' :: (List.replicate (-point).toNat '0' ++ ds)

/-- The digits `ds` times `10 ^ exponent` with one digit before the point and a signed exponent. -/
def scientificChars (ds : List Char) (exponent : Int) : List Char :=
  let power : Int := ds.length + exponent - 1
  let sign := if power < 0 then '-' else '+'
  let tail := 'e' :: sign :: digitChars power.natAbs
  match ds with
  | [] => tail
  | [d] => d :: tail
  | d :: rest => d :: '.' :: (rest ++ tail)

/-- The sign of a number as text. -/
def signChars (negative : Bool) : List Char := if negative then ['-'] else []

/-- The shortest digits in plain notation from `10 ^ (-5)` up to below `10 ^ 16`, with at least one
digit after the point, and with an exponent beyond. A tie goes to the even digit. -/
def toText : Binary64 → String
  | .finite negative m e =>
      let d := shortest .toEven m e
      let ds := digitChars d.coefficient
      let point : Int := ds.length + d.exponent
      let body :=
        if -5 < point ∧ point ≤ 16 then plainChars ['.', '0'] ds d.exponent
        else scientificChars ds d.exponent
      String.ofList (signChars negative ++ body)
  | .infinite negative => if negative then "-inf" else "inf"
  | .nan => "NaN"

/-- The shortest digits in plain notation at every magnitude, without a fraction for whole numbers.
A tie goes away from zero. -/
def toPlainText : Binary64 → String
  | .finite negative m e =>
      let d := shortest .up m e
      String.ofList (signChars negative ++ plainChars [] (digitChars d.coefficient) d.exponent)
  | .infinite negative => if negative then "-inf" else "inf"
  | .nan => "NaN"

end Binary64

end SingleTable
