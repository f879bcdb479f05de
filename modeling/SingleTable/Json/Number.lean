import SingleTable.Binary64.Shortest
import SingleTable.Binary64.Text
import SingleTable.Json

set_option autoImplicit false

/-!
# JSON number literals

A literal is split into sign, digits, fraction and exponent by `Json.scanNumber`. Its value is an
integer if it has neither fraction nor exponent and fits in 64 bits; otherwise it is a binary64
number, computed in two roundings: the digits, and then their product with a power of ten
(`NumberLiteral.value?`).
-/

namespace SingleTable

namespace Json

/-- Why a text is not JSON: it ends too early, or it breaks the grammar. -/
inductive Fault where
  | ended
  | malformed
  deriving DecidableEq, Repr

/-- The parts of a number literal; the exponent has its sign (true for a minus) and digits. -/
structure NumberLiteral where
  negative : Bool
  whole : List Char
  fraction : Option (List Char)
  exponent : Option (Bool × List Char)
  deriving DecidableEq, Repr

/-! ## The grammar -/

/-- One or more digits; too few are a fault. -/
def scanDigits (cs : List Char) : Except Fault (List Char × List Char) :=
  match cs.takeWhile Char.isDigit, cs.dropWhile Char.isDigit with
  | [], [] => .error .ended
  | [], _ => .error .malformed
  | ds, rest => .ok (ds, rest)

/-- The digits before the point: a single zero, or digits that do not start with zero. -/
def scanWhole (cs : List Char) : Except Fault (List Char × List Char) := do
  let (ds, rest) ← scanDigits cs
  if ds.head? = some '0' ∧ ds.length ≠ 1 then .error .malformed else .ok (ds, rest)

/-- An optional point with digits. -/
def scanFraction : List Char → Except Fault (Option (List Char) × List Char)
  | '.' :: cs => do
      let (ds, rest) ← scanDigits cs
      return (some ds, rest)
  | cs => .ok (none, cs)

/-- An optional exponent. -/
def scanExponent : List Char → Except Fault (Option (Bool × List Char) × List Char)
  | c :: cs =>
      if c = 'e' ∨ c = 'E' then do
        let (negative, cs) := splitSign cs
        let (ds, rest) ← scanDigits cs
        return (some (negative, ds), rest)
      else .ok (none, c :: cs)
  | [] => .ok (none, [])

/-- A number literal at the front of a text, and the rest of the text. -/
def scanNumber (cs : List Char) : Except Fault (NumberLiteral × List Char) := do
  let (negative, cs) := match cs with
    | '-' :: cs => (true, cs)
    | cs => (false, cs)
  let (whole, cs) ← scanWhole cs
  let (fraction, cs) ← scanFraction cs
  let (exponent, cs) ← scanExponent cs
  return (⟨negative, whole, fraction, exponent⟩, cs)

/-! ## The value -/

/-- Read digits on from `acc` as long as the natural fits in 64 bits; the rest is left over. -/
def accumulate (acc : Nat) : List Char → Nat × List Char
  | [] => (acc, [])
  | c :: cs =>
      let next := 10 * acc + digitValue c
      if next < 1 <<< 64 then accumulate next cs else (acc, c :: cs)

/-- The power of ten as a binary64 number. -/
def powerOfTen (n : Nat) : Binary64 := Binary64.ofDecimal false 1 n

/-- Divide by `10 ^ n` in rounded steps of at most `10 ^ 308`; a zero is not divided further. -/
def divideByTens (x : Binary64) (n : Nat) : Binary64 :=
  if n ≤ 308 then x.div (powerOfTen n)
  else if x.isZero then x
  else divideByTens (x.div (powerOfTen 308)) (n - 308)
  termination_by n

/-- The rounded product of a number with a power of ten; nothing if it is not finite. -/
def multiplyByTens? (x : Binary64) (n : Nat) : Option Binary64 :=
  if n ≤ 308 then
    let y := x.mul (powerOfTen n)
    if y.isFinite then some y else none
  else if x.isZero then some x
  else none

/-- `digits * 10 ^ exponent` in two roundings; nothing if it is not finite. -/
def scaled? (negative : Bool) (digits : Nat) (exponent : Int) : Option Binary64 :=
  let x := Binary64.ofInt digits
  let y := if 0 ≤ exponent then multiplyByTens? x exponent.toNat
    else some (divideByTens x (-exponent).toNat)
  y.map (fun y => if negative then y.neg else y)

/-- The value of a literal; nothing if it is out of range. -/
def NumberLiteral.value? (l : NumberLiteral) : Option Number :=
  let (n, extra) := accumulate 0 l.whole
  let scaledBy (digits : Nat) (exponent : Int) : Option Number :=
    (scaled? l.negative digits exponent).map Number.float
  match l.fraction, l.exponent with
  | none, none =>
      if extra.isEmpty && !l.negative then some (.integer n)
      else if extra.isEmpty && 0 < n && n ≤ 1 <<< 63 then some (.integer (-(n : Int)))
      else scaledBy n extra.length
  | fraction, exponent =>
      let ds := fraction.getD []
      let (n, dropped) := accumulate n ds
      let places : Int := (ds.length : Int) - dropped.length
      let power : Int := match exponent with
        | none => 0
        | some (negative, es) =>
            let e : Int := readDigits 0 es
            if negative then -e else e
      scaledBy n (extra.length - places + power)

/-- A number literal at the front of a text with its value, and the rest of the text. -/
def readNumber (cs : List Char) : Except Fault (Number × List Char) := do
  let (literal, rest) ← scanNumber cs
  match literal.value? with
  | some n => return (n, rest)
  | none => .error .malformed

/-- The blanks of JSON. -/
def isBlank (c : Char) : Bool := c = ' ' || c = '\n' || c = '\t' || c = '\r'

/-- Drop the blanks at the front of a text. -/
def skipBlanks (cs : List Char) : List Char := cs.dropWhile isBlank

/-- The number that a text denotes, blanks around it allowed. -/
def numberOfText? (text : String) : Option Number :=
  match readNumber (skipBlanks text.toList) with
  | .ok (n, rest) => if (skipBlanks rest).isEmpty then some n else none
  | .error _ => none

/-! ## Text -/

/-- The text of a number: integers in decimal, floats by their shortest digits. -/
def Number.toText : Number → String
  | .integer n => toString n
  | .float x => x.toText

end Json

end SingleTable
