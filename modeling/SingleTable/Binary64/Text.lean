import SingleTable.Binary64

set_option autoImplicit false

/-!
# Reading decimal text

The number that a piece of text denotes: an optional sign, then digits with an optional point and an
optional exponent, or `inf`, `infinity` or `nan` in any letter case. The whole text has to be used,
and the value is rounded once.
-/

namespace SingleTable

/-- The value of a decimal digit. -/
def digitValue (c : Char) : Nat := c.toNat - '0'.toNat

/-- The natural that a list of decimal digits denotes, continuing from `acc`. -/
def readDigits (acc : Nat) (cs : List Char) : Nat :=
  cs.foldl (fun n c => 10 * n + digitValue c) acc

/-- Split a sign off the front of a text; true stands for a minus. -/
def splitSign : List Char → Bool × List Char
  | '-' :: cs => (true, cs)
  | '+' :: cs => (false, cs)
  | cs => (false, cs)

/-- The integer that an optional sign and one or more decimal digits denote. -/
def readInteger? (text : String) : Option Int :=
  let (negative, cs) := splitSign text.toList
  if cs.isEmpty || !cs.all Char.isDigit then none
  else
    let n := readDigits 0 cs
    some (if negative then -(n : Int) else n)

/-- The integer that a text denotes, if it lies between the bounds. -/
def readIntegerIn? (low high : Int) (text : String) : Option Int :=
  (readInteger? text).filter (fun n => low ≤ n && n ≤ high)

namespace Binary64

/-- The exponent that follows the digits: nothing, or `e` and an integer, up to the end. -/
def readExponent? : List Char → Option Int
  | [] => some 0
  | c :: cs =>
      if c = 'e' ∨ c = 'E' then
        let (negative, ds) := splitSign cs
        if ds.isEmpty || !ds.all Char.isDigit then none
        else
          let n : Int := readDigits 0 ds
          some (if negative then -n else n)
      else none

/-- The number that unsigned digits with an optional point and exponent denote. -/
def readUnsigned? (negative : Bool) (cs : List Char) : Option Binary64 :=
  let whole := cs.takeWhile Char.isDigit
  let rest := cs.dropWhile Char.isDigit
  let (fraction, rest) :=
    match rest with
    | '.' :: rest => (rest.takeWhile Char.isDigit, rest.dropWhile Char.isDigit)
    | _ => ([], rest)
  if whole.isEmpty && fraction.isEmpty then none
  else
    match readExponent? rest with
    | none => none
    | some e =>
        some (ofDecimal negative (readDigits 0 (whole ++ fraction)) (e - fraction.length))

/-- The infinity or NaN that a word denotes. -/
def readWord? (negative : Bool) (cs : List Char) : Option Binary64 :=
  let word := String.ofList (cs.map Char.toLower)
  if word = "inf" ∨ word = "infinity" then some (.infinite negative)
  else if word = "nan" then some .nan
  else none

/-- The number that a text denotes. -/
def ofText? (text : String) : Option Binary64 :=
  let (negative, cs) := splitSign text.toList
  match readUnsigned? negative cs with
  | some x => some x
  | none => readWord? negative cs

end Binary64

end SingleTable
