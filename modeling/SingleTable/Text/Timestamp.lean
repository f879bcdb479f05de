import SingleTable.Text.Base64

set_option autoImplicit false

/-!
# Timestamps

The check that a text is an RFC 3339 date and time: `2024-02-29T23:59:60.5+01:00`. The date has to
exist, a sixtieth second is allowed, the letters may be in either case, and a blank may stand for
the `T`. Lengths are counted in bytes.
-/

namespace SingleTable

namespace Timestamp

/-- Why a text is not a timestamp. -/
inductive Error where
  | invalid
  | tooShort
  | outOfRange
  | tooLong
  deriving DecidableEq, Repr

/-- The text of an error. -/
def Error.message : Error → String
  | .invalid => "input contains invalid characters"
  | .tooShort => "premature end of input"
  | .outOfRange => "input is out of range"
  | .tooLong => "trailing input"

/-! ## Pieces -/

/-- The value of an ASCII digit. -/
def digit? (b : UInt8) : Option Nat :=
  if 48 ≤ b.toNat ∧ b.toNat ≤ 57 then some (b.toNat - 48) else none

/-- Exactly `n` digits, as a natural after `acc`. -/
def digitsFrom (acc : Nat) : Nat → Bytes → Except Error (Nat × Bytes)
  | 0, bs => .ok (acc, bs)
  | _ + 1, [] => .error .tooShort
  | n + 1, b :: bs =>
      match digit? b with
      | some d => digitsFrom (10 * acc + d) n bs
      | none => .error .invalid

/-- A number of `n` digits; a text of fewer bytes is too short whatever it holds. -/
def number (n : Nat) (bs : Bytes) : Except Error (Nat × Bytes) :=
  if bs.length < n then .error .tooShort else digitsFrom 0 n bs

/-- One of the given bytes. -/
def oneOf (allowed : List UInt8) : Bytes → Except Error Bytes
  | [] => .error .tooShort
  | b :: bs => if allowed.contains b then .ok bs else .error .invalid

/-- The given ASCII character. -/
def mark (c : Char) : Bytes → Except Error Bytes := oneOf [UInt8.ofNat c.toNat]

/-- Refuse a value that is out of range. -/
def inRange (ok : Bool) : Except Error Unit := if ok then .ok () else .error .outOfRange

/-- An optional fraction of a second: a point and one or more digits. -/
def fraction : Bytes → Except Error Bytes
  | 46 :: bs => do
      let (_, bs) ← number 1 bs
      return bs.dropWhile (fun b => (digit? b).isSome)
  | bs => .ok bs

/-- The sign of an offset: plus, hyphen or the minus sign. -/
def offsetSign : Bytes → Except Error Bytes
  | [] => .error .tooShort
  | 43 :: bs => .ok bs
  | 45 :: bs => .ok bs
  | 0xE2 :: 0x88 :: 0x92 :: bs => .ok bs
  | _ => .error .invalid

/-- The offset from universal time: `Z`, or sign, hours and minutes. The minutes are checked for
range; the hours are returned. -/
def zone : Bytes → Except Error (Nat × Bytes)
  | 90 :: bs => .ok (0, bs)
  | 122 :: bs => .ok (0, bs)
  | bs => do
      let bs ← offsetSign bs
      let (hours, bs) ← number 2 bs
      let bs ← mark ':' bs
      let (minutes, bs) ← number 2 bs
      inRange (minutes ≤ 59)
      return (hours, bs)

/-! ## The calendar -/

/-- Whether a year has a leap day. -/
def isLeap (year : Nat) : Bool := year % 4 == 0 && (year % 100 != 0 || year % 400 == 0)

/-- The number of days of a month. -/
def daysIn (year month : Nat) : Nat :=
  if month = 2 then (if isLeap year then 29 else 28)
  else if month = 4 ∨ month = 6 ∨ month = 9 ∨ month = 11 then 30
  else 31

/-- Whether a date exists. -/
def isDate (year month day : Nat) : Bool :=
  1 ≤ month && month ≤ 12 && 1 ≤ day && day ≤ daysIn year month

/-- Check a timestamp. Date and time without fraction take 19 bytes, and fewer are too short
whatever they hold; then the pieces are checked from left to right, the date and the time each for
range once they are complete; then nothing may follow, and the offset has to be less than a day. -/
def check (text : String) : Except Error Unit := do
  let bs := utf8Bytes text
  if bs.length < 19 then .error .tooShort
  let (year, bs) ← number 4 bs
  let bs ← mark '-' bs
  let (month, bs) ← number 2 bs
  let bs ← mark '-' bs
  let (day, bs) ← number 2 bs
  inRange (isDate year month day)
  let bs ← oneOf [84, 116, 32] bs
  let (hour, bs) ← number 2 bs
  let bs ← mark ':' bs
  let (minute, bs) ← number 2 bs
  let bs ← mark ':' bs
  let (second, bs) ← number 2 bs
  let bs ← fraction bs
  inRange (hour ≤ 23 && minute ≤ 59 && second ≤ 60)
  let (offsetHours, bs) ← zone bs
  if !bs.isEmpty then .error .tooLong
  inRange (offsetHours ≤ 23)

end Timestamp

end SingleTable
