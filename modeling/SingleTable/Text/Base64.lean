set_option autoImplicit false

/-!
# Base64

The standard alphabet with padding. Reading accepts exactly the canonical form: whole groups of four
symbols, padding only at the end, and no bits left over in the last symbol.
-/

namespace SingleTable

/-- A sequence of bytes. -/
abbrev Bytes := List UInt8

/-- The bytes of a text in UTF-8. -/
def utf8Bytes (text : String) : Bytes := text.toUTF8.data.toList

namespace Base64

/-! ## Symbols -/

/-- The symbol of a six-bit value. -/
def symbol (n : Nat) : Char :=
  if n < 26 then Char.ofNat (n + 65)
  else if n < 52 then Char.ofNat (n - 26 + 97)
  else if n < 62 then Char.ofNat (n - 52 + 48)
  else if n = 62 then '+'
  else '/'

/-- The six-bit value of a symbol. -/
def value? (b : UInt8) : Option Nat :=
  let n := b.toNat
  if 65 ≤ n ∧ n ≤ 90 then some (n - 65)
  else if 97 ≤ n ∧ n ≤ 122 then some (n - 97 + 26)
  else if 48 ≤ n ∧ n ≤ 57 then some (n - 48 + 52)
  else if n = 43 then some 62
  else if n = 47 then some 63
  else none

/-- The byte of the padding sign. -/
def pad : UInt8 := 61

/-! ## Writing -/

/-- The symbols of a sequence of bytes. -/
def encodeChars : Bytes → List Char
  | [] => []
  | [a] =>
      let n := a.toNat
      [symbol (n / 4), symbol (n % 4 * 16), '=', '=']
  | [a, b] =>
      let n := a.toNat * 256 + b.toNat
      [symbol (n / 1024), symbol (n / 16 % 64), symbol (n % 16 * 4), '=']
  | a :: b :: c :: rest =>
      let n := (a.toNat * 256 + b.toNat) * 256 + c.toNat
      symbol (n / 262144) :: symbol (n / 4096 % 64) :: symbol (n / 64 % 64) :: symbol (n % 64) ::
        encodeChars rest

/-- The text of a sequence of bytes. -/
def encode (bytes : Bytes) : String := String.ofList (encodeChars bytes)

/-! ## Reading -/

/-- Why a text is not canonical. -/
inductive Error where
  | invalidSymbol (symbol : UInt8) (offset : Nat)
  | invalidLastSymbol (symbol : UInt8) (offset : Nat)
  | invalidLength (length : Nat)
  | invalidPadding
  deriving DecidableEq, Repr

/-- The text of an error. -/
def Error.message : Error → String
  | .invalidSymbol b offset => s!"Invalid symbol {b.toNat}, offset {offset}."
  | .invalidLastSymbol b offset => s!"Invalid last symbol {b.toNat}, offset {offset}."
  | .invalidLength n => s!"Invalid input length: {n}"
  | .invalidPadding => "Invalid padding"

/-- The value of a symbol at an offset. -/
def valueAt (offset : Nat) (b : UInt8) : Except Error Nat :=
  match value? b with
  | some n => .ok n
  | none => .error (.invalidSymbol b offset)

/-- What the last group of up to four symbols holds: the values before the padding, the last symbol
that carries a value, and the number of padding signs with the offset of the first one. -/
structure Tail where
  values : List Nat := []
  last : UInt8 := 0
  padding : Nat := 0
  firstPad : Nat := 0
  deriving DecidableEq, Repr

/-- Read the last group. Padding may not come before the third place, nor a symbol after padding. -/
def readTail (start : Nat) : Nat → Tail → Bytes → Except Error Tail
  | _, tail, [] => .ok tail
  | i, tail, b :: rest =>
      if b = pad then
        if i < 2 then .error (.invalidSymbol b (start + i))
        else
          let firstPad := if tail.padding = 0 then i else tail.firstPad
          readTail start (i + 1) { tail with padding := tail.padding + 1, firstPad } rest
      else if tail.padding > 0 then .error (.invalidSymbol pad (start + tail.firstPad))
      else do
        let n ← valueAt (start + i) b
        readTail start (i + 1) { tail with values := tail.values ++ [n], last := b } rest

/-- The bytes of the last group, which starts at offset `start`. -/
def decodeTail (start : Nat) (bs : Bytes) : Except Error Bytes := do
  let tail ← readTail start 0 {} bs
  match tail.values with
  | [] => if start + bs.length = 0 then return [] else .error (.invalidLength start)
  | [_] => .error (.invalidLength (start + 1))
  | [a, b] =>
      if tail.padding ≠ 2 then .error .invalidPadding
      else if b % 16 ≠ 0 then .error (.invalidLastSymbol tail.last (start + 1))
      else return [UInt8.ofNat (a * 4 + b / 16)]
  | [a, b, c] =>
      if tail.padding ≠ 1 then .error .invalidPadding
      else if c % 4 ≠ 0 then .error (.invalidLastSymbol tail.last (start + 2))
      else
        let n := (a * 64 + b) * 16 + c / 4
        return [UInt8.ofNat (n / 256), UInt8.ofNat (n % 256)]
  | a :: b :: c :: d :: _ =>
      let n := ((a * 64 + b) * 64 + c) * 64 + d
      return [UInt8.ofNat (n / 65536), UInt8.ofNat (n / 256 % 256), UInt8.ofNat (n % 256)]

/-- The bytes of the groups from offset `start` on; all groups but the last hold four symbols. -/
def decodeGroups (start : Nat) : Bytes → Except Error Bytes
  | a :: b :: c :: d :: e :: rest => do
      let a ← valueAt start a
      let b ← valueAt (start + 1) b
      let c ← valueAt (start + 2) c
      let d ← valueAt (start + 3) d
      let n := ((a * 64 + b) * 64 + c) * 64 + d
      let more ← decodeGroups (start + 4) (e :: rest)
      return UInt8.ofNat (n / 65536) :: UInt8.ofNat (n / 256 % 256) :: UInt8.ofNat (n % 256) :: more
  | tail => decodeTail start tail

/-- Whether a single byte beyond the whole groups is neither a symbol nor padding. -/
def strayByte? (bs : Bytes) : Option UInt8 :=
  if bs.length % 4 = 1 then
    bs.getLast?.filter (fun b => b ≠ pad && (value? b).isNone)
  else none

/-- The bytes that a text denotes. A stray last byte is reported before anything else. -/
def decode (text : String) : Except Error Bytes :=
  let bs := utf8Bytes text
  match strayByte? bs with
  | some b => .error (.invalidSymbol b (bs.length - 1))
  | none => decodeGroups 0 bs

end Base64

end SingleTable
