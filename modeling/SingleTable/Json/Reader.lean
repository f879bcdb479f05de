import SingleTable.Dict
import SingleTable.Json.Number

set_option autoImplicit false

/-!
# Reading JSON text

A reader for JSON text that tells a text that ends too early (`Fault.ended`) from one that breaks
the grammar (`Fault.malformed`). Arrays and objects nest at most 127 deep. The recursion is bounded
by a fuel that `Json.ofText` sets from the length of the text, which every step shortens.
-/

namespace SingleTable

namespace Json

/-! ## Strings -/

/-- The value of a hexadecimal digit. -/
def hexValue? (c : Char) : Option Nat :=
  if c.isDigit then some (c.toNat - '0'.toNat)
  else if 'a' ≤ c ∧ c ≤ 'f' then some (c.toNat - 'a'.toNat + 10)
  else if 'A' ≤ c ∧ c ≤ 'F' then some (c.toNat - 'A'.toNat + 10)
  else none

/-- The number of bytes of a text in UTF-8. -/
def byteCount (cs : List Char) : Nat := (String.ofList cs).utf8ByteSize

/-- Four hexadecimal digits. Fewer than four remaining bytes are an early end. -/
def readHex4 (cs : List Char) : Except Fault (Nat × List Char) :=
  if byteCount cs < 4 then .error .ended
  else
    match (cs.take 4).mapM hexValue? with
    | some [a, b, c, d] => .ok (((a * 16 + b) * 16 + c) * 16 + d, cs.drop 4)
    | _ => .error .malformed

/-- The character of a `\u` escape; a code unit beyond the basic plane takes a second escape. -/
def readUnicodeEscape (cs : List Char) : Except Fault (Char × List Char) := do
  let (high, cs) ← readHex4 cs
  if 0xDC00 ≤ high ∧ high ≤ 0xDFFF then .error .malformed
  else if high < 0xD800 ∨ 0xDBFF < high then return (Char.ofNat high, cs)
  else
    match cs with
    | [] => .error .ended
    | '\\' :: [] => .error .ended
    | '\\' :: 'u' :: cs => do
        let (low, cs) ← readHex4 cs
        if low < 0xDC00 ∨ 0xDFFF < low then .error .malformed
        else return (Char.ofNat (0x10000 + (high - 0xD800) * 0x400 + (low - 0xDC00)), cs)
    | _ => .error .malformed

/-- The character that follows a backslash. -/
def readEscape : List Char → Except Fault (Char × List Char)
  | [] => .error .ended
  | '"' :: cs => .ok ('"', cs)
  | '\\' :: cs => .ok ('\\', cs)
  | '/' :: cs => .ok ('/', cs)
  | 'b' :: cs => .ok ('\x08', cs)
  | 'f' :: cs => .ok ('\x0c', cs)
  | 'n' :: cs => .ok ('\n', cs)
  | 'r' :: cs => .ok ('\r', cs)
  | 't' :: cs => .ok ('\t', cs)
  | 'u' :: cs => readUnicodeEscape cs
  | _ => .error .malformed

/-- The characters of a string up to its closing quote, after `done` in reverse. -/
def readStringFrom : Nat → List Char → List Char → Except Fault (String × List Char)
  | 0, _, _ => .error .ended
  | fuel + 1, done, cs =>
      match cs with
      | [] => .error .ended
      | '"' :: cs => .ok (String.ofList done.reverse, cs)
      | '\\' :: cs => do
          let (c, cs) ← readEscape cs
          readStringFrom fuel (c :: done) cs
      | c :: cs =>
          if c.toNat < 0x20 then .error .malformed else readStringFrom fuel (c :: done) cs

/-- A string whose opening quote has been read. -/
def readString (cs : List Char) : Except Fault (String × List Char) :=
  readStringFrom (cs.length + 1) [] cs

/-! ## Values -/

/-- The given word at the front of a text. -/
def readWord : List Char → List Char → Except Fault (List Char)
  | [], cs => .ok cs
  | _ :: _, [] => .error .ended
  | w :: ws, c :: cs => if w = c then readWord ws cs else .error .malformed

/-- Whether another member follows in an object, and the text from its name's opening quote on. -/
def nextMember (first : Bool) (cs : List Char) : Except Fault (Option (List Char)) :=
  match skipBlanks cs with
  | [] => .error .ended
  | '}' :: _ => .ok none
  | '"' :: cs => if first then .ok (some cs) else .error .malformed
  | ',' :: cs =>
      if first then .error .malformed
      else
        match skipBlanks cs with
        | [] => .error .ended
        | '"' :: cs => .ok (some cs)
        | _ => .error .malformed
  | _ => .error .malformed

/-- Whether another item follows in an array, and the text from that item on. -/
def nextItem (first : Bool) (cs : List Char) : Except Fault (Option (List Char)) :=
  match skipBlanks cs with
  | [] => .error .ended
  | ']' :: _ => .ok none
  | ',' :: cs =>
      if first then .ok (some (',' :: cs))
      else
        match skipBlanks cs with
        | [] => .error .ended
        | ']' :: _ => .error .malformed
        | cs => .ok (some cs)
  | cs => if first then .ok (some cs) else .error .malformed

/-- The colon between a name and its value. -/
def readColon (cs : List Char) : Except Fault (List Char) :=
  match skipBlanks cs with
  | [] => .error .ended
  | ':' :: cs => .ok cs
  | _ => .error .malformed

/-- The closing bracket of an array or object. -/
def readClosing (bracket : Char) (cs : List Char) : Except Fault (List Char) :=
  match skipBlanks cs with
  | [] => .error .ended
  | c :: cs => if c = bracket then .ok cs else .error .malformed

mutual

/-- A value at the front of a text, inside at most `depth - 1` more brackets. -/
def readValue : Nat → Nat → List Char → Except Fault (Json × List Char)
  | 0, _, _ => .error .ended
  | fuel + 1, depth, cs =>
      match skipBlanks cs with
      | [] => .error .ended
      | 'n' :: cs => (readWord "ull".toList cs).map (fun rest => (.null, rest))
      | 't' :: cs => (readWord "rue".toList cs).map (fun rest => (.bool true, rest))
      | 'f' :: cs => (readWord "alse".toList cs).map (fun rest => (.bool false, rest))
      | '"' :: cs => (readString cs).map (fun r => (.string r.1, r.2))
      | '[' :: cs =>
          if depth ≤ 1 then .error .malformed
          else do
            let (items, cs) ← readItems fuel (depth - 1) true cs
            return (.array items, ← readClosing ']' cs)
      | '{' :: cs =>
          if depth ≤ 1 then .error .malformed
          else do
            let (members, cs) ← readMembers fuel (depth - 1) true cs
            return (.object (sortEntries members), ← readClosing '}' cs)
      | c :: cs =>
          if c = '-' ∨ c.isDigit then (readNumber (c :: cs)).map (fun r => (.number r.1, r.2))
          else .error .malformed

/-- The items of an array up to its closing bracket. -/
def readItems : Nat → Nat → Bool → List Char → Except Fault (List Json × List Char)
  | 0, _, _, _ => .error .ended
  | fuel + 1, depth, first, cs => do
      match ← nextItem first cs with
      | none => return ([], cs)
      | some cs =>
          let (item, cs) ← readValue fuel depth cs
          let (items, cs) ← readItems fuel depth false cs
          return (item :: items, cs)

/-- The members of an object up to its closing bracket, in the order of the text. -/
def readMembers : Nat → Nat → Bool → List Char →
    Except Fault (List (String × Json) × List Char)
  | 0, _, _, _ => .error .ended
  | fuel + 1, depth, first, cs => do
      match ← nextMember first cs with
      | none => return ([], cs)
      | some cs =>
          let (name, cs) ← readString cs
          let cs ← readColon cs
          let (value, cs) ← readValue fuel depth cs
          let (members, cs) ← readMembers fuel depth false cs
          return ((name, value) :: members, cs)

end

/-- The nesting that a reader starts with. -/
def maxDepth : Nat := 128

/-- A fuel that outlasts every reading of the text: each character is met by at most two steps. -/
def fuelFor (cs : List Char) : Nat := 2 * cs.length + 4

/-- The value that a whole text denotes. -/
def ofText (text : String) : Except Fault Json := do
  let cs := text.toList
  let (value, rest) ← readValue (fuelFor cs) maxDepth cs
  if (skipBlanks rest).isEmpty then return value else .error .malformed

end Json

end SingleTable
