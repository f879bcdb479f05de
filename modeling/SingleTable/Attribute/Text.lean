import SingleTable.Attribute.Wire
import SingleTable.Json.Reader

set_option autoImplicit false

/-!
# Attribute values from JSON text

An attribute value read straight from the text of its wire form. The members of an object are met in
the order of the text, and the first fault met decides how reading fails: the text ends too early,
it breaks the grammar of JSON, or it is JSON of the wrong shape.
-/

namespace SingleTable

/-- How the reading of an attribute value fails. -/
inductive TextFault where
  | data
  | grammar (fault : Json.Fault)
  deriving DecidableEq, Repr

namespace AttributeValue

/-- Let a fault of the grammar be the fault of the reading. -/
def grammatical {α : Type} : Except Json.Fault α → Except TextFault α
  | .ok a => .ok a
  | .error f => .error (.grammar f)

/-- The fault of a value that starts here and has the wrong shape. Scalars are read through first,
so a fault in their text wins. -/
def wrongShape (cs : List Char) : TextFault :=
  let afterScan {α : Type} (scan : Except Json.Fault α) : TextFault :=
    match scan with
    | .ok _ => .data
    | .error f => .grammar f
  match cs with
  | [] => .grammar .ended
  | '[' :: _ => .data
  | '\x7b' :: _ => .data
  | 'n' :: cs => afterScan (Json.readWord "ull".toList cs)
  | 't' :: cs => afterScan (Json.readWord "rue".toList cs)
  | 'f' :: cs => afterScan (Json.readWord "alse".toList cs)
  | '"' :: cs => afterScan (Json.readString cs)
  | c :: cs =>
      if c = '-' ∨ c.isDigit then afterScan (Json.readNumber (c :: cs)) else .grammar .malformed

/-- A string. -/
def readText (cs : List Char) : Except TextFault (String × List Char) :=
  match Json.skipBlanks cs with
  | '"' :: cs => grammatical (Json.readString cs)
  | cs => .error (wrongShape cs)

/-- A truth value. -/
def readFlag (cs : List Char) : Except TextFault (Bool × List Char) :=
  match Json.skipBlanks cs with
  | 't' :: cs => grammatical ((Json.readWord "rue".toList cs).map (fun rest => (true, rest)))
  | 'f' :: cs => grammatical ((Json.readWord "alse".toList cs).map (fun rest => (false, rest)))
  | cs => .error (wrongShape cs)

/-- A binary value in base64. -/
def readBytes (cs : List Char) : Except TextFault (Bytes × List Char) := do
  let (text, cs) ← readText cs
  match Base64.decode text with
  | .ok bytes => return (bytes, cs)
  | .error _ => .error .data

/-- Enter a container that opens with `bracket`, at most `depth - 1` deep. -/
def enter (bracket : Char) (depth : Nat) (cs : List Char) : Except TextFault (List Char) :=
  match Json.skipBlanks cs with
  | c :: cs =>
      if c ≠ bracket then .error (wrongShape (c :: cs))
      else if depth ≤ 1 then .error (.grammar .malformed)
      else .ok cs
  | [] => .error (wrongShape [])

mutual

/-- An attribute value. -/
def readValue : Nat → Nat → List Char → Except TextFault (AttributeValue × List Char)
  | 0, _, _ => .error (.grammar .ended)
  | fuel + 1, depth, cs => do
      let cs ← enter '\x7b' depth cs
      match ← grammatical (Json.nextMember true cs) with
      | none => .error .data
      | some cs =>
          let (key, cs) ← grammatical (Json.readString cs)
          if typeNames.contains key then
            let cs ← grammatical (Json.readColon cs)
            let (v, cs) ← readContent fuel (depth - 1) key cs
            return (v, ← grammatical (Json.readClosing '\x7d' cs))
          else .error .data

/-- The content of a member that is named by a type. -/
def readContent : Nat → Nat → String → List Char → Except TextFault (AttributeValue × List Char)
  | 0, _, _, _ => .error (.grammar .ended)
  | fuel + 1, depth, key, cs =>
      if key = "S" then (readText cs).map (fun r => (.string r.1, r.2))
      else if key = "N" then (readText cs).map (fun r => (.number r.1, r.2))
      else if key = "B" then (readBytes cs).map (fun r => (.binary r.1, r.2))
      else if key = "BOOL" then (readFlag cs).map (fun r => (.bool r.1, r.2))
      else if key = "NULL" then (readFlag cs).map (fun r => (.null r.1, r.2))
      else if key = "L" then do
        let cs ← enter '[' depth cs
        let (items, cs) ← readItems fuel (depth - 1) true cs
        return (.list items, ← grammatical (Json.readClosing ']' cs))
      else do
        let cs ← enter '\x7b' depth cs
        let (entries, cs) ← readEntries fuel (depth - 1) true cs
        return (.map (sortEntries entries), ← grammatical (Json.readClosing '\x7d' cs))

/-- The items of a list up to its closing bracket. -/
def readItems : Nat → Nat → Bool → List Char → Except TextFault (List AttributeValue × List Char)
  | 0, _, _, _ => .error (.grammar .ended)
  | fuel + 1, depth, first, cs => do
      match ← grammatical (Json.nextItem first cs) with
      | none => return ([], cs)
      | some cs =>
          let (v, cs) ← readValue fuel depth cs
          let (vs, cs) ← readItems fuel depth false cs
          return (v :: vs, cs)

/-- The entries of a map up to its closing bracket, in the order of the text. -/
def readEntries : Nat → Nat → Bool → List Char →
    Except TextFault (List (String × AttributeValue) × List Char)
  | 0, _, _, _ => .error (.grammar .ended)
  | fuel + 1, depth, first, cs => do
      match ← grammatical (Json.nextMember first cs) with
      | none => return ([], cs)
      | some cs =>
          let (name, cs) ← grammatical (Json.readString cs)
          let cs ← grammatical (Json.readColon cs)
          let (v, cs) ← readValue fuel depth cs
          let (es, cs) ← readEntries fuel depth false cs
          return ((name, v) :: es, cs)

end

/-- The attribute value that a whole text denotes. -/
def ofText (text : String) : Except TextFault AttributeValue := do
  let cs := text.toList
  let (v, rest) ← readValue (Json.fuelFor cs) Json.maxDepth cs
  if (Json.skipBlanks rest).isEmpty then return v else .error (.grammar .malformed)

end AttributeValue

end SingleTable
