import SingleTable.Attribute
import SingleTable.Wire.Decode

set_option autoImplicit false

/-!
# The wire form of attribute values

An attribute value travels as an object with one member, named by its type. Binary values are
written in base64. Main parts: `AttributeValue.encode` and `AttributeValue.decode`.
-/

namespace SingleTable

/-- An item: attribute values by name. -/
abbrev Item := Dict AttributeValue

namespace AttributeValue

/-! ## Writing -/

mutual

/-- The wire form of a value. -/
def encode : AttributeValue → Json
  | .string s => .object [("S", .string s)]
  | .number text => .object [("N", .string text)]
  | .binary bytes => .object [("B", .string (Base64.encode bytes))]
  | .bool b => .object [("BOOL", .bool b)]
  | .null flag => .object [("NULL", .bool flag)]
  | .list items => .object [("L", .array (encodeItems items))]
  | .map entries => .object [("M", .object (encodeEntries entries))]

/-- The wire forms of the items of a list. -/
def encodeItems : List AttributeValue → List Json
  | [] => []
  | v :: vs => encode v :: encodeItems vs

/-- The wire forms of the entries of a map. -/
def encodeEntries : List (String × AttributeValue) → List (String × Json)
  | [] => []
  | (k, v) :: es => (k, encode v) :: encodeEntries es

end

/-! ## Reading -/

/-- The names of the types, in the order in which messages list them. -/
def typeNames : List String := ["S", "N", "B", "BOOL", "NULL", "L", "M"]

/-- A binary value in base64. -/
def decodeBytes (j : Json) : Decoded Bytes := do
  match Base64.decode (← Wire.text j) with
  | .ok bytes => return bytes
  | .error e => .error (.base64 e)

/-- Refuse members after the first one. -/
def alone (rest : List (String × Json)) (v : AttributeValue) : Decoded AttributeValue :=
  if rest.isEmpty then .ok v else .error (.invalidLength (rest.length + 1) "fewer elements in map")

mutual

/-- The value of a wire form. The first member decides the type; others are refused once its content
has been accepted. -/
def decode : Json → Decoded AttributeValue
  | .object [] => .error .notOneKey
  | .object ((key, content) :: rest) => do
      let v ← decodeContent key content
      alone rest v
  | j => .error (.invalidType j "an AttributeValue object with exactly one type key")

/-- The value of the content of a member whose name is a type. -/
def decodeContent (key : String) (content : Json) : Decoded AttributeValue :=
  if key = "S" then (Wire.text content).map .string
  else if key = "N" then (Wire.text content).map .number
  else if key = "B" then (decodeBytes content).map .binary
  else if key = "BOOL" then (Wire.flag content).map .bool
  else if key = "NULL" then (Wire.flag content).map .null
  else if key = "L" then
    match content with
    | .array items => (decodeItems items).map .list
    | j => .error (.invalidType j "a sequence")
  else if key = "M" then
    match content with
    | .object members => (decodeEntries members).map .map
    | j => .error (.invalidType j "a map")
  else .error (.unknownField key typeNames)

/-- The values of the items of a list; the first refused item wins. -/
def decodeItems : List Json → Decoded (List AttributeValue)
  | [] => .ok []
  | j :: js => do
      let v ← decode j
      let vs ← decodeItems js
      return v :: vs

/-- The values of the entries of a map; the first refused entry wins. -/
def decodeEntries : List (String × Json) → Decoded (List (String × AttributeValue))
  | [] => .ok []
  | (k, j) :: ms => do
      let v ← decode j
      let es ← decodeEntries ms
      return (k, v) :: es

end

end AttributeValue

namespace AttributeType

/-- The wire form of a type is its name. -/
def encode (t : AttributeType) : Json := .string t.name

/-- The type of a wire form; every name is accepted. -/
def decode (j : Json) : Decoded AttributeType := (Wire.text j).map ofName

end AttributeType

namespace Wire

/-- The wire form of an item. -/
def encodeItem (item : Item) : Json := .object (item.map AttributeValue.encode).entries

/-- The item of a wire form. -/
def decodeItem : Json → Decoded Item := dictionary AttributeValue.decode

end Wire

end SingleTable
