import SingleTable.Attribute
import SingleTable.Json.Number

set_option autoImplicit false

/-!
# Attribute values and plain JSON

The natural attribute value of a JSON value, and the JSON form of an attribute value. Binary values
have no JSON form of their own: they are written in base64 and never read back from JSON.
-/

namespace SingleTable

namespace AttributeValue

mutual

/-- The natural attribute value of a JSON value. -/
def ofJson : Json → AttributeValue
  | .null => .null true
  | .bool b => .bool b
  | .number n => .number n.toText
  | .string s => .string s
  | .array items => .list (ofJsonItems items)
  | .object members => .map (ofJsonMembers members)

/-- The natural values of the items of an array. -/
def ofJsonItems : List Json → List AttributeValue
  | [] => []
  | j :: js => ofJson j :: ofJsonItems js

/-- The natural values of the members of an object. -/
def ofJsonMembers : List (String × Json) → List (String × AttributeValue)
  | [] => []
  | (k, j) :: ms => (k, ofJson j) :: ofJsonMembers ms

end

mutual

/-- The JSON form of an attribute value. A number text that is no JSON number, or not finite, is
kept as a string. -/
def toJson : AttributeValue → Json
  | .string s => .string s
  | .number text =>
      match Json.numberOfText? text with
      | some n => .number n
      | none => .string text
  | .binary bytes => .string (Base64.encode bytes)
  | .bool b => .bool b
  | .null _ => .null
  | .list items => .array (toJsonItems items)
  | .map entries => .object (toJsonMembers entries)

/-- The JSON forms of the items of a list. -/
def toJsonItems : List AttributeValue → List Json
  | [] => []
  | v :: vs => toJson v :: toJsonItems vs

/-- The JSON forms of the entries of a map. -/
def toJsonMembers : List (String × AttributeValue) → List (String × Json)
  | [] => []
  | (k, v) :: es => (k, toJson v) :: toJsonMembers es

end

end AttributeValue

end SingleTable
