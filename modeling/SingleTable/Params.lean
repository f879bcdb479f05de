import SingleTable.Attribute.Wire
import SingleTable.Validator

set_option autoImplicit false

/-!
# Parameters

The raw values that a caller hands in by name, from which the fields of an item are made.
-/

namespace SingleTable

/-- Raw values by name. -/
abbrev Params := Dict Json

namespace Params

/-- A parameter, if it is a string. -/
def text? (p : Params) (name : String) : Option String := (p.get? name).bind Json.asString?

/-- The JSON forms of the attributes of an item. -/
def ofItem (item : Item) : Params := item.map AttributeValue.toJson

/-- The parameters of a JSON object. -/
def ofJson : Json → Except ValidationError Params
  | .object members => .ok (Dict.ofList members)
  | j => .error (Validator.wrongType "object" j)

/-- The parameters as a JSON object. -/
def toJson (p : Params) : Json := .object p.entries

end Params

end SingleTable
