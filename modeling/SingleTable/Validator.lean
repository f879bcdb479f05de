import SingleTable.Attribute.Json
import SingleTable.Json.Writer
import SingleTable.Shape
import SingleTable.Text.Timestamp

set_option autoImplicit false

/-!
# Validators

A validator turns a raw JSON value, or its absence, into an attribute value, or says why it does not
conform. Nothing else in the library turns raw values into attribute values.
-/

namespace SingleTable

/-! ## Refusals -/

/-- Why the text of a string does not conform. -/
inductive FormatError where
  | timestamp (cause : Timestamp.Error)
  | base64 (cause : Base64.Error)
  deriving DecidableEq, Repr

/-- The text of a format error. -/
def FormatError.message : FormatError → String
  | .timestamp cause => "invalid datetime: " ++ cause.message
  | .base64 cause => "invalid base64: " ++ cause.message

/-- Why a raw value is refused. -/
inductive ValidationError where
  | missing
  | wrongType (expected received : String)
  | badFormat (cause : FormatError)
  | notAllowed (allowed received : String)
  | badElement (index : Nat) (cause : ValidationError)
  deriving DecidableEq, Repr

/-- The text of a refusal. -/
def ValidationError.message : ValidationError → String
  | .missing => "value is required"
  | .wrongType expected received => "expected " ++ expected ++ ", received " ++ received
  | .badFormat cause => cause.message
  | .notAllowed allowed received =>
      "expected one of [" ++ allowed ++ "], received " ++ received
  | .badElement index cause =>
      "invalid element at index " ++ toString index ++ ": " ++ cause.message

/-- The outcome of validation. -/
abbrev Validated := Except ValidationError AttributeValue

/-! ## Validators -/

/-- A validator. A custom one is given by its shape, if it tells one, and by its action. -/
inductive Validator where
  | string
  | timestamp
  | number
  | boolean
  | binary
  | list (item : Validator)
  | map
  | optional (item : Validator)
  | enumeration (allowed : List String)
  | literal (value : Json)
  | custom (shape : Option Shape) (parse : Option Json → Validated)

namespace Validator

/-- The refusal of a value of the wrong kind. -/
def wrongType (expected : String) (received : Json) : ValidationError :=
  .wrongType expected received.kind

/-- The raw value, which has to be present. -/
def present : Option Json → Except ValidationError Json
  | none => .error .missing
  | some j => .ok j

/-- The text of a raw value that has to be a string; `expected` names what the text should be. -/
def text (expected : String) (raw : Option Json) : Except ValidationError String := do
  match ← present raw with
  | .string s => return s
  | j => .error (wrongType expected j)

/-- The values of the items of an array. The first refused item wins. -/
def parseItems (parse : Option Json → Validated) (index : Nat) :
    List Json → Except ValidationError (List AttributeValue)
  | [] => .ok []
  | j :: js =>
      match parse (some j) with
      | .error e => .error (.badElement index e)
      | .ok v => (parseItems parse (index + 1) js).map (v :: ·)

/-- The attribute value of a raw value. -/
def parse : Validator → Option Json → Validated
  | .string, raw => (text "string" raw).map .string
  | .timestamp, raw => do
      let s ← text "datetime string" raw
      match Timestamp.check s with
      | .ok () => return .string s
      | .error e => .error (.badFormat (.timestamp e))
  | .number, raw => do
      match ← present raw with
      | .number n => return .number n.toText
      | j => .error (wrongType "number" j)
  | .boolean, raw => do
      match ← present raw with
      | .bool b => return .bool b
      | j => .error (wrongType "boolean" j)
  | .binary, raw => do
      let s ← text "base64 string" raw
      match Base64.decode s with
      | .ok bytes => return .binary bytes
      | .error e => .error (.badFormat (.base64 e))
  | .list item, raw => do
      match ← present raw with
      | .array items => (parseItems item.parse 0 items).map .list
      | j => .error (wrongType "array" j)
  | .map, raw => do
      match ← present raw with
      | .object members => return .ofJson (.object members)
      | j => .error (wrongType "object" j)
  | .optional item, raw =>
      match raw with
      | none => .ok (.null true)
      | some .null => .ok (.null true)
      | some j => item.parse (some j)
  | .enumeration allowed, raw => do
      let s ← text "string" raw
      if allowed.contains s then return .string s
      else .error (.notAllowed (String.intercalate ", " allowed) s)
  | .literal value, raw => do
      let j ← present raw
      if j.same value then return .ofJson j
      else .error (.notAllowed value.toText j.toText)
  | .custom _ parse, raw => parse raw

/-- The shape of the values that a validator accepts. -/
def shape? : Validator → Option Shape
  | .string => some .string
  | .timestamp => some .string
  | .number => some .number
  | .boolean => some .boolean
  | .binary => some .binary
  | .list _ => some .array
  | .map => some .record
  | .optional _ => some .optional
  | .enumeration _ => some .enumeration
  | .literal _ => some .literal
  | .custom shape _ => shape

/-- The type of the attributes that hold the values of a validator. Without a shape it is a
string. -/
def attributeType (v : Validator) : AttributeType :=
  match v.shape? with
  | some shape => shape.attributeType
  | none => .string

end Validator

end SingleTable
