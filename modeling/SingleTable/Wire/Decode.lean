import SingleTable.Dict
import SingleTable.Json.Number
import SingleTable.Text.Base64
import SingleTable.Text.Quoted

set_option autoImplicit false

/-!
# Decoding JSON into typed values

The reasons why a JSON value is refused where a typed value is expected, and the decoders of
scalars, sequences, dictionaries and records from which all wire decoders are built. A record is
written as an object of its fields, and is also accepted as an array of them in the order of
declaration. Fields of an object are decoded in ascending order of name and the first refusal wins;
missing fields are refused after that, in the order of declaration.
-/

namespace SingleTable

/-- Why a JSON value does not decode. -/
inductive DecodeError where
  | missingField (name : String)
  | invalidType (got : Json) (want : String)
  | outOfRange (got : Int) (want : String)
  | unknownVariant (got : String) (known : List String)
  | unknownField (got : String) (known : List String)
  | invalidLength (length : Nat) (want : String)
  | notOneKey
  | notOneVariant
  | base64 (cause : Base64.Error)
  deriving Repr

/-- The result of decoding. -/
abbrev Decoded (α : Type) := Except DecodeError α

namespace DecodeError

/-- A JSON value as it is named in messages. -/
def describe : Json → String
  | .null => "null"
  | .bool b => "boolean `" ++ toString b ++ "`"
  | .number (.integer n) => "integer `" ++ toString n ++ "`"
  | .number (.float x) => "floating point `" ++ x.toText ++ "`"
  | .string s => "string " ++ Quoted.render s
  | .array _ => "sequence"
  | .object _ => "map"

/-- The names to choose from: two are joined by `or`, more are listed after `one of`. -/
def choices (names : List String) : String :=
  match names with
  | [] => "there are no variants"
  | [a] => "expected `" ++ a ++ "`"
  | [a, b] => "expected `" ++ a ++ "` or `" ++ b ++ "`"
  | names => "expected one of " ++ String.intercalate ", " (names.map (fun n => "`" ++ n ++ "`"))

/-- The text of a refusal. -/
def message : DecodeError → String
  | .missingField name => "missing field `" ++ name ++ "`"
  | .invalidType got want => "invalid type: " ++ describe got ++ ", expected " ++ want
  | .outOfRange got want => "invalid value: integer `" ++ toString got ++ "`, expected " ++ want
  | .unknownVariant got known => "unknown variant `" ++ got ++ "`, " ++ choices known
  | .unknownField got known => "unknown field `" ++ got ++ "`, " ++ choices known
  | .invalidLength n want => "invalid length " ++ toString n ++ ", expected " ++ want
  | .notOneKey => "AttributeValue must have exactly one key"
  | .notOneVariant => "invalid value: map, expected map with a single key"
  | .base64 cause => cause.message

end DecodeError

namespace Wire

/-! ## Scalars -/

/-- A string. -/
def text : Json → Decoded String
  | .string s => .ok s
  | j => .error (.invalidType j "a string")

/-- A truth value. -/
def flag : Json → Decoded Bool
  | .bool b => .ok b
  | j => .error (.invalidType j "a boolean")

/-- An integer between two bounds; `want` names the range. -/
def integerIn (low high : Int) (want : String) : Json → Decoded Int
  | .number (.integer n) => if low ≤ n ∧ n ≤ high then .ok n else .error (.outOfRange n want)
  | j => .error (.invalidType j want)

/-- An integer of 32 bits. -/
def int32 (j : Json) : Decoded Int32 :=
  (integerIn Int32.minValue.toInt Int32.maxValue.toInt "i32" j).map Int32.ofInt

/-- An integer of 64 bits. -/
def int64 (j : Json) : Decoded Int64 :=
  (integerIn Int64.minValue.toInt Int64.maxValue.toInt "i64" j).map Int64.ofInt

/-- A binary64 number; an integer is rounded. -/
def double : Json → Decoded Binary64
  | .number (.integer n) => .ok (Binary64.ofInt n)
  | .number (.float x) => .ok x
  | j => .error (.invalidType j "f64")

/-- One of a few names, each of which stands for a value. A name is also accepted as the only member
of an object, with null as its content. -/
def variant {α : Type} (known : List (String × α)) : Json → Decoded α
  | .string s =>
      match known.lookup s with
      | some a => .ok a
      | none => .error (.unknownVariant s (known.map Prod.fst))
  | .object [(s, content)] =>
      match known.lookup s with
      | some a => if content.isNull then .ok a else .error (.invalidType content "unit")
      | none => .error (.unknownVariant s (known.map Prod.fst))
  | .object _ => .error .notOneVariant
  | j => .error (.invalidType j "string or map")

/-! ## Containers -/

/-- Nothing for null, else a value. -/
def optional {α : Type} (decode : Json → Decoded α) : Json → Decoded (Option α)
  | .null => .ok none
  | j => (decode j).map some

/-- A sequence; the first refused item wins. -/
def sequence {α : Type} (decode : Json → Decoded α) : Json → Decoded (List α)
  | .array items => items.mapM decode
  | j => .error (.invalidType j "a sequence")

/-- A dictionary; the refused value of the least name wins. -/
def dictionary {α : Type} (decode : Json → Decoded α) : Json → Decoded (Dict α)
  | .object members => do
      let entries ← members.mapM (fun m => do return (m.1, ← decode m.2))
      return Dict.ofList entries
  | j => .error (.invalidType j "a map")

/-! ## Records -/

/-- The fields that are present in the JSON form of a record: by name, or by position. -/
inductive Fields where
  | named (members : List (String × Json))
  | positional (items : List Json)

/-- A record under decoding: the name of its type, its fields in the order of declaration, and what
is present. -/
structure Record where
  typeName : String
  declared : List String
  fields : Fields

/-- Look at a JSON value as a record. -/
def record (typeName : String) (declared : List String) : Json → Decoded Record
  | .object members => .ok ⟨typeName, declared, .named members⟩
  | .array items => .ok ⟨typeName, declared, .positional items⟩
  | j => .error (.invalidType j ("struct " ++ typeName))

namespace Record

/-- The JSON value of a field. -/
def get? (r : Record) (name : String) : Option Json :=
  match r.fields with
  | .named members => members.lookup name
  | .positional items => items[r.declared.idxOf name]?

/-- The field of a record under decoding: its decoded value, if it is present. -/
structure Slot (α : Type) where
  name : String
  value : Decoded (Option α)

/-- The outcome of a field without its value. -/
def Slot.outcome {α : Type} (s : Slot α) : String × Decoded Unit :=
  (s.name, s.value.map (fun _ => ()))

/-- Decode a field, if it is present. -/
def field {α : Type} (r : Record) (name : String) (decode : Json → Decoded α) : Slot α :=
  ⟨name,
    match r.get? name with
    | none => .ok none
    | some j => (decode j).map some⟩

/-- The first refusal in a list of outcomes. -/
def firstRefusal : List (String × Decoded Unit) → Decoded Unit
  | [] => .ok ()
  | (_, .ok _) :: rest => firstRefusal rest
  | (_, .error e) :: _ => .error e

/-- Refuse the record if a present field was refused: of several, the one with the least name, or
the first in order of declaration if the fields have no names. The outcomes are given in the order
of declaration. After that, an array of more items than the record has fields is refused. -/
def settle (r : Record) (outcomes : List (String × Decoded Unit)) : Decoded Unit :=
  match r.fields with
  | .named _ => firstRefusal (sortEntries outcomes)
  | .positional items => do
      firstRefusal outcomes
      if items.length ≤ r.declared.length then return ()
      else .error (.invalidLength items.length "fewer elements in array")

/-- The refusal of a record in which a field is missing. -/
def missing (r : Record) (name : String) : DecodeError :=
  match r.fields with
  | .named _ => .missingField name
  | .positional _ =>
      let n := r.declared.length
      let unit := if n = 1 then " element" else " elements"
      .invalidLength (r.declared.idxOf name)
        ("struct " ++ r.typeName ++ " with " ++ toString n ++ unit)

/-- The value of a field that has to be present. -/
def required {α : Type} (r : Record) (s : Slot α) : Decoded α := do
  match ← s.value with
  | some a => return a
  | none => .error (r.missing s.name)

/-- The value of a field that may be absent or null; in an array it may only be null. -/
def optional {α : Type} (r : Record) (s : Slot (Option α)) : Decoded (Option α) := do
  match ← s.value, r.fields with
  | some a, _ => return a
  | none, .named _ => return none
  | none, .positional _ => .error (r.missing s.name)

/-- The value of a field, or a default. -/
def Slot.orElse {α : Type} (s : Slot α) (default : α) : Decoded α := do
  return (← s.value).getD default

end Record

end Wire

end SingleTable
