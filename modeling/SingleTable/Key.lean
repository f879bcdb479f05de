import SingleTable.Attribute.Hash
import SingleTable.Attribute.Wire
import SingleTable.Binary64.Text

set_option autoImplicit false

/-!
# Keys of items

An item is addressed by a partition value and, where the key schema asks for it, a sort key that
places it within its partition. This file holds the parsed form of a key schema, the order of sort
keys, and the extraction of an item's primary key (`KeySchema.extract`).
-/

namespace SingleTable

/-! ## Key schemas -/

/-- A key attribute with its declared type. -/
structure KeyAttribute where
  name : String
  type : AttributeType
  deriving DecidableEq, Repr

/-- The key attributes of a table or index. -/
structure KeySchema where
  partition : KeyAttribute
  sort : Option KeyAttribute := none
  deriving DecidableEq, Repr

/-- The key attributes of a schema, the partition key first. -/
def KeySchema.attributes (schema : KeySchema) : List KeyAttribute :=
  schema.partition :: schema.sort.toList

/-- The number of attributes of a full key. -/
def KeySchema.size (schema : KeySchema) : Nat := schema.attributes.length

/-- Why an item has no key under a schema. -/
inductive KeyError where
  | missing (name : String)
  | wrongType (name : String) (expected actual : String)
  deriving DecidableEq, Repr

/-- The text of a key error. -/
def KeyError.message : KeyError → String
  | .missing name =>
      "One or more parameter values were invalid: Missing the key " ++ name ++ " in the item"
  | .wrongType name expected actual =>
      "One or more parameter values were invalid: Type mismatch for key " ++ name ++ " expected: "
        ++ expected ++ " actual: " ++ actual

/-- Check that a value carries the declared type of a key attribute, and that this is a key type. -/
def KeyAttribute.check (key : KeyAttribute) (value : AttributeValue) : Except KeyError Unit :=
  if key.type.isKey && key.type.holds value then .ok ()
  else .error (.wrongType key.name key.type.name value.typeName)

/-! ## Sort keys -/

/-- A place within a partition: a string, a number by its text, a binary value, or the one place of
a table without a sort key. -/
inductive SortKey where
  | string (s : String)
  | number (text : String)
  | binary (bytes : Bytes)
  | absent
  deriving DecidableEq, Repr

namespace SortKey

/-- The sort key of an attribute value; `name` is the attribute that an error names. -/
def ofValue (name : String) : AttributeValue → Except KeyError SortKey
  | .string s => .ok (.string s)
  | .number text => .ok (.number text)
  | .binary bytes => .ok (.binary bytes)
  | v => .error (.wrongType name "S, N, or B" v.typeName)

/-- The sort key of an attribute value, or the absent one if the value cannot be a key. -/
def ofValueD (v : AttributeValue) : SortKey :=
  match ofValue "" v with
  | .ok key => key
  | .error _ => .absent

/-- The number that a number key denotes; a text that is no number counts as NaN. -/
def numberOf (text : String) : Binary64 := (Binary64.ofText? text).getD .nan

/-- How two sort keys compare: strings and binary values by their bytes, numbers by their binary64
values, where a NaN is equal to everything. Keys of different kinds are ordered by kind. -/
protected def compare : SortKey → SortKey → Ordering
  | .string s, .string t => compare s t
  | .number s, .number t => ((numberOf s).compare? (numberOf t)).getD .eq
  | .binary s, .binary t => compare s t
  | .absent, .absent => .eq
  | .string _, _ => .lt
  | _, .string _ => .gt
  | .number _, _ => .lt
  | _, .number _ => .gt
  | .binary _, _ => .lt
  | _, .binary _ => .gt

instance : Ord SortKey := ⟨SortKey.compare⟩

/-- Whether two sort keys address the same place. -/
def same (a b : SortKey) : Bool := compare a b == .eq

/-- Whether the first sort key comes before the second. -/
def before (a b : SortKey) : Bool := compare a b == .lt

/-- Whether the first sort key comes before the second or addresses the same place. -/
def notAfter (a b : SortKey) : Bool := (compare a b).isLE

/-- The writes by which a sort key is hashed: its kind, then its content as it stands. -/
def hashWrites : SortKey → List HashWrite
  | .string s => [.variant 0, .text s]
  | .number text => [.variant 1, .text text]
  | .binary bytes => [.variant 2, .length bytes.length, .bytes bytes]
  | .absent => [.variant 3]

end SortKey

/-! ## Primary keys -/

/-- The address of an item in a table. -/
structure PrimaryKey where
  partition : AttributeValue
  sort : Option SortKey := none
  deriving DecidableEq

/-- The place of a key within its partition. -/
def PrimaryKey.place (key : PrimaryKey) : SortKey := key.sort.getD .absent

/-- The value of a key attribute in an item, checked against its type. -/
def KeyAttribute.valueIn (key : KeyAttribute) (item : Item) : Except KeyError AttributeValue :=
  match item.get? key.name with
  | none => .error (.missing key.name)
  | some v => do
      key.check v
      return v

/-- The primary key of an item, or of a key given as an item. -/
def KeySchema.extract (schema : KeySchema) (item : Item) : Except KeyError PrimaryKey := do
  let partition ← schema.partition.valueIn item
  match schema.sort with
  | none => return { partition }
  | some key => do
      let v ← key.valueIn item
      return { partition, sort := some (← SortKey.ofValue key.name v) }

end SingleTable
