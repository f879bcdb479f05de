import SingleTable.Json
import SingleTable.Text.Base64

set_option autoImplicit false

/-!
# Attribute values

The typed values of which items are made, and the types that attributes are declared with. Numbers
are kept as text, so no digit is lost. The entries of a map are listed in ascending order of name.
-/

namespace SingleTable

/-- A typed attribute value. -/
inductive AttributeValue where
  | string (s : String)
  | number (text : String)
  | binary (bytes : Bytes)
  | bool (b : Bool)
  | null (flag : Bool)
  | list (items : List AttributeValue)
  | map (entries : List (String × AttributeValue))
  deriving Repr

/-- The declared type of an attribute; a name that is not a type is kept as it is. -/
inductive AttributeType where
  | string
  | number
  | binary
  | bool
  | null
  | map
  | list
  | unknown (name : String)
  deriving DecidableEq, Repr

namespace AttributeValue

/-! ## Equality -/

mutual

/-- Whether two values are equal. -/
def equal : AttributeValue → AttributeValue → Bool
  | .string s, .string t => s == t
  | .number s, .number t => s == t
  | .binary s, .binary t => s == t
  | .bool s, .bool t => s == t
  | .null s, .null t => s == t
  | .list xs, .list ys => equalItems xs ys
  | .map xs, .map ys => equalEntries xs ys
  | _, _ => false

/-- Whether two lists of values are equal. -/
def equalItems : List AttributeValue → List AttributeValue → Bool
  | [], [] => true
  | x :: xs, y :: ys => equal x y && equalItems xs ys
  | _, _ => false

/-- Whether two lists of map entries are equal. -/
def equalEntries : List (String × AttributeValue) → List (String × AttributeValue) → Bool
  | [], [] => true
  | (k, x) :: xs, (l, y) :: ys => k == l && equal x y && equalEntries xs ys
  | _, _ => false

end

mutual

theorem equal_iff (a b : AttributeValue) : equal a b = true ↔ a = b := by
  cases a with
  | string s => cases b <;> simp [equal]
  | number s => cases b <;> simp [equal]
  | binary s => cases b <;> simp [equal]
  | bool s => cases b <;> simp [equal]
  | null s => cases b <;> simp [equal]
  | list xs => cases b <;> simp [equal, equalItems_iff xs]
  | map xs => cases b <;> simp [equal, equalEntries_iff xs]

theorem equalItems_iff (xs ys : List AttributeValue) : equalItems xs ys = true ↔ xs = ys := by
  cases xs with
  | nil => cases ys <;> simp [equalItems]
  | cons x xs => cases ys <;> simp [equalItems, equal_iff x, equalItems_iff xs]

theorem equalEntries_iff (xs ys : List (String × AttributeValue)) :
    equalEntries xs ys = true ↔ xs = ys := by
  cases xs with
  | nil => cases ys <;> simp [equalEntries]
  | cons x xs =>
      obtain ⟨k, x⟩ := x
      cases ys with
      | nil => simp [equalEntries]
      | cons y ys =>
          obtain ⟨l, y⟩ := y
          simp [equalEntries, equal_iff x, equalEntries_iff xs, and_assoc]

end

instance : DecidableEq AttributeValue := fun a b => decidable_of_iff _ (equal_iff a b)

/-! ## Views -/

/-- The name of the type that a value carries. -/
def typeName : AttributeValue → String
  | .string _ => "S"
  | .number _ => "N"
  | .binary _ => "B"
  | .bool _ => "BOOL"
  | .null _ => "NULL"
  | .list _ => "L"
  | .map _ => "M"

/-- Whether the value is the null marker. -/
def isNull : AttributeValue → Bool
  | .null flag => flag
  | _ => false

/-- The text of a string value. -/
def asString? : AttributeValue → Option String
  | .string s => some s
  | _ => none

/-- The text of a number value. -/
def asNumber? : AttributeValue → Option String
  | .number n => some n
  | _ => none

/-- The flag of a boolean value. -/
def asBool? : AttributeValue → Option Bool
  | .bool b => some b
  | _ => none

/-- The items of a list value. -/
def asList? : AttributeValue → Option (List AttributeValue)
  | .list items => some items
  | _ => none

/-- The entries of a map value. -/
def asMap? : AttributeValue → Option (List (String × AttributeValue))
  | .map entries => some entries
  | _ => none

/-- A value as it is shown in messages: scalars in full, the others by their size. -/
def describe : AttributeValue → String
  | .string s => "\x7bS: " ++ s ++ "\x7d"
  | .number n => "\x7bN: " ++ n ++ "\x7d"
  | .binary b => "\x7bB: " ++ toString b.length ++ " bytes\x7d"
  | .bool b => "\x7bBOOL: " ++ toString b ++ "\x7d"
  | .null b => "\x7bNULL: " ++ toString b ++ "\x7d"
  | .list items => "\x7bL: " ++ toString items.length ++ " items\x7d"
  | .map entries => "\x7bM: " ++ toString entries.length ++ " keys\x7d"

end AttributeValue

namespace AttributeType

/-- The name of a type. -/
def name : AttributeType → String
  | .string => "S"
  | .number => "N"
  | .binary => "B"
  | .bool => "BOOL"
  | .null => "NULL"
  | .map => "M"
  | .list => "L"
  | .unknown name => name

/-- The type of a name. -/
def ofName (name : String) : AttributeType :=
  if name = "S" then .string
  else if name = "N" then .number
  else if name = "B" then .binary
  else if name = "BOOL" then .bool
  else if name = "NULL" then .null
  else if name = "M" then .map
  else if name = "L" then .list
  else .unknown name

/-- Whether attributes of the type can be keys: strings, numbers and binary values. -/
def isKey : AttributeType → Bool
  | .string => true
  | .number => true
  | .binary => true
  | _ => false

/-- Whether a value carries the type, that is, the type's name. -/
def holds (t : AttributeType) (v : AttributeValue) : Bool := t.name == v.typeName

/-- Whether the type is none of the known ones. -/
def isUnknown : AttributeType → Bool
  | .unknown _ => true
  | _ => false

end AttributeType

end SingleTable
