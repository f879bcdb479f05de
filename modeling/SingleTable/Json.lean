import SingleTable.Binary64

set_option autoImplicit false

/-!
# JSON values

A JSON number is an integer or a binary64 number, and the two are never equal. The members of an
object are listed in ascending order of name, each name once.
-/

namespace SingleTable

namespace Json

/-- A JSON number: an integer in `[-2 ^ 63, 2 ^ 64)`, or a finite binary64 number. -/
inductive Number where
  | integer (n : Int)
  | float (x : Binary64)
  deriving DecidableEq, Repr

/-- Integers are equal as integers and floats as floats, so zeros of either sign are equal. -/
def Number.same : Number → Number → Bool
  | .integer m, .integer n => m == n
  | .float x, .float y => x.compare? y == some .eq
  | _, _ => false

end Json

/-- A JSON value. -/
inductive Json where
  | null
  | bool (b : Bool)
  | number (n : Json.Number)
  | string (s : String)
  | array (items : List Json)
  | object (members : List (String × Json))
  deriving Repr

namespace Json

/-! ## Equality -/

mutual

/-- Equality of values: like structure, and numbers compared by `Number.same`. -/
def same : Json → Json → Bool
  | .null, .null => true
  | .bool a, .bool b => a == b
  | .number m, .number n => m.same n
  | .string s, .string t => s == t
  | .array xs, .array ys => sameItems xs ys
  | .object xs, .object ys => sameMembers xs ys
  | _, _ => false

/-- Equality of arrays, item by item. -/
def sameItems : List Json → List Json → Bool
  | [], [] => true
  | x :: xs, y :: ys => same x y && sameItems xs ys
  | _, _ => false

/-- Equality of objects, member by member. -/
def sameMembers : List (String × Json) → List (String × Json) → Bool
  | [], [] => true
  | (k, x) :: xs, (l, y) :: ys => k == l && same x y && sameMembers xs ys
  | _, _ => false

end

/-! ## Kinds -/

/-- The name of the kind of a value. -/
def kind : Json → String
  | .null => "null"
  | .bool _ => "boolean"
  | .number _ => "number"
  | .string _ => "string"
  | .array _ => "array"
  | .object _ => "object"

/-- Whether the value is null. -/
def isNull : Json → Bool
  | .null => true
  | _ => false

/-- The text of a string value. -/
def asString? : Json → Option String
  | .string s => some s
  | _ => none

/-- The value of a member of an object. -/
def member? (j : Json) (name : String) : Option Json :=
  match j with
  | .object members => members.lookup name
  | _ => none

/-- An object of the members that are present, in the order given. -/
def ofMembers (members : List (String × Option Json)) : Json :=
  .object (members.filterMap (fun m => m.2.map (fun v => (m.1, v))))

/-- A natural as a JSON integer. -/
def ofNat (n : Nat) : Json := .number (.integer n)

/-- An integer as a JSON integer. -/
def ofInt (n : Int) : Json := .number (.integer n)

end Json

end SingleTable
