import SingleTable.Binary64.Text
import SingleTable.Binary64.Whole
import SingleTable.Remote.Value

set_option autoImplicit false

/-!
# Forms of remote data

The service declares a form for all that it sends. `ServiceForm.fits` says whether a JSON value has
a form: the members of a record may be absent or null and unknown members are ignored, but lists
and dictionaries hold no nulls.
-/

namespace SingleTable

/-- A form of the data that the service sends. -/
inductive ServiceForm where
  | text
  | flag
  | int64
  | int32
  | double
  | time
  | value
  | list (item : ServiceForm)
  | dictionary (entry : ServiceForm)
  | record (members : List (String × ServiceForm))
  deriving Repr

namespace ServiceForm

/-! ## Numbers -/

/-- The integer between two bounds that a JSON number stands for. One written with a point or an
exponent is first cut down to the bounds, and has to read back as the same number. -/
def integerIn? (low high : Int) : Json → Option Int
  | .number (.integer n) => if low ≤ n ∧ n ≤ high then some n else none
  | .number (.float x) =>
      let n := max low (min high x.floor)
      if (Binary64.ofInt n).compare? x == some .eq then some n else none
  | _ => none

/-- An integer of 64 bits. -/
def int64? (j : Json) : Option Int64 :=
  (integerIn? Int64.minValue.toInt Int64.maxValue.toInt j).map Int64.ofInt

/-- An integer of 32 bits. -/
def int32? (j : Json) : Option Int32 :=
  (integerIn? Int32.minValue.toInt Int32.maxValue.toInt j).map Int32.ofInt

/-- Whether a text denotes an infinity or NaN. Such numbers are sent as texts, since JSON cannot write
them otherwise; a number too great for binary64 counts as infinite. -/
def isBeyondFinite (text : String) : Bool := (Binary64.ofText? text).any (fun x => !x.isFinite)

/-! ## Fitting -/

mutual

/-- Whether a value has a form. -/
def fits : ServiceForm → Json → Bool
  | .text, .string _ => true
  | .flag, .bool _ => true
  | .int64, j => (int64? j).isSome
  | .int32, j => (int32? j).isSome
  | .double, .number _ => true
  | .double, .string s => isBeyondFinite s
  | .time, .number _ => true
  | .value, j => (ServiceValue.read? j).isSome
  | .list item, .array items => items.all (fun j => fits item j)
  | .dictionary entry, .object members => members.all (fun m => fits entry m.2)
  | .record forms, .object members => fitMembers forms members
  | _, _ => false

/-- Whether each declared member that is present and not null has its form. -/
def fitMembers : List (String × ServiceForm) → List (String × Json) → Bool
  | [], _ => true
  | (name, form) :: forms, members =>
      let fitting :=
        match members.lookup name with
        | none => true
        | some .null => true
        | some j => fits form j
      fitting && fitMembers forms members

end

end ServiceForm

end SingleTable
