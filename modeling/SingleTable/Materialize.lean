import SingleTable.Schema

set_option autoImplicit false

/-!
# Making items

An item of a model is made in two passes over its fields. The first settles generated and required
fields: a value on an existing item is kept, else a required field is read from the parameters and a
generated field gets a fresh id. The second computes keys and derived fields from the parameters
overlaid with the values of the first pass, and from nothing else.
-/

namespace SingleTable

/-- A field whose raw value its validator refuses. -/
structure FieldError where
  model : String
  field : String
  cause : ValidationError
  deriving DecidableEq, Repr

/-- The text of a field error. -/
def FieldError.message (e : FieldError) : String :=
  "invalid value for " ++ e.model ++ "." ++ e.field ++ ": " ++ e.cause.message

/-- The attribute value of a field for a raw value. -/
def Field.value (f : Field) (model : String) (raw : Option Json) :
    Except FieldError AttributeValue :=
  match f.validator.parse raw with
  | .ok v => .ok v
  | .error cause => .error ⟨model, f.name, cause⟩

/-- A source of ids: the id that is drawn when `n` ids have been drawn before. -/
abbrev IdSource := Nat → String

/-- A computation that may refuse a field, with the number of ids drawn so far as its state. Ids
that a refused computation has drawn stay drawn. -/
abbrev Drawing := ExceptT FieldError (StateM Nat)

/-- Draw the next id. -/
def drawId (ids : IdSource) : Drawing String := fun n => (.ok (ids n), n + 1)

namespace Model

/-- The value that an existing item has for a field. -/
def kept? (existing : Option Item) (f : Field) : Option AttributeValue :=
  existing.bind (fun item => item.get? f.name)

/-- Settle a generated or required field; computed fields are left for later. -/
def supply (ids : IdSource) (model : String) (params : Params) (existing : Option Item)
    (item : Item) (f : Field) : Drawing Item :=
  match f.kind, kept? existing f with
  | .key _, _ => return item
  | .derived _, _ => return item
  | .generated, some v => return item.insert f.name v
  | .required, some v => return item.insert f.name v
  | .required, none => do
      return item.insert f.name (← f.value model (params.get? f.name))
  | .generated, none => do
      let id ← drawId ids
      return item.insert f.name (← f.value model (some (.string id)))

/-- Compute a key or derived field from the values known so far. -/
def compute (model : String) (known : Params) (item : Item) (f : Field) :
    Except FieldError Item :=
  match f.kind.function? with
  | none => return item
  | some value => return item.insert f.name (← f.value model (value known))

/-- Make an item of a model. Generated and required values of an existing item are kept. -/
def materialize (m : Model) (ids : IdSource) (params : Params) (existing : Option Item) :
    Drawing Item := do
  let supplied ← m.fields.foldlM (supply ids m.name params existing) {}
  let known := params.overlay (Params.ofItem supplied)
  (m.fields.foldlM (compute m.name known) supplied : Except FieldError Item)

/-- The value of the partition key, which may not depend on any parameter. -/
def partitionValue (m : Model) (f : Field) : Except FieldError AttributeValue :=
  f.value m.name (f.kind.function?.bind (fun value => value {}))

end Model

end SingleTable
