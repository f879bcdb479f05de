import SingleTable.KeyQuery
import SingleTable.Params

set_option autoImplicit false

/-!
# Schemas

A schema lists the models whose items share one table, and the secondary indexes of that table.
Every model has the same two key names; its other fields are generated, required or derived. Main
parts: `Model.build` and `Schema.build`, which refuse inconsistent declarations.
-/

namespace SingleTable

/-! ## Fields -/

/-- A raw value computed from parameters; nothing means that it is absent. -/
abbrev ValueFunction := Params → Option Json

/-- The value function that ignores its parameters. -/
def ValueFunction.constant (j : Json) : ValueFunction := fun _ => some j

/-- The value function that copies a parameter. -/
def ValueFunction.parameter (name : String) : ValueFunction := fun p => p.get? name

/-- How a field comes by its value: keys and derived fields are computed, generated fields get a
fresh id, and required fields are supplied by the caller. -/
inductive FieldKind where
  | key (value : ValueFunction)
  | generated
  | required
  | derived (value : ValueFunction)

namespace FieldKind

/-- The function that computes the value, if it is computed. -/
def function? : FieldKind → Option ValueFunction
  | .key value => some value
  | .derived value => some value
  | .generated => none
  | .required => none

/-- Whether the value is computed by a function. -/
def isComputed (k : FieldKind) : Bool := k.function?.isSome

/-- Whether the field is declared as a key. -/
def isKey : FieldKind → Bool
  | .key _ => true
  | _ => false

end FieldKind

/-- A field of a model. -/
structure Field where
  name : String
  kind : FieldKind
  validator : Validator

/-- The type of the attribute that holds a field. -/
def Field.attributeType (f : Field) : AttributeType := f.validator.attributeType

/-- The declaration of the partition key. -/
def Field.partitionKey (validator : Validator) (value : ValueFunction) : Field :=
  { name := partitionKeyName, kind := .key value, validator }

/-- The declaration of the sort key. -/
def Field.sortKey (validator : Validator) (value : ValueFunction) : Field :=
  { name := sortKeyName, kind := .key value, validator }

/-! ## Refusals -/

/-- Why a schema is refused. -/
inductive SchemaError where
  | missingKeyField (model field : String)
  | duplicateField (model field : String)
  | reservedKeyField (model field : String)
  | duplicateModel (name : String)
  | noModels
  | unknownIndexField (index field : String)
  | duplicateIndex (name : String)
  | typeConflict (field firstModel : String) (first : AttributeType) (secondModel : String)
      (second : AttributeType)
  | placeholderCollision (field : String)
  | invalidKeyType (field : String) (type : AttributeType)
  deriving DecidableEq, Repr

/-- The text of a refusal. -/
def SchemaError.message : SchemaError → String
  | .missingKeyField model field =>
      "model " ++ model ++ " does not define key field " ++ field
  | .duplicateField model field =>
      "model " ++ model ++ " declares field " ++ field ++ " more than once"
  | .reservedKeyField model field =>
      "model " ++ model ++ " declares key field " ++ field ++ " as a non-key attribute"
  | .duplicateModel name => "model " ++ name ++ " is registered more than once"
  | .noModels => "schema has no models"
  | .unknownIndexField index field =>
      "index " ++ index ++ " references unknown field " ++ field
  | .duplicateIndex name => "index " ++ name ++ " is declared more than once"
  | .typeConflict field firstModel first secondModel second =>
      "field " ++ field ++ " is " ++ first.name ++ " in model " ++ firstModel ++ " but "
        ++ second.name ++ " in model " ++ secondModel
  | .placeholderCollision field =>
      "partition key " ++ field ++ " would bind :" ++ field ++ ", which sort-key conditions use"
  | .invalidKeyType field type =>
      "field " ++ field ++ " has type " ++ type.name ++ ", but key attributes must be S, N or B"

/-- The first name that occurs earlier in a list too. -/
def firstRepeated? (seen : List String) : List String → Option String
  | [] => none
  | n :: ns => if seen.contains n then some n else firstRepeated? (n :: seen) ns

/-! ## Models -/

/-- A kind of entity: its name and its fields, in the order of declaration. -/
structure Model where
  name : String
  fields : List Field

namespace Model

/-- The field of a name. -/
def field? (m : Model) (name : String) : Option Field := m.fields.find? (fun f => f.name = name)

/-- Whether a name is that of a key of every model. -/
def isKeyName (name : String) : Bool := name == partitionKeyName || name == sortKeyName

/-- Check the fields of a model one after the other: no name may repeat, and a key name may only be
declared as a key. -/
def checkFields (model : String) (seen : List String) : List Field → Except SchemaError Unit
  | [] => .ok ()
  | f :: fs =>
      if seen.contains f.name then .error (.duplicateField model f.name)
      else if isKeyName f.name && !f.kind.isKey then .error (.reservedKeyField model f.name)
      else checkFields model (f.name :: seen) fs

/-- Make a model of its fields, among which both keys have to be. -/
def build (name : String) (fields : List Field) : Except SchemaError Model := do
  checkFields name [] fields
  match [partitionKeyName, sortKeyName].find? (fun key => !fields.any (fun f => f.name = key)) with
  | some key => .error (.missingKeyField name key)
  | none => return ⟨name, fields⟩

end Model

/-! ## Indexes -/

/-- A global index of a schema, by the names of its key fields. -/
structure GlobalIndex where
  hash : String
  range : Option String := none
  name : Option String := none
  deriving DecidableEq, Repr

/-- The name of an index; it is that of its partition key unless another is given. -/
def GlobalIndex.effectiveName (i : GlobalIndex) : String := i.name.getD i.hash

/-- The key fields of an index. -/
def GlobalIndex.keyNames (i : GlobalIndex) : List String := i.hash :: i.range.toList

/-- A local index of a schema. Its partition key is that of the table. -/
structure LocalIndex where
  range : String
  name : Option String := none
  deriving DecidableEq, Repr

/-- The name of an index; it is that of its sort key unless another is given. -/
def LocalIndex.effectiveName (i : LocalIndex) : String := i.name.getD i.range

/-! ## Schemas -/

/-- The models whose items share a table, in order of registration, and the indexes of the table. -/
structure Schema where
  models : List Model
  globalIndexes : List GlobalIndex := []
  localIndexes : List LocalIndex := []

namespace Schema

/-- The model of a name. -/
def model? (s : Schema) (name : String) : Option Model := s.models.find? (fun m => m.name = name)

/-- The type of a field in the first model that declares it. -/
def fieldType? (s : Schema) (field : String) : Option AttributeType :=
  (s.models.findSome? (fun m => m.field? field)).map Field.attributeType

/-- The names of all indexes. -/
def indexNames (s : Schema) : List String :=
  s.globalIndexes.map GlobalIndex.effectiveName ++ s.localIndexes.map LocalIndex.effectiveName

/-- The models that declare a field, each with the type that it gives to the field. -/
def declarations (models : List Model) (field : String) : List (String × AttributeType) :=
  models.filterMap (fun m => (m.field? field).map (fun f => (m.name, f.attributeType)))

/-- Check that a key field is declared somewhere, that its first declaration gives it the type of a
key, and that all others give it the same type. -/
def checkKeyField (models : List Model) (key : String × String) : Except SchemaError Unit :=
  match declarations models key.2 with
  | [] => .error (.unknownIndexField key.1 key.2)
  | (firstModel, first) :: others =>
      if !first.isKey then .error (.invalidKeyType key.2 first)
      else
        match others.find? (fun d => d.2 ≠ first) with
        | some (secondModel, second) =>
            .error (.typeConflict key.2 firstModel first secondModel second)
        | none => .ok ()

/-- The key fields of the table and of its indexes, each with the name of what it is a key of. -/
def keyFields (s : Schema) : List (String × String) :=
  [("table", partitionKeyName), ("table", sortKeyName)]
    ++ s.globalIndexes.flatMap (fun i => i.keyNames.map (fun n => (i.effectiveName, n)))
    ++ s.localIndexes.map (fun i => (i.effectiveName, i.range))

/-- Make a schema of models and indexes. There has to be a model; models and indexes need distinct
names; the partition key of a global index may not be named like a placeholder; and every key field
needs one type of a key throughout. -/
def build (models : List Model) (globalIndexes : List GlobalIndex)
    (localIndexes : List LocalIndex) : Except SchemaError Schema := do
  let s : Schema := { models, globalIndexes, localIndexes }
  if models.isEmpty then .error .noModels
  if let some name := firstRepeated? [] (models.map Model.name) then
    .error (.duplicateModel name)
  if let some name := firstRepeated? [] s.indexNames then
    .error (.duplicateIndex name)
  if let some i := globalIndexes.find? (fun i => Placeholder.collides i.hash) then
    .error (.placeholderCollision i.hash)
  s.keyFields.forM (checkKeyField models)
  return s

end Schema

end SingleTable
