import SingleTable.Attribute

set_option autoImplicit false

/-!
# Shapes of values

A validator may tell the shape of the values that it accepts, under the kinds that validation
libraries commonly know. The attribute type of a field follows from it (`Shape.attributeType`).
-/

namespace SingleTable

/-- The shape of the values that a validator accepts; a kind that is not listed is kept by name. -/
inductive Shape where
  | string
  | number
  | nan
  | bigInt
  | boolean
  | date
  | symbol
  | undefined
  | null
  | any
  | unknown
  | never
  | void
  | array
  | object
  | union
  | discriminatedUnion
  | intersection
  | tuple
  | record
  | map
  | set
  | function
  | lazy
  | literal
  | enumeration
  | effects
  | nativeEnum
  | optional
  | nullable
  | default
  | catching
  | promise
  | branded
  | pipeline
  | binary
  | other (name : String)
  deriving DecidableEq, Repr

namespace Shape

/-- The known shapes by name. -/
def names : List (String × Shape) :=
  [("String", .string), ("Number", .number), ("NaN", .nan), ("BigInt", .bigInt),
   ("Boolean", .boolean), ("Date", .date), ("Symbol", .symbol), ("Undefined", .undefined),
   ("Null", .null), ("Any", .any), ("Unknown", .unknown), ("Never", .never), ("Void", .void),
   ("Array", .array), ("Object", .object), ("Union", .union),
   ("DiscriminatedUnion", .discriminatedUnion), ("Intersection", .intersection),
   ("Tuple", .tuple), ("Record", .record), ("Map", .map), ("Set", .set),
   ("Function", .function), ("Lazy", .lazy), ("Literal", .literal), ("Enum", .enumeration),
   ("Effects", .effects), ("NativeEnum", .nativeEnum), ("Optional", .optional),
   ("Nullable", .nullable), ("Default", .default), ("Catch", .catching),
   ("Promise", .promise), ("Branded", .branded), ("Pipeline", .pipeline), ("Binary", .binary)]

/-- The shape of a name. -/
def ofName (name : String) : Shape := (names.lookup name).getD (.other name)

/-- The type of the attributes that hold values of a shape. Shapes that wrap or combine others have
the null type, which cannot be that of a key. -/
def attributeType : Shape → AttributeType
  | .string | .literal | .date | .symbol | .other _ => .string
  | .number | .nan | .bigInt => .number
  | .boolean => .bool
  | .binary => .binary
  | .array | .tuple => .list
  | .object | .record | .map | .set | .any | .unknown | .enumeration => .map
  | .null | .undefined | .never | .void | .union | .discriminatedUnion | .intersection
  | .function | .lazy | .effects | .nativeEnum | .optional | .nullable | .default
  | .catching | .promise | .branded | .pipeline => .null

end Shape

end SingleTable
