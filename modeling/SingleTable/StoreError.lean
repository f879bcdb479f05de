set_option autoImplicit false

/-!
# Errors of a store

A store refuses a call with a code, a text and a status. Codes of a remote store arrive by name,
with or without the name of the service in front of it (`ErrorCode.ofWire`).
-/

namespace SingleTable

/-- The codes under which a store refuses a call. -/
inductive ErrorCode where
  | resourceInUse
  | resourceNotFound
  | throughputExceeded
  | validation
  | internal
  | transport
  deriving DecidableEq, Repr, Inhabited

namespace ErrorCode

/-- The name of a code. -/
def name : ErrorCode → String
  | .resourceInUse => "ResourceInUseException"
  | .resourceNotFound => "ResourceNotFoundException"
  | .throughputExceeded => "ProvisionedThroughputExceededException"
  | .validation => "ValidationException"
  | .internal => "InternalServerError"
  | .transport => "TransportError"

/-- The codes that a remote store reports; a transport error is never reported by the store
itself. -/
def reported : List ErrorCode :=
  [.resourceInUse, .resourceNotFound, .throughputExceeded, .validation, .internal]

/-- The part of a text after the last `#`, or all of it. -/
def unqualified (text : String) : String :=
  String.ofList (text.toList.reverse.takeWhile (· ≠ '#')).reverse

/-- The code of a reported name; an unknown name counts as an internal error. -/
def ofWire (text : String) : ErrorCode :=
  (reported.find? (fun code => code.name = unqualified text)).getD .internal

/-- The status that goes with a code unless another is given. -/
def defaultStatus : ErrorCode → Nat
  | .internal => 500
  | .transport => 502
  | _ => 400

end ErrorCode

/-- A refusal by a store. The source is the text of the error behind it, if there is one. -/
structure StoreError where
  code : ErrorCode
  message : String
  status : Nat
  source : Option String := none
  deriving DecidableEq, Repr

namespace StoreError

/-- The refusal under a code, with the status that goes with it. -/
def ofCode (code : ErrorCode) (message : String) : StoreError :=
  { code, message, status := code.defaultStatus }

/-- A resource that should not be there exists. -/
def resourceInUse (message : String) : StoreError := ofCode .resourceInUse message

/-- A resource does not exist. -/
def resourceNotFound (message : String) : StoreError := ofCode .resourceNotFound message

/-- The call itself is not valid. -/
def validation (message : String) : StoreError := ofCode .validation message

/-- The store could not be reached, or its reply could not be read. -/
def transport (message : String) : StoreError := ofCode .transport message

/-- The refusal with another status. -/
def withStatus (e : StoreError) (status : Nat) : StoreError := { e with status }

/-- The refusal with the text of the error behind it. -/
def withSource (e : StoreError) (source : String) : StoreError := { e with source := some source }

/-- Whether the refusal is that a resource does not exist. -/
def isResourceNotFound (e : StoreError) : Bool := e.code == .resourceNotFound

/-- The refusal as one line of text. -/
def display (e : StoreError) : String :=
  "DynamoDBError(" ++ e.code.name ++ "): " ++ e.message

end StoreError

end SingleTable
