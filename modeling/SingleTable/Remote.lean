import SingleTable.Remote.Contract
import SingleTable.Remote.Reply
import SingleTable.Store
import SingleTable.Text.Blank
import SingleTable.Wire.Request

set_option autoImplicit false

/-!
# The store behind a remote service

Every call is one exchange: a target and a JSON body are sent, and a status with a JSON body comes
back. A reply that reports an error keeps its code; a failure without a code, or without the form
that the service declares for it, is a transport error. Values and items are converted between the
types of this library and those of the service.
-/

namespace SingleTable

/-! ## Exchanges -/

/-- What is sent to the service in one exchange. -/
structure Exchange where
  operation : Operation
  body : Json

/-- The target that names an operation of the service. -/
def Exchange.target (e : Exchange) : String := "DynamoDB_20120810." ++ e.operation.name

/-- What comes back in one exchange: a status with a body, or nothing if the connection fails. -/
inductive Response where
  | answer (status : Nat) (body : Json)
  | failure

/-- A remote store whose responses are known in advance: those still to come, after which the
connection fails, and the exchanges made so far, the latest first. -/
structure RemoteStore where
  responses : List Response := []
  exchanges : List Exchange := []

namespace RemoteStore

/-! ## Errors -/

/-- The error of an exchange that brought no code. -/
def transportError (operation : Operation) (source : String) : StoreError :=
  (StoreError.transport (operation.name ++ " request failed")).withSource source

/-- The code of an error type: without anything from a `:` on, and without a name space in front. -/
def codeOf (type : String) : String :=
  let cs := type.toList.takeWhile (· ≠ ':')
  match cs.dropWhile (· ≠ '#') with
  | _ :: rest => String.ofList rest
  | [] => String.ofList cs

/-- The first of some members that is a string. -/
def firstText? (body : Json) (names : List String) : Option String :=
  names.findSome? (fun n => (body.member? n).bind Json.asString?)

/-- Whether a body has the form of the error that it reports, if the operation declares it. -/
def isDeclaredForm (operation : Operation) (code : String) (body : Json) : Bool :=
  (operation.errorForm? code).all (fun form => form.fits body)

/-- The error that an unsuccessful response reports. Its text is the code if the service sends
none. -/
def serviceError (operation : Operation) (status : Nat) (body : Json) : StoreError :=
  match (firstText? body ["code", "__type"]).map codeOf with
  | none => transportError operation "service error"
  | some code =>
      if isDeclaredForm operation code body then
        let message := (firstText? body ["message", "errorMessage", "Message"]).getD code
        { code := ErrorCode.ofWire code, message, status, source := some "service error" }
      else transportError operation "service error"

/-- Whether a status reports success. -/
def isSuccess (status : Nat) : Bool := 200 ≤ status && status < 300

/-- The reply that a body holds, read by `read`. It must have the form that the operation declares
for it. -/
def readReply? {α : Type} (operation : Operation) (read : Json → Option α) (body : Json) :
    Option α :=
  if operation.replyForm.fits body then read body else none

/-- The reply in a response, read by `read`. A reply that cannot be read has no code. -/
def interpret {α : Type} (operation : Operation) (read : Json → Option α) :
    Response → Except StoreError α
  | .failure => .error (transportError operation "dispatch failure")
  | .answer status body =>
      if isSuccess status then
        match readReply? operation read body with
        | some a => .ok a
        | none => .error (transportError operation "service error")
      else .error (serviceError operation status body)

/-! ## Calls -/

/-- Send a body and take the next response. -/
def exchange {α : Type} (operation : Operation) (body : Json) (read : Json → Option α) :
    StoreM RemoteStore α := fun s =>
  let sent := { s with exchanges := ⟨operation, body⟩ :: s.exchanges }
  match s.responses with
  | [] => (interpret operation read .failure, sent)
  | r :: rest => (interpret operation read r, { sent with responses := rest })

/-- An exchange about one table. Nothing is sent if the name of the table is blank. -/
def tableExchange {α : Type} (operation : Operation) (table : String) (body : Json)
    (read : Json → Option α) : StoreM RemoteStore α := fun s =>
  if Blank.testText table then
    (.error (transportError operation "failed to construct request"), s)
  else exchange operation body read s

/-- The refusal of an attribute definition whose type cannot be that of a key. -/
def definitionError (d : AttributeDefinition) : StoreError :=
  .validation ("Member must satisfy enum value set: [B, N, S] for attribute " ++ d.name
    ++ " of type " ++ d.type.name)

/-- Check that every attribute definition has the type of a key. -/
def checkDefinitions (definitions : List AttributeDefinition) : Except StoreError Unit :=
  match definitions.find? (fun d => !d.type.isKey) with
  | some d => .error (definitionError d)
  | none => .ok ()

/-- The body of a request for an item by its key. -/
def keyBody (r : KeyRequest) : Json :=
  Json.ofMembers
    [("Key", some (ServiceItem.ofItem r.key).encode), ("TableName", Wire.encodeText r.table)]

/-- The body of a request to put an item. -/
def putBody (r : PutRequest) : Json :=
  Json.ofMembers
    [("Item", some (ServiceItem.ofItem r.item).encode), ("TableName", Wire.encodeText r.table)]

/-- The body of a query. -/
def queryBody (r : QueryRequest) : Json :=
  let values := ServiceItem.ofItem r.values
  Json.ofMembers
    [("ExpressionAttributeValues", if values.isEmpty then none else some values.encode),
     ("IndexName", r.index.map Json.string),
     ("KeyConditionExpression", r.condition.map Json.string),
     ("ScanIndexForward", r.forward.map Json.bool),
     ("TableName", Wire.encodeText r.table)]

/-- The body of a batch of writes. -/
def batchBody (r : BatchRequest) : Json :=
  let writes := (ServiceWrite.ofRequests r.writes).map
    (fun ws => Json.array (ws.map ServiceWrite.encode))
  Json.ofMembers [("RequestItems", some (.object writes.entries))]

instance : Store RemoteStore where
  createTable r := do
    checkDefinitions r.definitions
    tableExchange .createTable r.table r.encode ServiceReply.table?
  deleteTable r := tableExchange .deleteTable r.table r.encode ServiceReply.table?
  put r := tableExchange .putItem r.table (putBody r) ServiceReply.nothing?
  get r := do
    let item ← tableExchange .getItem r.table (keyBody r) ServiceReply.item?
    return { item := ← ServiceWrite.optionalItem item }
  delete r := tableExchange .deleteItem r.table (keyBody r) ServiceReply.nothing?
  query r := do
    (← tableExchange .query r.table (queryBody r) ServiceReply.items?).toReply
  scan r := do
    (← tableExchange .scan r.table r.encode ServiceReply.items?).toReply
  batchWrite r := do
    let writes ← exchange .batchWriteItem (batchBody r) ServiceReply.batch?
    return { unprocessed := ← ServiceWrite.toRequests writes }

end RemoteStore

end SingleTable
