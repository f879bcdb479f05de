import SingleTable.Materialize
import SingleTable.Store
import SingleTable.TableDefinition

set_option autoImplicit false

/-!
# Databases

A database is a schema bound to a table and to a source of ids. A session adds the store that holds
the table and the number of ids drawn so far. Models are bound to the value of their partition key
before use. A bound model reads, updates and deletes under that partition key; the items that it
creates have the partition key that is computed from the parameters of the creation.
-/

namespace SingleTable

/-! ## Refusals -/

/-- Why a call to a database fails. -/
inductive DatabaseError where
  | field (cause : FieldError)
  | schema (cause : SchemaError)
  | store (cause : StoreError)
  | unknownModel (name : String)
  | itemNotFound (model : String) (sort : AttributeValue)
  deriving DecidableEq

namespace DatabaseError

/-- The text of a failure. -/
def message : DatabaseError → String
  | .field cause => cause.message
  | .schema cause => cause.message
  | .store cause => cause.display
  | .unknownModel name => "unknown model: " ++ name
  | .itemNotFound model sort => model ++ " item with sort key " ++ sort.describe ++ " not found"

/-- Whether the failure is that the store does not know the table. -/
def isResourceNotFound : DatabaseError → Bool
  | .store cause => cause.isResourceNotFound
  | _ => false

end DatabaseError

/-! ## Sessions -/

/-- A schema with the table in which its items are stored and the source of their ids. -/
structure Database where
  config : TableConfig
  schema : Schema
  ids : IdSource

/-- What the calls to a database change: the store, and the number of ids drawn. -/
structure Session (σ : Type) where
  store : σ
  drawn : Nat := 0

/-- A call to a database. -/
abbrev SessionM (σ : Type) := ExceptT DatabaseError (StateM (Session σ))

namespace SessionM

variable {σ α : Type}

/-- Make a call to the store. -/
def ofStore (call : StoreM σ α) : SessionM σ α := fun s =>
  let (result, store) := call s.store
  (result.mapError .store, { s with store })

/-- Run a computation that draws ids. -/
def ofDrawing (make : Drawing α) : SessionM σ α := fun s =>
  let (result, drawn) := make s.drawn
  (result.mapError .field, { s with drawn })

/-- Run a computation on schemas. -/
def ofSchema (result : Except SchemaError α) : SessionM σ α := fun s =>
  (result.mapError .schema, s)

end SessionM

/-! ## Bound models -/

/-- A model of a database, bound to the value of its partition key. -/
structure BoundModel where
  model : Model
  partition : AttributeValue

namespace Database

variable {σ : Type} [Store σ]

/-- Bind a model to the value of its partition key. -/
def bindModel (m : Model) : Except DatabaseError BoundModel :=
  match m.field? partitionKeyName with
  | none => .error (.schema (.missingKeyField m.name partitionKeyName))
  | some f =>
      match m.partitionValue f with
      | .ok partition => .ok { model := m, partition }
      | .error cause => .error (.field cause)

/-- The model of a name, bound to the value of its partition key. -/
def model (db : Database) (name : String) : Except DatabaseError BoundModel :=
  match db.schema.model? name with
  | none => .error (.unknownModel name)
  | some m => bindModel m

/-! ## The table -/

/-- Create the table with its indexes. -/
def createTable (db : Database) : SessionM σ TableReply :=
  .ofStore (Store.createTable (db.schema.createRequest db.config))

/-- Delete the table. -/
def deleteTable (db : Database) : SessionM σ TableReply :=
  .ofStore (Store.deleteTable { table := db.config.name })

/-- Delete the table if it exists, and tell whether it did. -/
def deleteTableIfExists (db : Database) : SessionM σ Bool := fun s =>
  match db.deleteTable s with
  | (.ok _, s) => (.ok true, s)
  | (.error e, s) => (if e.isResourceNotFound then .ok false else .error e, s)

/-! ## Reading across models -/

/-- The key that consists of a partition value and a sort value. -/
def keyItem (partition sort : AttributeValue) : Item :=
  Dict.ofList [(partitionKeyName, partition), (sortKeyName, sort)]

/-- The item at a key, whatever model it is of. -/
def get (db : Database) (partition sort : AttributeValue) : SessionM σ (Option Item) := do
  let reply ← SessionM.ofStore
    (Store.get { table := db.config.name, key := keyItem partition sort })
  return reply.item

/-- The request of a query of the table or of one of its indexes. -/
def compile (db : Database) (q : KeyQuery) : Except SchemaError QueryRequest :=
  match q.compile? db.config.name with
  | some r => .ok r
  | none => .error (.placeholderCollision q.partitionName)

/-- The items that a query selects from the table or from one of its indexes. -/
def query (db : Database) (q : KeyQuery) : SessionM σ ItemsReply := do
  let request ← SessionM.ofSchema (db.compile q)
  .ofStore (Store.query request)

/-! ## Reading and writing items of a model -/

/-- Store an item. -/
def putItem (db : Database) (item : Item) : SessionM σ Unit :=
  .ofStore (Store.put { table := db.config.name, item })

/-- Make an item of a model and store it. -/
def create (db : Database) (m : BoundModel) (params : Params) : SessionM σ Item := do
  let item ← SessionM.ofDrawing (m.model.materialize db.ids params none)
  db.putItem item
  return item

/-- Make several items of a model and store them in one batch. If one of them cannot be made,
nothing is stored. Items that the store leaves unprocessed are not tried again. -/
def createMany (db : Database) (m : BoundModel) (params : List Params) :
    SessionM σ (List Item) := do
  let items ←
    SessionM.ofDrawing (params.mapM (fun p => m.model.materialize db.ids p none))
  if items.isEmpty then return items
  let writes := Dict.ofList [(db.config.name, items.map WriteRequest.ofItem)]
  discard (SessionM.ofStore (Store.batchWrite { writes }))
  return items

/-- The item of a model at a sort value. -/
def getItem (db : Database) (m : BoundModel) (sort : AttributeValue) :
    SessionM σ (Option Item) :=
  db.get m.partition sort

/-- The first step of an update: fetch the item at a sort value and make the item that replaces it.
If there is none, a new one is made where `upsert` asks for it. The new item keeps the sort
value. -/
def prepareUpdate (db : Database) (m : BoundModel) (sort : AttributeValue) (params : Params)
    (upsert : Bool) : SessionM σ Item := do
  let existing ← db.getItem m sort
  if existing.isNone && !upsert then
    throw (.itemNotFound m.model.name sort)
  let item ←
    SessionM.ofDrawing (m.model.materialize db.ids (params.erase sortKeyName) existing)
  return (item.insert sortKeyName sort).insert partitionKeyName m.partition

/-- Make the item at a sort value anew and store it. This is a read followed by a write. -/
def update (db : Database) (m : BoundModel) (sort : AttributeValue) (params : Params)
    (upsert : Bool) : SessionM σ Item := do
  let item ← db.prepareUpdate m sort params upsert
  db.putItem item
  return item

/-- Delete the item of a model at a sort value. -/
def deleteItem (db : Database) (m : BoundModel) (sort : AttributeValue) : SessionM σ Unit :=
  .ofStore (Store.delete { table := db.config.name, key := keyItem m.partition sort })

/-- The query of the items of a model whose sort keys satisfy a filter. -/
def modelQuery (m : BoundModel) (filter : SortFilter) : KeyQuery :=
  { partitionValue := m.partition, filter }

/-- The items of a model whose sort keys satisfy a filter. -/
def queryItems (db : Database) (m : BoundModel) (filter : SortFilter) : SessionM σ ItemsReply :=
  db.query (modelQuery m filter)

/-- All items of the table, of whatever model. -/
def all (db : Database) : SessionM σ ItemsReply :=
  .ofStore (Store.scan { table := db.config.name })

end Database

end SingleTable
