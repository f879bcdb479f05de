import SingleTable.Remote.Form
import SingleTable.Request
import SingleTable.Wire.Table

set_option autoImplicit false

/-!
# Replies of the remote service

What a reply says, as far as this library makes use of it. Unknown members are ignored, null members
count as absent, and members that the service always sends have a default. Names that the service
may add later (statuses, key roles, projections) are dropped, and unknown attribute types are kept
by name.
-/

namespace SingleTable

namespace ServiceReply

/-! ## Members -/

/-- An object, whose members are read one by one. -/
def object? : Json → Option Json
  | .object members => some (.object members)
  | _ => none

/-- The items of an array, each read by `read`. -/
def array? {α : Type} (read : Json → Option α) : Json → Option (List α)
  | .array items => items.mapM read
  | _ => none

/-- The members of an object under their names, each read by `read`. -/
def dictionary? {α : Type} (read : Json → Option α) : Json → Option (Dict α)
  | .object members => do
      return Dict.ofList (← members.mapM (fun m => do return (m.1, ← read m.2)))
  | _ => none

/-- The text of a member. -/
def text? (j : Json) (name : String) : Option (Option String) :=
  readOptional? Json.asString? j name

/-- The items of a member that is an array; there are none if it is absent. -/
def list? {α : Type} (read : Json → Option α) (j : Json) (name : String) : Option (List α) :=
  (readOptional? (array? read) j name).map (fun items => items.getD [])

/-- The nanoseconds in a second. -/
def nanosPerSecond : Binary64 := Binary64.ofInt 1000000000

/-- A time in seconds, kept as whole seconds within 64 bits and whole nanoseconds. -/
def keepNanos (x : Binary64) : Binary64 :=
  let seconds := max Int64.minValue.toInt (min Int64.maxValue.toInt x.floor)
  let nanos := (x.fraction.mul nanosPerSecond).floor
  (Binary64.ofInt seconds).add ((Binary64.ofInt nanos).div nanosPerSecond)

/-- A time as a number of seconds. -/
def seconds? : Json → Option Binary64
  | .number (.integer n) => some (keepNanos (Binary64.ofInt n))
  | .number (.float x) => some (keepNanos x)
  | _ => none

/-! ## Tables -/

/-- A key element, or nothing if its role is unknown. -/
def keyElement? (j : Json) : Option (Option KeyElement) := do
  let j ← object? j
  let name ← text? j "AttributeName"
  let role ← text? j "KeyType"
  return (role.bind KeyRole.ofName?).map (fun role => { name := name.getD "", role })

/-- The key elements of a member whose roles are known. -/
def keys? (j : Json) : Option (List KeyElement) :=
  (list? keyElement? j "KeySchema").map (fun keys => keys.filterMap id)

/-- The type of an attribute for which the service gives none. -/
def missingType : String := "no value was set"

/-- An attribute definition. -/
def definition? (j : Json) : Option AttributeDefinition := do
  let j ← object? j
  let name ← text? j "AttributeName"
  let type ← text? j "AttributeType"
  return { name := name.getD "", type := AttributeType.ofName (type.getD missingType) }

/-- A projection. -/
def projection? (j : Json) : Option Projection := do
  let j ← object? j
  let kind ← text? j "ProjectionType"
  let attributes ← list? Json.asString? j "NonKeyAttributes"
  return { kind := kind.bind ProjectionKind.ofName?, attributes }

/-- A throughput; a rate that is absent is zero. -/
def throughput? (j : Json) : Option Throughput := do
  let j ← object? j
  let reads ← readOptional? ServiceForm.int64? j "ReadCapacityUnits"
  let writes ← readOptional? ServiceForm.int64? j "WriteCapacityUnits"
  return { reads := reads.getD 0, writes := writes.getD 0 }

/-- A global index. -/
def globalIndex? (j : Json) : Option GlobalIndexDefinition := do
  let j ← object? j
  let name ← text? j "IndexName"
  let keys ← keys? j
  let projection ← readOptional? projection? j "Projection"
  let throughput ← readOptional? throughput? j "ProvisionedThroughput"
  return { name := name.getD "", keys, projection := projection.getD {}, throughput }

/-- A local index. -/
def localIndex? (j : Json) : Option LocalIndexDefinition := do
  let j ← object? j
  let name ← text? j "IndexName"
  let keys ← keys? j
  let projection ← readOptional? projection? j "Projection"
  return { name := name.getD "", keys, projection := projection.getD {} }

/-- The description of a table. -/
def description? (j : Json) : Option TableDescription := do
  let j ← object? j
  let name ← text? j "TableName"
  let status ← text? j "TableStatus"
  let keys ← keys? j
  let definitions ← list? definition? j "AttributeDefinitions"
  let created ← readOptional? seconds? j "CreationDateTime"
  let itemCount ← readOptional? ServiceForm.int64? j "ItemCount"
  let throughput ← readOptional? throughput? j "ProvisionedThroughput"
  let globalIndexes ← list? globalIndex? j "GlobalSecondaryIndexes"
  let localIndexes ← list? localIndex? j "LocalSecondaryIndexes"
  return {
    name
    status := status.bind TableStatus.ofName?
    keys
    definitions
    created
    itemCount
    throughput
    globalIndexes
    localIndexes }

/-! ## Replies -/

/-- The items that a query or scan found, in the form of the service. -/
structure Items where
  items : List ServiceItem
  count : Int32
  scanned : Int32
  lastKey : Option ServiceItem

/-- The reply to the creation or deletion of a table. -/
def table? (j : Json) : Option TableReply := do
  let j ← object? j
  return { description := ← readOptional? description? j "TableDescription" }

/-- The reply to a fetch. -/
def item? (j : Json) : Option (Option ServiceItem) := do
  let j ← object? j
  readOptional? ServiceItem.read? j "Item"

/-- The reply to a query or scan. -/
def items? (j : Json) : Option Items := do
  let j ← object? j
  let items ← list? ServiceItem.read? j "Items"
  let count ← readOptional? ServiceForm.int32? j "Count"
  let scanned ← readOptional? ServiceForm.int32? j "ScannedCount"
  let lastKey ← readOptional? ServiceItem.read? j "LastEvaluatedKey"
  return { items, count := count.getD 0, scanned := scanned.getD 0, lastKey }

/-- The reply to a batch of writes. -/
def batch? (j : Json) : Option (Dict (List ServiceWrite)) := do
  let j ← object? j
  let writes ←
    readOptional? (dictionary? (array? ServiceWrite.read?)) j "UnprocessedItems"
  return writes.getD {}

/-- The reply to a single write, which tells nothing. -/
def nothing? (j : Json) : Option Unit := (object? j).map (fun _ => ())

/-- The reply for the items of the service. -/
def Items.toReply (r : Items) : Except StoreError ItemsReply := do
  let items ← r.items.mapM ServiceItem.toItem
  let lastKey ← ServiceWrite.optionalItem r.lastKey
  return { items, count := r.count, scanned := r.scanned, lastKey := lastKey.getD {} }

end ServiceReply

end SingleTable
