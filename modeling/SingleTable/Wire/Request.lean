import SingleTable.Request
import SingleTable.Wire.Table

set_option autoImplicit false

/-!
# The wire form of requests and replies

Requests that share a shape share a codec; the name under which a record is refused is then an
argument.
-/

namespace SingleTable

namespace Wire

/-- A dictionary, left out when empty. -/
def unlessEmptyDict {α : Type} (encode : α → Json) (d : Dict α) : Option Json :=
  if d.isEmpty then none else some (.object (d.map encode).entries)

/-- A dictionary, written also when empty. -/
def encodeDict {α : Type} (encode : α → Json) (d : Dict α) : Option Json :=
  some (.object (d.map encode).entries)

/-- The writes to a table. -/
def encodeWrites (writes : List WriteRequest) : Json := .array (writes.map WriteRequest.encode)

/-- Reads the writes to a table. -/
def decodeWrites : Json → Decoded (List WriteRequest) := sequence WriteRequest.decode

end Wire

/-! ## Requests -/

namespace CreateTableRequest

/-- Key elements and definitions are always written, the lists of indexes only when not empty. -/
def encode (r : CreateTableRequest) : Json :=
  Json.ofMembers
    [("AttributeDefinitions", Wire.encodeList AttributeDefinition.encode r.definitions),
     ("GlobalSecondaryIndexes", Wire.unlessEmpty GlobalIndexDefinition.encode r.globalIndexes),
     ("KeySchema", Wire.encodeList KeyElement.encode r.keys),
     ("LocalSecondaryIndexes", Wire.unlessEmpty LocalIndexDefinition.encode r.localIndexes),
     ("ProvisionedThroughput", r.throughput.map Throughput.encode),
     ("TableName", Wire.encodeText r.table)]

/-- Reads a creation; the throughput and the indexes may be left out. -/
def decode (j : Json) : Decoded CreateTableRequest := do
  let r ← Wire.record "CreateTableInput"
    ["TableName", "KeySchema", "AttributeDefinitions", "ProvisionedThroughput",
     "GlobalSecondaryIndexes", "LocalSecondaryIndexes"] j
  let table := r.field "TableName" Wire.text
  let keys := r.field "KeySchema" (Wire.sequence KeyElement.decode)
  let definitions := r.field "AttributeDefinitions" (Wire.sequence AttributeDefinition.decode)
  let throughput := r.field "ProvisionedThroughput" (Wire.optional Throughput.decode)
  let globals := r.field "GlobalSecondaryIndexes" (Wire.sequence GlobalIndexDefinition.decode)
  let locals := r.field "LocalSecondaryIndexes" (Wire.sequence LocalIndexDefinition.decode)
  r.settle
    [table.outcome, keys.outcome, definitions.outcome, throughput.outcome, globals.outcome,
     locals.outcome]
  return {
    table := ← r.required table
    keys := ← r.required keys
    definitions := ← r.required definitions
    throughput := ← r.optional throughput
    globalIndexes := ← globals.orElse []
    localIndexes := ← locals.orElse [] }

end CreateTableRequest

namespace TableRequest

/-- A request that names a table holds nothing but the name. -/
def encode (r : TableRequest) : Json :=
  Json.ofMembers [("TableName", Wire.encodeText r.table)]

/-- Reads a request that names a table, under the name of its record. -/
def decode (typeName : String) (j : Json) : Decoded TableRequest := do
  let r ← Wire.record typeName ["TableName"] j
  let table := r.field "TableName" Wire.text
  r.settle [table.outcome]
  return { table := ← r.required table }

end TableRequest

namespace PutRequest

/-- A put carries the item and the name of its table. -/
def encode (r : PutRequest) : Json :=
  Json.ofMembers
    [("Item", some (Wire.encodeItem r.item)), ("TableName", Wire.encodeText r.table)]

/-- Reads a put; both fields have to be there. -/
def decode (j : Json) : Decoded PutRequest := do
  let r ← Wire.record "PutItemInput" ["TableName", "Item"] j
  let table := r.field "TableName" Wire.text
  let item := r.field "Item" Wire.decodeItem
  r.settle [table.outcome, item.outcome]
  return { table := ← r.required table, item := ← r.required item }

end PutRequest

namespace KeyRequest

/-- A request for one item carries its key and the name of the table. -/
def encode (r : KeyRequest) : Json :=
  Json.ofMembers [("Key", some (Wire.encodeItem r.key)), ("TableName", Wire.encodeText r.table)]

/-- Reads a request for one item, under the name of its record. -/
def decode (typeName : String) (j : Json) : Decoded KeyRequest := do
  let r ← Wire.record typeName ["TableName", "Key"] j
  let table := r.field "TableName" Wire.text
  let key := r.field "Key" Wire.decodeItem
  r.settle [table.outcome, key.outcome]
  return { table := ← r.required table, key := ← r.required key }

end KeyRequest

namespace QueryRequest

/-- Only the table is always written; the bound values are left out when there are none. -/
def encode (r : QueryRequest) : Json :=
  Json.ofMembers
    [("ExpressionAttributeValues", Wire.unlessEmptyDict AttributeValue.encode r.values),
     ("IndexName", r.index.map Json.string),
     ("KeyConditionExpression", r.condition.map Json.string),
     ("ScanIndexForward", r.forward.map Json.bool),
     ("TableName", Wire.encodeText r.table)]

/-- Reads a query; only the table has to be there. -/
def decode (j : Json) : Decoded QueryRequest := do
  let r ← Wire.record "QueryInput"
    ["TableName", "IndexName", "KeyConditionExpression", "ExpressionAttributeValues",
     "ScanIndexForward"] j
  let table := r.field "TableName" Wire.text
  let index := r.field "IndexName" (Wire.optional Wire.text)
  let condition := r.field "KeyConditionExpression" (Wire.optional Wire.text)
  let values := r.field "ExpressionAttributeValues" (Wire.dictionary AttributeValue.decode)
  let forward := r.field "ScanIndexForward" (Wire.optional Wire.flag)
  r.settle
    [table.outcome, index.outcome, condition.outcome, values.outcome, forward.outcome]
  return {
    table := ← r.required table
    index := ← r.optional index
    condition := ← r.optional condition
    values := ← values.orElse {}
    forward := ← r.optional forward }

end QueryRequest

namespace BatchRequest

/-- The writes go by the name of their table, and are written also when there are none. -/
def encode (r : BatchRequest) : Json :=
  Json.ofMembers [("RequestItems", Wire.encodeDict Wire.encodeWrites r.writes)]

/-- Reads a batch; the writes have to be there. -/
def decode (j : Json) : Decoded BatchRequest := do
  let r ← Wire.record "BatchWriteItemInput" ["RequestItems"] j
  let writes := r.field "RequestItems" (Wire.dictionary Wire.decodeWrites)
  r.settle [writes.outcome]
  return { writes := ← r.required writes }

end BatchRequest

/-! ## Replies -/

namespace TableReply

/-- The description is left out when absent. -/
def encode (r : TableReply) : Json :=
  Json.ofMembers [("TableDescription", r.description.map TableDescription.encode)]

/-- Reads a reply about a table, under the name of its record. -/
def decode (typeName : String) (j : Json) : Decoded TableReply := do
  let r ← Wire.record typeName ["TableDescription"] j
  let description := r.field "TableDescription" (Wire.optional TableDescription.decode)
  r.settle [description.outcome]
  return { description := ← r.optional description }

end TableReply

namespace GetReply

/-- The item is left out when nothing was found. -/
def encode (r : GetReply) : Json := Json.ofMembers [("Item", r.item.map Wire.encodeItem)]

/-- Reads the reply to a look-up. -/
def decode (j : Json) : Decoded GetReply := do
  let r ← Wire.record "GetItemOutput" ["Item"] j
  let item := r.field "Item" (Wire.optional Wire.decodeItem)
  r.settle [item.outcome]
  return { item := ← r.optional item }

end GetReply

namespace ItemsReply

/-- The items and both counts are always written, the last key only when there is one. -/
def encode (r : ItemsReply) : Json :=
  Json.ofMembers
    [("Count", some (Json.ofInt r.count.toInt)),
     ("Items", Wire.encodeList Wire.encodeItem r.items),
     ("LastEvaluatedKey", Wire.unlessEmptyDict AttributeValue.encode r.lastKey),
     ("ScannedCount", some (Json.ofInt r.scanned.toInt))]

/-- Reads a reply that lists items, under the name of its record; every field may be left out. -/
def decode (typeName : String) (j : Json) : Decoded ItemsReply := do
  let r ← Wire.record typeName ["Items", "Count", "ScannedCount", "LastEvaluatedKey"] j
  let items := r.field "Items" (Wire.sequence Wire.decodeItem)
  let count := r.field "Count" Wire.int32
  let scanned := r.field "ScannedCount" Wire.int32
  let lastKey := r.field "LastEvaluatedKey" Wire.decodeItem
  r.settle [items.outcome, count.outcome, scanned.outcome, lastKey.outcome]
  return {
    items := ← items.orElse []
    count := ← count.orElse 0
    scanned := ← scanned.orElse 0
    lastKey := ← lastKey.orElse {} }

end ItemsReply

namespace BatchReply

/-- The writes that were not made are written also when there are none. -/
def encode (r : BatchReply) : Json :=
  Json.ofMembers [("UnprocessedItems", Wire.encodeDict Wire.encodeWrites r.unprocessed)]

/-- Reads the reply to a batch; its one field may be left out. -/
def decode (j : Json) : Decoded BatchReply := do
  let r ← Wire.record "BatchWriteItemOutput" ["UnprocessedItems"] j
  let writes := r.field "UnprocessedItems" (Wire.dictionary Wire.decodeWrites)
  r.settle [writes.outcome]
  return { unprocessed := ← writes.orElse {} }

end BatchReply

namespace Wire

/-- The wire form of a reply that tells nothing. -/
def encodeNothing : Json := .object []

/-- Reads a reply that tells nothing, under the name of its record. -/
def decodeNothing (typeName : String) (j : Json) : Decoded Unit := do
  let r ← record typeName [] j
  r.settle []

end Wire

end SingleTable
