import SingleTable.Table

set_option autoImplicit false

/-!
# The wire form of table definitions

Each record travels as an object of its fields. Lists that may be left out are left out when empty,
and options when there is nothing to tell.
-/

namespace SingleTable

namespace Wire

/-- A list, left out when empty. -/
def unlessEmpty {α : Type} (encode : α → Json) (items : List α) : Option Json :=
  if items.isEmpty then none else some (.array (items.map encode))

/-- A list, written also when empty. -/
def encodeList {α : Type} (encode : α → Json) (items : List α) : Option Json :=
  some (.array (items.map encode))

/-- A string that is always written. -/
def encodeText (s : String) : Option Json := some (.string s)

end Wire

/-! ## Keys -/

namespace KeyRole

/-- The roles by name. -/
def names : List (String × KeyRole) := [("HASH", .hash), ("RANGE", .range)]

/-- The name of a role. -/
def name : KeyRole → String
  | .hash => "HASH"
  | .range => "RANGE"

/-- The role of a name. -/
def ofName? (name : String) : Option KeyRole := names.lookup name

/-- A key role travels as its name. -/
def encode (r : KeyRole) : Json := .string r.name

/-- Reads the name of a key role. -/
def decode : Json → Decoded KeyRole := Wire.variant names

end KeyRole

namespace KeyElement

/-- A key element names the attribute and its role. -/
def encode (e : KeyElement) : Json :=
  Json.ofMembers [("AttributeName", Wire.encodeText e.name), ("KeyType", some e.role.encode)]

/-- Reads a key element; both fields have to be there. -/
def decode (j : Json) : Decoded KeyElement := do
  let r ← Wire.record "KeySchemaElement" ["AttributeName", "KeyType"] j
  let name := r.field "AttributeName" Wire.text
  let role := r.field "KeyType" KeyRole.decode
  r.settle [name.outcome, role.outcome]
  return { name := ← r.required name, role := ← r.required role }

end KeyElement

namespace AttributeDefinition

/-- A definition names the attribute and its type. -/
def encode (d : AttributeDefinition) : Json :=
  Json.ofMembers
    [("AttributeName", Wire.encodeText d.name), ("AttributeType", some d.type.encode)]

/-- Reads an attribute definition; both fields have to be there. -/
def decode (j : Json) : Decoded AttributeDefinition := do
  let r ← Wire.record "AttributeDefinition" ["AttributeName", "AttributeType"] j
  let name := r.field "AttributeName" Wire.text
  let type := r.field "AttributeType" AttributeType.decode
  r.settle [name.outcome, type.outcome]
  return { name := ← r.required name, type := ← r.required type }

end AttributeDefinition

/-! ## Indexes -/

namespace Throughput

/-- Both capacities are always written. -/
def encode (t : Throughput) : Json :=
  Json.ofMembers
    [("ReadCapacityUnits", some (Json.ofInt t.reads.toInt)),
     ("WriteCapacityUnits", some (Json.ofInt t.writes.toInt))]

/-- Reads the two capacities; both have to be there. -/
def decode (j : Json) : Decoded Throughput := do
  let r ← Wire.record "ProvisionedThroughput" ["ReadCapacityUnits", "WriteCapacityUnits"] j
  let reads := r.field "ReadCapacityUnits" Wire.int64
  let writes := r.field "WriteCapacityUnits" Wire.int64
  r.settle [reads.outcome, writes.outcome]
  return {
    reads := ← r.required reads
    writes := ← r.required writes }

end Throughput

namespace ProjectionKind

/-- The kinds by name. -/
def names : List (String × ProjectionKind) :=
  [("ALL", .all), ("KEYS_ONLY", .keysOnly), ("INCLUDE", .include)]

/-- The name of a kind. -/
def name : ProjectionKind → String
  | .all => "ALL"
  | .keysOnly => "KEYS_ONLY"
  | .include => "INCLUDE"

/-- The kind of projection of a name. -/
def ofName? (name : String) : Option ProjectionKind := names.lookup name

/-- A kind of projection travels as its name. -/
def encode (k : ProjectionKind) : Json := .string k.name

/-- Reads the name of a kind of projection. -/
def decode : Json → Decoded ProjectionKind := Wire.variant names

end ProjectionKind

namespace Projection

/-- The kind is left out when absent, the attribute names when there are none. -/
def encode (p : Projection) : Json :=
  Json.ofMembers
    [("NonKeyAttributes", Wire.unlessEmpty Json.string p.attributes),
     ("ProjectionType", p.kind.map ProjectionKind.encode)]

/-- Reads a projection; both fields may be left out. -/
def decode (j : Json) : Decoded Projection := do
  let r ← Wire.record "Projection" ["ProjectionType", "NonKeyAttributes"] j
  let kind := r.field "ProjectionType" (Wire.optional ProjectionKind.decode)
  let attributes := r.field "NonKeyAttributes" (Wire.sequence Wire.text)
  r.settle [kind.outcome, attributes.outcome]
  return {
    kind := ← r.optional kind
    attributes := ← attributes.orElse [] }

end Projection

namespace GlobalIndexDefinition

/-- The key elements are always written, the throughput only when it is set. -/
def encode (i : GlobalIndexDefinition) : Json :=
  Json.ofMembers
    [("IndexName", Wire.encodeText i.name),
     ("KeySchema", Wire.encodeList KeyElement.encode i.keys),
     ("Projection", some i.projection.encode),
     ("ProvisionedThroughput", i.throughput.map Throughput.encode)]

/-- Reads a global index; only the throughput may be left out. -/
def decode (j : Json) : Decoded GlobalIndexDefinition := do
  let r ← Wire.record "GlobalSecondaryIndex"
    ["IndexName", "KeySchema", "Projection", "ProvisionedThroughput"] j
  let name := r.field "IndexName" Wire.text
  let keys := r.field "KeySchema" (Wire.sequence KeyElement.decode)
  let projection := r.field "Projection" Projection.decode
  let throughput := r.field "ProvisionedThroughput" (Wire.optional Throughput.decode)
  r.settle
    [name.outcome, keys.outcome, projection.outcome,
     throughput.outcome]
  return {
    name := ← r.required name
    keys := ← r.required keys
    projection := ← r.required projection
    throughput := ← r.optional throughput }

end GlobalIndexDefinition

namespace LocalIndexDefinition

/-- All three fields of a local index are always written. -/
def encode (i : LocalIndexDefinition) : Json :=
  Json.ofMembers
    [("IndexName", Wire.encodeText i.name),
     ("KeySchema", Wire.encodeList KeyElement.encode i.keys),
     ("Projection", some i.projection.encode)]

/-- Reads a local index; no field may be left out. -/
def decode (j : Json) : Decoded LocalIndexDefinition := do
  let r ← Wire.record "LocalSecondaryIndex" ["IndexName", "KeySchema", "Projection"] j
  let name := r.field "IndexName" Wire.text
  let keys := r.field "KeySchema" (Wire.sequence KeyElement.decode)
  let projection := r.field "Projection" Projection.decode
  r.settle
    [name.outcome, keys.outcome, projection.outcome]
  return {
    name := ← r.required name
    keys := ← r.required keys
    projection := ← r.required projection }

end LocalIndexDefinition

/-! ## Descriptions -/

namespace TableStatus

/-- The states by name. -/
def names : List (String × TableStatus) :=
  [("CREATING", .creating), ("ACTIVE", .active), ("DELETING", .deleting)]

/-- The name of a state. -/
def name : TableStatus → String
  | .creating => "CREATING"
  | .active => "ACTIVE"
  | .deleting => "DELETING"

/-- The status of a name. -/
def ofName? (name : String) : Option TableStatus := names.lookup name

/-- A status travels as its name. -/
def encode (s : TableStatus) : Json := .string s.name

/-- Reads the name of a status. -/
def decode : Json → Decoded TableStatus := Wire.variant names

end TableStatus

namespace Wire

/-- A binary64 number; one that is not finite has no JSON form and is written as null. -/
def encodeDouble (x : Binary64) : Json := if x.isFinite then .number (.float x) else .null

end Wire

namespace TableDescription

/-- Every member of a description is left out when there is nothing to tell. -/
def encode (d : TableDescription) : Json :=
  Json.ofMembers
    [("AttributeDefinitions", Wire.unlessEmpty AttributeDefinition.encode d.definitions),
     ("CreationDateTime", d.created.map Wire.encodeDouble),
     ("GlobalSecondaryIndexes", Wire.unlessEmpty GlobalIndexDefinition.encode d.globalIndexes),
     ("ItemCount", d.itemCount.map (fun n => Json.ofInt n.toInt)),
     ("KeySchema", Wire.unlessEmpty KeyElement.encode d.keys),
     ("LocalSecondaryIndexes", Wire.unlessEmpty LocalIndexDefinition.encode d.localIndexes),
     ("ProvisionedThroughput", d.throughput.map Throughput.encode),
     ("TableName", d.name.map Json.string),
     ("TableStatus", d.status.map TableStatus.encode)]

/-- Reads a description; every field may be left out. -/
def decode (j : Json) : Decoded TableDescription := do
  let r ← Wire.record "TableDescription"
    ["TableName", "TableStatus", "KeySchema", "AttributeDefinitions", "CreationDateTime",
     "ItemCount", "ProvisionedThroughput", "GlobalSecondaryIndexes", "LocalSecondaryIndexes"] j
  let name := r.field "TableName" (Wire.optional Wire.text)
  let status := r.field "TableStatus" (Wire.optional TableStatus.decode)
  let keys := r.field "KeySchema" (Wire.sequence KeyElement.decode)
  let definitions := r.field "AttributeDefinitions" (Wire.sequence AttributeDefinition.decode)
  let created := r.field "CreationDateTime" (Wire.optional Wire.double)
  let itemCount := r.field "ItemCount" (Wire.optional Wire.int64)
  let throughput := r.field "ProvisionedThroughput" (Wire.optional Throughput.decode)
  let globals := r.field "GlobalSecondaryIndexes" (Wire.sequence GlobalIndexDefinition.decode)
  let locals := r.field "LocalSecondaryIndexes" (Wire.sequence LocalIndexDefinition.decode)
  r.settle
    [name.outcome, status.outcome, keys.outcome,
     definitions.outcome, created.outcome,
     itemCount.outcome, throughput.outcome,
     globals.outcome, locals.outcome]
  return {
    name := ← r.optional name
    status := ← r.optional status
    keys := ← keys.orElse []
    definitions := ← definitions.orElse []
    created := ← r.optional created
    itemCount := ← r.optional itemCount
    throughput := ← r.optional throughput
    globalIndexes := ← globals.orElse []
    localIndexes := ← locals.orElse [] }

end TableDescription

/-! ## Writes -/

namespace WriteRequest

/-- The record of a put: the item to store. -/
def encodePut (item : Item) : Json := Json.ofMembers [("Item", some (Wire.encodeItem item))]

/-- Reads the record of a put; the item has to be there. -/
def decodePut (j : Json) : Decoded Item := do
  let r ← Wire.record "PutRequest" ["Item"] j
  let item := r.field "Item" Wire.decodeItem
  r.settle [item.outcome]
  r.required item

/-- The record of a deletion: the key of the item. -/
def encodeDelete (key : Item) : Json := Json.ofMembers [("Key", some (Wire.encodeItem key))]

/-- Reads the record of a deletion; the key has to be there. -/
def decodeDelete (j : Json) : Decoded Item := do
  let r ← Wire.record "DeleteRequest" ["Key"] j
  let key := r.field "Key" Wire.decodeItem
  r.settle [key.outcome]
  r.required key

/-- Each of the two writes is left out when absent. -/
def encode (w : WriteRequest) : Json :=
  Json.ofMembers
    [("DeleteRequest", w.delete.map encodeDelete), ("PutRequest", w.put.map encodePut)]

/-- Reads a write; both of its parts may be left out, and both may be there. -/
def decode (j : Json) : Decoded WriteRequest := do
  let r ← Wire.record "WriteRequest" ["PutRequest", "DeleteRequest"] j
  let put := r.field "PutRequest" (Wire.optional decodePut)
  let delete := r.field "DeleteRequest" (Wire.optional decodeDelete)
  r.settle [put.outcome, delete.outcome]
  return { put := ← r.optional put, delete := ← r.optional delete }

end WriteRequest

end SingleTable
