import SingleTable.Memory.Refusal
import SingleTable.Request
import SingleTable.Storage

set_option autoImplicit false

/-!
# A table in memory

A table is made from its definition, which is checked first (`StoredTable.ofRequest`). It then
accepts writes of items whose key attributes have the declared types.
-/

namespace SingleTable

/-- A secondary index with its key schema. -/
structure TableIndex where
  name : String
  schema : KeySchema
  deriving DecidableEq, Repr

/-- A table in memory: its definition, its indexes, when it was created, and its items. -/
structure StoredTable where
  definition : CreateTableRequest
  indexes : List TableIndex
  created : Int
  storage : Storage

/-! ## Checking a definition -/

namespace KeySchema

/-- The key attribute of a key element, with the type under which it is defined. -/
def attributeOf (definitions : List AttributeDefinition) (key : KeyElement) :
    Except Refusal KeyAttribute :=
  match definitions.find? (fun d => d.name = key.name) with
  | none => .error (.undefinedKey key.name)
  | some d =>
      if d.type.isKey then .ok { name := d.name, type := d.type }
      else .error (.notKeyType d.name d.type)

/-- The key schema of a list of key elements: one of them selects the partition, and at most one is
the sort key. -/
def ofElements (keys : List KeyElement) (definitions : List AttributeDefinition) :
    Except Refusal KeySchema :=
  match keys.filter (fun k => k.role = .hash), keys.filter (fun k => k.role = .range) with
  | [hash], [] => do
      return { partition := ← attributeOf definitions hash }
  | [hash], [range] => do
      let partition ← attributeOf definitions hash
      let sort ← attributeOf definitions range
      return { partition, sort := some sort }
  | _, _ => .error .keyRoles

end KeySchema

namespace TableIndex

/-- Add an index to the indexes so far, if its name is new. -/
def add (definitions : List AttributeDefinition) (indexes : List TableIndex) (name : String)
    (keys : List KeyElement) : Except Refusal (List TableIndex) :=
  if indexes.any (fun i => i.name = name) then .error (.duplicateIndex name)
  else do
    let schema ← KeySchema.ofElements keys definitions
    return indexes ++ [⟨name, schema⟩]

/-- Add a global index. -/
def addGlobal (definitions : List AttributeDefinition) (indexes : List TableIndex)
    (index : GlobalIndexDefinition) : Except Refusal (List TableIndex) :=
  add definitions indexes index.name index.keys

/-- Add a local index, which shares the partition key `partition` and has a sort key. -/
def addLocal (definitions : List AttributeDefinition) (partition : String)
    (indexes : List TableIndex) (index : LocalIndexDefinition) :
    Except Refusal (List TableIndex) :=
  if indexes.any (fun i => i.name = index.name) then .error (.duplicateIndex index.name)
  else do
    let schema ← KeySchema.ofElements index.keys definitions
    if schema.partition.name = partition ∧ schema.sort.isSome then
      return indexes ++ [⟨index.name, schema⟩]
    else .error (.localIndexKeys index.name)

end TableIndex

namespace StoredTable

/-- The names of all key attributes of a table and its indexes. -/
def keyNames (schema : KeySchema) (indexes : List TableIndex) : List String :=
  (schema :: indexes.map TableIndex.schema).flatMap (fun s => s.attributes.map KeyAttribute.name)

/-- Make an empty table from its definition. -/
def ofRequest (r : CreateTableRequest) (created : Int) : Except Refusal StoredTable := do
  if r.table.isEmpty then .error .emptyTableName
  let schema ← KeySchema.ofElements r.keys r.definitions
  let globals ← r.globalIndexes.foldlM (TableIndex.addGlobal r.definitions) []
  let indexes ←
    r.localIndexes.foldlM (TableIndex.addLocal r.definitions schema.partition.name) globals
  match r.definitions.find? (fun d => !(keyNames schema indexes).contains d.name) with
  | some d => .error (.unusedDefinition d.name)
  | none => return { definition := r, indexes, created, storage := { schema } }

/-! ## Reading and writing -/

/-- The key schema of the table itself. -/
def schema (t : StoredTable) : KeySchema := t.storage.schema

/-- The key schema of the table or of one of its indexes. -/
def schemaFor (t : StoredTable) : Option String → Except Refusal KeySchema
  | none => .ok t.schema
  | some name =>
      match t.indexes.find? (fun i => i.name = name) with
      | some i => .ok i.schema
      | none => .error (.noIndex name)

/-- Check a key attribute where an item has it. -/
def checkIfPresent (item : Item) (key : KeyAttribute) : Except KeyError Unit :=
  match item.get? key.name with
  | none => .ok ()
  | some v => key.check v

/-- Check that every key attribute of an index that an item has is of the declared type. -/
def checkIndexKeys (t : StoredTable) (item : Item) : Except KeyError Unit :=
  (t.indexes.flatMap (fun i => i.schema.attributes)).forM (checkIfPresent item)

/-- The primary key that an item consists of, with no further attribute. -/
def exactKey (t : StoredTable) (key : Item) : Except Refusal PrimaryKey :=
  if key.size = t.schema.size then
    match t.schema.extract key with
    | .ok k => .ok k
    | .error e => .error (.key e)
  else .error .keyShape

/-- Put an item. -/
def put (t : StoredTable) (item : Item) : Except Refusal StoredTable := do
  match t.checkIndexKeys item with
  | .error e => .error (.key e)
  | .ok () =>
      match t.storage.put item with
      | .error e => .error (.key e)
      | .ok (_, storage) => return { t with storage }

/-- The item at a key. -/
def get (t : StoredTable) (key : Item) : Except Refusal (Option Item) := do
  return t.storage.get? (← t.exactKey key)

/-- Delete the item at a key. -/
def delete (t : StoredTable) (key : Item) : Except Refusal StoredTable := do
  let key ← t.exactKey key
  return { t with storage := (t.storage.delete key).2 }

/-- The items that a key condition selects from the table or from one of its indexes. -/
def query (t : StoredTable) (index : Option String) (condition : KeyCondition) (schema : KeySchema)
    (forward : Bool) : List Item :=
  if index.isSome then t.storage.queryIndex schema condition.partition condition.sort forward
  else t.storage.query condition.partition condition.sort forward

/-- Carry out one write of a batch. -/
def write (t : StoredTable) (w : WriteRequest) : Except Refusal StoredTable :=
  match w.put, w.delete with
  | some item, _ => t.put item
  | none, some key => t.delete key
  | none, none => .ok t

/-- Check one write of a batch without carrying it out. -/
def checkWrite (t : StoredTable) (w : WriteRequest) : Except Refusal Unit :=
  match w.put, w.delete with
  | some item, none =>
      match t.schema.extract item, t.checkIndexKeys item with
      | .error e, _ => .error (.key e)
      | .ok _, .error e => .error (.key e)
      | .ok _, .ok () => .ok ()
  | none, some key => do
      discard (t.exactKey key)
  | _, _ => .error .batchRequest

/-- The description of a table in a given phase of its life. -/
def describe (t : StoredTable) (status : TableStatus) : TableDescription where
  name := some t.definition.table
  status := some status
  keys := t.definition.keys
  definitions := t.definition.definitions
  created := some (Binary64.ofInt t.created)
  itemCount := some (Int64.ofInt (min t.storage.count Int64.maxValue.toInt))
  throughput := t.definition.throughput
  globalIndexes := t.definition.globalIndexes
  localIndexes := t.definition.localIndexes

end StoredTable

end SingleTable
