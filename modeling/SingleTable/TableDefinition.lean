import SingleTable.Schema

set_option autoImplicit false

/-!
# The table of a schema

The definition of the one table in which all models of a schema are stored: its keys, its indexes,
and the types of all key fields.
-/

namespace SingleTable

/-- The name of a table, and the throughput of the table and of each of its global indexes. -/
structure TableConfig where
  name : String
  throughput : Throughput := {}
  deriving DecidableEq, Repr

/-- The key element that selects the partition. -/
def KeyElement.hash (name : String) : KeyElement := { name, role := .hash }

/-- The key element that places an item within its partition. -/
def KeyElement.range (name : String) : KeyElement := { name, role := .range }

/-- The distinct names of a list, in the order in which they first occur. -/
def firstOccurrences (names : List String) : List String :=
  names.foldl (fun kept n => if kept.contains n then kept else kept ++ [n]) []

namespace Schema

/-- The names of all key fields: those of the table, of the global and of the local indexes. -/
def keyFieldNames (s : Schema) : List String :=
  [partitionKeyName, sortKeyName]
    ++ s.globalIndexes.flatMap GlobalIndex.keyNames
    ++ s.localIndexes.flatMap (fun i => [partitionKeyName, i.range])

/-- The attribute definitions of the table, one for each key field. -/
def definitions (s : Schema) : List AttributeDefinition :=
  (firstOccurrences s.keyFieldNames).map (fun name =>
    { name, type := (s.fieldType? name).getD .string })

/-- The definition of a global index. It carries all attributes. -/
def globalDefinition (config : TableConfig) (i : GlobalIndex) : GlobalIndexDefinition where
  name := i.effectiveName
  keys := .hash i.hash :: (i.range.map KeyElement.range).toList
  projection := .everything
  throughput := some config.throughput

/-- The definition of a local index. It carries all attributes. -/
def localDefinition (i : LocalIndex) : LocalIndexDefinition where
  name := i.effectiveName
  keys := [.hash partitionKeyName, .range i.range]
  projection := .everything

/-- The request that creates the table of a schema. -/
def createRequest (s : Schema) (config : TableConfig) : CreateTableRequest where
  table := config.name
  keys := [.hash partitionKeyName, .range sortKeyName]
  definitions := s.definitions
  throughput := some config.throughput
  globalIndexes := s.globalIndexes.map (globalDefinition config)
  localIndexes := s.localIndexes.map localDefinition

end Schema

end SingleTable
