import SingleTable.Attribute.Wire

set_option autoImplicit false

/-!
# Tables as they are declared and described

The vocabulary of table administration: key schemas, attribute definitions, secondary indexes with
their projection and capacity, the description of a table, and the requests to write items.
-/

namespace SingleTable

/-! ## Keys -/

/-- The role of an attribute in a key: it selects the partition, or the place in the partition. -/
inductive KeyRole where
  | hash
  | range
  deriving DecidableEq, Repr

/-- One attribute of a key schema. -/
structure KeyElement where
  name : String
  role : KeyRole
  deriving DecidableEq, Repr

/-- The declared type of an attribute. -/
structure AttributeDefinition where
  name : String
  type : AttributeType
  deriving DecidableEq, Repr

/-! ## Indexes -/

/-- Reserved reads and writes per second. -/
structure Throughput where
  reads : Int64 := 10
  writes : Int64 := 10
  deriving DecidableEq, Repr

/-- Which attributes an index carries. -/
inductive ProjectionKind where
  | all
  | keysOnly
  | include
  deriving DecidableEq, Repr

/-- The attributes that an index carries besides its keys. -/
structure Projection where
  kind : Option ProjectionKind := none
  attributes : List String := []
  deriving DecidableEq, Repr

/-- The projection of every attribute. -/
def Projection.everything : Projection := { kind := some .all }

/-- A global secondary index, with its own partition key. -/
structure GlobalIndexDefinition where
  name : String
  keys : List KeyElement
  projection : Projection
  throughput : Option Throughput
  deriving DecidableEq, Repr

/-- A local secondary index, which shares the partition key of its table. -/
structure LocalIndexDefinition where
  name : String
  keys : List KeyElement
  projection : Projection
  deriving DecidableEq, Repr

/-! ## Descriptions -/

/-- Where a table is in its life. -/
inductive TableStatus where
  | creating
  | active
  | deleting
  deriving DecidableEq, Repr

/-- What a store tells about a table. -/
structure TableDescription where
  name : Option String := none
  status : Option TableStatus := none
  keys : List KeyElement := []
  definitions : List AttributeDefinition := []
  created : Option Binary64 := none
  itemCount : Option Int64 := none
  throughput : Option Throughput := none
  globalIndexes : List GlobalIndexDefinition := []
  localIndexes : List LocalIndexDefinition := []
  deriving DecidableEq, Repr

/-! ## Writes -/

/-- One write of a batch. It should hold either an item to put or the key of an item to delete; that
it holds exactly one of them is checked by the store. -/
structure WriteRequest where
  put : Option Item := none
  delete : Option Item := none
  deriving DecidableEq

/-- The request to put an item. -/
def WriteRequest.ofItem (item : Item) : WriteRequest := { put := some item }

end SingleTable
