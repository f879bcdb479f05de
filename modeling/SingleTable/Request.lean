import SingleTable.Table

set_option autoImplicit false

/-!
# Requests to a store and its replies

The eight operations of a store, what each one is given and what it answers.
-/

namespace SingleTable

/-- The operations of a store. -/
inductive Operation where
  | createTable
  | deleteTable
  | putItem
  | getItem
  | deleteItem
  | query
  | scan
  | batchWriteItem
  deriving DecidableEq, Repr

/-- The name of an operation. -/
def Operation.name : Operation → String
  | .createTable => "CreateTable"
  | .deleteTable => "DeleteTable"
  | .putItem => "PutItem"
  | .getItem => "GetItem"
  | .deleteItem => "DeleteItem"
  | .query => "Query"
  | .scan => "Scan"
  | .batchWriteItem => "BatchWriteItem"

/-- All operations. -/
def Operation.all : List Operation :=
  [.createTable, .deleteTable, .putItem, .getItem, .deleteItem, .query, .scan, .batchWriteItem]

/-! ## Requests -/

/-- The definition of a table to create. -/
structure CreateTableRequest where
  table : String
  keys : List KeyElement
  definitions : List AttributeDefinition
  throughput : Option Throughput := none
  globalIndexes : List GlobalIndexDefinition := []
  localIndexes : List LocalIndexDefinition := []
  deriving DecidableEq, Repr

/-- A request that only names a table: to delete it, or to list all of its items. -/
structure TableRequest where
  table : String
  deriving DecidableEq, Repr

/-- An item to store in a table. -/
structure PutRequest where
  table : String
  item : Item
  deriving DecidableEq

/-- The key of an item of a table: to fetch it, or to delete it. -/
structure KeyRequest where
  table : String
  key : Item
  deriving DecidableEq

/-- A query of a table or of one of its indexes by a key condition. The values are bound to the
placeholders of the condition. -/
structure QueryRequest where
  table : String
  index : Option String := none
  condition : Option String := none
  values : Dict AttributeValue := {}
  forward : Option Bool := none
  deriving DecidableEq

/-- Writes to several tables at once. -/
structure BatchRequest where
  writes : Dict (List WriteRequest)
  deriving DecidableEq

/-! ## Replies -/

/-- The description of a table that was created or deleted. -/
structure TableReply where
  description : Option TableDescription := none
  deriving DecidableEq, Repr

/-- The item that was fetched, if there is one. -/
structure GetReply where
  item : Option Item := none
  deriving DecidableEq

/-- The items that a query or scan found. The last key is not empty if the store stopped early. -/
structure ItemsReply where
  items : List Item := []
  count : Int32 := 0
  scanned : Int32 := 0
  lastKey : Item := {}
  deriving DecidableEq

/-- The writes of a batch that were not carried out. -/
structure BatchReply where
  unprocessed : Dict (List WriteRequest) := {}
  deriving DecidableEq

end SingleTable
