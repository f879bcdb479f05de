import SingleTable.Request
import SingleTable.StoreError

set_option autoImplicit false

/-!
# Stores

A store is whatever answers the eight requests on tables. A call changes the state of the store and
either answers or refuses; a refused call may have changed the state too.
-/

namespace SingleTable

/-- A call to a store with states `σ`. -/
abbrev StoreM (σ : Type) := ExceptT StoreError (StateM σ)

/-- The calls of a store with states `σ`. -/
class Store (σ : Type) where
  /-- Create a table. -/
  createTable : CreateTableRequest → StoreM σ TableReply
  /-- Delete a table with all of its items. -/
  deleteTable : TableRequest → StoreM σ TableReply
  /-- Put an item; it replaces an item with the same key. -/
  put : PutRequest → StoreM σ Unit
  /-- The item at a key, if there is one. -/
  get : KeyRequest → StoreM σ GetReply
  /-- Delete the item at a key, if there is one. -/
  delete : KeyRequest → StoreM σ Unit
  /-- The items that a key condition selects. -/
  query : QueryRequest → StoreM σ ItemsReply
  /-- All items of a table. -/
  scan : TableRequest → StoreM σ ItemsReply
  /-- Carry out a batch of writes. -/
  batchWrite : BatchRequest → StoreM σ BatchReply

end SingleTable
