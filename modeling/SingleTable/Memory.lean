import SingleTable.Memory.Table
import SingleTable.Store

set_option autoImplicit false

/-!
# The store in memory

All tables of the store by name. A refused call leaves the store as it is; a batch is checked as a
whole before its first write.
-/

namespace SingleTable

/-- The tables in memory, and the time in seconds that tables are created at. -/
structure MemoryStore where
  tables : Dict StoredTable := {}
  clock : Int := 0

namespace MemoryStore

/-- The names of all tables, ascending. -/
def tableNames (s : MemoryStore) : List String := s.tables.keys

/-- The table of a name. -/
def table (s : MemoryStore) (name : String) : Except Refusal StoredTable :=
  match s.tables.get? name with
  | some t => .ok t
  | none => .error (.noTable name)

/-- The store with a table put in place of the one of the same name. -/
def setTable (s : MemoryStore) (name : String) (t : StoredTable) : MemoryStore :=
  { s with tables := s.tables.insert name t }

/-- Create a table, if its definition is valid and its name is new. -/
def createTable (s : MemoryStore) (r : CreateTableRequest) :
    Except Refusal (TableReply × MemoryStore) := do
  let t ← StoredTable.ofRequest r s.clock
  if s.tables.contains r.table then .error (.tableExists r.table)
  else return ({ description := some (t.describe .active) }, s.setTable r.table t)

/-- Delete a table with all of its items. -/
def deleteTable (s : MemoryStore) (r : TableRequest) :
    Except Refusal (TableReply × MemoryStore) := do
  let t ← s.table r.table
  return ({ description := some (t.describe .deleting) },
    { s with tables := s.tables.erase r.table })

/-- Put an item; it replaces an item with the same key. -/
def put (s : MemoryStore) (r : PutRequest) : Except Refusal MemoryStore := do
  let t ← s.table r.table
  return s.setTable r.table (← t.put r.item)

/-- The item at a key. -/
def get (s : MemoryStore) (r : KeyRequest) : Except Refusal GetReply := do
  let t ← s.table r.table
  return { item := ← t.get r.key }

/-- Delete the item at a key. -/
def delete (s : MemoryStore) (r : KeyRequest) : Except Refusal MemoryStore := do
  let t ← s.table r.table
  return s.setTable r.table (← t.delete r.key)

/-- The reply that lists items; none are left out. -/
def listing (items : List Item) : ItemsReply :=
  let count := Int32.ofInt (min items.length Int32.maxValue.toInt)
  { items, count, scanned := count }

/-- The items that a key condition selects. -/
def query (s : MemoryStore) (r : QueryRequest) : Except Refusal ItemsReply := do
  let t ← s.table r.table
  match r.condition with
  | none => .error .noCondition
  | some text =>
      let schema ← t.schemaFor r.index
      match KeyCondition.ofText schema r.values text with
      | .error e => .error (.condition e)
      | .ok condition =>
          return listing (t.query r.index condition schema (r.forward.getD true))

/-- All items of a table. -/
def scan (s : MemoryStore) (r : TableRequest) : Except Refusal ItemsReply := do
  let t ← s.table r.table
  return listing t.storage.scan

/-! ## Batches -/

/-- The number of writes in a batch. -/
def batchTotal (r : BatchRequest) : Nat := r.writes.values.flatten.length

/-- Check the writes to one table. -/
def checkWrites (s : MemoryStore) (writes : String × List WriteRequest) : Except Refusal Unit := do
  let t ← s.table writes.1
  writes.2.forM t.checkWrite

/-- Carry out the writes to one table, one after the other. -/
def applyWrites (s : MemoryStore) (writes : String × List WriteRequest) :
    Except Refusal MemoryStore := do
  let t ← s.table writes.1
  return s.setTable writes.1 (← writes.2.foldlM StoredTable.write t)

/-- Carry out a batch of writes, once all of them have been checked. -/
def batchWrite (s : MemoryStore) (r : BatchRequest) :
    Except Refusal (BatchReply × MemoryStore) := do
  let total := batchTotal r
  if total = 0 ∨ total > Refusal.maxBatch then .error (.batchSize total)
  else
    r.writes.entries.forM s.checkWrites
    let s ← r.writes.entries.foldlM applyWrites s
    return ({}, s)

/-! ## The calls of a store -/

/-- A read as a call. -/
def reading {α : Type} (read : MemoryStore → Except Refusal α) : StoreM MemoryStore α := fun s =>
  match read s with
  | .ok a => (.ok a, s)
  | .error e => (.error e.toStoreError, s)

/-- A write as a call; a refused one leaves the store as it is. -/
def writing {α : Type} (write : MemoryStore → Except Refusal (α × MemoryStore)) :
    StoreM MemoryStore α := fun s =>
  match write s with
  | .ok (a, s') => (.ok a, s')
  | .error e => (.error e.toStoreError, s)

instance : Store MemoryStore where
  createTable r := writing (·.createTable r)
  deleteTable r := writing (·.deleteTable r)
  put r := writing (fun s => (s.put r).map (((), ·)))
  get r := reading (·.get r)
  delete r := writing (fun s => (s.delete r).map (((), ·)))
  query r := reading (·.query r)
  scan r := reading (·.scan r)
  batchWrite r := writing (·.batchWrite r)

end MemoryStore

end SingleTable
