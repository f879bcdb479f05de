import SingleTable.Key.Condition
import SingleTable.Sorting

set_option autoImplicit false

/-!
# The items of one table

Items are grouped into partitions by the value of their partition key; a partition keeps its items
in ascending order of sort key. Partitions are listed in the order in which they were started, and a
partition that becomes empty is dropped.
-/

namespace SingleTable

/-! ## Partitions -/

/-- The items of one partition value with their sort keys, ascending. -/
abbrev Partition := List (SortKey × Item)

namespace Partition

/-- The item at a place. -/
def get? (p : Partition) (k : SortKey) : Option Item :=
  match p with
  | [] => none
  | e :: rest =>
      match compare k e.1 with
      | .lt => none
      | .eq => some e.2
      | .gt => get? rest k

/-- Put an item at a place; an item that is already there is replaced and gives its key on. -/
def insert (p : Partition) (k : SortKey) (item : Item) : Partition :=
  match p with
  | [] => [(k, item)]
  | e :: rest =>
      match compare k e.1 with
      | .lt => (k, item) :: e :: rest
      | .eq => (e.1, item) :: rest
      | .gt => e :: insert rest k item

/-- Drop the item at a place. -/
def erase (p : Partition) (k : SortKey) : Partition :=
  match p with
  | [] => []
  | e :: rest =>
      match compare k e.1 with
      | .lt => e :: rest
      | .eq => rest
      | .gt => e :: erase rest k

/-- The entries that come before a key. -/
def below (p : Partition) (k : SortKey) : Partition := p.takeWhile (fun e => compare k e.1 == .gt)

/-- The entries that do not come before a key. -/
def above (p : Partition) (k : SortKey) : Partition := p.dropWhile (fun e => compare k e.1 == .gt)

/-- The entry at a key, if entries that do not come before the key start with it. -/
def leading (p : Partition) (k : SortKey) : Partition :=
  match p with
  | [] => []
  | e :: _ => if compare k e.1 == .eq then [e] else []

/-- The entries within a range. -/
def range (p : Partition) (r : KeyRange) : Partition :=
  let kept :=
    match r.low with
    | .unbounded => p
    | .included k => p.above k
    | .excluded k => (p.above k).drop ((p.above k).leading k).length
  match r.high with
  | .unbounded => kept
  | .included k => kept.below k ++ (kept.above k).leading k
  | .excluded k => kept.below k

/-- The items whose sort keys satisfy all conditions, ascending. Only the range of the first
condition is searched. -/
def select (p : Partition) (conditions : List SortCondition) : List Item :=
  let searched :=
    match conditions with
    | [] => p
    | first :: _ =>
        match first.range? with
        | none => []
        | some r => p.range r
  (searched.filter (fun e => conditions.all (fun c => c.accepts e.1))).map Prod.snd

end Partition

/-! ## Storage -/

/-- The items of a table under its key schema. -/
structure Storage where
  schema : KeySchema
  partitions : List (AttributeValue × Partition) := []
  count : Nat := 0

/-- A list in its own order, or reversed. -/
def inDirection {α : Type} (forward : Bool) (xs : List α) : List α :=
  if forward then xs else xs.reverse

namespace Storage

/-- The partition of a partition value; it is empty if no item has the value. -/
def partition (s : Storage) (value : AttributeValue) : Partition :=
  (s.partitions.lookup value).getD []

/-- Give a partition value its partition. A new one goes to the end, an empty one is dropped. -/
def setPartition (partitions : List (AttributeValue × Partition)) (value : AttributeValue)
    (p : Partition) : List (AttributeValue × Partition) :=
  match partitions with
  | [] => if p.isEmpty then [] else [(value, p)]
  | e :: rest =>
      if e.1 = value then (if p.isEmpty then rest else (value, p) :: rest)
      else e :: setPartition rest value p

/-- The item at a primary key. -/
def get? (s : Storage) (key : PrimaryKey) : Option Item :=
  (s.partition key.partition).get? key.place

/-- Put an item under its primary key; the item that it replaces is returned. -/
def put (s : Storage) (item : Item) : Except KeyError (Option Item × Storage) := do
  let key ← s.schema.extract item
  let p := s.partition key.partition
  let old := p.get? key.place
  return (old,
    { s with
      partitions := setPartition s.partitions key.partition (p.insert key.place item)
      count := if old.isSome then s.count else s.count + 1 })

/-- Delete the item at a primary key, which is returned. -/
def delete (s : Storage) (key : PrimaryKey) : Option Item × Storage :=
  match s.get? key with
  | none => (none, s)
  | some old =>
      (some old,
        { s with
          partitions :=
            setPartition s.partitions key.partition
              ((s.partition key.partition).erase key.place)
          count := s.count - 1 })

/-- The items of one partition whose sort keys satisfy all conditions, in order of sort key. -/
def query (s : Storage) (value : AttributeValue) (conditions : List SortCondition)
    (forward : Bool) : List Item :=
  inDirection forward ((s.partition value).select conditions)

/-! ## Reads over all partitions -/

/-- An item that an index shows, with the sort key under the index and both parts of its own key. -/
structure IndexHit where
  indexSort : SortKey
  basePartition : SortKey
  baseSort : SortKey
  item : Item

/-- The order of index hits: by sort key under the index, then by own key. -/
def IndexHit.compare (a b : IndexHit) : Ordering :=
  (Ord.compare a.indexSort b.indexSort).then
    ((Ord.compare a.basePartition b.basePartition).then (Ord.compare a.baseSort b.baseSort))

/-- The sort key of an item under an index schema. An item without a usable sort attribute, where
the index has one, is not part of the index. -/
def indexSort? (schema : KeySchema) (item : Item) : Option SortKey :=
  match schema.sort with
  | none => some .absent
  | some key => (item.get? key.name).bind (fun v => (SortKey.ofValue key.name v).toOption)

/-- The hit of a stored item under an index, if the item is part of the index, has the partition
value and satisfies all conditions. -/
def hit? (schema : KeySchema) (value : AttributeValue) (conditions : List SortCondition)
    (basePartition : AttributeValue) (entry : SortKey × Item) : Option IndexHit :=
  if entry.2.get? schema.partition.name = some value then
    match indexSort? schema entry.2 with
    | none => none
    | some indexSort =>
        if conditions.all (fun c => c.accepts indexSort) then
          some {
            indexSort
            basePartition := SortKey.ofValueD basePartition
            baseSort := entry.1
            item := entry.2 }
        else none
  else none

/-- The hits of an index query, partition by partition. -/
def hits (s : Storage) (schema : KeySchema) (value : AttributeValue)
    (conditions : List SortCondition) : List IndexHit :=
  s.partitions.flatMap (fun e => e.2.filterMap (hit? schema value conditions e.1))

/-- The items that an index shows under one partition value and whose sort keys under the index
satisfy all conditions, in order of that sort key and then of their own keys. -/
def queryIndex (s : Storage) (schema : KeySchema) (value : AttributeValue)
    (conditions : List SortCondition) (forward : Bool) : List Item :=
  let sorted := sortStably (fun a b => a.compare b == .lt) (s.hits schema value conditions)
  (inDirection forward sorted).map IndexHit.item

/-- All items, in order of partition value and then of sort key. -/
def scan (s : Storage) : List Item :=
  let sorted :=
    sortStably (fun a b => (SortKey.ofValueD a.1).before (SortKey.ofValueD b.1)) s.partitions
  sorted.flatMap (fun e => e.2.map Prod.snd)

end Storage

end SingleTable
