import SingleTable.Request

set_option autoImplicit false

/-!
# Queries by key

A caller asks for the items of one partition and constrains their sort keys by a filter. The query
is compiled into a key condition over fixed placeholders, one for each operator, and a placeholder
named after the partition key (`KeyQuery.compile?`).
-/

namespace SingleTable

/-! ## Key names and placeholders -/

/-- The name of the partition key of every model. -/
def partitionKeyName : String := "pk"

/-- The name of the sort key of every model. -/
def sortKeyName : String := "sk"

namespace Placeholder

/-- Stands for the value of `=`. -/
def equal : String := ":eq"

/-- Stands for the value of `<`. -/
def less : String := ":lessThan"

/-- Stands for the value of `<=`. -/
def atMost : String := ":lessThanEqual"

/-- Stands for the value of `>`. -/
def greater : String := ":greaterThan"

/-- Stands for the value of `>=`. -/
def atLeast : String := ":greaterThanEqual"

/-- Stands for the low end of `between`. -/
def low : String := ":betweenA"

/-- Stands for the high end of `between`. -/
def high : String := ":betweenB"

/-- Stands for the start that `begins_with` asks for. -/
def start : String := ":beginsWith"

/-- All placeholders of sort key operators. -/
def all : List String := [equal, less, atMost, greater, atLeast, low, high, start]

/-- The placeholder named after an attribute. -/
def ofName (name : String) : String := ":" ++ name

/-- Whether the placeholder named after an attribute is that of an operator. -/
def collides (name : String) : Bool := all.contains (ofName name)

end Placeholder

/-! ## Filters -/

/-- Comparisons that a sort key has to satisfy all together, each at most once. -/
structure SortFilter where
  equal : Option AttributeValue := none
  less : Option AttributeValue := none
  atMost : Option AttributeValue := none
  greater : Option AttributeValue := none
  atLeast : Option AttributeValue := none
  between : Option (AttributeValue × AttributeValue) := none
  beginsWith : Option AttributeValue := none
  deriving DecidableEq

/-- Whether the filter accepts every sort key because no operator is set. -/
def SortFilter.isEmpty (f : SortFilter) : Bool := f == {}

/-- One conjunct of a key condition, with the values of its placeholders. -/
structure Fragment where
  text : String
  bindings : List (String × AttributeValue)
  deriving DecidableEq

namespace SortFilter

/-- The fragment of a comparison, if it is set. -/
def comparison (sort sign placeholder : String) : Option AttributeValue → List Fragment
  | none => []
  | some v => [⟨sort ++ " " ++ sign ++ " " ++ placeholder, [(placeholder, v)]⟩]

/-- The fragment of `between`, if it is set. -/
def betweenFragment (sort : String) : Option (AttributeValue × AttributeValue) → List Fragment
  | none => []
  | some (low, high) =>
      [⟨sort ++ " between " ++ Placeholder.low ++ " and " ++ Placeholder.high,
        [(Placeholder.low, low), (Placeholder.high, high)]⟩]

/-- The fragment of `begins_with`, if it is set. -/
def beginsWithFragment (sort : String) : Option AttributeValue → List Fragment
  | none => []
  | some v =>
      [⟨"begins_with(" ++ sort ++ ", " ++ Placeholder.start ++ ")", [(Placeholder.start, v)]⟩]

/-- The fragments of a filter on the sort key `sort`, one for each operator that is set, in a fixed
order. -/
def fragments (sort : String) (f : SortFilter) : List Fragment :=
  comparison sort "=" Placeholder.equal f.equal
    ++ comparison sort "<" Placeholder.less f.less
    ++ comparison sort "<=" Placeholder.atMost f.atMost
    ++ comparison sort ">" Placeholder.greater f.greater
    ++ comparison sort ">=" Placeholder.atLeast f.atLeast
    ++ betweenFragment sort f.between
    ++ beginsWithFragment sort f.beginsWith

end SortFilter

/-- Several conjuncts as one condition. -/
def Fragment.join (fragments : List Fragment) : String :=
  String.intercalate " and " (fragments.map Fragment.text)

/-- The values of the placeholders of several conjuncts. -/
def Fragment.values (fragments : List Fragment) : Dict AttributeValue :=
  Dict.ofList (fragments.flatMap Fragment.bindings)

/-! ## Queries -/

/-- A query over the keys of a table or of one of its indexes. -/
structure KeyQuery where
  partitionName : String := partitionKeyName
  partitionValue : AttributeValue
  sortName : String := sortKeyName
  filter : SortFilter := {}
  index : Option String := none
  forward : Bool := true
  deriving DecidableEq

/-- The conjunct that fixes the partition key. -/
def KeyQuery.partitionFragment (q : KeyQuery) : Fragment :=
  ⟨q.partitionName ++ " = " ++ Placeholder.ofName q.partitionName,
    [(Placeholder.ofName q.partitionName, q.partitionValue)]⟩

/-- The request for a query, or nothing if the placeholder of the partition key is that of a sort
key operator. The partition key is fixed first. -/
def KeyQuery.compile? (table : String) (q : KeyQuery) : Option QueryRequest :=
  if Placeholder.collides q.partitionName then none
  else
    let fragments := q.filter.fragments q.sortName
    some {
      table
      index := q.index
      condition := some (Fragment.join (q.partitionFragment :: fragments))
      values := Fragment.values (fragments ++ [q.partitionFragment])
      forward := if q.forward then none else some false }

end SingleTable
