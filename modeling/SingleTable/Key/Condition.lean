import SingleTable.Key

set_option autoImplicit false

/-!
# Conditions on sort keys

The comparisons that a query puts on the sort key, and the range of an ordered partition in which
their matches lie.
-/

namespace SingleTable

/-- A condition on a sort key. -/
inductive SortCondition where
  | equal (v : SortKey)
  | less (v : SortKey)
  | atMost (v : SortKey)
  | greater (v : SortKey)
  | atLeast (v : SortKey)
  | between (low high : SortKey)
  | beginsWith (start : String)
  | beginsWithBytes (start : Bytes)
  deriving DecidableEq, Repr

namespace SortCondition

/-- Whether a sort key satisfies the condition. -/
def accepts : SortCondition → SortKey → Bool
  | .equal v, k => k.same v
  | .less v, k => k.before v
  | .atMost v, k => k.notAfter v
  | .greater v, k => compare k v == .gt
  | .atLeast v, k => (compare k v).isGE
  | .between low high, k => (compare k low).isGE && k.notAfter high
  | .beginsWith start, .string s => start.toList.isPrefixOf s.toList
  | .beginsWithBytes start, .binary bytes => start.isPrefixOf bytes
  | _, _ => false

end SortCondition

/-! ## Ranges -/

/-- One end of a range of sort keys. -/
inductive RangeEnd where
  | unbounded
  | included (v : SortKey)
  | excluded (v : SortKey)
  deriving DecidableEq, Repr

/-- A range of sort keys. -/
structure KeyRange where
  low : RangeEnd := .unbounded
  high : RangeEnd := .unbounded
  deriving DecidableEq, Repr

/-- The range in which the matches of a condition lie, or nothing if no key can match. -/
def SortCondition.range? : SortCondition → Option KeyRange
  | .equal v => some { low := .included v, high := .included v }
  | .less v => some { high := .excluded v }
  | .atMost v => some { high := .included v }
  | .greater v => some { low := .excluded v }
  | .atLeast v => some { low := .included v }
  | .between low high =>
      if compare low high = .gt then none
      else some { low := .included low, high := .included high }
  | .beginsWith start => some { low := .included (.string start) }
  | .beginsWithBytes start => some { low := .included (.binary start) }

end SingleTable
