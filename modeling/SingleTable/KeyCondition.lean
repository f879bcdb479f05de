import SingleTable.Key.Condition
import SingleTable.KeyCondition.Term

set_option autoImplicit false

/-!
# Key conditions under a key schema

A key condition has to fix the partition key by exactly one equality; its other terms constrain the
sort key. Main part: `KeyCondition.ofText`, which reads a condition and fits it to a key schema.
-/

namespace SingleTable

/-- A key condition under a key schema: the partition to look in, and the conditions that the sort
key has to satisfy all together. -/
structure KeyCondition where
  partition : AttributeValue
  sort : List SortCondition
  deriving DecidableEq

/-- The condition that a comparison puts on the sort key. -/
def Comparison.condition : Comparison → SortKey → SortCondition
  | .equal => .equal
  | .less => .less
  | .atMost => .atMost
  | .greater => .greater
  | .atLeast => .atLeast

namespace KeyCondition

/-- What the terms so far have fixed. -/
structure Progress where
  partition : Option AttributeValue := none
  sort : List SortCondition := []

/-- Check a value against the type of a key attribute. -/
def checkKey (key : KeyAttribute) (v : AttributeValue) : Except Mismatch Unit :=
  match key.check v with
  | .ok () => .ok ()
  | .error e => .error (.wrongType e)

/-- The sort key that a value denotes where the attribute `name` is the sort key of the schema. -/
def sortValue (schema : KeySchema) (name : String) (v : AttributeValue) :
    Except Mismatch SortKey := do
  match schema.sort with
  | none => .error (.notKey name)
  | some key =>
      if key.name = name then
        checkKey key v
        match SortKey.ofValue name v with
        | .ok k => return k
        | .error e => .error (.wrongType e)
      else .error (.notKey name)

/-- The attribute, value and comparison of a pair of operands, with the attribute on the left. -/
def pairUp (left : Operand) (sign : Comparison) (right : Operand) :
    Except Mismatch (String × AttributeValue × Comparison) :=
  match left, right with
  | .attribute name, .value v => .ok (name, v, sign)
  | .value v, .attribute name => .ok (name, v, sign.flip)
  | _, _ => .error .unpaired

/-- Take one term into account. -/
def addTerm (schema : KeySchema) (p : Progress) : Term → Except Mismatch Progress
  | .compare left sign right => do
      let (name, v, sign) ← pairUp left sign right
      if name = schema.partition.name then
        if sign ≠ .equal ∨ p.partition.isSome then .error .partitionComparison
        else
          checkKey schema.partition v
          return { p with partition := some v }
      else
        let k ← sortValue schema name v
        return { p with sort := p.sort ++ [sign.condition k] }
  | .between (.attribute name) (.value low) (.value high) => do
      let low ← sortValue schema name low
      let high ← sortValue schema name high
      return { p with sort := p.sort ++ [.between low high] }
  | .between _ _ _ => .error .betweenOperands
  | .beginsWith (.attribute name) (.value start) => do
      discard (sortValue schema name start)
      match start with
      | .string s => return { p with sort := p.sort ++ [.beginsWith s] }
      | .binary bytes => return { p with sort := p.sort ++ [.beginsWithBytes bytes] }
      | _ => .error .beginsWithNumber
  | .beginsWith _ _ => .error .beginsWithOperands

/-- Fit a conjunction of terms to a key schema. -/
def ofTerms (schema : KeySchema) (terms : List Term) : Except Mismatch KeyCondition := do
  let p ← terms.foldlM (addTerm schema) {}
  match p.partition with
  | none => .error (.noPartition schema.partition.name)
  | some partition => return { partition, sort := p.sort }

/-- Read a key condition, with its placeholders bound by `values`, and fit it to a key schema. -/
def ofText (schema : KeySchema) (values : Dict AttributeValue) (text : String) :
    Except ConditionError KeyCondition := do
  match ofTerms schema (← Term.ofText values text) with
  | .ok c => return c
  | .error e => .error (.mismatch e)

end KeyCondition

end SingleTable
