import SingleTable.Attribute
import SingleTable.Dict

set_option autoImplicit false

/-!
# What a value feeds to a hasher

The sequence of writes by which an attribute value is hashed: its variant, then its content. The
entries of a map are written in ascending order of name, whatever order they are listed in. A hasher
sees the bytes of the writes one after the other (`HashWrite.stream`), so that different sequences
of writes may hash alike.
-/

namespace SingleTable

/-- One write to a hasher. -/
inductive HashWrite where
  | variant (index : Nat)
  | text (s : String)
  | length (n : Nat)
  | bytes (bs : Bytes)
  | flag (b : Bool)
  deriving DecidableEq, Repr

namespace HashWrite

/-- A natural as a word of eight bytes, the lowest first. -/
def word (n : Nat) : Bytes := (List.range 8).map (fun i => (n >>> (8 * i)).toUInt8)

/-- The bytes of a write. A text ends with a byte that occurs in no text. -/
def toBytes : HashWrite → Bytes
  | .variant index => word index
  | .text s => utf8Bytes s ++ [0xff]
  | .length n => word n
  | .bytes bs => bs
  | .flag b => [if b then 1 else 0]

/-- The bytes that a sequence of writes feeds to a hasher. -/
def stream (writes : List HashWrite) : Bytes := writes.flatMap toBytes

end HashWrite

namespace AttributeValue

mutual

/-- The writes of a value. -/
def hashWrites : AttributeValue → List HashWrite
  | .string s => [.variant 0, .text s]
  | .number s => [.variant 1, .text s]
  | .binary bs => [.variant 2, .length bs.length, .bytes bs]
  | .bool b => [.variant 3, .flag b]
  | .null b => [.variant 4, .flag b]
  | .list items => .variant 5 :: .length items.length :: itemWrites items
  | .map entries => .variant 6 :: ((sortEntries (entryWrites entries)).map Prod.snd).flatten

/-- The writes of the items of a list. -/
def itemWrites : List AttributeValue → List HashWrite
  | [] => []
  | v :: vs => hashWrites v ++ itemWrites vs

/-- The writes of each entry of a map, under its name. -/
def entryWrites : List (String × AttributeValue) → List (String × List HashWrite)
  | [] => []
  | (k, v) :: es => (k, .text k :: hashWrites v) :: entryWrites es

end

end AttributeValue

end SingleTable
