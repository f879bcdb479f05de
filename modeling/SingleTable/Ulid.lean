set_option autoImplicit false

/-!
# Sortable ids

An id has 128 bits: 48 of them hold a time in milliseconds and 80 are random. It is written in 26
digits of base 32, so that the order of the texts is the order of the ids. Within one millisecond
each id follows the one before it, so ids never repeat and always ascend.
-/

namespace SingleTable

/-- An id as a natural below `2 ^ 128`. -/
structure Ulid where
  bits : Nat
  deriving DecidableEq, Repr

namespace Ulid

/-- The digits of base 32, without the letters that are easily mistaken for others. -/
def alphabet : List Char := "0123456789ABCDEFGHJKMNPQRSTVWXYZ".toList

/-- The digit of a natural below 32. -/
def digit (n : Nat) : Char := alphabet.getD n '0'

/-- The last `count` digits of a natural in base 32. -/
def digits (count n : Nat) : List Char :=
  match count with
  | 0 => []
  | count + 1 => digits count (n / 32) ++ [digit (n % 32)]

/-- The text of an id. -/
def toText (u : Ulid) : String := String.ofList (digits 26 u.bits)

/-- The id of a time in milliseconds and a random part. -/
def ofParts (time random : Nat) : Ulid := ⟨(time % (1 <<< 48)) <<< 80 + random % (1 <<< 80)⟩

/-- The time of an id. -/
def time (u : Ulid) : Nat := u.bits >>> 80

/-- The next id at a time: a fresh one, or the one that follows the last if that is not older. -/
def next (last : Option Ulid) (now random : Nat) : Ulid :=
  match last with
  | none => ofParts now random
  | some u => if u.time < now then ofParts now random else ⟨u.bits + 1⟩

/-- The ids that are drawn one after the other at the given times with the given random parts. -/
def draw (last : Option Ulid) : List (Nat × Nat) → List Ulid
  | [] => []
  | (now, random) :: rest =>
      let u := next last now random
      u :: draw (some u) rest

end Ulid

end SingleTable
