set_option autoImplicit false

/-!
# Blank text

A text is blank if it holds nothing but white space. The table follows the white space property of
the Unicode character database.
-/

namespace SingleTable

namespace Blank

/-- The ranges of code points of white space, ascending. -/
def ranges : List (Nat × Nat) :=
  [(0x9, 0xd), (0x20, 0x20), (0x85, 0x85), (0xa0, 0xa0), (0x1680, 0x1680), (0x2000, 0x200a),
   (0x2028, 0x2029), (0x202f, 0x202f), (0x205f, 0x205f), (0x3000, 0x3000)]

/-- Whether a character is white space. -/
def test (c : Char) : Bool := ranges.any (fun r => r.1 ≤ c.toNat && c.toNat ≤ r.2)

/-- Whether a text is empty or holds white space only. -/
def testText (text : String) : Bool := text.toList.all test

end Blank

end SingleTable
