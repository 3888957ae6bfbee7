/-!
# Blank characters

The characters with the property `White_Space`, and the text without those at its ends.
-/

namespace Scriptlet

/-- The ranges of characters with the property `White_Space`, first and last of each. -/
def whiteSpaceRanges : List (Nat × Nat) :=
  [(0x09, 0x0d), (0x20, 0x20), (0x85, 0x85), (0xa0, 0xa0), (0x1680, 0x1680), (0x2000, 0x200a),
    (0x2028, 0x2029), (0x202f, 0x202f), (0x205f, 0x205f), (0x3000, 0x3000)]

def isWhiteSpace (c : Char) : Bool :=
  whiteSpaceRanges.any fun r => r.1 ≤ c.toNat && c.toNat ≤ r.2

/-- The text without the white space at its ends. -/
def trimWhiteSpace (cs : List Char) : List Char :=
  ((cs.dropWhile isWhiteSpace).reverse.dropWhile isWhiteSpace).reverse

end Scriptlet
