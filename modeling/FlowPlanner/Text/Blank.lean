/-
FlowPlanner.Text.Blank — white space, and text without the white space around it.

Blank characters are those with the Unicode property White_Space: 25 code
points in ten ranges. A zero-width space is none of them.
-/

namespace FlowPlanner.Text

/-- The closed ranges of blank code points, ascending. -/
def blankRanges : List (Nat × Nat) :=
  [(0x09, 0x0D), (0x20, 0x20), (0x85, 0x85), (0xA0, 0xA0), (0x1680, 0x1680), (0x2000, 0x200A),
    (0x2028, 0x2029), (0x202F, 0x202F), (0x205F, 0x205F), (0x3000, 0x3000)]

/-- The character is white space. -/
def isBlank (c : Char) : Bool := blankRanges.any fun r => r.1 ≤ c.toNat && c.toNat ≤ r.2

/-- Drop blank characters at both ends. -/
def trimChars (cs : List Char) : List Char :=
  ((cs.dropWhile isBlank).reverse.dropWhile isBlank).reverse

/-- Drop blank characters at both ends. -/
def trim (s : String) : String := String.ofList (trimChars s.toList)

end FlowPlanner.Text
