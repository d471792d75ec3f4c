/-
# Blank characters

The characters with the property White_Space, from the control characters for tabs and line
breaks to the ideographic space.
-/

namespace TenantRestore

/-- Whether a character has the property White_Space. -/
def isBlankChar (c : Char) : Bool :=
  let n := c.toNat
  (0x09 ≤ n && n ≤ 0x0d) || n == 0x20 || n == 0x85 || n == 0xa0 || n == 0x1680 ||
    (0x2000 ≤ n && n ≤ 0x200a) || n == 0x2028 || n == 0x2029 || n == 0x202f || n == 0x205f ||
    n == 0x3000

/-- A text without the blanks at its start. -/
def dropBlanks (cs : List Char) : List Char := cs.dropWhile isBlankChar

end TenantRestore
