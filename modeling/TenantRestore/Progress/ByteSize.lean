/-
# Sizes for readers

A size is shown in the largest unit that is not larger than the size, with one decimal.  The
count of bytes is first rounded to the 53 significant bits of a binary64 number, a half to
even; the quotient by a unit, a power of two, is then exact, and so is the tie that the one
decimal is rounded by.
-/
import TenantRestore.Binary64.Shortest

namespace TenantRestore

namespace ByteSize

/-- Divide and round to the nearest integer, a half to the even one. -/
def roundDiv (n d : Nat) : Nat :=
  let q := n / d
  let r := n % d
  if 2 * r < d then q
  else if d < 2 * r then q + 1
  else if q % 2 = 0 then q else q + 1

/-- Round a number to 53 significant bits, a half to the even one. -/
def significant (n : Nat) : Nat :=
  let spare := n.log2 + 1 - 53
  roundDiv n (Nat.pow 2 spare) * Nat.pow 2 spare

/-- The units above the byte, from the largest down: their powers of two and their names. -/
def units : List (Nat × List Char) :=
  [(60, ['E', 'i', 'B']), (50, ['P', 'i', 'B']), (40, ['T', 'i', 'B']), (30, ['G', 'i', 'B']),
    (20, ['M', 'i', 'B']), (10, ['K', 'i', 'B'])]

/-- The text of a size in bytes. -/
def text (n : Nat) : List Char :=
  let size := significant n
  match units.find? fun u => Nat.pow 2 u.1 ≤ size with
  | none => digitChars n ++ [' ', 'B']
  | some (power, name) =>
    let tenths := roundDiv (size * 10) (Nat.pow 2 power)
    digitChars (tenths / 10) ++ '.' :: digitChars (tenths % 10) ++ ' ' :: name

end ByteSize

end TenantRestore
