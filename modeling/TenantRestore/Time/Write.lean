/-
# Writing points in time

A point in time is written in the form of RFC 3339, with the shortest fraction of none,
three, six or nine digits that shows it exactly.  Years of more than four digits and those
before zero have a sign.
-/
import TenantRestore.Binary64.Shortest
import TenantRestore.Time.Moment

namespace TenantRestore

namespace Moment

/-- A number with zeros in front up to a width. -/
def padded (width n : Nat) : List Char :=
  List.replicate (width - (digitChars n).length) '0' ++ digitChars n

/-- The text of a year. -/
def yearText (y : Int) : List Char :=
  if 0 ≤ y ∧ y ≤ 9999 then padded 4 y.toNat
  else (if y < 0 then '-' else '+') :: padded 4 y.natAbs

/-- The text of a fraction in nanoseconds. -/
def fractionText (n : Nat) : List Char :=
  if n = 0 then []
  else if n % 1000000 = 0 then '.' :: padded 3 (n / 1000000)
  else if n % 1000 = 0 then '.' :: padded 6 (n / 1000)
  else '.' :: padded 9 n

/-- The text of a date and a time of day. -/
def plainText (m : Moment) : List Char :=
  yearText m.date.year ++ '-' :: padded 2 m.date.month ++ '-' :: padded 2 m.date.day ++
    'T' :: padded 2 m.clock.hour ++ ':' :: padded 2 m.clock.minute ++
    ':' :: padded 2 m.clock.shownSecond ++ fractionText m.clock.fraction

/-- The text of a moment, with a letter for UTC. -/
def text (m : Moment) : String := String.ofList (m.plainText ++ ['Z'])

/-- The text of a moment, with an offset of zero. -/
def offsetText (m : Moment) : String :=
  String.ofList (m.plainText ++ ['+', '0', '0', ':', '0', '0'])

end Moment

end TenantRestore
