/-
# The shortest decimal of a binary64 number

A positive binary64 number is the only one in an interval around it, which ends halfway to
its neighbours; the ends belong to it if its significand is even.  The shortest decimal is
the one with the fewest digits in that interval and, among these, the nearest to the number.

For a given count of digits the decimals form a grid, and if any of its points lies in the
interval then one of the two points next to the number does.  So it is enough to test these
two for one digit, two digits, and so on; seventeen are always enough.
-/
import TenantRestore.Json.Number

namespace TenantRestore

/-- A decimal `digits · 10^power`. -/
structure Decimal where
  /-- The digits, as a number. -/
  digits : Nat
  /-- The power of ten they are multiplied with. -/
  power : Int
deriving DecidableEq, Repr

/-- A non-negative fraction. -/
structure Fraction where
  /-- The numerator. -/
  num : Nat
  /-- The denominator. -/
  den : Nat

namespace Fraction

/-- `n · b^e`. -/
def scaled (n b : Nat) (e : Int) : Fraction :=
  if 0 ≤ e then ⟨n * Nat.pow b e.toNat, 1⟩ else ⟨n, Nat.pow b (-e).toNat⟩

/-- Whether a fraction is less than another one. -/
def lt (a b : Fraction) : Bool := a.num * b.den < b.num * a.den

/-- Whether a fraction is at most another one. -/
def le (a b : Fraction) : Bool := a.num * b.den ≤ b.num * a.den

/-- Divide by `10^e`. -/
def downBy (a : Fraction) (e : Int) : Fraction :=
  if 0 ≤ e then ⟨a.num, a.den * Nat.pow 10 e.toNat⟩ else ⟨a.num * Nat.pow 10 (-e).toNat, a.den⟩

/-- The number of factors ten, at most `limit`, needed to lift a fraction to one or more. -/
def lift (a : Fraction) : Nat → Nat
  | 0 => 0
  | limit + 1 => if a.den ≤ a.num then 0 else lift ⟨a.num * 10, a.den⟩ limit + 1

/-- The exponent of the leading digit of a positive fraction. -/
def magnitude (a : Fraction) : Int :=
  if a.den ≤ a.num then ((Nat.toDigits 10 (a.num / a.den)).length : Int) - 1
  else -(lift a 400)

end Fraction

namespace Binary64

/-- The interval of a number, in quarters of its last place: lower end, number, upper end. -/
def quarters (x : Binary64) : Nat × Nat × Nat :=
  let m := 4 * x.significand
  (if x.stored = 0 ∧ 1 < x.biased then m - 1 else m - 2, m, m + 2)

/-- The point of the grid `10^power` that stands for a number, if one does: the nearer of the
two next to it, of two equally near ones the even one. -/
def onGrid (x : Binary64) (power : Int) : Option Nat :=
  let (lower, value, upper) := x.quarters
  let placed (n : Nat) : Fraction := (Fraction.scaled n 2 (x.exponent - 2)).downBy power
  let inside (c : Nat) : Bool :=
    if x.significand % 2 = 0 then (placed lower).le ⟨c, 1⟩ && Fraction.le ⟨c, 1⟩ (placed upper)
    else (placed lower).lt ⟨c, 1⟩ && Fraction.lt ⟨c, 1⟩ (placed upper)
  let v := placed value
  let below := v.num / v.den
  let twice : Fraction := ⟨2 * v.num, v.den⟩
  let middle : Fraction := ⟨2 * below + 1, 1⟩
  let belowFirst := twice.lt middle || (twice.le middle && below % 2 == 0)
  match inside below, inside (below + 1) with
  | true, true => some (if belowFirst then below else below + 1)
  | true, false => some below
  | false, true => some (below + 1)
  | false, false => none

/-- The first grid with a point for the number, from `count` digits upwards. -/
def search (x : Binary64) (magnitude : Int) (count : Nat) : Nat → Decimal
  | 0 => ⟨0, 0⟩
  | rest + 1 =>
    let power := magnitude - count + 1
    match x.onGrid power with
    | some c => ⟨c, power⟩
    | none => search x magnitude (count + 1) rest

/-- The shortest decimal of the magnitude of a number. -/
def shortest (x : Binary64) : Decimal :=
  if x.significand = 0 then ⟨0, 0⟩
  else search x (Fraction.scaled x.significand 2 x.exponent).magnitude 1 17

end Binary64

/-- How a decimal is laid out as text. -/
structure DecimalLayout where
  /-- The least exponent of the leading digit for which the text is positional. -/
  leastPositional : Int
  /-- The exponent of the leading digit from which on the text is no longer positional. -/
  firstExponential : Int
deriving DecidableEq, Repr

/-- The digits of a number without the zeros at its end, and how many these are. -/
def dropZeros : Nat → Nat → Nat × Nat
  | 0, n => (n, 0)
  | fuel + 1, n =>
    if n ≠ 0 ∧ n % 10 = 0 then
      let (d, z) := dropZeros fuel (n / 10)
      (d, z + 1)
    else (n, 0)

/-- The decimal digits of a number. -/
def digitChars (n : Nat) : List Char := Nat.toDigits 10 n

/-- Write a non-negative decimal.  A positional text has a digit on either side of the point;
an exponent has its sign, and no point stands after a single digit in front of it. -/
def DecimalLayout.write (layout : DecimalLayout) (d : Decimal) : List Char :=
  let (n, zeros) := dropZeros 400 d.digits
  let digits := digitChars n
  let power := d.power + zeros
  let lead : Int := if n = 0 then 0 else digits.length - 1 + power
  if layout.leastPositional ≤ lead ∧ lead < layout.firstExponential then
    if 0 ≤ power then
      digits ++ List.replicate (if n = 0 then 0 else power.toNat) '0' ++ ['.', '0']
    else if 0 ≤ lead then
      digits.take (lead.toNat + 1) ++ '.' :: digits.drop (lead.toNat + 1)
    else '0' :: '.' :: List.replicate ((-lead).toNat - 1) '0' ++ digits
  else
    let fraction := if digits.length = 1 then [] else '.' :: digits.drop 1
    let sign := if 0 ≤ lead then '+' else '-'
    digits.take 1 ++ fraction ++ 'e' :: sign :: digitChars lead.natAbs

end TenantRestore
