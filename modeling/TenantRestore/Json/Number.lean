/-
# Numbers of JSON texts

A number is an integer if it is written without fraction and exponent and fits into 64 bits,
signed or unsigned; all other numbers are kept in the binary64 format, as a sign bit, an
exponent and a significand packed into 64 bits.

The value of a decimal in binary64 is not always the nearest one.  A reader collects the
digits as long as they stay below 2^64 and then scales by a power of ten with one rounding
for the digits, one for the power and one for the product or quotient.
-/

namespace TenantRestore

/-- A finite number of the binary64 format, by its bit pattern. -/
structure Binary64 where
  /-- Sign, exponent and significand, from the highest bit down. -/
  bits : UInt64
deriving DecidableEq, Repr

namespace Binary64

/-- The number with the bit pattern of a machine float. -/
def ofFloat (x : Float) : Binary64 := ⟨x.toBits⟩

/-- Whether the sign bit is set. -/
def negative (x : Binary64) : Bool := x.bits.toNat / 0x8000000000000000 = 1

/-- The bits of the exponent. -/
def biased (x : Binary64) : Nat := x.bits.toNat / 0x10000000000000 % 0x800

/-- The bits of the significand which are stored. -/
def stored (x : Binary64) : Nat := x.bits.toNat % 0x10000000000000

/-- The significand as an integer, with the leading bit that normal numbers leave out. -/
def significand (x : Binary64) : Nat :=
  if x.biased = 0 then x.stored else 0x10000000000000 + x.stored

/-- The power of two the significand is multiplied with. -/
def exponent (x : Binary64) : Int :=
  if x.biased = 0 then -1074 else (x.biased : Int) - 1075

end Binary64

/-- A number of a JSON text. -/
inductive Number
  /-- An integer of 64 bits, signed or unsigned. -/
  | integer (value : Int)
  /-- Any other number. -/
  | float (value : Binary64)
deriving DecidableEq, Repr

/-- The largest integer a number can be. -/
def maxUnsigned : Nat := 0xffffffffffffffff

/-- The parts of a decimal numeral: digits before and after the point, and the exponent. -/
structure Numeral where
  /-- Whether a minus sign stands in front. -/
  negative : Bool
  /-- The digits before the point, most significant first. -/
  whole : List Nat
  /-- The digits after the point, if there is one. -/
  fraction : Option (List Nat)
  /-- Whether the exponent is negative, and its digits, if there is one. -/
  power : Option (Bool × List Nat)
deriving DecidableEq, Repr

namespace Numeral

/-- Collect digits after those with the value `value`, as long as the result is at most `limit`.
Also counts the digits collected and those left over. -/
def collect (limit : Nat) : Nat → List Nat → Nat × Nat × Nat
  | value, [] => (value, 0, 0)
  | value, d :: ds =>
    if value * 10 + d ≤ limit then
      let (v, taken, left) := collect limit (value * 10 + d) ds
      (v, taken + 1, left)
    else (value, 0, ds.length + 1)

/-- Scale a float by a power of ten; nothing if the result is too large.

The power is applied at once if it is at most 10^308.  Smaller results are reached by
dividing by 10^308 as often as needed. -/
def scale (x : Float) (power : Int) : Option Float :=
  if power.natAbs ≤ 308 then
    let ten := Float.ofScientific 1 false power.natAbs
    if 0 ≤ power then
      let y := x * ten
      if y.isInf then none else some y
    else some (x / ten)
  else if x == 0 then some x
  else if 0 ≤ power then none
  else scale (x / Float.ofScientific 1 false 308) (power + 308)
termination_by power.natAbs
decreasing_by omega

/-- The largest exponent a numeral can have. -/
def maxPower : Nat := 0x7fffffff

/-- Keep an integer within 32 bits. -/
def saturate (i : Int) : Int := max (-0x80000000) (min 0x7fffffff i)

/-- The float of a sign and a magnitude. -/
def signed (negative : Bool) (x : Float) : Number :=
  .float (.ofFloat (if negative then -x else x))

/-- The number a numeral stands for; nothing if it is too large for a float. -/
def value? (n : Numeral) : Option Number :=
  let (lead, _, shift) := collect maxUnsigned 0 n.whole
  match n.fraction, n.power with
  | none, none =>
    if 0 < shift then (scale (Float.ofNat lead) shift).map (signed n.negative)
    else if !n.negative then some (.integer lead)
    else if 0 < lead ∧ lead ≤ 0x8000000000000000 then some (.integer (-lead))
    else some (signed true (Float.ofNat lead))
  | fraction, power =>
    let (lead, taken, _) := collect maxUnsigned lead (fraction.getD [])
    let shift : Int := shift - taken
    match power with
    | none => (scale (Float.ofNat lead) shift).map (signed n.negative)
    | some (minus, digits) =>
      let (p, _, left) := collect maxPower 0 digits
      if 0 < left then
        if lead ≠ 0 ∧ !minus then none else some (signed n.negative 0)
      else
        let shift := saturate (if minus then shift - p else shift + p)
        (scale (Float.ofNat lead) shift).map (signed n.negative)

/-- The number of digits of the exponent behind the one with which it gets too large. -/
def surplus (n : Numeral) : Nat :=
  match n.power with
  | some (_, digits) => (collect maxPower 0 digits).2.2 - 1
  | none => 0

end Numeral

end TenantRestore
