/-
# Reading points in time

Three forms are read.  The strict form of RFC 3339 has fields of fixed width.  The relaxed
form has the same fields, but shorter numbers, years with a sign and blanks between the
fields are accepted, and UTC may be spelt out.  The plain form has no offset at all.

Digits of a fraction beyond the ninth are dropped.
-/
import TenantRestore.Text.Blank
import TenantRestore.Time.Moment

namespace TenantRestore

namespace Moment

/-- A reader of something at the start of a text. -/
abbrev Scan (α : Type) := List Char → Option (α × List Char)

/-- The value of a decimal digit. -/
def digit? (c : Char) : Option Nat :=
  if '0' ≤ c ∧ c ≤ '9' then some (c.toNat - '0'.toNat) else none

/-- The digits at the start of a text, but at most `most` of them. -/
def leadingDigits : (most : Nat) → List Char → List Nat × List Char
  | 0, cs => ([], cs)
  | _ + 1, [] => ([], [])
  | most + 1, c :: cs =>
    match digit? c with
    | some d => let (ds, rest) := leadingDigits most cs; (d :: ds, rest)
    | none => ([], c :: cs)

/-- The number of some digits. -/
def ofDigits (ds : List Nat) : Nat := ds.foldl (fun n d => n * 10 + d) 0

/-- A number of `least` to `most` digits. -/
def number (least most : Nat) : Scan Nat := fun cs =>
  let (ds, rest) := leadingDigits most cs
  if least ≤ ds.length then some (ofDigits ds, rest) else none

/-- A given character. -/
def char (c : Char) : Scan Unit
  | [] => none
  | d :: cs => if c = d then some ((), cs) else none

/-- The letter or blank between date and time. -/
def timeMark : Scan Unit
  | [] => none
  | c :: cs => if c = 'T' ∨ c = 't' ∨ c = ' ' then some ((), cs) else none

/-- The nanoseconds of an optional fraction. -/
def fraction : Scan Nat
  | '.' :: cs =>
    let (ds, rest) := leadingDigits 9 cs
    if ds.isEmpty then none
    else some (ofDigits ds * Nat.pow 10 (9 - ds.length), rest.dropWhile fun c => (digit? c).isSome)
  | cs => some (0, cs)

/-- A year of up to four digits, or one with a sign. -/
def year : Scan Int
  | '-' :: cs => (number 1 cs.length cs).map fun (n, rest) => (-(n : Int), rest)
  | '+' :: cs => (number 1 cs.length cs).map fun (n, rest) => ((n : Int), rest)
  | cs => (number 1 4 cs).map fun (n, rest) => ((n : Int), rest)

/-- The offset of a clock in minutes, with `gap` between its hours and minutes. -/
def offset (gap : Scan Unit) : Scan Int
  | [] => none
  | c :: cs =>
    if c = 'Z' ∨ c = 'z' then some (0, cs)
    else do
      let sign : Int ← if c = '+' then some 1
        else if c = '-' ∨ c = '\u2212' then some (-1) else none
      let (hours, cs) ← number 2 2 cs
      let (_, cs) ← gap cs
      let (minutes, cs) ← number 2 2 cs
      if hours < 24 ∧ minutes < 60 then some (sign * (hours * 60 + minutes), cs) else none

/-- The fields of a date and a time of day. -/
structure Fields where
  /-- The year. -/
  year : Int
  /-- The month. -/
  month : Nat
  /-- The day. -/
  day : Nat
  /-- The hour. -/
  hour : Nat
  /-- The minute. -/
  minute : Nat
  /-- The second, up to 60. -/
  second : Nat
  /-- The fraction, in nanoseconds. -/
  nanos : Nat

/-- The moment at which a clock `offset` minutes ahead of UTC shows some fields. -/
def Fields.moment? (f : Fields) (offset : Int) : Option Moment := do
  let date ← Date.make? f.year f.month f.day
  let clock ← Clock.make? f.hour f.minute f.second f.nanos
  ofLocal? date clock offset

/-- The fields of fixed width of the strict form. -/
def strictFields : Scan Fields := fun cs => do
  let (year, cs) ← number 4 4 cs
  let (_, cs) ← char '-' cs
  let (month, cs) ← number 2 2 cs
  let (_, cs) ← char '-' cs
  let (day, cs) ← number 2 2 cs
  let (_, cs) ← timeMark cs
  let (hour, cs) ← number 2 2 cs
  let (_, cs) ← char ':' cs
  let (minute, cs) ← number 2 2 cs
  let (_, cs) ← char ':' cs
  let (second, cs) ← number 2 2 cs
  let (nanos, cs) ← fraction cs
  return (⟨year, month, day, hour, minute, second, nanos⟩, cs)

/-- The fields of variable width, with `gap` in front of separators and `mark` between date
and time. -/
def looseFields (gap : List Char → List Char) (mark : Scan Unit) : Scan Fields := fun cs => do
  let (year, cs) ← year (dropBlanks cs)
  let (_, cs) ← char '-' (gap cs)
  let (month, cs) ← number 1 2 (dropBlanks cs)
  let (_, cs) ← char '-' (gap cs)
  let (day, cs) ← number 1 2 (dropBlanks cs)
  let (_, cs) ← mark cs
  let (hour, cs) ← number 1 2 (dropBlanks cs)
  let (_, cs) ← char ':' (gap cs)
  let (minute, cs) ← number 1 2 (dropBlanks cs)
  let (_, cs) ← char ':' (gap cs)
  let (second, cs) ← number 1 2 (dropBlanks cs)
  let (nanos, cs) ← fraction cs
  return (⟨year, month, day, hour, minute, second, nanos⟩, cs)

/-- Read the strict form. -/
def ofStrict? (text : List Char) : Option Moment := do
  let (fields, cs) ← strictFields text
  let (offset, cs) ← offset (char ':') cs
  if cs.isEmpty then fields.moment? offset else none

/-- Read the plain form, which is taken to be in UTC. -/
def ofPlain? (text : List Char) : Option Moment := do
  let (fields, cs) ← looseFields id (char 'T') text
  if cs.isEmpty then fields.moment? 0 else none

/-- UTC spelt out in letters of any case. -/
def spelledUtc : Scan Unit
  | u :: t :: c :: cs =>
    if (u = 'U' ∨ u = 'u') ∧ (t = 'T' ∨ t = 't') ∧ (c = 'C' ∨ c = 'c') then some ((), cs)
    else none
  | _ => none

/-- Any run of blanks and colons. -/
def colonsAndBlanks : Scan Unit := fun cs =>
  some ((), cs.dropWhile fun c => c == ':' || isBlankChar c)

/-- Read the relaxed form. -/
def ofRelaxed? (text : List Char) : Option Moment := do
  let (fields, cs) ← looseFields dropBlanks timeMark text
  let cs := dropBlanks cs
  let (offset, cs) ←
    match spelledUtc cs with
    | some (_, cs) => some (0, cs)
    | none => offset colonsAndBlanks cs
  if (dropBlanks cs).isEmpty then fields.moment? offset else none

end Moment

end TenantRestore
