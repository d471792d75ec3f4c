/-
# Moments

A moment is a date and a time of day in UTC, to the nanosecond.  A leap second is the second
after the 59th of a minute; its fraction is counted on from that of the 59th second, so a
moment within a leap second has a fraction of one second or more.
-/
import TenantRestore.Time.Date

namespace TenantRestore

/-- The number of nanoseconds of a second. -/
def nanosPerSecond : Nat := 1000000000

/-- A time of day. -/
structure Clock where
  /-- The hour. -/
  hour : Nat
  /-- The minute. -/
  minute : Nat
  /-- The second; a leap second follows the second 59. -/
  second : Nat
  /-- The nanoseconds since the start of the second. -/
  nanos : Nat
  /-- The day has the hour. -/
  hour_lt : hour < 24
  /-- The hour has the minute. -/
  minute_lt : minute < 60
  /-- The minute has the second. -/
  second_lt : second < 60
  /-- Only the last second of a minute may be followed by a leap second. -/
  nanos_lt : nanos < nanosPerSecond ∨ second = 59 ∧ nanos < 2 * nanosPerSecond
deriving DecidableEq, Repr

namespace Clock

/-- The time of day of an hour, a minute, a second up to 60 and a fraction in nanoseconds. -/
def make? (hour minute second fraction : Nat) : Option Clock :=
  let (s, n) := if second = 60 then (59, nanosPerSecond + fraction) else (second, fraction)
  if hh : hour < 24 then
    if hm : minute < 60 then
      if hs : s < 60 then
        if hn : n < nanosPerSecond ∨ s = 59 ∧ n < 2 * nanosPerSecond then
          some ⟨hour, minute, s, n, hh, hm, hs, hn⟩
        else none
      else none
    else none
  else none

/-- The second as it is shown: 60 for a leap second. -/
def shownSecond (c : Clock) : Nat := c.second + c.nanos / nanosPerSecond

/-- The fraction as it is shown, in nanoseconds. -/
def fraction (c : Clock) : Nat := c.nanos % nanosPerSecond

end Clock

/-- A point in time, in UTC. -/
structure Moment where
  /-- The date. -/
  date : Date
  /-- The time of day. -/
  clock : Clock
deriving DecidableEq, Repr

namespace Moment

/-- The moment at which a clock that is `offset` minutes ahead of UTC shows a date and time.
The offset is less than a day, which has 1440 minutes. -/
def ofLocal? (date : Date) (clock : Clock) (offset : Int) : Option Moment :=
  let minutes : Int := clock.hour * 60 + clock.minute - offset
  let inDay := (minutes % 1440).toNat
  have h : inDay < 1440 := by omega
  let clock : Clock :=
    { clock with
      hour := inDay / 60
      minute := inDay % 60
      hour_lt := by omega
      minute_lt := by omega }
  if minutes < 0 then date.previous?.map fun d => ⟨d, clock⟩
  else if 1440 ≤ minutes then date.next?.map fun d => ⟨d, clock⟩
  else some ⟨date, clock⟩

end Moment

end TenantRestore
