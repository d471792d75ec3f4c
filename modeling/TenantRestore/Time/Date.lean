/-
# Dates

Dates of the proleptic Gregorian calendar, with astronomical years: the year before the first
is zero, the one before that -1.  Only a range of years around zero is in use.
-/

namespace TenantRestore

/-- Whether a year has a 29th of February. -/
def isLeapYear (year : Int) : Bool :=
  year % 4 = 0 ∧ (year % 100 ≠ 0 ∨ year % 400 = 0)

/-- The number of days of a month. -/
def daysIn (year : Int) (month : Nat) : Nat :=
  if month = 2 then (if isLeapYear year then 29 else 28)
  else if month = 4 ∨ month = 6 ∨ month = 9 ∨ month = 11 then 30
  else 31

/-- The first year in use. -/
def firstYear : Int := -262143

/-- The last year in use. -/
def lastYear : Int := 262142

/-- A date of the calendar within the years in use. -/
structure Date where
  /-- The year. -/
  year : Int
  /-- The month, from 1. -/
  month : Nat
  /-- The day of the month, from 1. -/
  day : Nat
  /-- The year is in use. -/
  year_mem : firstYear ≤ year ∧ year ≤ lastYear
  /-- The year has the month. -/
  month_mem : 1 ≤ month ∧ month ≤ 12
  /-- The month has the day. -/
  day_mem : 1 ≤ day ∧ day ≤ daysIn year month
deriving DecidableEq, Repr

namespace Date

/-- The date of a year, month and day, if there is one. -/
def make? (year : Int) (month day : Nat) : Option Date :=
  if hy : firstYear ≤ year ∧ year ≤ lastYear then
    if hm : 1 ≤ month ∧ month ≤ 12 then
      if hd : 1 ≤ day ∧ day ≤ daysIn year month then some ⟨year, month, day, hy, hm, hd⟩
      else none
    else none
  else none

/-- The day after a date. -/
def next? (d : Date) : Option Date :=
  if d.day < daysIn d.year d.month then make? d.year d.month (d.day + 1)
  else if d.month < 12 then make? d.year (d.month + 1) 1
  else make? (d.year + 1) 1 1

/-- The day before a date. -/
def previous? (d : Date) : Option Date :=
  if 1 < d.day then make? d.year d.month (d.day - 1)
  else if 1 < d.month then make? d.year (d.month - 1) (daysIn d.year (d.month - 1))
  else make? (d.year - 1) 12 31

@[simp] theorem make?_self (d : Date) : make? d.year d.month d.day = some d := by
  simp [make?, d.year_mem, d.month_mem, d.day_mem]

end Date

end TenantRestore
