/-
# Instants

Days are counted through all years, so that a point in time is told by one number of seconds,
together with the nanoseconds since then, and an offset is a number of seconds to be taken away.
Reading the calendar is that arithmetic: the next date has the next number (`Date.number_next?`),
dates with the same number are the same (`Date.number_injective`), and what a clock with an offset
shows is the moment whose instant is that of the clock less the offset, if a year in use has it
(`Moment.ofLocal?_eq_some_iff`).

The nanoseconds of an instant are a second or more within a leap second, so a leap second is told
from the second before, whose number of seconds it has, and from the one after.
-/
import Mathlib.Order.Monotone.Basic
import Mathlib.Tactic.Common
import TenantRestore.Time.Read

namespace TenantRestore

/-! ## Counting days -/

/-- The number of days before a year, counted from the start of the year zero: 365 for each year and
one more for each leap year. -/
def daysBeforeYear (year : Int) : Int :=
  365 * year + (year + 3) / 4 - (year + 99) / 100 + (year + 399) / 400

/-- The number of days of a year before a month. -/
def daysBeforeMonth (year : Int) : Nat → Nat
  | 0 => 0
  | 1 => 0
  | month + 2 => daysBeforeMonth year (month + 1) + daysIn year (month + 1)

/-- The number of a day, counted through all years. -/
def dayNumber (year : Int) (month day : Nat) : Int :=
  daysBeforeYear year + daysBeforeMonth year month + day

theorem daysBeforeYear_succ (year : Int) :
    daysBeforeYear (year + 1) = daysBeforeYear year + if isLeapYear year then 366 else 365 := by
  unfold daysBeforeYear isLeapYear
  simp only [decide_eq_true_eq]
  split_ifs <;> omega

theorem daysBeforeYear_mono {year year' : Int} (h : year ≤ year') :
    daysBeforeYear year ≤ daysBeforeYear year' := by
  unfold daysBeforeYear
  omega

theorem daysBeforeMonth_succ {year : Int} {month : Nat} (h : 1 ≤ month) :
    daysBeforeMonth year (month + 1) = daysBeforeMonth year month + daysIn year month := by
  obtain ⟨m, rfl⟩ : ∃ m, month = m + 1 := ⟨month - 1, by omega⟩
  rfl

theorem daysBeforeMonth_mono (year : Int) {month month' : Nat} (h : month ≤ month') :
    daysBeforeMonth year month ≤ daysBeforeMonth year month' := by
  induction h with
  | refl => exact Nat.le_refl _
  | @step month' _ ih =>
    refine ih.trans ?_
    cases month' with
    | zero => exact Nat.le_refl 0
    | succ month' => exact Nat.le_add_right ..

/-- After December comes the next year. -/
theorem dayNumber_newYear (year : Int) : dayNumber (year + 1) 1 1 = dayNumber year 12 31 + 1 := by
  rw [dayNumber, daysBeforeYear_succ]
  cases h : isLeapYear year <;> simp [dayNumber, daysBeforeMonth, daysIn, h] <;> omega

namespace Date

/-- The number of a date. -/
def number (d : Date) : Int := dayNumber d.year d.month d.day

theorem one_le_daysIn (year : Int) (month : Nat) : 1 ≤ daysIn year month := by
  unfold daysIn
  split_ifs <;> decide

theorem make?_eq_some {year : Int} {month day : Nat} {d : Date} :
    make? year month day = some d ↔ d.year = year ∧ d.month = month ∧ d.day = day := by
  constructor
  · intro h
    unfold make? at h
    split_ifs at h
    obtain rfl := Option.some.inj h
    exact ⟨rfl, rfl, rfl⟩
  · rintro ⟨rfl, rfl, rfl⟩
    exact make?_self d

theorem make?_of_mem {year : Int} {month day : Nat} (hyear : firstYear ≤ year ∧ year ≤ lastYear)
    (hmonth : 1 ≤ month ∧ month ≤ 12) (hday : 1 ≤ day ∧ day ≤ daysIn year month) :
    make? year month day ≠ none := by
  simp [make?, hyear, hmonth, hday]

theorem number_of_make? {year : Int} {month day : Nat} {d : Date}
    (h : make? year month day = some d) : d.number = dayNumber year month day := by
  obtain ⟨rfl, rfl, rfl⟩ := make?_eq_some.1 h
  rfl

/-- The next date has the next number. -/
theorem number_next? {d e : Date} (h : d.next? = some e) : e.number = d.number + 1 := by
  obtain ⟨-, hday⟩ := d.day_mem
  unfold next? at h
  split_ifs at h with hinner hbefore
  · rw [number_of_make? h, number, dayNumber, dayNumber]
    omega
  · have hlast : d.day = daysIn d.year d.month := by omega
    rw [number_of_make? h, number, dayNumber, dayNumber, daysBeforeMonth_succ d.month_mem.1, hlast]
    omega
  · have hmonth : d.month = 12 := by have := d.month_mem; omega
    have hdays : daysIn d.year 12 = 31 := rfl
    have hlast : d.day = 31 := by rw [hmonth, hdays] at hday hinner; omega
    rw [number_of_make? h, dayNumber_newYear, number, hmonth, hlast]

/-- The date before has the number before. -/
theorem number_previous? {d e : Date} (h : d.previous? = some e) : e.number = d.number - 1 := by
  obtain ⟨hday, -⟩ := d.day_mem
  unfold previous? at h
  split_ifs at h with hinner hafter
  · rw [number_of_make? h, number, dayNumber, dayNumber]
    omega
  · obtain ⟨month, hmonth⟩ : ∃ m, d.month = m + 1 := ⟨d.month - 1, by omega⟩
    have hfirst : d.day = 1 := by omega
    rw [number_of_make? h, number, dayNumber, dayNumber, hmonth, Nat.add_sub_cancel, hfirst,
      daysBeforeMonth_succ (by omega)]
    omega
  · have hmonth : d.month = 1 := by have := d.month_mem; omega
    have hfirst : d.day = 1 := by omega
    have hyear := dayNumber_newYear (d.year - 1)
    rw [Int.sub_add_cancel] at hyear
    rw [number_of_make? h, number, hmonth, hfirst, hyear]
    omega

/-- The number of a date lies between those of the ends of its month. -/
theorem number_mem_month (d : Date) :
    daysBeforeYear d.year + daysBeforeMonth d.year d.month < d.number ∧
      d.number ≤ daysBeforeYear d.year + daysBeforeMonth d.year (d.month + 1) := by
  have hday := d.day_mem
  rw [daysBeforeMonth_succ d.month_mem.1, number, dayNumber]
  omega

/-- The number of a date lies between those of the ends of its year. -/
theorem number_mem_year (d : Date) :
    daysBeforeYear d.year < d.number ∧ d.number ≤ daysBeforeYear (d.year + 1) := by
  obtain ⟨hlow, hhigh⟩ := d.number_mem_month
  have hmonths : daysBeforeMonth d.year (d.month + 1) ≤ daysBeforeMonth d.year 13 :=
    daysBeforeMonth_mono d.year (by have := d.month_mem; omega)
  have hyear : (daysBeforeMonth d.year 13 : Int) = if isLeapYear d.year then 366 else 365 := by
    cases h : isLeapYear d.year <;> simp [daysBeforeMonth, daysIn, h]
  have hsucc := daysBeforeYear_succ d.year
  omega

/-- A date in an earlier year has a smaller number. -/
theorem number_lt_of_year_lt {d e : Date} (h : d.year < e.year) : d.number < e.number := by
  have hyears : daysBeforeYear (d.year + 1) ≤ daysBeforeYear e.year := daysBeforeYear_mono h
  exact lt_of_le_of_lt (d.number_mem_year.2.trans hyears) e.number_mem_year.1

/-- A date in an earlier month of the same year has a smaller number. -/
theorem number_lt_of_month_lt {d e : Date} (hyear : d.year = e.year) (h : d.month < e.month) :
    d.number < e.number := by
  have hmonths : daysBeforeMonth d.year (d.month + 1) ≤ daysBeforeMonth d.year e.month :=
    daysBeforeMonth_mono d.year h
  have hd := d.number_mem_month.2
  have he := e.number_mem_month.1
  rw [← hyear] at he
  omega

/-- Dates with the same number are the same. -/
theorem number_injective : Function.Injective number := by
  intro d e h
  have hyear : d.year = e.year := by
    rcases lt_trichotomy d.year e.year with hlt | heq | hgt
    · exact absurd h (number_lt_of_year_lt hlt).ne
    · exact heq
    · exact absurd h (number_lt_of_year_lt hgt).ne'
  have hmonth : d.month = e.month := by
    rcases lt_trichotomy d.month e.month with hlt | heq | hgt
    · exact absurd h (number_lt_of_month_lt hyear hlt).ne
    · exact heq
    · exact absurd h (number_lt_of_month_lt hyear.symm hgt).ne'
  have hday : d.day = e.day := by
    rw [number, number, dayNumber, dayNumber, hyear, hmonth] at h
    omega
  cases d
  cases e
  simp_all

/-- Only the last date in use has none after it, and no date has a greater number. -/
theorem number_le_of_next? {d : Date} (h : d.next? = none) (e : Date) : e.number ≤ d.number := by
  obtain ⟨hmonth, hmonth'⟩ := d.month_mem
  obtain ⟨hday, hday'⟩ := d.day_mem
  unfold next? at h
  split_ifs at h with hinner hbefore
  · exact absurd h (make?_of_mem d.year_mem d.month_mem ⟨by omega, hinner⟩)
  · exact absurd h (make?_of_mem d.year_mem ⟨by omega, hbefore⟩ ⟨by omega, one_le_daysIn ..⟩)
  · have hyear : d.year = lastYear := by
      by_contra hne
      have hmem := d.year_mem
      exact absurd h (make?_of_mem ⟨by omega, by omega⟩ ⟨by decide, by decide⟩
        ⟨le_rfl, one_le_daysIn ..⟩)
    have hdecember : d.month = 12 := by omega
    have hdays : daysIn d.year 12 = 31 := rfl
    have hlast : d.day = 31 := by rw [hdecember, hdays] at hday' hinner; omega
    have hnext := dayNumber_newYear d.year
    have hyears : daysBeforeYear (e.year + 1) ≤ daysBeforeYear (d.year + 1) :=
      daysBeforeYear_mono (by have := e.year_mem; omega)
    have he := e.number_mem_year.2
    rw [number.eq_1 d, hdecember, hlast]
    rw [dayNumber] at hnext
    simp only [daysBeforeMonth] at hnext
    omega

/-- Only the first date in use has none before it, and no date has a smaller number. -/
theorem le_number_of_previous? {d : Date} (h : d.previous? = none) (e : Date) :
    d.number ≤ e.number := by
  obtain ⟨hmonth, hmonth'⟩ := d.month_mem
  obtain ⟨hday, hday'⟩ := d.day_mem
  unfold previous? at h
  split_ifs at h with hinner hafter
  · exact absurd h (make?_of_mem d.year_mem d.month_mem ⟨by omega, by omega⟩)
  · exact absurd h (make?_of_mem d.year_mem ⟨by omega, by omega⟩ ⟨one_le_daysIn .., le_rfl⟩)
  · have hyear : d.year = firstYear := by
      by_contra hne
      have hmem := d.year_mem
      exact absurd h (make?_of_mem ⟨by omega, by omega⟩ ⟨by decide, by decide⟩
        ⟨by decide, le_rfl⟩)
    have hjanuary : d.month = 1 := by omega
    have hfirst : d.day = 1 := by omega
    have hyears : daysBeforeYear d.year ≤ daysBeforeYear e.year :=
      daysBeforeYear_mono (by have := e.year_mem; omega)
    have he := e.number_mem_year.1
    rw [number.eq_1 d, hjanuary, hfirst, dayNumber]
    simp only [daysBeforeMonth]
    omega

end Date

/-! ## Instants -/

/-- A point in time: the seconds through all days, and the nanoseconds since then, which are a
second or more within a leap second. -/
structure Instant where
  /-- The number of seconds. -/
  seconds : Int
  /-- The nanoseconds since then. -/
  nanos : Nat
deriving DecidableEq, Repr

/-- The seconds of a day before a time of day. -/
def Clock.seconds (c : Clock) : Nat := c.hour * 3600 + c.minute * 60 + c.second

theorem Clock.seconds_lt (c : Clock) : c.seconds < 86400 := by
  have hhour := c.hour_lt
  have hminute := c.minute_lt
  have hsecond := c.second_lt
  unfold seconds
  omega

/-- A leap second is counted as a part of the second before. -/
theorem Clock.of_make? {hour minute second fraction : Nat} {c : Clock}
    (h : make? hour minute second fraction = some c) :
    hour < 24 ∧ minute < 60 ∧ second ≤ 60 ∧
      c.seconds = hour * 3600 + minute * 60 + min second 59 ∧
      c.nanos = if second = 60 then nanosPerSecond + fraction else fraction := by
  unfold make? at h
  by_cases hleap : second = 60
  · simp only [hleap, if_true] at h ⊢
    split_ifs at h with hhour hminute
    obtain rfl := Option.some.inj h
    exact ⟨hhour, hminute, le_rfl, rfl, rfl⟩
  · simp only [hleap, if_false] at h ⊢
    split_ifs at h with hhour hminute hsecond
    obtain rfl := Option.some.inj h
    refine ⟨hhour, hminute, by omega, ?_, rfl⟩
    rw [seconds, min_eq_left (by omega)]

theorem Clock.make?_of_lt {hour minute second fraction : Nat} (hhour : hour < 24)
    (hminute : minute < 60) (hsecond : second ≤ 60) (hfraction : fraction < nanosPerSecond) :
    make? hour minute second fraction ≠ none := by
  unfold make?
  by_cases hleap : second = 60
  · have htwice : nanosPerSecond + fraction < 2 * nanosPerSecond := by omega
    simp [hleap, hhour, hminute, htwice]
  · have hplain : second < 60 := by omega
    simp [hleap, hhour, hminute, hplain, hfraction]

theorem Clock.ext_seconds {c c' : Clock} (hseconds : c.seconds = c'.seconds)
    (hnanos : c.nanos = c'.nanos) : c = c' := by
  obtain ⟨hour, minute, second, nanos, hhour, hminute, hsecond, _⟩ := c
  obtain ⟨hour', minute', second', nanos', hhour', hminute', hsecond', _⟩ := c'
  simp only [seconds] at hseconds
  obtain ⟨rfl, rfl, rfl⟩ : hour = hour' ∧ minute = minute' ∧ second = second' := by omega
  subst hnanos
  rfl

namespace Moment

/-- The instant of a moment. -/
def instant (m : Moment) : Instant := ⟨86400 * m.date.number + m.clock.seconds, m.clock.nanos⟩

/-- Different moments are different instants. -/
theorem instant_injective : Function.Injective instant := by
  intro m m' h
  obtain ⟨hseconds, hnanos⟩ := Instant.mk.inj h
  have hlt := m.clock.seconds_lt
  have hlt' := m'.clock.seconds_lt
  have hdate : m.date.number = m'.date.number := by omega
  have hclock : m.clock.seconds = m'.clock.seconds := by omega
  cases m
  cases m'
  exact congr (congrArg mk (Date.number_injective hdate)) (Clock.ext_seconds hclock hnanos)

section Local

variable {d : Date} {c : Clock} {offset : Int} {m : Moment}

/-- The instant of what a clock shows is that of UTC, less the offset. -/
theorem instant_of_ofLocal? (hoffset : -1440 < offset ∧ offset < 1440)
    (h : ofLocal? d c offset = some m) :
    m.instant = ⟨86400 * d.number + c.seconds - 60 * offset, c.nanos⟩ := by
  have hhour := c.hour_lt
  have hminute := c.minute_lt
  simp only [ofLocal?] at h
  split_ifs at h with hbefore hafter
  · obtain ⟨e, he, rfl⟩ := Option.map_eq_some_iff.1 h
    have hnumber := Date.number_previous? he
    simp only [instant, Clock.seconds, Instant.mk.injEq, and_true]
    omega
  · obtain ⟨e, he, rfl⟩ := Option.map_eq_some_iff.1 h
    have hnumber := Date.number_next? he
    simp only [instant, Clock.seconds, Instant.mk.injEq, and_true]
    omega
  · obtain rfl := Option.some.inj h
    simp only [instant, Clock.seconds, Instant.mk.injEq, and_true]
    omega

/-- There is no moment only if the instant is in no year in use. -/
theorem instant_ne_of_ofLocal? (h : ofLocal? d c offset = none) (m : Moment) :
    m.instant ≠ ⟨86400 * d.number + c.seconds - 60 * offset, c.nanos⟩ := by
  intro hinstant
  have hseconds := congrArg Instant.seconds hinstant
  have hlt := m.clock.seconds_lt
  have hsecond := c.second_lt
  have hclock : c.seconds = c.hour * 3600 + c.minute * 60 + c.second := rfl
  simp only [instant] at hseconds
  simp only [ofLocal?] at h
  split_ifs at h with hbefore hafter
  · have hfirst := Date.le_number_of_previous? (Option.map_eq_none_iff.1 h) m.date
    omega
  · have hlast := Date.number_le_of_next? (Option.map_eq_none_iff.1 h) m.date
    omega

theorem ofLocal?_eq_some_iff (hoffset : -1440 < offset ∧ offset < 1440) :
    ofLocal? d c offset = some m ↔
      m.instant = ⟨86400 * d.number + c.seconds - 60 * offset, c.nanos⟩ := by
  refine ⟨instant_of_ofLocal? hoffset, fun h => ?_⟩
  cases hlocal : ofLocal? d c offset with
  | none => exact absurd h (instant_ne_of_ofLocal? hlocal m)
  | some m' =>
    exact congrArg some (instant_injective ((instant_of_ofLocal? hoffset hlocal).trans h.symm))

end Local

/-! ## What fields show -/

namespace Fields

/-- The calendar has the date that some fields show, in a year in use, and the day has the time, of
which the second may be a leap second. -/
structure IsProper (f : Fields) : Prop where
  /-- The year is in use. -/
  year_mem : firstYear ≤ f.year ∧ f.year ≤ lastYear
  /-- The year has the month. -/
  month_mem : 1 ≤ f.month ∧ f.month ≤ 12
  /-- The month has the day. -/
  day_mem : 1 ≤ f.day ∧ f.day ≤ daysIn f.year f.month
  /-- The day has the hour. -/
  hour_lt : f.hour < 24
  /-- The hour has the minute. -/
  minute_lt : f.minute < 60
  /-- The minute has the second, or it is a leap second. -/
  second_le : f.second ≤ 60

/-- The instant at which a clock `offset` minutes ahead of UTC shows some fields.  A leap second is
counted as a part of the second before. -/
def instant (f : Fields) (offset : Int) : Instant where
  seconds := 86400 * dayNumber f.year f.month f.day +
    (f.hour * 3600 + f.minute * 60 + min f.second 59) - 60 * offset
  nanos := if f.second = 60 then nanosPerSecond + f.nanos else f.nanos

/-- The moment some fields show has the instant they show. -/
theorem moment?_eq_some_iff {f : Fields} (hnanos : f.nanos < nanosPerSecond) {offset : Int}
    (hoffset : -1440 < offset ∧ offset < 1440) {m : Moment} :
    f.moment? offset = some m ↔ f.IsProper ∧ m.instant = f.instant offset := by
  constructor
  · intro h
    simp only [moment?, Option.bind_eq_bind, Option.bind_eq_some_iff] at h
    obtain ⟨d, hd, c, hc, hlocal⟩ := h
    obtain ⟨hyear, hmonth, hday⟩ := Date.make?_eq_some.1 hd
    obtain ⟨hhour, hminute, hsecond, hclock, hfraction⟩ := Clock.of_make? hc
    refine ⟨⟨hyear ▸ d.year_mem, hmonth ▸ d.month_mem, ?_, hhour, hminute, hsecond⟩, ?_⟩
    · rw [← hyear, ← hmonth, ← hday]
      exact d.day_mem
    · rw [instant_of_ofLocal? hoffset hlocal, instant, Date.number_of_make? hd, hclock, hfraction]
      simp
  · rintro ⟨hproper, hinstant⟩
    obtain ⟨d, hd⟩ := Option.ne_none_iff_exists'.1
      (Date.make?_of_mem hproper.year_mem hproper.month_mem hproper.day_mem)
    obtain ⟨c, hc⟩ := Option.ne_none_iff_exists'.1
      (Clock.make?_of_lt hproper.hour_lt hproper.minute_lt hproper.second_le hnanos)
    obtain ⟨-, -, -, hclock, hfraction⟩ := Clock.of_make? hc
    simp only [moment?, hd, hc, Option.bind_eq_bind, Option.bind_some]
    rw [ofLocal?_eq_some_iff hoffset, hinstant, instant, Date.number_of_make? hd, hclock, hfraction]
    simp

end Fields

end Moment

end TenantRestore
