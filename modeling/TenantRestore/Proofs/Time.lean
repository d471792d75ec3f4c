/-
# Reading points in time that were written

The text of a moment is read as the moment: `Moment.ofRelaxed?_text`.  Each number is written
with at least the digits its field must have and read with at most as many as it may have, so
that fields of full width need no look at what follows; a year of more than four digits and
the fraction end where the digits end.

A leap second is written as second 60, which is what turns a fraction of more than a second
into one below.
-/
import TenantRestore.Proofs.Digits
import TenantRestore.Time.Read
import TenantRestore.Time.Write

namespace TenantRestore

namespace Clock

/-- A time of day is made of the fields it is written with. -/
theorem make?_shown (c : Clock) : make? c.hour c.minute c.shownSecond c.fraction = some c := by
  have hsecond := c.second_lt
  have hnanos := c.nanos_lt
  rcases Nat.lt_or_ge c.nanos nanosPerSecond with hplain | hleap
  · have hshown : c.shownSecond = c.second := by
      rw [shownSecond, Nat.div_eq_of_lt hplain, Nat.add_zero]
    have hfraction : c.fraction = c.nanos := Nat.mod_eq_of_lt hplain
    have hne : c.second ≠ 60 := by omega
    simp [make?, hshown, hfraction, hne, c.hour_lt, c.minute_lt, hsecond, hplain]
  · -- only the second 59 goes on with a leap second, which is shown as 60
    have hlast : c.second = 59 ∧ c.nanos < 2 * nanosPerSecond :=
      hnanos.resolve_left (Nat.not_lt.2 hleap)
    have hshown : c.shownSecond = 60 := by
      rw [shownSecond, hlast.1]
      unfold nanosPerSecond at *
      omega
    have hnanos : nanosPerSecond + c.fraction = c.nanos := by
      unfold fraction nanosPerSecond at *
      omega
    cases c
    simp_all [make?]

end Clock

namespace Moment

/-! ## Numbers -/

/-- What follows does not go on with the digits in front of it. -/
def EndsDigits (rest : List Char) : Prop := ∀ c ∈ rest.head?, digit? c = none

theorem digit?_digitChar : ∀ d < 10, digit? (Nat.digitChar d) = some d := by decide

theorem not_isBlankChar_digitChar : ∀ d < 10, isBlankChar (Nat.digitChar d) = false := by decide

/-- Digits are read up to the end, or until there are as many as there may be. -/
theorem leadingDigits_append {ds : List Nat} (hds : ∀ d ∈ ds, d < 10) {most : Nat}
    (hmost : ds.length ≤ most) {rest : List Char} (hrest : ds.length = most ∨ EndsDigits rest) :
    leadingDigits most (ds.map Nat.digitChar ++ rest) = (ds, rest) := by
  induction ds generalizing most with
  | nil =>
    cases most with
    | zero => rfl
    | succ most =>
      have hends : EndsDigits rest := hrest.resolve_left (by simp)
      cases rest with
      | nil => rfl
      | cons c rest => simp [leadingDigits, hends c rfl]
  | cons d ds ih =>
    obtain ⟨most, rfl⟩ : ∃ m, most = m + 1 := ⟨most - 1, by simp at hmost; omega⟩
    simp only [List.length_cons, Nat.add_le_add_iff_right, Nat.add_right_cancel_iff]
      at hmost hrest
    simp [leadingDigits, digit?_digitChar d (hds d (by simp)),
      ih (fun e he => hds e (by simp [he])) hmost hrest]

/-- The digits of a number with zeros in front up to a width. -/
def paddedDigits (width n : Nat) : List Nat :=
  List.replicate (width - (digitChars n).length) 0 ++ digitsOf n

theorem map_paddedDigits (width n : Nat) :
    (paddedDigits width n).map Nat.digitChar = padded width n := by
  simp [paddedDigits, padded, map_digitsOf, List.map_replicate]

theorem lt_of_mem_paddedDigits {width n d : Nat} (h : d ∈ paddedDigits width n) : d < 10 := by
  rcases List.mem_append.1 h with h | h
  · have := List.eq_of_mem_replicate h
    omega
  · exact lt_of_mem_digitsOf h

/-- Zeros in front make no difference. -/
theorem ofDigits_paddedDigits (width n : Nat) : ofDigits (paddedDigits width n) = n := by
  have hzeros (k : Nat) : (List.replicate k 0).foldl (fun m d => m * 10 + d) 0 = 0 := by
    induction k with
    | zero => rfl
    | succ k ih => simpa [List.replicate_succ] using ih
  rw [ofDigits, paddedDigits, List.foldl_append, hzeros, foldl_digitsOf]

theorem length_paddedDigits (width n : Nat) :
    (paddedDigits width n).length = (padded width n).length := by
  rw [← map_paddedDigits, List.length_map]

theorem length_padded {width n : Nat} (hwidth : 0 < width) (h : n < 10 ^ width) :
    (padded width n).length = width := by
  have hlength : (digitChars n).length ≤ width :=
    (Nat.length_toDigits_le_iff (by decide) hwidth).2 h
  simp [padded]
  omega

/-- A number starts with a digit. -/
theorem exists_padded_eq_cons (width n : Nat) :
    ∃ d cs, d < 10 ∧ padded width n = Nat.digitChar d :: cs := by
  have hne : paddedDigits width n ≠ [] := by simp [paddedDigits, digitsOf_ne_nil]
  obtain ⟨d, ds, hds⟩ := List.exists_cons_of_ne_nil hne
  refine ⟨d, ds.map Nat.digitChar, ?_, by rw [← map_paddedDigits, hds, List.map_cons]⟩
  exact lt_of_mem_paddedDigits (by rw [hds]; exact List.mem_cons_self ..)

/-- A number is read if it has enough digits and not too many. -/
theorem number_padded {least most width n : Nat} (hleast : least ≤ (padded width n).length)
    (hmost : (padded width n).length ≤ most) {rest : List Char}
    (hrest : (padded width n).length = most ∨ EndsDigits rest) :
    number least most (padded width n ++ rest) = some (n, rest) := by
  rw [← length_paddedDigits] at hleast hmost hrest
  have hdigits := leadingDigits_append (fun d => lt_of_mem_paddedDigits) hmost hrest
  rw [map_paddedDigits] at hdigits
  simp [number, hdigits, hleast, ofDigits_paddedDigits]

/-- A number of two digits is read whatever follows it. -/
theorem number_two {n : Nat} (h : n < 100) (rest : List Char) :
    number 1 2 (padded 2 n ++ rest) = some (n, rest) := by
  have hlength := length_padded (by decide : 0 < 2) h
  exact number_padded (by omega) hlength.le (.inl hlength)

theorem dropBlanks_padded (width n : Nat) (rest : List Char) :
    dropBlanks (padded width n ++ rest) = padded width n ++ rest := by
  obtain ⟨d, cs, hd, hcs⟩ := exists_padded_eq_cons width n
  rw [hcs, List.cons_append, dropBlanks, List.dropWhile_cons, not_isBlankChar_digitChar d hd]
  rfl

/-! ## Years and fractions -/

theorem dropBlanks_yearText (y : Int) (rest : List Char) :
    dropBlanks (yearText y ++ rest) = yearText y ++ rest := by
  unfold yearText
  split_ifs
  · exact dropBlanks_padded ..
  · rfl
  · rfl

/-- A number of any length is read up to the end of its digits. -/
theorem number_any (width n : Nat) {rest : List Char} (hrest : EndsDigits rest) :
    number 1 (padded width n ++ rest).length (padded width n ++ rest) = some (n, rest) := by
  refine number_padded ?_ (by simp) (.inr hrest)
  obtain ⟨d, cs, -, hcs⟩ := exists_padded_eq_cons width n
  simp [hcs]

theorem digitChar_ne_sign : ∀ d < 10, Nat.digitChar d ≠ '-' ∧ Nat.digitChar d ≠ '+' := by decide

/-- A year is read whether it has a sign or not. -/
theorem year_yearText (y : Int) {rest : List Char} (hrest : EndsDigits rest) :
    year (yearText y ++ rest) = some (y, rest) := by
  unfold yearText
  split_ifs with hplain hnegative
  · have hlength := length_padded (by decide : 0 < 4) (show y.toNat < 10 ^ 4 by omega)
    have hnumber : number 1 4 (padded 4 y.toNat ++ rest) = some (y.toNat, rest) :=
      number_padded (by omega) hlength.le (.inl hlength)
    obtain ⟨d, cs, hd, hcs⟩ := exists_padded_eq_cons 4 y.toNat
    rw [hcs, List.cons_append] at hnumber ⊢
    simp [year, digitChar_ne_sign d hd, hnumber, hplain.1]
  · rw [List.cons_append, year, number_any 4 y.natAbs hrest]
    simp only [Option.map_some, Option.some.injEq, Prod.mk.injEq, and_true]
    omega
  · rw [List.cons_append, year, number_any 4 y.natAbs hrest]
    simp only [Option.map_some, Option.some.injEq, Prod.mk.injEq, and_true]
    omega

/-- What follows goes on neither with digits nor with a fraction. -/
def EndsFraction (rest : List Char) : Prop := EndsDigits rest ∧ '.' ∉ rest.head?

theorem dropDigits_of_ends {rest : List Char} (h : EndsDigits rest) :
    rest.dropWhile (fun c => (digit? c).isSome) = rest := by
  cases rest with
  | nil => rfl
  | cons c rest => simp [h c rfl]

/-- A fraction of some digits is read as the nanoseconds it stands for. -/
theorem fraction_padded {width n : Nat} (hpos : 0 < width) (hwidth : width ≤ 9)
    (h : n < 10 ^ width) {rest : List Char} (hrest : EndsDigits rest) :
    fraction ('.' :: padded width n ++ rest) = some (n * 10 ^ (9 - width), rest) := by
  have hlength := length_padded hpos h
  have hdigits : leadingDigits 9 (padded width n ++ rest) = (paddedDigits width n, rest) := by
    rw [← map_paddedDigits]
    refine leadingDigits_append (fun d => lt_of_mem_paddedDigits) ?_ (.inr hrest)
    rwa [length_paddedDigits, hlength]
  have hne : paddedDigits width n ≠ [] := by simp [paddedDigits, digitsOf_ne_nil]
  simp [fraction, hdigits, hne, ofDigits_paddedDigits, length_paddedDigits, hlength,
    dropDigits_of_ends hrest]

/-- A fraction of a second is read from the digits it is written with. -/
theorem fraction_fractionText {n : Nat} (h : n < nanosPerSecond) {rest : List Char}
    (hrest : EndsFraction rest) : fraction (fractionText n ++ rest) = some (n, rest) := by
  rw [nanosPerSecond] at h
  unfold fractionText
  split_ifs with hzero hmilli hmicro
  · cases rest with
    | nil => simp [fraction, hzero]
    | cons c rest =>
      have hdot : c ≠ '.' := fun e => hrest.2 (by simp [e])
      simp [fraction, hdot, hzero]
  · rw [fraction_padded (by decide) (by decide) (by omega) hrest.1]
    simp
    omega
  · rw [fraction_padded (by decide) (by decide) (by omega) hrest.1]
    simp
    omega
  · rw [fraction_padded (by decide) (by decide) (by omega) hrest.1]
    simp

/-! ## Dates and times of day -/

/-- The fields a moment is written with. -/
def fields (m : Moment) : Fields :=
  ⟨m.date.year, m.date.month, m.date.day, m.clock.hour, m.clock.minute, m.clock.shownSecond,
    m.clock.fraction⟩

/-- All fields of a moment but the year and the fraction have at most two digits. -/
theorem fields_lt (m : Moment) :
    m.date.month < 100 ∧ m.date.day < 100 ∧ m.clock.hour < 100 ∧ m.clock.minute < 100 ∧
      m.clock.shownSecond < 100 := by
  have hmonth := m.date.month_mem
  have hday := m.date.day_mem
  have hdays : daysIn m.date.year m.date.month ≤ 31 := by unfold daysIn; split_ifs <;> decide
  have hhour := m.clock.hour_lt
  have hminute := m.clock.minute_lt
  have hsecond : m.clock.shownSecond < 100 := by
    have := m.clock.second_lt
    have := m.clock.nanos_lt
    unfold Clock.shownSecond nanosPerSecond at *
    omega
  omega

/-- The fields of a moment are read from its text, if separators stand where they are looked
for and the letter between date and time is known. -/
theorem looseFields_plainText (m : Moment) {gap : List Char → List Char} {mark : Scan Unit}
    (hgap : ∀ c cs, c = '-' ∨ c = ':' → gap (c :: cs) = c :: cs)
    (hmark : ∀ cs, mark ('T' :: cs) = some ((), cs)) {rest : List Char}
    (hrest : EndsFraction rest) :
    looseFields gap mark (m.plainText ++ rest) = some (m.fields, rest) := by
  obtain ⟨hmonth, hday, hhour, hminute, hsecond⟩ := m.fields_lt
  have hfraction : m.clock.fraction < nanosPerSecond := Nat.mod_lt _ (by decide)
  have hends (cs : List Char) : EndsDigits ('-' :: cs) := by rintro c ⟨⟩; decide
  have hdash (cs : List Char) : gap ('-' :: cs) = '-' :: cs := hgap '-' cs (.inl rfl)
  have hcolon (cs : List Char) : gap (':' :: cs) = ':' :: cs := hgap ':' cs (.inr rfl)
  simp only [looseFields, plainText, List.append_assoc, List.cons_append, dropBlanks_yearText,
    year_yearText _ (hends _), Option.bind_eq_bind, Option.bind_some, hdash, hcolon, hmark, char,
    if_true, dropBlanks_padded, number_two hmonth, number_two hday, number_two hhour,
    number_two hminute, number_two hsecond, fraction_fractionText hfraction hrest]
  rfl

/-- A clock of UTC shows a moment as it is. -/
theorem ofLocal?_zero (d : Date) (c : Clock) : ofLocal? d c 0 = some ⟨d, c⟩ := by
  have hhour := c.hour_lt
  have hminute := c.minute_lt
  rw [ofLocal?, if_neg (by omega), if_neg (by omega)]
  cases c
  simp only [Option.some.injEq, mk.injEq, Clock.mk.injEq, true_and, and_true] at hhour hminute ⊢
  constructor <;> omega

theorem moment?_fields (m : Moment) : m.fields.moment? 0 = some m := by
  simp [Fields.moment?, fields, Clock.make?_shown, ofLocal?_zero]

/-- A moment is read from its text. -/
theorem ofRelaxed?_text (m : Moment) : ofRelaxed? m.text.toList = some m := by
  have hgap (c : Char) (cs : List Char) (hc : c = '-' ∨ c = ':') :
      dropBlanks (c :: cs) = c :: cs := by
    rcases hc with rfl | rfl <;> rfl
  have hends : EndsFraction ['Z'] := ⟨by rintro c ⟨⟩; decide, by decide⟩
  have hfields := m.looseFields_plainText hgap (fun _ => rfl : ∀ cs, timeMark ('T' :: cs) = _) hends
  rw [text, String.toList_ofList, ofRelaxed?, hfields]
  exact m.moment?_fields

end Moment

end TenantRestore
