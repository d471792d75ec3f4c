/-
# Normalized times

The normalized text of a time in UTC says which instant it denotes, and nothing else: two such
times have one text just if they denote one instant.  That needs the text of a moment to tell the
moment, which it does since its fields can be read from it, whatever the year
(`Moment.offsetText_injective`).

A normalized text stays as it is when it is normalized once more, for one of two reasons.  If its
year has four digits, it is in the strict form and denotes its moment.  If it has a sign, it is in
no form at all: the strict one has no sign in front and the plain one no offset at the end.  Then it
is kept, as any text is that can't be read: `ZonedTime.normalized_offsetText`.
-/
import TenantRestore.Item.Basic
import TenantRestore.Proofs.Time.Forms

namespace TenantRestore

namespace Moment

theorem toList_offsetText (m : Moment) :
    m.offsetText.toList = m.plainText ++ ['+', '0', '0', ':', '0', '0'] :=
  String.toList_ofList

theorem endsFraction_zero : EndsFraction ['+', '0', '0', ':', '0', '0'] :=
  ⟨by rintro c ⟨⟩; decide, by decide⟩

/-- The fields of a moment are read from its text. -/
theorem plainFields_offsetText (m : Moment) :
    looseFields id (char 'T') m.offsetText.toList =
      some (m.fields, ['+', '0', '0', ':', '0', '0']) := by
  rw [toList_offsetText]
  exact m.looseFields_plainText (fun _ _ _ => rfl) (fun _ => rfl) endsFraction_zero

/-- Different moments have different texts. -/
theorem offsetText_injective : Function.Injective offsetText := by
  intro m m' h
  have hfields := m.plainFields_offsetText
  rw [h, plainFields_offsetText, Option.some.injEq, Prod.mk.injEq] at hfields
  have hmoment := m.moment?_fields
  rw [← hfields.1, moment?_fields] at hmoment
  exact (Option.some.inj hmoment).symm

/-- A number of full width is read whatever follows it. -/
theorem number_full {width n : Nat} (hwidth : 0 < width) (h : n < 10 ^ width) (rest : List Char) :
    number width width (padded width n ++ rest) = some (n, rest) := by
  have hlength := length_padded hwidth h
  exact number_padded hlength.ge hlength.le (.inl hlength)

/-- In a year of four digits, the fields have their full width. -/
theorem strictFields_offsetText {m : Moment} (hyear : 0 ≤ m.date.year ∧ m.date.year ≤ 9999) :
    strictFields m.offsetText.toList = some (m.fields, ['+', '0', '0', ':', '0', '0']) := by
  obtain ⟨hmonth, hday, hhour, hminute, hsecond⟩ := m.fields_lt
  have htwo {n : Nat} (h : n < 100) (rest : List Char) :
      number 2 2 (padded 2 n ++ rest) = some (n, rest) := number_full (by decide) h rest
  have hfour (rest : List Char) :
      number 4 4 (padded 4 m.date.year.toNat ++ rest) = some (m.date.year.toNat, rest) :=
    number_full (by decide) (show m.date.year.toNat < 10 ^ 4 by omega) rest
  have hfraction : m.clock.fraction < nanosPerSecond := Nat.mod_lt _ (by decide)
  simp only [toList_offsetText, strictFields, plainText, yearText, if_pos hyear, List.append_assoc,
    List.cons_append, hfour, htwo hmonth, htwo hday, htwo hhour, htwo hminute, htwo hsecond, char,
    timeMark, if_true, true_or, Option.bind_eq_bind, Option.bind_some,
    fraction_fractionText hfraction endsFraction_zero, Int.toNat_of_nonneg hyear.1]
  rfl

/-- The strict form starts with a digit. -/
theorem strictFields_eq_none {c : Char} (h : digit? c = none) (cs : List Char) :
    strictFields (c :: cs) = none := by
  have hnumber : number 4 4 (c :: cs) = none := by simp [number, leadingDigits, h]
  rw [strictFields, hnumber]
  rfl

/-- So the text of a moment is in the strict form if its year has four digits, and no sign. -/
theorem ofStrict?_offsetText (m : Moment) :
    ofStrict? m.offsetText.toList =
      if 0 ≤ m.date.year ∧ m.date.year ≤ 9999 then some m else none := by
  split_ifs with hyear
  · rw [ofStrict?, strictFields_offsetText hyear]
    exact m.moment?_fields
  · have hnone : strictFields m.offsetText.toList = none := by
      rw [toList_offsetText, plainText, yearText, if_neg hyear]
      split_ifs <;> exact strictFields_eq_none (by decide) _
    rw [ofStrict?, hnone]
    rfl

/-- It is not in the plain form, which has no offset. -/
theorem ofPlain?_offsetText (m : Moment) : ofPlain? m.offsetText.toList = none := by
  rw [ofPlain?, plainFields_offsetText]
  rfl

end Moment

namespace ZonedTime

/-- The point in time of a text is the one it denotes. -/
theorem moment?_eq_some_iff {t : ZonedTime} {m : Moment} :
    t.moment? = some m ↔ Moment.Denotes t.dateTime.toList m.instant :=
  Moment.read_eq_some_iff

theorem normalized_of_utc {t : ZonedTime} {m : Moment} (hutc : isUtc t.timeZone)
    (hm : t.moment? = some m) : t.normalized = m.offsetText := by
  rw [normalized, hm]
  exact if_pos hutc

/-- The text of a moment stays as it is. -/
theorem normalized_offsetText (m : Moment) :
    ({ dateTime := m.offsetText } : ZonedTime).normalized = m.offsetText := by
  have hread : ({ dateTime := m.offsetText } : ZonedTime).moment? =
      if 0 ≤ m.date.year ∧ m.date.year ≤ 9999 then some m else none := by
    rw [moment?, Moment.ofStrict?_offsetText, Moment.ofPlain?_offsetText, Option.or_none]
  by_cases hyear : 0 ≤ m.date.year ∧ m.date.year ≤ 9999
  · exact normalized_of_utc rfl (by rw [hread, if_pos hyear])
  · rw [normalized, hread, if_neg hyear]
    exact String.append_empty

/-- Two times in UTC that can be read denote one instant each, and they have the same normalized
text just if these are the same.  Normalized once more, the text stays as it is. -/
theorem normalized_eq_iff {a b : ZonedTime} (ha : isUtc a.timeZone) (hb : isUtc b.timeZone)
    (haread : a.moment?.isSome) (hbread : b.moment?.isSome) :
    ∃ i j, (∀ k, Moment.Denotes a.dateTime.toList k ↔ k = i) ∧
      (∀ k, Moment.Denotes b.dateTime.toList k ↔ k = j) ∧
      (a.normalized = b.normalized ↔ i = j) ∧
      ({ dateTime := a.normalized } : ZonedTime).normalized = a.normalized := by
  obtain ⟨m, hm⟩ := Option.isSome_iff_exists.1 haread
  obtain ⟨n, hn⟩ := Option.isSome_iff_exists.1 hbread
  have hdenotes {t : ZonedTime} {m : Moment} (hm : t.moment? = some m) (k : Instant) :
      Moment.Denotes t.dateTime.toList k ↔ k = m.instant := by
    have ht := moment?_eq_some_iff.1 hm
    exact ⟨fun hk => hk.unique ht, fun hk => hk ▸ ht⟩
  refine ⟨m.instant, n.instant, hdenotes hm, hdenotes hn, ?_, ?_⟩
  · rw [normalized_of_utc ha hm, normalized_of_utc hb hn, Moment.offsetText_injective.eq_iff,
      Moment.instant_injective.eq_iff]
  · rw [normalized_of_utc ha hm]
    exact normalized_offsetText m

/-- A leap second at the end of a year, shown by a clock that is in the next year already. -/
def leapSecondAhead : ZonedTime where
  dateTime := "2017-01-01T05:29:60.5+05:30"
  timeZone := "Utc"

/-- The same leap second in the plain form, with a fraction that goes on after the nanoseconds. -/
def leapSecondPlain : ZonedTime := { dateTime := " 2016-12-31T 23:59:60.5000000009" }

/-- Both denote the leap second, whose text is the same for both. -/
theorem normalized_leapSecond :
    isUtc leapSecondAhead.timeZone ∧ isUtc leapSecondPlain.timeZone ∧
      leapSecondAhead.moment?.isSome ∧ leapSecondPlain.moment?.isSome ∧
      leapSecondAhead.normalized = "2016-12-31T23:59:60.500+00:00" ∧
      ∃ i, (∀ k, Moment.Denotes leapSecondAhead.dateTime.toList k ↔ k = i) ∧
        (∀ k, Moment.Denotes leapSecondPlain.dateTime.toList k ↔ k = i) ∧
        ({ dateTime := leapSecondAhead.normalized } : ZonedTime).normalized =
          leapSecondAhead.normalized := by
  have ha : isUtc leapSecondAhead.timeZone := by decide +kernel
  have hb : isUtc leapSecondPlain.timeZone := by decide +kernel
  have haread : leapSecondAhead.moment?.isSome := by decide +kernel
  have hbread : leapSecondPlain.moment?.isSome := by decide +kernel
  have hsame : leapSecondAhead.normalized = leapSecondPlain.normalized := by decide +kernel
  refine ⟨ha, hb, haread, hbread, by decide +kernel, ?_⟩
  obtain ⟨i, j, hi, hj, hiff, hagain⟩ := normalized_eq_iff ha hb haread hbread
  obtain rfl := hiff.1 hsame
  exact ⟨i, hi, hj, hagain⟩

end ZonedTime

end TenantRestore
