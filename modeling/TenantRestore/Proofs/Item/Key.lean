/-
# What the keys of items tell

The key of an item is its parts, one behind the other with nothing between them.  So text may
stand at the end of one part or at the start of the next without a difference to the key, and
items that have nothing in common but the text of all parts together are taken to be the same:
`sharedKey_skipped`.  Two items with the same key have the same parts just if the key is cut at
the same places: `Item.identifies_iff`.

There are items whose parts can be cut off their key.  The text of a point in time ends in a
zone of fixed length; in front of it stand the digits of a fraction or else those of the seconds,
and which of the two shows in the character in front of these digits.  Together with a year of
four digits this gives the length of the text.  So keys tell apart events whose times are all
given in UTC, in such years: `Item.Separable.identifies`.
-/
import Mathlib.Data.List.Flatten
import Mathlib.Tactic.Common
import TenantRestore.Item.Basic
import TenantRestore.Proofs.Path
import TenantRestore.Proofs.Time
import TenantRestore.Restore.Run
import TenantRestore.Store.Rehearsal

namespace TenantRestore

/-! ## The end of a point in time -/

namespace Moment

variable {m m' : Moment} {xs ys : List Char}

theorem isSome_digit?_of_mem_padded {width n : Nat} {c : Char} (h : c ∈ padded width n) :
    (digit? c).isSome := by
  rw [← map_paddedDigits] at h
  obtain ⟨d, hd, rfl⟩ := List.mem_map.1 h
  rw [digit?_digitChar d (lt_of_mem_paddedDigits hd)]
  rfl

/-- Two texts that end in digits are cut at the same place, at their last character that is no
digit. -/
theorem append_digits_inj {ds ds' : List Char} {c c' : Char} (hc : digit? c = none)
    (hc' : digit? c' = none) (hds : ∀ d ∈ ds, (digit? d).isSome)
    (hds' : ∀ d ∈ ds', (digit? d).isSome) (h : xs ++ c :: ds = ys ++ c' :: ds') :
    c = c' ∧ ds = ds' := by
  rcases List.append_eq_append_iff.1 h with ⟨mid, -, hmid⟩ | ⟨mid, -, hmid⟩
  · cases mid with
    | nil => exact List.cons.inj hmid
    | cons x mid =>
      -- the last character that is no digit would be among digits
      have hmem : c' ∈ ds := by simp [(List.cons.inj hmid).2]
      simpa [hc'] using hds c' hmem
  · cases mid with
    | nil =>
      obtain ⟨hcc, hdd⟩ := List.cons.inj hmid
      exact ⟨hcc.symm, hdd.symm⟩
    | cons x mid =>
      have hmem : c ∈ ds' := by simp [(List.cons.inj hmid).2]
      simpa [hc] using hds' c hmem

theorem fractionText_cases (n : Nat) :
    fractionText n = [] ∨ ∃ width k, fractionText n = '.' :: padded width k := by
  unfold fractionText
  split_ifs
  · exact .inl rfl
  all_goals exact .inr ⟨_, _, rfl⟩

/-- Behind the last character of a moment that is no digit stand the digits of its fraction, or,
if it has none, those of its seconds; the character shows which. -/
theorem exists_lastMark (m : Moment) :
    ∃ front mark ds, m.plainText = front ++ mark :: ds ∧ digit? mark = none ∧
      (∀ d ∈ ds, (digit? d).isSome) ∧
      (fractionText m.clock.fraction).length = if mark = '.' then ds.length + 1 else 0 := by
  rcases fractionText_cases m.clock.fraction with hnone | ⟨width, k, hfraction⟩
  · refine ⟨yearText m.date.year ++ '-' :: padded 2 m.date.month ++ '-' :: padded 2 m.date.day ++
      'T' :: padded 2 m.clock.hour ++ ':' :: padded 2 m.clock.minute, ':',
      padded 2 m.clock.shownSecond, ?_, by decide, fun d hd => isSome_digit?_of_mem_padded hd, ?_⟩
    · rw [plainText, hnone, List.append_nil]
    · rw [hnone, if_neg (by decide)]
      rfl
  · refine ⟨yearText m.date.year ++ '-' :: padded 2 m.date.month ++ '-' :: padded 2 m.date.day ++
      'T' :: padded 2 m.clock.hour ++ ':' :: padded 2 m.clock.minute ++
      ':' :: padded 2 m.clock.shownSecond, '.', padded width k, ?_, by decide,
      fun d hd => isSome_digit?_of_mem_padded hd, ?_⟩
    · rw [plainText, hfraction]
    · rw [hfraction, if_pos rfl, List.length_cons]

/-- Moments at the end of the same text have fractions of the same length. -/
theorem length_fractionText_eq (h : xs ++ m.plainText = ys ++ m'.plainText) :
    (fractionText m.clock.fraction).length = (fractionText m'.clock.fraction).length := by
  obtain ⟨front, mark, ds, htext, hmark, hds, hlength⟩ := m.exists_lastMark
  obtain ⟨front', mark', ds', htext', hmark', hds', hlength'⟩ := m'.exists_lastMark
  rw [htext, htext', ← List.append_assoc, ← List.append_assoc] at h
  obtain ⟨rfl, rfl⟩ := append_digits_inj hmark hmark' hds hds' h
  rw [hlength, hlength']

theorem length_plainText (m : Moment) :
    m.plainText.length =
      (yearText m.date.year).length + 15 + (fractionText m.clock.fraction).length := by
  obtain ⟨hmonth, hday, hhour, hminute, hsecond⟩ := m.fields_lt
  have htwo {n : Nat} (h : n < 100) : (padded 2 n).length = 2 := length_padded (by decide) h
  simp only [plainText, List.length_append, List.length_cons, htwo hmonth, htwo hday, htwo hhour,
    htwo hminute, htwo hsecond]

theorem length_yearText {y : Int} (h : 0 ≤ y ∧ y ≤ 9999) : (yearText y).length = 4 := by
  rw [yearText, if_pos h]
  exact length_padded (by decide) (show y.toNat < 10 ^ 4 by omega)

/-- A moment is cut off the end of a text, if its year is known to have four digits. -/
theorem append_offsetText_inj (hm : 0 ≤ m.date.year ∧ m.date.year ≤ 9999)
    (hm' : 0 ≤ m'.date.year ∧ m'.date.year ≤ 9999) {x y : String}
    (h : x ++ m.offsetText = y ++ m'.offsetText) : x = y ∧ m.offsetText = m'.offsetText := by
  have hchars := congrArg String.toList h
  simp only [offsetText, String.toList_append, String.toList_ofList, ← List.append_assoc]
    at hchars
  have hplain := List.append_cancel_right hchars
  have hlength : m.plainText.length = m'.plainText.length := by
    rw [length_plainText, length_plainText, length_yearText hm, length_yearText hm',
      length_fractionText_eq hplain]
  obtain ⟨hxy, htext⟩ := List.append_inj' hplain hlength
  exact ⟨String.toList_inj.1 hxy, by rw [offsetText, offsetText, htext]⟩

end Moment

/-! ## Times in UTC -/

/-- Whether a time is given in UTC, in a year of four digits. -/
def ZonedTime.inPlainUtc (t : ZonedTime) : Bool :=
  isUtc t.timeZone && t.moment?.any fun m => 0 ≤ m.date.year ∧ m.date.year ≤ 9999

theorem ZonedTime.exists_moment {t : ZonedTime} (h : t.inPlainUtc) :
    ∃ m : Moment, (0 ≤ m.date.year ∧ m.date.year ≤ 9999) ∧ t.normalized = m.offsetText := by
  obtain ⟨hutc, hmoment⟩ := Bool.and_eq_true_iff.1 h
  obtain ⟨m, hm, hyear⟩ := (Option.any_eq_true ..).1 hmoment
  refine ⟨m, by simpa using hyear, ?_⟩
  rw [normalized, hm]
  exact if_pos hutc

/-- The normalized text of a time that may be absent. -/
def normalizedText (t : Option ZonedTime) : String := (t.map ZonedTime.normalized).getD ""

/-- Times in UTC are cut off the end of a text, if both are there or none. -/
theorem append_normalizedText_inj {t t' : Option ZonedTime} (hsome : t.isSome = t'.isSome)
    (ht : t.all ZonedTime.inPlainUtc) (ht' : t'.all ZonedTime.inPlainUtc) {x y : String}
    (h : x ++ normalizedText t = y ++ normalizedText t') :
    x = y ∧ normalizedText t = normalizedText t' := by
  cases t with
  | none =>
    cases t' with
    | none => exact ⟨by simpa [normalizedText] using h, rfl⟩
    | some z' => cases hsome
  | some z =>
    cases t' with
    | none => cases hsome
    | some z' =>
      obtain ⟨m, hyear, hm⟩ := ZonedTime.exists_moment ht
      obtain ⟨m', hyear', hm'⟩ := ZonedTime.exists_moment ht'
      simp only [normalizedText, Option.map_some, Option.getD_some, hm, hm'] at h ⊢
      exact Moment.append_offsetText_inj hyear hyear' h

/-! ## Keys and their parts -/

/-- Whether the times of an event are given in UTC, in years of four digits. -/
def Event.inPlainUtc (e : Event) : Bool :=
  e.start.all ZonedTime.inPlainUtc && e.finish.all ZonedTime.inPlainUtc

namespace Item

/-- The parts of the key of an item; those of absent fields are empty. -/
def keyParts : Item → List String
  | .contact c =>
    [c.givenName.getD "", c.surname.getD "", (c.emails.head?.map toLowerCase).getD ""]
  | .event e => [e.subject.getD "", normalizedText e.start, normalizedText e.finish]
  | .list l => [l.displayName.getD ""]
  | .page p => [p.name.getD ""]

theorem key_eq_join (item : Item) : item.key = String.join item.keyParts := by
  cases item <;> simp [key, keyParts, normalizedText, String.join]

/-- The parts of a key are found again in it if it is known how long they are. -/
theorem keyParts_eq_iff (a b : Item) :
    a.keyParts = b.keyParts ↔
      a.key = b.key ∧ a.keyParts.map String.length = b.keyParts.map String.length := by
  have hjoin (l : List String) : (l.map String.toList).flatten = (String.join l).toList := by
    rw [String.toList_join, List.flatMap_def]
  have hlengths (l : List String) :
      (l.map String.toList).map List.length = l.map String.length := by
    rw [List.map_map]
    exact List.map_congr_left fun _ _ => String.length_toList
  calc a.keyParts = b.keyParts
      ↔ a.keyParts.map String.toList = b.keyParts.map String.toList :=
        (List.map_inj_right fun _ _ => String.toList_inj.1).symm
    _ ↔ _ := by
        rw [List.eq_iff_flatten_eq, hlengths, hlengths, hjoin, hjoin, String.toList_inj,
          key_eq_join, key_eq_join]

/-- Two items with the same key have the same parts. -/
def Identifies (a b : Item) : Prop := a.key = b.key → a.keyParts = b.keyParts

/-- The parts of two items can be told from their keys: the items are lists or pages, whose key is
their name, or events whose times are given in UTC, in years of four digits, and which both have a
start or none, and both an end or none. -/
inductive Separable : Item → Item → Prop
  /-- Two events. -/
  | event {e f : Event} (he : e.inPlainUtc) (hf : f.inPlainUtc)
      (hstart : e.start.isSome = f.start.isSome) (hfinish : e.finish.isSome = f.finish.isSome) :
      Separable (.event e) (.event f)
  /-- Two lists. -/
  | list (l m : SiteList) : Separable (.list l) (.list m)
  /-- Two pages. -/
  | page (p q : SitePage) : Separable (.page p) (.page q)

theorem Separable.identifies {a b : Item} (h : Separable a b) : a.Identifies b := by
  intro hkey
  cases h with
  | event he hf hstart hfinish =>
    obtain ⟨hestart, hefinish⟩ := Bool.and_eq_true_iff.1 he
    obtain ⟨hfstart, hffinish⟩ := Bool.and_eq_true_iff.1 hf
    -- the end stands last in the key, so it is cut off first
    obtain ⟨hkey, hfinishText⟩ := append_normalizedText_inj hfinish hefinish hffinish hkey
    obtain ⟨hsubject, hstartText⟩ := append_normalizedText_inj hstart hestart hfstart hkey
    rw [keyParts, keyParts, hsubject, hstartText, hfinishText]
  | list l m => exact congrArg (fun name => [name]) hkey
  | page p q => exact congrArg (fun name => [name]) hkey

/-- The key of two items identifies them just if their parts are equally long, so that it is cut
at the same places; for some items it always does. -/
theorem identifies_iff (a b : Item) :
    (a.Identifies b ↔
      (a.key = b.key → a.keyParts.map String.length = b.keyParts.map String.length)) ∧
    (Separable a b → a.Identifies b) := by
  refine ⟨⟨?_, ?_⟩, Separable.identifies⟩
  · intro hidentifies hkey
    rw [hidentifies hkey]
  · intro hlengths hkey
    exact (keyParts_eq_iff a b).2 ⟨hkey, hlengths hkey⟩

/-- Two spellings of a time make no difference to the key. -/
example :
    let event : Event :=
      { subject := "Review", start := some { dateTime := "2024-05-01T10:00:00Z" } }
    let other : Event :=
      { subject := "Review",
        start := some { dateTime := "2024-05-01T10:00:00.0000000", timeZone := "UTC" } }
    event.inPlainUtc ∧ other.inPlainUtc ∧ (Item.event event).key = (Item.event other).key := by
  decide +kernel

end Item

/-! ## Two contacts with one key -/

/-- A contact with a given name and a surname. -/
def jeanPaul : Contact := { givenName := "Jean", surname := "Paul" }

/-- A contact with a given name only, which has the text of both names of the other one. -/
def jeanPaulOnly : Contact := { givenName := "JeanPaul" }

/-- An event of which only the start is known. -/
def starting : Event :=
  { subject := "Review", start := some { dateTime := "2024-05-01T10:00:00", timeZone := "UTC" } }

/-- An event of which only the end is known, at the time the other one starts. -/
def ending : Event :=
  { subject := "Review", finish := some { dateTime := "2024-05-01T10:00:00", timeZone := "UTC" } }

/-- A store of contacts. -/
def contactStore : Rehearsal where
  items := Table.empty.insert .contact {}

/-- Restore contacts. -/
def restoreContacts : Plan Rehearsal where
  options := {}
  version := FormatVersion.current
  remote := contactStore.remote

/-- The two contacts in a backup. -/
def namesakes : List Collection :=
  [.ofEntries ⟨"tenant", .exchange, "user", .contacts, ["Friends"]⟩
    [.ok ⟨"1", "\x7b\"kind\":\"contact\",\"givenName\":\"Jean\",\"surname\":\"Paul\"\x7d".toUTF8⟩,
      .ok ⟨"2", "\x7b\"kind\":\"contact\",\"givenName\":\"JeanPaul\"\x7d".toUTF8⟩]]

/-- The keys identify neither the contacts nor the events, and of the two contacts a restore
creates only the first. -/
theorem sharedKey_skipped :
    ¬ (Item.contact jeanPaul).Identifies (.contact jeanPaulOnly) ∧
    ¬ (Item.event starting).Identifies (.event ending) ∧
    (restoreContacts.run namesakes
      (Session.start restoreContacts {} false contactStore)).2.faults.recovered =
        [.itemAlreadyExists "JeanPaul"] := by
  have hcontacts : (Item.contact jeanPaul).key = (Item.contact jeanPaulOnly).key ∧
      (Item.contact jeanPaul).keyParts ≠ (Item.contact jeanPaulOnly).keyParts := by decide +kernel
  have hevents : (Item.event starting).key = (Item.event ending).key ∧
      (Item.event starting).keyParts ≠ (Item.event ending).keyParts := by decide +kernel
  refine ⟨fun h => hcontacts.2 (h hcontacts.1), fun h => hevents.2 (h hevents.1), ?_⟩
  have hsort : Collection.sort namesakes = namesakes :=
    Collection.sort_of_pairwise (by decide +kernel)
  rw [Plan.run, hsort]
  decide +kernel

end TenantRestore
