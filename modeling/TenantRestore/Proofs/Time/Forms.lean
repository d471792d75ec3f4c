/-
# The forms of a point in time

The strict form of RFC 3339 and the plain form have the same parts in the same order
(`Moment.Shows`).  They differ in how a number may be spelt, in what stands between date and time,
and in the offset at the end, which one must have and the other can't have.  So no text is in both
forms, and of a text in one of them the fields and the offset are known: `Moment.IsForm.unique`.

A scan is described by the texts that it takes, and by what has to follow them so that it stops
there (`Moment.Takes`).  Both readers are put together from such scans, and reading a text in the
one form or else in the other is understanding what it denotes: `Moment.read_eq_some_iff`.
-/
import Mathlib.Data.List.TakeWhile
import TenantRestore.Proofs.Time
import TenantRestore.Proofs.Time.Instant

namespace TenantRestore

namespace Moment

/-! ## The parts of a text -/

/-- A text of `least` to `most` digits that spell a number. -/
def IsNumeral (least most n : Nat) (text : List Char) : Prop :=
  ∃ ds : List Nat, (∀ d ∈ ds, d < 10) ∧ least ≤ ds.length ∧ ds.length ≤ most ∧
    text = ds.map Nat.digitChar ∧ n = ofDigits ds

/-- A text of a year: up to four digits, or a sign and any number of them. -/
inductive IsYear : Int → List Char → Prop
  /-- The year has no sign. -/
  | plain {n : Nat} {text : List Char} (h : IsNumeral 1 4 n text) : IsYear n text
  /-- The year has the sign of the years from zero. -/
  | positive {n : Nat} {text : List Char} (h : IsNumeral 1 text.length n text) :
      IsYear n ('+' :: text)
  /-- The year has the sign of those before. -/
  | negative {n : Nat} {text : List Char} (h : IsNumeral 1 text.length n text) :
      IsYear (-n) ('-' :: text)

/-- A text of an optional fraction of a second, with its whole nanoseconds. -/
inductive IsFraction : Nat → List Char → Prop
  /-- There is none. -/
  | none : IsFraction 0 []
  /-- There is one of any number of digits. -/
  | some {ds : List Nat} (hds : ∀ d ∈ ds, d < 10) (hne : ds ≠ []) :
      IsFraction (ofDigits ds * nanosPerSecond / 10 ^ ds.length) ('.' :: ds.map Nat.digitChar)

/-- The sign of an offset: a clock is ahead of UTC or behind. -/
inductive IsSign : Char → Int → Prop
  /-- It is ahead. -/
  | plus : IsSign '+' 1
  /-- It is behind. -/
  | hyphen : IsSign '-' (-1)
  /-- It is behind, which is what the character for minus says as well. -/
  | minus : IsSign '\u2212' (-1)

/-- A text of an offset in minutes. -/
inductive IsOffset : Int → List Char → Prop
  /-- A letter for UTC. -/
  | utc {c : Char} (hc : c = 'Z' ∨ c = 'z') : IsOffset 0 [c]
  /-- Hours and minutes. -/
  | shifted {c : Char} {sign : Int} {h m : Nat} {hours minutes : List Char} (hsign : IsSign c sign)
      (hhours : IsNumeral 2 2 h hours) (hminutes : IsNumeral 2 2 m minutes)
      (hlt : h < 24 ∧ m < 60) : IsOffset (sign * (h * 60 + m)) (c :: (hours ++ ':' :: minutes))

/-- A text with any number of blanks in front. -/
def AfterBlanks (p : List Char → Prop) (text : List Char) : Prop :=
  ∃ blanks rest, (∀ c ∈ blanks, isBlankChar c) ∧ p rest ∧ text = blanks ++ rest

/-- A text of a date and a time of day.  `year` and `number` tell how a year and any other number
may be spelt, and `mark` what may stand between date and time. -/
inductive Shows (year : Int → List Char → Prop) (number : Nat → List Char → Prop)
    (mark : Char → Prop) : Fields → List Char → Prop
  /-- The parts stand one after the other. -/
  | parts {f : Fields} {y mo d h mi s fr : List Char} {c : Char} (hyear : year f.year y)
      (hmonth : number f.month mo) (hday : number f.day d) (hmark : mark c)
      (hhour : number f.hour h) (hminute : number f.minute mi) (hsecond : number f.second s)
      (hfraction : IsFraction f.nanos fr) :
      Shows year number mark f
        (y ++ '-' :: (mo ++ '-' :: (d ++ c :: (h ++ ':' :: (mi ++ ':' :: (s ++ fr))))))

/-- What stands between date and time in the strict form. -/
def IsTimeMark (c : Char) : Prop := c = 'T' ∨ c = 't' ∨ c = ' '

/-- The fields of the strict form: each number has its full width. -/
def ShowsStrict : Fields → List Char → Prop :=
  Shows (fun y text => ∃ n : Nat, y = n ∧ IsNumeral 4 4 n text) (IsNumeral 2 2) IsTimeMark

/-- The fields of the plain form, with `mark` between date and time: numbers may be shorter, and
blanks may stand in front of them. -/
def ShowsLoose (mark : Char → Prop) : Fields → List Char → Prop :=
  Shows (fun y => AfterBlanks (IsYear y)) (fun n => AfterBlanks (IsNumeral 1 2 n)) mark

/-- A text in one of the two forms, with its fields and its offset in minutes. -/
inductive IsForm : List Char → Fields → Int → Prop
  /-- The strict form, which ends in an offset. -/
  | strict {f : Fields} {o : Int} {text fields offset : List Char} (hf : ShowsStrict f fields)
      (ho : IsOffset o offset) (htext : text = fields ++ offset) : IsForm text f o
  /-- The plain form, which is in UTC. -/
  | plain {f : Fields} {text : List Char} (hf : ShowsLoose (· = 'T') f text) : IsForm text f 0

/-- A text denotes an instant: it is in one of the two forms, there are such a date and time, and a
clock with the offset shows them at that instant. -/
def Denotes (text : List Char) (i : Instant) : Prop :=
  ∃ f o, IsForm text f o ∧ f.IsProper ∧ i = f.instant o

/-! ## Digits -/

theorem ofDigits_eq (ds : List Nat) : ofDigits ds = Nat.ofDigits 10 ds.reverse := by
  induction ds using List.reverseRecOn with
  | nil => rfl
  | append_singleton ds d ih =>
    rw [List.reverse_append, List.reverse_singleton, List.singleton_append, Nat.ofDigits_cons, ← ih]
    simp [ofDigits]
    omega

theorem ofDigits_append (ds es : List Nat) :
    ofDigits (ds ++ es) = ofDigits ds * 10 ^ es.length + ofDigits es := by
  rw [ofDigits_eq, ofDigits_eq, ofDigits_eq, List.reverse_append, Nat.ofDigits_append,
    List.length_reverse, Nat.add_comm, Nat.mul_comm]

theorem ofDigits_lt {ds : List Nat} (h : ∀ d ∈ ds, d < 10) : ofDigits ds < 10 ^ ds.length := by
  rw [ofDigits_eq, ← List.length_reverse]
  exact Nat.ofDigits_lt_base_pow_length (by decide) fun d hd => h d (List.mem_reverse.1 hd)

theorem digit?_eq_some {c : Char} {d : Nat} (h : digit? c = some d) :
    d < 10 ∧ c = Nat.digitChar d := by
  unfold digit? at h
  split_ifs at h with hc
  obtain rfl := Option.some.inj h
  have hlow : 48 ≤ c.toNat := hc.1
  have hhigh : c.toNat ≤ 57 := hc.2
  rw [← Char.ofNat_toNat c]
  generalize c.toNat = n at hlow hhigh
  interval_cases n <;> decide

/-- The digits that are read are those at the start, up to the end or until there are as many as
there may be. -/
theorem leadingDigits_eq {most : Nat} {cs rest : List Char} {ds : List Nat}
    (h : leadingDigits most cs = (ds, rest)) :
    (∀ d ∈ ds, d < 10) ∧ ds.length ≤ most ∧ cs = ds.map Nat.digitChar ++ rest ∧
      (ds.length = most ∨ EndsDigits rest) := by
  induction most generalizing cs ds with
  | zero =>
    obtain ⟨rfl, rfl⟩ := Prod.mk.inj h
    simp
  | succ most ih =>
    cases cs with
    | nil =>
      obtain ⟨rfl, rfl⟩ := Prod.mk.inj h
      simp [EndsDigits]
    | cons c cs =>
      cases hdigit : digit? c with
      | none =>
        simp only [leadingDigits, hdigit] at h
        obtain ⟨rfl, rfl⟩ := Prod.mk.inj h
        simp [EndsDigits, hdigit]
      | some d =>
        simp only [leadingDigits, hdigit] at h
        obtain ⟨rfl, rfl⟩ := Prod.mk.inj h
        obtain ⟨hd, rfl⟩ := digit?_eq_some hdigit
        obtain ⟨hds, hmost, hcs, hends⟩ := ih rfl
        refine ⟨List.forall_mem_cons.2 ⟨hd, hds⟩, by simpa using hmost, ?_, by simpa using hends⟩
        rw [List.map_cons, List.cons_append, ← hcs]

/-! ## Scans -/

/-- A scan takes the texts that are described by `p`, if what follows ends them. -/
structure Takes {α : Type} (scan : Scan α) (p : α → List Char → Prop)
    (ends : List Char → Prop) : Prop where
  /-- It takes no other ones. -/
  sound {cs : List Char} {a : α} {rest : List Char} (h : scan cs = some (a, rest)) :
    ∃ text, p a text ∧ cs = text ++ rest
  /-- It takes all of them. -/
  complete {a : α} {text rest : List Char} (h : p a text) (hends : ends rest) :
    scan (text ++ rest) = some (a, rest)

/-- A scan tells apart the texts it takes from what follows. -/
theorem Takes.unique {α : Type} {scan : Scan α} {p : α → List Char → Prop}
    {ends : List Char → Prop} (h : Takes scan p ends) {a b : α} {text text' rest rest' : List Char}
    (ha : p a text) (hb : p b text') (hends : ends rest) (hends' : ends rest')
    (heq : text ++ rest = text' ++ rest') : a = b ∧ rest = rest' := by
  have hscan := h.complete ha hends
  rw [heq, h.complete hb hends', Option.some.injEq, Prod.mk.injEq] at hscan
  exact ⟨hscan.1.symm, hscan.2.symm⟩

theorem number_append {least most : Nat} {ds : List Nat} {rest : List Char}
    (hds : ∀ d ∈ ds, d < 10) (hleast : least ≤ ds.length) (hmost : ds.length ≤ most)
    (hends : EndsDigits rest) :
    number least most (ds.map Nat.digitChar ++ rest) = some (ofDigits ds, rest) := by
  simp [number, leadingDigits_append hds hmost (.inr hends), hleast]

theorem number_takes (least most : Nat) :
    Takes (number least most) (IsNumeral least most) EndsDigits where
  sound {cs n rest} h := by
    rcases hdigits : leadingDigits most cs with ⟨ds, rest'⟩
    simp only [number, hdigits] at h
    split_ifs at h with hleast
    obtain ⟨rfl, rfl⟩ := Prod.mk.inj (Option.some.inj h)
    obtain ⟨hds, hmost, rfl, -⟩ := leadingDigits_eq hdigits
    exact ⟨_, ⟨ds, hds, hleast, hmost, rfl, rfl⟩, rfl⟩
  complete := by
    rintro n _ rest ⟨ds, hds, hleast, hmost, rfl, rfl⟩ hends
    exact number_append hds hleast hmost hends

theorem IsNumeral.exists_cons {least most n : Nat} {text : List Char}
    (h : IsNumeral least most n text) (hleast : 1 ≤ least) :
    ∃ d cs, d < 10 ∧ text = Nat.digitChar d :: cs := by
  obtain ⟨ds, hds, hlength, -, rfl, -⟩ := h
  cases ds with
  | nil => exact absurd hlength (by simp; omega)
  | cons d ds => exact ⟨d, _, hds d (List.mem_cons_self ..), rfl⟩

theorem year_takes : Takes year IsYear EndsDigits where
  sound {cs y rest} h := by
    have hsigned {cs : List Char} {n : Nat} (h : number 1 cs.length cs = some (n, rest)) :
        ∃ text, IsNumeral 1 text.length n text ∧ cs = text ++ rest := by
      obtain ⟨_, ⟨ds, hds, hleast, -, rfl, rfl⟩, rfl⟩ := (number_takes 1 cs.length).sound h
      exact ⟨_, ⟨ds, hds, hleast, by simp, rfl, rfl⟩, rfl⟩
    unfold year at h
    split at h <;> obtain ⟨⟨n, rest'⟩, hnumber, heq⟩ := Option.map_eq_some_iff.1 h <;>
      obtain ⟨rfl, rfl⟩ := Prod.mk.inj heq
    · obtain ⟨text, htext, rfl⟩ := hsigned hnumber
      exact ⟨_, .negative htext, rfl⟩
    · obtain ⟨text, htext, rfl⟩ := hsigned hnumber
      exact ⟨_, .positive htext, rfl⟩
    · obtain ⟨text, htext, rfl⟩ := (number_takes 1 4).sound hnumber
      exact ⟨_, .plain htext, rfl⟩
  complete {y text rest} h hends := by
    have hsigned {n : Nat} {text : List Char} (h : IsNumeral 1 text.length n text) :
        number 1 (text ++ rest).length (text ++ rest) = some (n, rest) := by
      obtain ⟨ds, hds, hleast, -, rfl, rfl⟩ := h
      exact number_append hds hleast (by simp) hends
    cases h with
    | positive h =>
      rw [List.cons_append, year, hsigned h]
      rfl
    | negative h =>
      rw [List.cons_append, year, hsigned h]
      rfl
    | plain h =>
      have hnumber := (number_takes 1 4).complete h hends
      obtain ⟨d, cs, hd, rfl⟩ := h.exists_cons le_rfl
      rw [List.cons_append] at hnumber ⊢
      simp [year, digitChar_ne_sign d hd, hnumber]

theorem char_eq_some {c : Char} {cs rest : List Char} {u : Unit} :
    char c cs = some (u, rest) ↔ cs = c :: rest := by
  cases cs with
  | nil => simp [char]
  | cons d cs =>
    simp only [char, Option.ite_none_right_eq_some, Option.some.injEq, Prod.mk.injEq, true_and,
      List.cons.injEq]
    exact and_congr_left fun _ => eq_comm

theorem offset_shifted {c : Char} {sign : Int} (h : IsSign c sign) (cs : List Char) :
    offset (char ':') (c :: cs) =
      (number 2 2 cs).bind fun (hours, cs) => (char ':' cs).bind fun (_, cs) =>
        (number 2 2 cs).bind fun (minutes, cs) =>
          if hours < 24 ∧ minutes < 60 then some (sign * (hours * 60 + minutes), cs) else none := by
  cases h <;> rfl

theorem exists_sign {c : Char} {cs rest : List Char} {o : Int}
    (h : offset (char ':') (c :: cs) = some (o, rest)) (hutc : ¬ (c = 'Z' ∨ c = 'z')) :
    ∃ sign, IsSign c sign := by
  by_cases hplus : c = '+'
  · exact ⟨1, hplus ▸ .plus⟩
  · by_cases hminus : c = '-' ∨ c = '\u2212'
    · rcases hminus with rfl | rfl
      · exact ⟨-1, .hyphen⟩
      · exact ⟨-1, .minus⟩
    · simp [offset, hutc, hplus, hminus] at h

theorem offset_takes : Takes (offset (char ':')) IsOffset EndsDigits where
  sound {cs o rest} h := by
    cases cs with
    | nil => cases h
    | cons c cs =>
      by_cases hutc : c = 'Z' ∨ c = 'z'
      · simp only [offset, if_pos hutc, Option.some.injEq, Prod.mk.injEq] at h
        obtain ⟨rfl, rfl⟩ := h
        exact ⟨_, .utc hutc, rfl⟩
      · obtain ⟨sign, hsign⟩ := exists_sign h hutc
        rw [offset_shifted hsign] at h
        simp only [Option.bind_eq_some_iff, Prod.exists, char_eq_some] at h
        obtain ⟨hours, cs₁, hhours, -, cs₂, rfl, minutes, cs₃, hminutes, h⟩ := h
        split_ifs at h with hlt
        obtain ⟨rfl, rfl⟩ := Prod.mk.inj (Option.some.inj h)
        obtain ⟨text, htext, rfl⟩ := (number_takes 2 2).sound hhours
        obtain ⟨text', htext', rfl⟩ := (number_takes 2 2).sound hminutes
        exact ⟨_, .shifted hsign htext htext' hlt, by simp⟩
  complete {o text rest} h hends := by
    have hcolon (cs : List Char) : EndsDigits (':' :: cs) := by rintro c ⟨⟩; decide
    cases h with
    | utc hc => simp [offset, hc]
    | @shifted c sign h m hours minutes hsign hhours hminutes hlt =>
      rw [List.cons_append, offset_shifted hsign, List.append_assoc, List.cons_append,
        (number_takes 2 2).complete hhours (hcolon _)]
      simp [char, (number_takes 2 2).complete hminutes hends, hlt]

/-! ## Fractions -/

/-- The whole nanoseconds of a fraction are told by its first nine digits. -/
theorem nanos_eq {ds : List Nat} (h : ∀ d ∈ ds, d < 10) :
    ofDigits ds * nanosPerSecond / 10 ^ ds.length =
      ofDigits (ds.take 9) * 10 ^ (9 - (ds.take 9).length) := by
  have hpos (k : Nat) : 0 < 10 ^ k := Nat.pow_pos (by decide)
  rcases Nat.le_total ds.length 9 with hshort | hlong
  · have hpow : nanosPerSecond = 10 ^ (9 - ds.length) * 10 ^ ds.length := by
      rw [← Nat.pow_add, Nat.sub_add_cancel hshort]
      rfl
    rw [List.take_of_length_le hshort, hpow, ← Nat.mul_assoc, Nat.mul_div_cancel _ (hpos _)]
  · have hlength : ds.length = (ds.drop 9).length + 9 := by rw [List.length_drop]; omega
    have hrest : ofDigits (ds.drop 9) < 10 ^ (ds.drop 9).length :=
      ofDigits_lt fun d hd => h d (List.mem_of_mem_drop hd)
    have hsplit := ofDigits_append (ds.take 9) (ds.drop 9)
    rw [List.take_append_drop] at hsplit
    calc ofDigits ds * nanosPerSecond / 10 ^ ds.length
        = ofDigits ds * 10 ^ 9 / (10 ^ (ds.drop 9).length * 10 ^ 9) := by
          rw [hlength, Nat.pow_add]
          rfl
      _ = (ofDigits (ds.drop 9) + ofDigits (ds.take 9) * 10 ^ (ds.drop 9).length) /
            10 ^ (ds.drop 9).length := by
          rw [Nat.mul_div_mul_right _ _ (hpos 9), hsplit, Nat.add_comm]
      _ = ofDigits (ds.take 9) := by
          rw [Nat.add_mul_div_right _ _ (hpos _), Nat.div_eq_of_lt hrest, Nat.zero_add]
      _ = ofDigits (ds.take 9) * 10 ^ (9 - (ds.take 9).length) := by
          rw [List.length_take, Nat.min_eq_left hlong, Nat.sub_self, Nat.pow_zero, Nat.mul_one]

theorem IsFraction.lt {n : Nat} {text : List Char} (h : IsFraction n text) :
    n < nanosPerSecond := by
  cases h with
  | none => decide
  | some hds _ =>
    refine Nat.div_lt_of_lt_mul ?_
    exact Nat.mul_lt_mul_of_pos_right (ofDigits_lt hds) (by decide)

/-- A fraction or what follows it ends the digits in front. -/
theorem IsFraction.endsDigits {n : Nat} {text rest : List Char} (h : IsFraction n text)
    (hrest : EndsFraction rest) : EndsDigits (text ++ rest) := by
  cases h with
  | none => exact hrest.1
  | some =>
    rintro c ⟨⟩
    decide

/-- All digits at the start of a text are skipped. -/
theorem exists_skipped (cs : List Char) : ∃ ds : List Nat, (∀ d ∈ ds, d < 10) ∧
    cs = ds.map Nat.digitChar ++ cs.dropWhile fun c => (digit? c).isSome := by
  induction cs with
  | nil => exact ⟨[], by simp, rfl⟩
  | cons c cs ih =>
    cases hdigit : digit? c with
    | none => exact ⟨[], by simp, by simp [hdigit]⟩
    | some d =>
      obtain ⟨hd, rfl⟩ := digit?_eq_some hdigit
      obtain ⟨ds, hds, hcs⟩ := ih
      refine ⟨d :: ds, List.forall_mem_cons.2 ⟨hd, hds⟩, ?_⟩
      rw [List.dropWhile_cons, hdigit, Option.isSome_some, if_pos rfl, List.map_cons,
        List.cons_append, ← hcs]

theorem skip_append {ds : List Nat} (hds : ∀ d ∈ ds, d < 10) {rest : List Char}
    (hends : EndsDigits rest) :
    (ds.map Nat.digitChar ++ rest).dropWhile (fun c => (digit? c).isSome) = rest := by
  induction ds with
  | nil => exact dropDigits_of_ends hends
  | cons d ds ih =>
    obtain ⟨hd, hds⟩ := List.forall_mem_cons.1 hds
    simpa [digit?_digitChar d hd] using ih hds

theorem fraction_takes : Takes fraction IsFraction EndsFraction where
  sound {cs n rest} h := by
    unfold fraction at h
    split at h
    case h_2 =>
      obtain ⟨rfl, rfl⟩ := Prod.mk.inj (Option.some.inj h)
      exact ⟨[], .none, rfl⟩
    case h_1 cs =>
      rcases hdigits : leadingDigits 9 cs with ⟨ds, rest'⟩
      obtain ⟨hds, hmost, rfl, hends⟩ := leadingDigits_eq hdigits
      simp only [hdigits] at h
      split_ifs at h with hempty
      obtain ⟨rfl, hskip⟩ := Prod.mk.inj (Option.some.inj h)
      obtain ⟨more, hmore, hrest⟩ := exists_skipped rest'
      rw [hskip] at hrest
      have htake : (ds ++ more).take 9 = ds := by
        rcases hends with hnine | hends
        · exact List.take_left' hnine
        · have hnone : more = [] := by
            rw [dropDigits_of_ends hends] at hskip
            simpa [hskip] using hrest
          rw [hnone, List.append_nil, List.take_of_length_le hmost]
      have hall : ∀ d ∈ ds ++ more, d < 10 := List.forall_mem_append.2 ⟨hds, hmore⟩
      have hne : ds ++ more ≠ [] := List.append_ne_nil_of_left_ne_nil (by simpa using hempty) _
      have hfraction := IsFraction.some hall hne
      rw [nanos_eq hall, htake] at hfraction
      exact ⟨_, hfraction, by rw [hrest]; simp⟩
  complete {n text rest} h hends := by
    cases h with
    | none =>
      cases rest with
      | nil => rfl
      | cons c rest =>
        have hdot : c ≠ '.' := fun e => hends.2 (by simp [e])
        simp [fraction, hdot]
    | @some ds hds hne =>
      have hdigits : leadingDigits 9 (ds.map Nat.digitChar ++ rest) =
          (ds.take 9, (ds.drop 9).map Nat.digitChar ++ rest) := by
        conv_lhs => rw [← List.take_append_drop 9 ds, List.map_append, List.append_assoc]
        refine leadingDigits_append (fun d hd => hds d (List.mem_of_mem_take hd))
          (List.length_take_le ..) ?_
        rcases Nat.le_total ds.length 9 with hshort | hlong
        · exact Or.inr (by simpa [List.drop_of_length_le hshort] using hends.1)
        · exact Or.inl (List.length_take_of_le hlong)
      have hdrop : ∀ d ∈ ds.drop 9, d < 10 := fun d hd => hds d (List.mem_of_mem_drop hd)
      have hskip := skip_append hdrop hends.1
      rw [nanos_eq hds, List.cons_append]
      simpa [fraction, hdigits, hne] using hskip

/-! ## Blanks and marks -/

theorem Takes.afterBlanks {α : Type} {scan : Scan α} {p : α → List Char → Prop}
    {ends : List Char → Prop} (h : Takes scan p ends)
    (hstart : ∀ a text, p a text → ∃ c cs, isBlankChar c = false ∧ text = c :: cs) :
    Takes (fun cs => scan (dropBlanks cs)) (fun a => AfterBlanks (p a)) ends where
  sound {cs a rest} hscan := by
    obtain ⟨text, htext, hcs⟩ := h.sound hscan
    refine ⟨_, ⟨cs.takeWhile isBlankChar, text, ?_, htext, rfl⟩, ?_⟩
    · exact fun c hc => List.mem_takeWhile_imp hc
    · rw [List.append_assoc, ← hcs, dropBlanks, List.takeWhile_append_dropWhile]
  complete := by
    rintro a _ rest ⟨blanks, text, hblanks, htext, rfl⟩ hends
    obtain ⟨c, cs, hc, rfl⟩ := hstart a text htext
    have hdrop : dropBlanks (blanks ++ c :: cs ++ rest) = c :: cs ++ rest := by
      rw [List.append_assoc, dropBlanks, List.dropWhile_append_of_pos hblanks, List.cons_append,
        List.dropWhile_cons_of_neg (by simp [hc])]
    rw [hdrop]
    exact h.complete htext hends

theorem IsNumeral.exists_start {least most n : Nat} {text : List Char}
    (h : IsNumeral least most n text) (hleast : 1 ≤ least) :
    ∃ c cs, isBlankChar c = false ∧ text = c :: cs := by
  obtain ⟨d, cs, hd, rfl⟩ := h.exists_cons hleast
  exact ⟨_, cs, not_isBlankChar_digitChar d hd, rfl⟩

theorem IsYear.exists_start {y : Int} {text : List Char} (h : IsYear y text) :
    ∃ c cs, isBlankChar c = false ∧ text = c :: cs := by
  cases h with
  | plain h => exact h.exists_start le_rfl
  | positive _ | negative _ => exact ⟨_, _, by decide, rfl⟩

/-- A scan of a character takes the characters it may be. -/
theorem timeMark_takes :
    Takes timeMark (fun _ text => ∃ c, IsTimeMark c ∧ text = [c]) fun _ => True where
  sound {cs u rest} h := by
    cases cs with
    | nil => cases h
    | cons c cs =>
      simp only [timeMark, Option.ite_none_right_eq_some, Option.some.injEq, Prod.mk.injEq] at h
      obtain ⟨hc, -, rfl⟩ := h
      exact ⟨_, ⟨c, hc, rfl⟩, rfl⟩
  complete := by
    rintro u _ rest ⟨c, hc, rfl⟩ -
    exact if_pos hc

theorem char_takes (c : Char) :
    Takes (char c) (fun _ text => ∃ d, d = c ∧ text = [d]) fun _ => True where
  sound h := ⟨_, ⟨c, rfl, rfl⟩, char_eq_some.1 h⟩
  complete := by
    rintro u _ rest ⟨d, rfl, rfl⟩ -
    exact char_eq_some.2 rfl

/-! ## Fields -/

/-- Scan the fields of a date and a time of day, by the scans of a year, of any other number and of
what stands between date and time. -/
def fieldsBy (year : Scan Int) (number : Scan Nat) (mark : Scan Unit) : Scan Fields := fun cs => do
  let (year, cs) ← year cs
  let (_, cs) ← char '-' cs
  let (month, cs) ← number cs
  let (_, cs) ← char '-' cs
  let (day, cs) ← number cs
  let (_, cs) ← mark cs
  let (hour, cs) ← number cs
  let (_, cs) ← char ':' cs
  let (minute, cs) ← number cs
  let (_, cs) ← char ':' cs
  let (second, cs) ← number cs
  let (nanos, cs) ← fraction cs
  return (⟨year, month, day, hour, minute, second, nanos⟩, cs)

theorem strictFields_eq : strictFields =
    fieldsBy (fun cs => (number 4 4 cs).map fun (n, rest) => ((n : Int), rest)) (number 2 2)
      timeMark := by
  funext cs
  rw [strictFields, fieldsBy]
  cases number 4 4 cs <;> rfl

theorem looseFields_eq (mark : Scan Unit) : looseFields id mark =
    fieldsBy (fun cs => year (dropBlanks cs)) (fun cs => number 1 2 (dropBlanks cs)) mark :=
  rfl

section Takes

variable {year : Scan Int} {number : Scan Nat} {mark : Scan Unit}
  {isYear : Int → List Char → Prop} {isNumber : Nat → List Char → Prop} {isMark : Char → Prop}

theorem fieldsBy_takes (hyear : Takes year isYear EndsDigits)
    (hnumber : Takes number isNumber EndsDigits)
    (hmark : Takes mark (fun _ text => ∃ c, isMark c ∧ text = [c]) fun _ => True)
    (hends : ∀ c, isMark c → digit? c = none) :
    Takes (fieldsBy year number mark) (Shows isYear isNumber isMark) EndsFraction where
  sound {cs f rest} h := by
    simp only [fieldsBy, Option.bind_eq_bind, Option.bind_eq_some_iff, Prod.exists, char_eq_some,
      Option.pure_def, Option.some.injEq, Prod.mk.injEq] at h
    obtain ⟨y, _, hy, -, cs₁, rfl, mo, _, hmo, -, cs₂, rfl, d, cs₃, hd, u, cs₄, hm, hr, _, hhr, -,
      cs₅, rfl, mi, _, hmi, -, cs₆, rfl, s, cs₇, hs, fr, cs₈, hfr, rfl, rfl⟩ := h
    obtain ⟨yText, hyText, rfl⟩ := hyear.sound hy
    obtain ⟨moText, hmoText, rfl⟩ := hnumber.sound hmo
    obtain ⟨dText, hdText, rfl⟩ := hnumber.sound hd
    obtain ⟨_, ⟨c, hc, rfl⟩, rfl⟩ := hmark.sound hm
    obtain ⟨hText, hhText, rfl⟩ := hnumber.sound hhr
    obtain ⟨miText, hmiText, rfl⟩ := hnumber.sound hmi
    obtain ⟨sText, hsText, rfl⟩ := hnumber.sound hs
    obtain ⟨frText, hfrText, rfl⟩ := fraction_takes.sound hfr
    exact ⟨_, .parts hyText hmoText hdText hc hhText hmiText hsText hfrText, by simp⟩
  complete {f text rest} h hrest := by
    have hcons {c : Char} (hc : digit? c = none) (cs : List Char) : EndsDigits (c :: cs) := by
      rintro d ⟨⟩
      exact hc
    have hdash (cs : List Char) : EndsDigits ('-' :: cs) := hcons (by decide) cs
    have hcolon (cs : List Char) : EndsDigits (':' :: cs) := hcons (by decide) cs
    obtain ⟨hy, hmo, hd, hc, hh, hmi, hs, hfr⟩ := h
    rename_i y mo d h mi s fr c
    have hsecond : EndsDigits (fr ++ rest) := hfr.endsDigits hrest
    have hmarked (cs : List Char) : mark (c :: cs) = some ((), cs) :=
      hmark.complete ⟨c, hc, rfl⟩ trivial
    simp only [fieldsBy, List.append_assoc, List.cons_append, Option.bind_eq_bind,
      hyear.complete hy (hdash _), hnumber.complete hmo (hdash _),
      hnumber.complete hd (hcons (hends c hc) _), hmarked, hnumber.complete hh (hcolon _),
      hnumber.complete hmi (hcolon _), hnumber.complete hs hsecond,
      fraction_takes.complete hfr hrest, char, if_true, Option.bind_some]
    rfl

end Takes

theorem Shows.nanos_lt {year : Int → List Char → Prop} {number : Nat → List Char → Prop}
    {mark : Char → Prop} {f : Fields} {text : List Char} (h : Shows year number mark f text) :
    f.nanos < nanosPerSecond := by
  cases h with
  | parts _ _ _ _ _ _ _ hfraction => exact hfraction.lt

theorem IsTimeMark.digit?_eq_none {c : Char} (h : IsTimeMark c) : digit? c = none := by
  rcases h with rfl | rfl | rfl <;> decide

theorem strictFields_takes : Takes strictFields ShowsStrict EndsFraction := by
  rw [strictFields_eq]
  refine fieldsBy_takes ?_ (number_takes 2 2) timeMark_takes fun _ hc => hc.digit?_eq_none
  exact
    { sound := fun {cs y rest} h => by
        obtain ⟨⟨n, rest'⟩, hnumber, heq⟩ := Option.map_eq_some_iff.1 h
        obtain ⟨rfl, rfl⟩ := Prod.mk.inj heq
        obtain ⟨text, htext, rfl⟩ := (number_takes 4 4).sound hnumber
        exact ⟨text, ⟨n, rfl, htext⟩, rfl⟩
      complete := by
        rintro y text rest ⟨n, rfl, htext⟩ hends
        simp [(number_takes 4 4).complete htext hends] }

theorem looseFields_takes {mark : Scan Unit} {isMark : Char → Prop}
    (hmark : Takes mark (fun _ text => ∃ c, isMark c ∧ text = [c]) fun _ => True)
    (hends : ∀ c, isMark c → digit? c = none) :
    Takes (looseFields id mark) (ShowsLoose isMark) EndsFraction := by
  rw [looseFields_eq]
  exact fieldsBy_takes (year_takes.afterBlanks fun _ _ h => h.exists_start)
    ((number_takes 1 2).afterBlanks fun _ _ h => h.exists_start le_rfl) hmark hends

theorem plainFields_takes : Takes (looseFields id (char 'T')) (ShowsLoose (· = 'T')) EndsFraction :=
  looseFields_takes (char_takes 'T') (by rintro c rfl; decide)

/-- Fields in the strict form may stand where numbers need not have their full width. -/
theorem ShowsStrict.loose {f : Fields} {text : List Char} (h : ShowsStrict f text) :
    ShowsLoose IsTimeMark f text := by
  have hnumber {n : Nat} {text : List Char} (h : IsNumeral 2 2 n text) :
      AfterBlanks (IsNumeral 1 2 n) text := by
    obtain ⟨ds, hds, hleast, hmost, heq⟩ := h
    exact ⟨[], text, by simp, ⟨ds, hds, by omega, hmost, heq⟩, rfl⟩
  cases h with
  | parts hyear hmonth hday hmark hhour hminute hsecond hfraction =>
    obtain ⟨n, hy, ds, hds, hleast, hmost, heq⟩ := hyear
    refine .parts ⟨[], _, by simp, ?_, rfl⟩ (hnumber hmonth) (hnumber hday) hmark (hnumber hhour)
      (hnumber hminute) (hnumber hsecond) hfraction
    rw [hy]
    exact .plain ⟨ds, hds, by omega, hmost, heq⟩

theorem ShowsLoose.mono {p q : Char → Prop} (hpq : ∀ c, p c → q c) {f : Fields} {text : List Char}
    (h : ShowsLoose p f text) : ShowsLoose q f text := by
  cases h with
  | parts hyear hmonth hday hmark hhour hminute hsecond hfraction =>
    exact .parts hyear hmonth hday (hpq _ hmark) hhour hminute hsecond hfraction

/-! ## The two forms -/

theorem endsFraction_nil : EndsFraction [] := ⟨by rintro c ⟨⟩, by simp⟩

namespace IsOffset

variable {o : Int} {offset : List Char}

theorem bounds (h : IsOffset o offset) : -1440 < o ∧ o < 1440 := by
  cases h with
  | utc => decide
  | shifted hsign _ _ hlt => cases hsign <;> omega

/-- An offset starts with a letter or a sign, so that it ends a fraction. -/
theorem exists_start (h : IsOffset o offset) :
    ∃ c cs, digit? c = none ∧ c ≠ '.' ∧ offset = c :: cs := by
  cases h with
  | utc hc => rcases hc with rfl | rfl <;> exact ⟨_, _, by decide, by decide, rfl⟩
  | shifted hsign _ _ _ => cases hsign <;> exact ⟨_, _, by decide, by decide, rfl⟩

theorem endsFraction (h : IsOffset o offset) : EndsFraction offset := by
  obtain ⟨c, cs, hc, hdot, rfl⟩ := h.exists_start
  refine ⟨?_, by simpa using hdot⟩
  rintro d ⟨⟩
  exact hc

end IsOffset

/-- A text that ends in an offset is not in the plain form. -/
theorem ShowsStrict.not_plain {f g : Fields} {o : Int} {text offset : List Char}
    (hf : ShowsStrict f text) (ho : IsOffset o offset) :
    ¬ ShowsLoose (· = 'T') g (text ++ offset) := by
  intro hg
  have hmarks : Takes (looseFields id timeMark) (ShowsLoose IsTimeMark) EndsFraction :=
    looseFields_takes timeMark_takes fun _ hc => hc.digit?_eq_none
  have hloose : ShowsLoose IsTimeMark g (text ++ offset) := hg.mono fun c hc => Or.inl hc
  have hnil : offset = [] := (hmarks.unique hf.loose hloose ho.endsFraction endsFraction_nil
    (List.append_nil _).symm).2
  obtain ⟨c, cs, -, -, rfl⟩ := ho.exists_start
  cases hnil

/-- A text is in one form at most, and shows fields and an offset that are known. -/
theorem IsForm.unique {text : List Char} {f g : Fields} {o o' : Int} (h : IsForm text f o)
    (h' : IsForm text g o') : f = g ∧ o = o' := by
  cases h with
  | strict hf ho htext =>
    subst htext
    cases h' with
    | strict hg ho' htext' =>
      obtain ⟨rfl, rfl⟩ := strictFields_takes.unique hf hg ho.endsFraction ho'.endsFraction htext'
      exact ⟨rfl, (offset_takes.unique ho ho' endsFraction_nil.1 endsFraction_nil.1 rfl).1⟩
    | plain hg => exact absurd hg (hf.not_plain ho)
  | plain hf =>
    cases h' with
    | strict hg ho' htext' => exact absurd (htext' ▸ hf) (hg.not_plain ho')
    | plain hg =>
      exact ⟨(plainFields_takes.unique hf hg endsFraction_nil endsFraction_nil rfl).1, rfl⟩

/-- So it denotes one instant at most. -/
theorem Denotes.unique {text : List Char} {i j : Instant} (h : Denotes text i)
    (h' : Denotes text j) : i = j := by
  obtain ⟨f, o, hform, -, rfl⟩ := h
  obtain ⟨g, o', hform', -, rfl⟩ := h'
  obtain ⟨rfl, rfl⟩ := hform.unique hform'
  rfl

theorem ofStrict?_eq_some_iff {text : List Char} {m : Moment} :
    ofStrict? text = some m ↔ ∃ f o fields offset, ShowsStrict f fields ∧ IsOffset o offset ∧
      text = fields ++ offset ∧ f.moment? o = some m := by
  simp only [ofStrict?, Option.bind_eq_bind, Option.bind_eq_some_iff, Prod.exists]
  constructor
  · rintro ⟨f, cs, hfields, o, rest, hoffset, h⟩
    split_ifs at h with hempty
    obtain ⟨fields, hf, rfl⟩ := strictFields_takes.sound hfields
    obtain ⟨offset, ho, rfl⟩ := offset_takes.sound hoffset
    rw [List.isEmpty_iff.1 hempty, List.append_nil]
    exact ⟨f, o, fields, offset, hf, ho, rfl, h⟩
  · rintro ⟨f, o, fields, offset, hf, ho, rfl, h⟩
    have hoffset := offset_takes.complete ho endsFraction_nil.1
    rw [List.append_nil] at hoffset
    exact ⟨f, offset, strictFields_takes.complete hf ho.endsFraction, o, [], hoffset, h⟩

theorem ofPlain?_eq_some_iff {text : List Char} {m : Moment} :
    ofPlain? text = some m ↔ ∃ f, ShowsLoose (· = 'T') f text ∧ f.moment? 0 = some m := by
  simp only [ofPlain?, Option.bind_eq_bind, Option.bind_eq_some_iff, Prod.exists]
  constructor
  · rintro ⟨f, rest, hfields, h⟩
    split_ifs at h with hempty
    obtain ⟨fields, hf, rfl⟩ := plainFields_takes.sound hfields
    rw [List.isEmpty_iff.1 hempty, List.append_nil]
    exact ⟨f, hf, h⟩
  · rintro ⟨f, hf, h⟩
    have hfields := plainFields_takes.complete hf endsFraction_nil
    rw [List.append_nil] at hfields
    exact ⟨f, [], hfields, h⟩

/-- Reading a text in the one form or else in the other is understanding what it denotes. -/
theorem read_eq_some_iff {text : List Char} {m : Moment} :
    (ofStrict? text).or (ofPlain? text) = some m ↔ Denotes text m.instant := by
  constructor
  · intro h
    rcases Option.or_eq_some_iff.1 h with hstrict | ⟨-, hplain⟩
    · obtain ⟨f, o, fields, offset, hf, ho, htext, hm⟩ := ofStrict?_eq_some_iff.1 hstrict
      obtain ⟨hproper, hinstant⟩ := (Fields.moment?_eq_some_iff hf.nanos_lt ho.bounds).1 hm
      exact ⟨f, o, .strict hf ho htext, hproper, hinstant⟩
    · obtain ⟨f, hf, hm⟩ := ofPlain?_eq_some_iff.1 hplain
      obtain ⟨hproper, hinstant⟩ := (Fields.moment?_eq_some_iff hf.nanos_lt (by decide)).1 hm
      exact ⟨f, 0, .plain hf, hproper, hinstant⟩
  · rintro ⟨f, o, hform, hproper, hinstant⟩
    cases hform with
    | strict hf ho htext =>
      have hm := (Fields.moment?_eq_some_iff hf.nanos_lt ho.bounds).2 ⟨hproper, hinstant⟩
      rw [ofStrict?_eq_some_iff.2 ⟨f, o, _, _, hf, ho, htext, hm⟩, Option.some_or]
    | plain hf =>
      have hm := (Fields.moment?_eq_some_iff hf.nanos_lt (by decide)).2 ⟨hproper, hinstant⟩
      have hnone : ofStrict? text = none := by
        refine Option.eq_none_iff_forall_ne_some.2 fun m' hstrict => ?_
        obtain ⟨g, o, fields, offset, hg, ho, rfl, -⟩ := ofStrict?_eq_some_iff.1 hstrict
        exact hg.not_plain ho hf
      rw [hnone, Option.none_or]
      exact ofPlain?_eq_some_iff.2 ⟨f, hf, hm⟩

end Moment

end TenantRestore
