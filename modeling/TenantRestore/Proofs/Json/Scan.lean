/-
# Scanning what was written

The text of a value is cut into the tokens it was written from: `Json.scan_text`.  A token is
found again whatever follows it, except that a numeral goes on as long as it can; so the
induction over a value carries along that what follows is no part of a numeral.

Strings are scanned as bytes.  A character is written either as itself, in UTF-8, or as an
escape, and both are read as pieces with the same UTF-8 form; the bytes above the ASCII range
are neither quotes nor backslashes nor control characters.
-/
import TenantRestore.Json.Basic
import TenantRestore.Proofs.Digits

namespace TenantRestore

/-- The zero with a sign. -/
def Binary64.negativeZero : Binary64 := ⟨0x8000000000000000⟩

namespace Token

/-- The UTF-8 form of some characters. -/
def utf8 (cs : List Char) : List UInt8 := cs.flatMap String.utf8EncodeChar

@[simp] theorem utf8_nil : utf8 [] = [] := rfl

@[simp] theorem utf8_append (cs ds : List Char) : utf8 (cs ++ ds) = utf8 cs ++ utf8 ds :=
  List.flatMap_append

theorem utf8_cons (c : Char) (cs : List Char) :
    utf8 (c :: cs) = String.utf8EncodeChar c ++ utf8 cs := List.flatMap_cons

/-- The bytes of a text are those of its characters. -/
theorem toUTF8_ofList (cs : List Char) : (String.ofList cs).toUTF8.data.toList = utf8 cs := by
  simp [List.utf8Encode, utf8]

theorem toNat_byte {c : Char} (h : c.toNat < 0x80) : (byte c).toNat = c.toNat := by
  have : (byte c).toNat = c.toNat % 0x100 := UInt32.toNat_toUInt8 c.val
  omega

/-- ASCII characters are told apart by their bytes. -/
theorem byte_inj {c d : Char} (hc : c.toNat < 0x80) (hd : d.toNat < 0x80) :
    byte c = byte d ↔ c = d := by
  rw [← UInt8.toNat_inj, toNat_byte hc, toNat_byte hd, Char.toNat_inj]

/-- An ASCII character is one byte. -/
theorem utf8EncodeChar_of_ascii {c : Char} (h : c.toNat < 0x80) :
    String.utf8EncodeChar c = [byte c] := by
  have hle : c.val.toNat ≤ 0x7f := Nat.le_of_lt_succ h
  simp only [String.utf8EncodeChar, hle, if_true]
  rfl

/-- All bytes of another character are above the ASCII range. -/
theorem le_of_mem_utf8EncodeChar {c : Char} (h : 0x80 ≤ c.toNat) {b : UInt8}
    (hb : b ∈ String.utf8EncodeChar c) : 0x80 ≤ b.toNat := by
  have hgt : ¬c.val.toNat ≤ 0x7f := Nat.not_le.2 h
  revert hb
  fun_cases String.utf8EncodeChar c <;>
    simp only [List.mem_cons, List.not_mem_nil, or_false] <;> intro hb
  · contradiction
  all_goals
    rcases hb with rfl | rfl | rfl | rfl <;> simp <;> omega

/-! ## Strings -/

theorem pieces_quote (bs : List UInt8) : pieces (byte '"' :: bs) = ([], .closed, bs) := by
  rw [pieces.eq_def]
  simp

/-- A byte that is no quote, no backslash and no control character stands for itself. -/
theorem pieces_byte {b : UInt8} (hquote : b ≠ byte '"') (hslash : b ≠ byte '\\')
    (hcontrol : 0x20 ≤ b.toNat) (bs : List UInt8) :
    pieces (b :: bs) = addPiece (.byte b) (pieces bs) := by
  have hplain : ¬b < 0x20 := by simpa [UInt8.lt_iff_toNat_lt] using hcontrol
  rw [pieces.eq_def]
  simp [hquote, hslash, hplain]

theorem pieces_letter {e b : UInt8} (hunit : e ≠ byte 'u') (h : escaped? e = some b)
    (bs : List UInt8) :
    pieces (byte '\\' :: e :: bs) = addPiece (.byte b) (pieces bs) := by
  have hslash : byte '\\' ≠ byte '"' := by decide
  rw [pieces.eq_def]
  simp [hslash, hunit, h]

theorem pieces_unit {w x y z : UInt8} {u : Nat} (h : hexUnit? w x y z = some u)
    (bs : List UInt8) :
    pieces (byte '\\' :: byte 'u' :: w :: x :: y :: z :: bs) =
      addPiece (.unit u) (pieces bs) := by
  have hslash : byte '\\' ≠ byte '"' := by decide
  rw [pieces.eq_def]
  simp [hslash, h]

/-- Some pieces which stand in front of others. -/
def addPieces (ps : List Piece) (r : List Piece × Ending × List UInt8) :
    List Piece × Ending × List UInt8 :=
  (ps ++ r.1, r.2)

/-- Bytes that stand for themselves are their own pieces. -/
theorem pieces_bytes {xs : List UInt8}
    (h : ∀ b ∈ xs, b ≠ byte '"' ∧ b ≠ byte '\\' ∧ 0x20 ≤ b.toNat) (bs : List UInt8) :
    pieces (xs ++ bs) = addPieces (xs.map .byte) (pieces bs) := by
  induction xs with
  | nil => rfl
  | cons b xs ih =>
    obtain ⟨hquote, hslash, hcontrol⟩ := h b (by simp)
    rw [List.cons_append, pieces_byte hquote hslash hcontrol, ih fun c hc => h c (by simp [hc])]
    rfl

theorem utf8?_bytes (xs : List UInt8) (ps : List Piece) :
    utf8? (xs.map .byte ++ ps) = (utf8? ps).map (xs ++ ·) := by
  induction xs with
  | nil => simp
  | cons b xs ih => simp [utf8?, ih, Function.comp_def]

theorem hexDigit?_hexChar : ∀ d < 16, hexDigit? (byte (hexChar d)) = some d := by decide

theorem hexChar_lt : ∀ d < 16, (hexChar d).toNat < 0x80 := by decide

/-- Some characters within a string spell a character: they are read as pieces with its UTF-8
form. -/
def Spells (cs : List Char) (c : Char) : Prop :=
  ∃ ps, (∀ bs, pieces (utf8 cs ++ bs) = addPieces ps (pieces bs)) ∧
    ∀ qs, utf8? (ps ++ qs) = (utf8? qs).map (String.utf8EncodeChar c ++ ·)

/-- A backslash and a letter spell the character the letter stands for. -/
theorem spells_letter {c e : Char} (hc : c.toNat < 0x80) (he : e.toNat < 0x80)
    (hunit : byte e ≠ byte 'u') (h : escaped? (byte e) = some (byte c)) :
    Spells ['\\', e] c := by
  refine ⟨[.byte (byte c)], fun bs => ?_, fun qs => ?_⟩
  · simp only [utf8_cons, utf8_nil, utf8EncodeChar_of_ascii he,
      utf8EncodeChar_of_ascii (show '\\'.toNat < 0x80 by decide)]
    exact pieces_letter hunit h bs
  · rw [utf8EncodeChar_of_ascii hc]
    exact utf8?_bytes [byte c] qs

/-- The escape by a number spells the control character of that number. -/
theorem spells_unit {c : Char} (h : c.toNat < 0x20) :
    Spells ['\\', 'u', '0', '0', hexChar (c.toNat / 16), hexChar (c.toNat % 16)] c := by
  have hhigh : c.toNat / 16 < 16 := by omega
  have hlow : c.toNat % 16 < 16 := by omega
  have hunit : hexUnit? (byte '0') (byte '0') (byte (hexChar (c.toNat / 16)))
      (byte (hexChar (c.toNat % 16))) = some c.toNat := by
    have hzero : hexDigit? (byte '0') = some 0 := by decide
    simp only [hexUnit?, hzero, hexDigit?_hexChar _ hhigh, hexDigit?_hexChar _ hlow,
      Option.bind_eq_bind, Option.bind_some, Option.pure_def, Option.some.injEq]
    omega
  refine ⟨[.unit c.toNat], fun bs => ?_, fun qs => ?_⟩
  · simp only [utf8_cons, utf8_nil, utf8EncodeChar_of_ascii (hexChar_lt _ hhigh),
      utf8EncodeChar_of_ascii (hexChar_lt _ hlow),
      utf8EncodeChar_of_ascii (show '\\'.toNat < 0x80 by decide),
      utf8EncodeChar_of_ascii (show 'u'.toNat < 0x80 by decide),
      utf8EncodeChar_of_ascii (show '0'.toNat < 0x80 by decide)]
    exact pieces_unit hunit bs
  · have htrailing : isTrailing c.toNat = false := by simp [isTrailing]; omega
    have hleading : isLeading c.toNat = false := by simp [isLeading]; omega
    rw [List.singleton_append, utf8?.eq_def]
    simp [htrailing, hleading, encode]

/-- A character that needs no escape spells itself. -/
theorem spells_self {c : Char} (hquote : c ≠ '"') (hslash : c ≠ '\\')
    (hcontrol : 0x20 ≤ c.toNat) : Spells [c] c := by
  refine ⟨(String.utf8EncodeChar c).map .byte, fun bs => ?_, fun qs => utf8?_bytes _ qs⟩
  rw [utf8_cons, utf8_nil, List.append_nil]
  refine pieces_bytes (fun b hb => ?_) bs
  rcases Nat.lt_or_ge c.toNat 0x80 with h | h
  · rw [utf8EncodeChar_of_ascii h, List.mem_singleton] at hb
    subst hb
    rw [Ne, Ne, byte_inj h (by decide), byte_inj h (by decide), toNat_byte h]
    exact ⟨hquote, hslash, hcontrol⟩
  · have hle := le_of_mem_utf8EncodeChar h hb
    refine ⟨?_, ?_, by omega⟩ <;> rintro rfl <;> revert hle <;> decide

/-- What a character is written as spells it. -/
theorem spells_escape (c : Char) : Spells (escape c) c := by
  have of_toNat {n : Nat} (h : c.toNat = n) : c = Char.ofNat n := by rw [← h, Char.ofNat_toNat]
  unfold escape
  split_ifs with hquote hslash hb ht hn hf hr hcontrol
  · subst hquote; exact spells_letter (by decide) (by decide) (by decide) (by decide)
  · subst hslash; exact spells_letter (by decide) (by decide) (by decide) (by decide)
  · rw [of_toNat hb]; exact spells_letter (by decide) (by decide) (by decide) (by decide)
  · rw [of_toNat ht]; exact spells_letter (by decide) (by decide) (by decide) (by decide)
  · rw [of_toNat hn]; exact spells_letter (by decide) (by decide) (by decide) (by decide)
  · rw [of_toNat hf]; exact spells_letter (by decide) (by decide) (by decide) (by decide)
  · rw [of_toNat hr]; exact spells_letter (by decide) (by decide) (by decide) (by decide)
  · exact spells_unit hcontrol
  · exact spells_self hquote hslash (Nat.not_lt.1 hcontrol)

/-- The pieces of a string which was written, up to its closing quote. -/
theorem exists_pieces_text (cs : List Char) (rest : List UInt8) :
    ∃ ps, pieces (utf8 (cs.flatMap escape) ++ byte '"' :: rest) = (ps, .closed, rest) ∧
      utf8? ps = some (utf8 cs) := by
  induction cs with
  | nil => exact ⟨[], pieces_quote rest, rfl⟩
  | cons c cs ih =>
    obtain ⟨qs, hqs, hutf8⟩ := ih
    obtain ⟨ps, hps, happend⟩ := spells_escape c
    refine ⟨ps ++ qs, ?_, ?_⟩
    · rw [List.flatMap_cons, utf8_append, List.append_assoc, hps, hqs]
      rfl
    · rw [happend, hutf8, utf8_cons]
      rfl

/-- The UTF-8 form of a string is that of no other. -/
theorem fromUTF8?_utf8 (s : String) : String.fromUTF8? ⟨(utf8 s.toList).toArray⟩ = some s := by
  have hbytes : (⟨(utf8 s.toList).toArray⟩ : ByteArray) = s.toUTF8 := by
    rw [← toUTF8_ofList, String.ofList_toList]
  have hvalid : s.toUTF8.IsValidUTF8 := s.isValidUTF8
  rw [hbytes, String.fromUTF8?, dif_pos hvalid]
  rfl

/-- A string is read back up to its closing quote. -/
theorem stringAt_text (s : String) (rest : List UInt8) :
    stringAt (utf8 (s.toList.flatMap escape) ++ byte '"' :: rest) = (.string s, some rest) := by
  obtain ⟨ps, hps, hutf8⟩ := exists_pieces_text s.toList rest
  have hstring : string? ps = some s := by simp [string?, hutf8, fromUTF8?_utf8]
  simp [stringAt, hps, hstring]

/-! ## Integers -/

/-- What follows does not go on with a numeral. -/
def EndsNumeral (rest : List UInt8) : Prop :=
  ∀ b ∈ rest.head?, digit? b = none ∧ b ≠ byte '.' ∧ b ≠ byte 'e' ∧ b ≠ byte 'E'

theorem digit?_digitChar : ∀ d < 10, digit? (byte (Nat.digitChar d)) = some d := by decide

theorem digitChar_lt : ∀ d < 10, (Nat.digitChar d).toNat < 0x80 := by decide

/-- What does not go on with a numeral has no digit, no point and no exponent in front. -/
theorem EndsNumeral.parts {rest : List UInt8} (h : EndsNumeral rest) :
    digits rest = ([], rest) ∧ fractionDigits rest = .ok (none, rest) ∧
      exponentDigits rest = .ok (none, rest) := by
  cases rest with
  | nil => exact ⟨rfl, rfl, rfl⟩
  | cons b rest =>
    obtain ⟨hdigit, hpoint, hexponent⟩ := h b rfl
    simp [digits, fractionDigits, exponentDigits, hdigit, hpoint, hexponent]

/-- Digits are read up to the end of the numeral. -/
theorem digits_append {ds : List Nat} (hds : ∀ d ∈ ds, d < 10) {rest : List UInt8}
    (hrest : EndsNumeral rest) : digits (utf8 (ds.map Nat.digitChar) ++ rest) = (ds, rest) := by
  induction ds with
  | nil =>
    exact hrest.parts.1
  | cons d ds ih =>
    have hd := hds d (by simp)
    rw [List.map_cons, utf8_cons, utf8EncodeChar_of_ascii (digitChar_lt d hd), List.append_assoc,
      List.singleton_append, digits, digit?_digitChar d hd, ih fun e he => hds e (by simp [he])]

/-- The digits of a number are read as the digits in front of a point. -/
theorem wholeDigits_text (n : Nat) {rest : List UInt8} (hrest : EndsNumeral rest) :
    wholeDigits (utf8 (digitChars n) ++ rest) = .ok (digitsOf n, rest) := by
  have hdigits : digits (utf8 (digitChars n) ++ rest) = (digitsOf n, rest) := by
    rw [← map_digitsOf]
    exact digits_append (fun d => lt_of_mem_digitsOf) hrest
  have hsome : someDigits (utf8 (digitChars n) ++ rest) = .ok (digitsOf n, rest) := by
    simp only [someDigits, hdigits]
    split
    · rename_i h; simp [digitsOf_ne_nil] at h
    · rename_i h; simp [digitsOf_ne_nil] at h
    · rfl
  simp only [wholeDigits, hsome, bind, Except.bind]
  split
  · rename_i h
    simp [digitsOf_ne_zero_cons] at h
  · rfl

/-- The numeral of a natural number, behind its sign. -/
theorem numeral_text (negative : Bool) (n : Nat) {rest : List UInt8} (hrest : EndsNumeral rest) :
    numeral negative (utf8 (digitChars n) ++ rest) =
      .ok (⟨negative, digitsOf n, none, none⟩, rest) := by
  obtain ⟨-, hfraction, hexponent⟩ := hrest.parts
  simp [numeral, wholeDigits_text n hrest, hfraction, hexponent, bind, Except.bind, pure,
    Except.pure]

end Token

namespace Numeral

/-- Digits are collected as long as their number is small enough. -/
theorem collect_of_le {limit : Nat} {ds : List Nat} {v : Nat}
    (h : ds.foldl (fun m d => m * 10 + d) v ≤ limit) :
    collect limit v ds = (ds.foldl (fun m d => m * 10 + d) v, ds.length, 0) := by
  induction ds generalizing v with
  | nil => rfl
  | cons d ds ih =>
    have hle : v * 10 + d ≤ limit := Nat.le_trans (le_foldl_digits ds _) h
    simp only [List.foldl_cons] at h ⊢
    simp [collect, hle, ih h]

theorem collect_digitsOf {limit n : Nat} (h : n ≤ limit) :
    collect limit 0 (digitsOf n) = (n, (digitChars n).length, 0) := by
  rw [collect_of_le (by rwa [foldl_digitsOf]), foldl_digitsOf, length_digitsOf]

theorem value?_natural {n : Nat} (h : n ≤ maxUnsigned) :
    value? ⟨false, digitsOf n, none, none⟩ = some (.integer n) := by
  simp [value?, collect_digitsOf h]

theorem value?_negative {n : Nat} (hpos : 0 < n) (h : n ≤ 0x8000000000000000) :
    value? ⟨true, digitsOf n, none, none⟩ = some (.integer (-n)) := by
  have hle : n ≤ maxUnsigned := Nat.le_trans h (by decide)
  simp [value?, collect_digitsOf hle, hpos, h]

/-- Dividing a zero by ten leaves the sign to be set, and nothing else. -/
theorem value?_negativeZero :
    value? ⟨true, [0], some [0], none⟩ = some (.float .negativeZero) := by
  have hvalue : value? ⟨true, [0], some [0], none⟩ =
      (scale (Float.ofNat 0) (-1)).map (signed true) := rfl
  have hscale : scale (Float.ofNat 0) (-1) =
      some (Float.ofNat 0 / Float.ofScientific 1 false 1) := by
    rw [scale]
    rfl
  rw [hvalue, hscale]
  decide

end Numeral

namespace Token

theorem numberAt_natural {n : Nat} (h : n ≤ maxUnsigned) {rest : List UInt8}
    (hrest : EndsNumeral rest) :
    numberAt false (utf8 (digitChars n) ++ rest) = (.number (.integer n), some rest) := by
  simp [numberAt, numeral_text false n hrest, Numeral.value?_natural h]

theorem numberAt_negative {n : Nat} (hpos : 0 < n) (h : n ≤ 0x8000000000000000)
    {rest : List UInt8} (hrest : EndsNumeral rest) :
    numberAt true (utf8 (digitChars n) ++ rest) = (.number (.integer (-n)), some rest) := by
  simp [numberAt, numeral_text true n hrest, Numeral.value?_negative hpos h]

theorem numberAt_negativeZero {rest : List UInt8} (hrest : EndsNumeral rest) :
    numberAt true (utf8 ['0', '.', '0'] ++ rest) =
      (.number (.float .negativeZero), some rest) := by
  have hwhole : wholeDigits (byte '0' :: byte '.' :: byte '0' :: rest) =
      .ok ([0], byte '.' :: byte '0' :: rest) := rfl
  have hdigits : someDigits (byte '0' :: rest) = .ok ([0], rest) := by
    have hzero : digit? (byte '0') = some 0 := by decide
    simp [someDigits, digits, hzero, hrest.parts.1]
  have hfraction : fractionDigits (byte '.' :: byte '0' :: rest) = .ok (some [0], rest) := by
    simp [fractionDigits, hdigits, Except.map]
  have hnumeral : numeral true (utf8 ['0', '.', '0'] ++ rest) =
      .ok (⟨true, [0], some [0], none⟩, rest) := by
    change numeral true (byte '0' :: byte '.' :: byte '0' :: rest) = _
    simp [numeral, hwhole, hfraction, hrest.parts.2.2, bind, Except.bind, pure, Except.pure]
  simp [numberAt, hnumeral, Numeral.value?_negativeZero]

/-- A byte that is a digit starts a number. -/
theorem next_digit {b : UInt8} (h : (digit? b).isSome) (bs : List UInt8) :
    isBlank b = false ∧ next b bs = numberAt false (b :: bs) := by
  have hne (e : UInt8) (he : digit? e = none) : b ≠ e := by
    rintro rfl
    simp [he] at h
  constructor
  · simp [isBlank, hne 0x20 rfl, hne 0x0a rfl, hne 0x09 rfl, hne 0x0d rfl]
  · simp [next, h, hne (byte '[') rfl, hne (byte ']') rfl, hne (byte '\x7b') rfl,
      hne (byte '\x7d') rfl, hne (byte ',') rfl, hne (byte ':') rfl, hne (byte '"') rfl,
      hne (byte 'n') rfl, hne (byte 't') rfl, hne (byte 'f') rfl, hne (byte '-') rfl]

/-! ## Tokens -/

/-- A token which is read back from its text: no broken one, no integer of more than 64 bits,
and no float but the zero with a sign, which the numeral of an integer may stand for. -/
def Sound : Token → Prop
  | .number (.integer i) => -0x8000000000000000 ≤ i ∧ i ≤ maxUnsigned
  | .number (.float x) => x = .negativeZero
  | .brokenWord _ _ => False
  | .brokenString _ _ => False
  | .brokenNumber _ _ => False
  | .stray => False
  | _ => True

/-- What follows a token does not go on with it. -/
def EndsBefore (rest : List UInt8) : Token → Prop
  | .number _ => EndsNumeral rest
  | _ => True

theorem afterWord_text {cs : List Char} (hcs : ∀ c ∈ cs, c.toNat < 0x80) (rest : List UInt8) :
    afterWord cs (utf8 cs ++ rest) = .ok rest := by
  induction cs with
  | nil => simp [afterWord]
  | cons c cs ih =>
    rw [utf8_cons, utf8EncodeChar_of_ascii (hcs c (by simp)), List.append_assoc,
      List.singleton_append, afterWord, if_pos rfl, ih fun d hd => hcs d (by simp [hd])]

theorem wordAt_text (word : Token) (cs : List Char) (hcs : ∀ c ∈ cs, c.toNat < 0x80)
    (rest : List UInt8) : wordAt word cs (utf8 cs ++ rest) = (word, some rest) := by
  simp [wordAt, afterWord_text hcs]

/-- A natural number starts with a digit. -/
theorem exists_digit (n : Nat) : ∃ b bs, utf8 (digitChars n) = b :: bs ∧ (digit? b).isSome := by
  obtain ⟨d, ds, hds⟩ := List.exists_cons_of_ne_nil (digitsOf_ne_nil n)
  have hd : d < 10 := lt_of_mem_digitsOf (by rw [hds]; exact List.mem_cons_self ..)
  refine ⟨byte (Nat.digitChar d), utf8 (ds.map Nat.digitChar), ?_, ?_⟩
  · rw [← map_digitsOf, hds, List.map_cons, utf8_cons, utf8EncodeChar_of_ascii (digitChar_lt d hd)]
    rfl
  · simp [digit?_digitChar d hd]

/-- An integer is found again at the start of what was written. -/
theorem exists_next_integer {i : Int} (hi : (number (.integer i)).Sound) {rest : List UInt8}
    (hrest : EndsNumeral rest) :
    ∃ b bs, utf8 (numberText (.integer i)) = b :: bs ∧ isBlank b = false ∧
      next b (bs ++ rest) = (number (.integer i), some rest) := by
  rcases lt_or_ge i 0 with hneg | hnat
  · obtain ⟨n, rfl⟩ : ∃ n : Nat, i = -n := ⟨i.natAbs, by omega⟩
    have hpos : 0 < n := by omega
    have hle : n ≤ 0x8000000000000000 := by have := hi.1; omega
    refine ⟨byte '-', utf8 (digitChars n), ?_, by decide, numberAt_negative hpos hle hrest⟩
    simp only [numberText, hneg, if_true, Int.natAbs_neg, Int.natAbs_natCast]
    rfl
  · obtain ⟨n, rfl⟩ := Int.eq_ofNat_of_zero_le hnat
    obtain ⟨b, bs, hbs, hdigit⟩ := exists_digit n
    obtain ⟨hblank, hnext⟩ := next_digit hdigit (bs ++ rest)
    refine ⟨b, bs, ?_, hblank, ?_⟩
    · rwa [numberText, if_neg (by omega), Int.natAbs_natCast]
    · rw [hnext, ← List.cons_append, ← hbs]
      exact numberAt_natural (by simpa using hi.2) hrest

theorem next_quote (bs : List UInt8) : next (byte '"') bs = stringAt bs := rfl

/-- A token is found again at the start of what was written. -/
theorem exists_next_text {t : Token} (ht : t.Sound) {rest : List UInt8}
    (hrest : t.EndsBefore rest) :
    ∃ b bs, utf8 t.text = b :: bs ∧ isBlank b = false ∧ next b (bs ++ rest) = (t, some rest) := by
  cases t with
  | openArray => exact ⟨byte '[', [], rfl, by decide, rfl⟩
  | closeArray => exact ⟨byte ']', [], rfl, by decide, rfl⟩
  | openObject => exact ⟨byte '\x7b', [], rfl, by decide, rfl⟩
  | closeObject => exact ⟨byte '\x7d', [], rfl, by decide, rfl⟩
  | comma => exact ⟨byte ',', [], rfl, by decide, rfl⟩
  | colon => exact ⟨byte ':', [], rfl, by decide, rfl⟩
  | null =>
    exact ⟨byte 'n', utf8 ['u', 'l', 'l'], rfl, by decide,
      wordAt_text null ['u', 'l', 'l'] (by simp) rest⟩
  | bool b =>
    cases b with
    | true =>
      exact ⟨byte 't', utf8 ['r', 'u', 'e'], rfl, by decide,
        wordAt_text (bool true) ['r', 'u', 'e'] (by simp) rest⟩
    | false =>
      exact ⟨byte 'f', utf8 ['a', 'l', 's', 'e'], rfl, by decide,
        wordAt_text (bool false) ['a', 'l', 's', 'e'] (by simp) rest⟩
  | string s =>
    refine ⟨byte '"', utf8 (s.toList.flatMap escape) ++ [byte '"'], ?_, by decide, ?_⟩
    · rw [text, List.cons_append, utf8_cons, utf8_append]
      rfl
    · rw [List.append_assoc, next_quote]
      exact stringAt_text s rest
  | number n =>
    cases n with
    | integer i => exact exists_next_integer ht hrest
    | float x =>
      obtain rfl : x = .negativeZero := ht
      exact ⟨byte '-', utf8 ['0', '.', '0'], by decide, by decide, numberAt_negativeZero hrest⟩
  | brokenWord _ _ => exact ht.elim
  | brokenString _ _ => exact ht.elim
  | brokenNumber _ _ => exact ht.elim
  | stray => exact ht.elim

/-! ## Texts -/

/-- The bytes of some tokens. -/
def written (ts : List Token) : List UInt8 := utf8 (ts.flatMap text)

@[simp] theorem written_nil : written [] = [] := rfl

@[simp] theorem written_cons (t : Token) (ts : List Token) :
    written (t :: ts) = utf8 t.text ++ written ts := by simp [written]

@[simp] theorem written_append (ts us : List Token) :
    written (ts ++ us) = written ts ++ written us := by simp [written]

/-- Some bytes are scanned as some tokens, however many steps are allowed. -/
def Scans (bs : List UInt8) (ts : List Token) : Prop :=
  ∀ limit, bs.length ≤ limit → scanUpTo limit bs = ts

theorem Scans.nil : Scans [] [] := by
  intro limit _
  cases limit <;> rfl

theorem Scans.scan {bs : List UInt8} {ts : List Token} (h : Scans bs ts) : scan bs = ts :=
  h bs.length (Nat.le_refl _)

/-- A token in front of what is scanned already. -/
theorem Scans.cons {t : Token} (ht : t.Sound) {rest : List UInt8} {ts : List Token}
    (hrest : t.EndsBefore rest) (h : Scans rest ts) : Scans (utf8 t.text ++ rest) (t :: ts) := by
  obtain ⟨b, bs, hbs, hblank, hnext⟩ := exists_next_text ht hrest
  intro limit hlimit
  rw [hbs, List.cons_append] at hlimit ⊢
  cases limit with
  | zero => simp at hlimit
  | succ limit =>
    have hle : rest.length ≤ limit := by
      simp only [List.length_cons, List.length_append] at hlimit
      omega
    simp [scanUpTo, hblank, hnext, h limit hle]

/-- Separators and closing brackets end a numeral. -/
theorem endsNumeral_text {t : Token} (ht : t ∈ [comma, closeArray, closeObject])
    (rest : List UInt8) : EndsNumeral (utf8 t.text ++ rest) := by
  simp only [List.mem_cons, List.not_mem_nil, or_false] at ht
  rcases ht with rfl | rfl | rfl <;> rintro b ⟨⟩ <;> decide

end Token

namespace Json

open Token

/-- A value which is read back from its text: all its tokens are. -/
def Sound (v : Json) : Prop := ∀ t ∈ v.tokens, t.Sound

mutual

/-- A value is scanned as its tokens. -/
theorem scans_tokens {rest : List UInt8} {ts : List Token} (hrest : EndsNumeral rest)
    (h : Scans rest ts) : (v : Json) → (∀ t ∈ v.tokens, t.Sound) →
      Scans (written v.tokens ++ rest) (v.tokens ++ ts)
  | .null, _ => by simpa [tokens] using h.cons (t := .null) trivial trivial
  | .bool b, _ => by simpa [tokens] using h.cons (t := .bool b) trivial trivial
  | .number n, hs => by
    simpa [tokens] using h.cons (t := .number n) (hs _ (by simp [tokens])) hrest
  | .string s, _ => by simpa [tokens] using h.cons (t := .string s) trivial trivial
  | .array vs, hs => by
    have hclose := h.cons (t := .closeArray) trivial trivial
    have hitems := scans_itemTokens (endsNumeral_text (by simp) rest) hclose vs
      fun t ht => hs t (by simp [tokens, ht])
    simpa [tokens] using hitems.cons (t := .openArray) trivial trivial
  | .object fs, hs => by
    have hclose := h.cons (t := .closeObject) trivial trivial
    have hfields := scans_fieldTokens (endsNumeral_text (by simp) rest) hclose fs
      fun t ht => hs t (by simp [tokens, ht])
    simpa [tokens] using hfields.cons (t := .openObject) trivial trivial

/-- Elements are scanned as their tokens. -/
theorem scans_itemTokens {rest : List UInt8} {ts : List Token} (hrest : EndsNumeral rest)
    (h : Scans rest ts) : (vs : List Json) → (∀ t ∈ itemTokens vs, t.Sound) →
      Scans (written (itemTokens vs) ++ rest) (itemTokens vs ++ ts)
  | [], _ => h
  | [v], hs => scans_tokens hrest h v hs
  | v :: w :: vs, hs => by
    have hmore := scans_itemTokens hrest h (w :: vs) fun t ht => hs t (by simp [itemTokens, ht])
    have hcomma := hmore.cons (t := .comma) trivial trivial
    simpa [itemTokens] using scans_tokens (endsNumeral_text (by simp) _) hcomma v
      fun t ht => hs t (by simp [itemTokens, ht])

/-- Fields are scanned as their tokens. -/
theorem scans_fieldTokens {rest : List UInt8} {ts : List Token} (hrest : EndsNumeral rest)
    (h : Scans rest ts) : (fs : List (String × Json)) → (∀ t ∈ fieldTokens fs, t.Sound) →
      Scans (written (fieldTokens fs) ++ rest) (fieldTokens fs ++ ts)
  | [], _ => h
  | [(k, v)], hs => by
    have hvalue := scans_tokens hrest h v fun t ht => hs t (by simp [fieldTokens, ht])
    have hcolon := hvalue.cons (t := .colon) trivial trivial
    simpa [fieldTokens] using hcolon.cons (t := .string k) trivial trivial
  | (k, v) :: f :: fs, hs => by
    have hmore := scans_fieldTokens hrest h (f :: fs) fun t ht => hs t (by simp [fieldTokens, ht])
    have hcomma := hmore.cons (t := .comma) trivial trivial
    have hvalue := scans_tokens (endsNumeral_text (by simp) _) hcomma v
      fun t ht => hs t (by simp [fieldTokens, ht])
    have hcolon := hvalue.cons (t := .colon) trivial trivial
    simpa [fieldTokens] using hcolon.cons (t := .string k) trivial trivial

end

/-- The text of a value is cut into the tokens of the value. -/
theorem scan_text {v : Json} (hs : v.Sound) :
    scan v.text.toUTF8.data.toList = v.tokens := by
  have hscans := scans_tokens (by simp [EndsNumeral]) Scans.nil v hs
  rw [text, toUTF8_ofList]
  simpa [written] using hscans.scan

end Json

end TenantRestore
