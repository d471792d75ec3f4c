/-
# Tokens of JSON texts

A JSON text is a sequence of brackets, separators, words, strings and numbers with blanks
between them.  `Token.scan` cuts a text, given as bytes, into these tokens, `Token.text`
writes them back without blanks.

A text may be wrong at any place, and what a reader says about it depends on how it came
there: a value which is only skipped may hold an unpaired surrogate, bytes which are no
UTF-8, or a number beyond all floats.  Scanning therefore never fails.  A string, number or
word which is not sound becomes a broken token, which keeps the flaw a reader meets when it
wants the value, and the problem it meets when it skips the value, if there is one.
-/
import TenantRestore.Json.Flaw
import TenantRestore.Json.Number
import TenantRestore.Binary64.Shortest

namespace TenantRestore

/-- A token of a JSON text. -/
inductive Token
  /-- The opening bracket of an array. -/
  | openArray
  /-- The closing bracket of an array. -/
  | closeArray
  /-- The opening brace of an object. -/
  | openObject
  /-- The closing brace of an object. -/
  | closeObject
  /-- The separator of elements and fields. -/
  | comma
  /-- The separator of a key and its value. -/
  | colon
  /-- The absent value. -/
  | null
  /-- A truth value. -/
  | bool (value : Bool)
  /-- A string. -/
  | string (value : String)
  /-- A number. -/
  | number (value : Number)
  /-- A word which starts like one of the three known ones; whether this is that of null. -/
  | brokenWord (ofNull : Bool) (halt : Halt)
  /-- A string which can't be read, with the flaw of reading and the problem of skipping it. -/
  | brokenString (halt : Halt) (skipped : Option Problem)
  /-- A number which can't be read, with the flaw of reading and the problem of skipping it. -/
  | brokenNumber (halt : Halt) (skipped : Option Problem)
  /-- A character which starts no token. -/
  | stray
deriving DecidableEq, Repr

namespace Token

/-- The byte of an ASCII character. -/
def byte (c : Char) : UInt8 := c.toUInt8

/-- Whether a byte is a blank between tokens. -/
def isBlank (b : UInt8) : Bool := b == 0x20 || b == 0x0a || b == 0x09 || b == 0x0d

/-- The value of a decimal digit. -/
def digit? (b : UInt8) : Option Nat :=
  if 0x30 ≤ b ∧ b ≤ 0x39 then some (b.toNat - 0x30) else none

/-- The value of a hexadecimal digit of either case. -/
def hexDigit? (b : UInt8) : Option Nat :=
  if 0x30 ≤ b ∧ b ≤ 0x39 then some (b.toNat - 0x30)
  else if 0x61 ≤ b ∧ b ≤ 0x66 then some (b.toNat - 0x57)
  else if 0x41 ≤ b ∧ b ≤ 0x46 then some (b.toNat - 0x37)
  else none

/-- The value of four hexadecimal digits. -/
def hexUnit? (a b c d : UInt8) : Option Nat := do
  let a ← hexDigit? a
  let b ← hexDigit? b
  let c ← hexDigit? c
  let d ← hexDigit? d
  return ((a * 16 + b) * 16 + c) * 16 + d

/-! ## Strings -/

/-- A piece of a string: a byte that stands for itself, or a UTF-16 unit given by its number. -/
inductive Piece
  /-- A byte of the UTF-8 form of the string. -/
  | byte (value : UInt8)
  /-- A UTF-16 unit. -/
  | unit (value : Nat)
deriving DecidableEq, Repr

/-- How the pieces of a string end. -/
inductive Ending
  /-- At the closing quote. -/
  | closed
  /-- At the end of the text. -/
  | cutOff
  /-- At a control character or at an unknown escape. -/
  | broken
deriving DecidableEq, Repr

/-- The byte of an escape with a single letter. -/
def escaped? (e : UInt8) : Option UInt8 :=
  if e = byte '"' then some e
  else if e = byte '\\' then some e
  else if e = byte '/' then some e
  else if e = byte 'b' then some 0x08
  else if e = byte 'f' then some 0x0c
  else if e = byte 'n' then some 0x0a
  else if e = byte 'r' then some 0x0d
  else if e = byte 't' then some 0x09
  else none

/-- Put a piece in front of others. -/
def addPiece (p : Piece) (r : List Piece × Ending × List UInt8) :
    List Piece × Ending × List UInt8 :=
  (p :: r.1, r.2)

/-- The pieces of the string whose opening quote has been read, how it ends, and what follows. -/
def pieces : List UInt8 → List Piece × Ending × List UInt8
  | [] => ([], .cutOff, [])
  | b :: bs =>
    if b = byte '"' then ([], .closed, bs)
    else if b = byte '\\' then
      match bs with
      | [] => ([], .cutOff, [])
      | e :: bs =>
        if e = byte 'u' then
          match bs with
          | x₁ :: x₂ :: x₃ :: x₄ :: bs =>
            match hexUnit? x₁ x₂ x₃ x₄ with
            | some u => addPiece (.unit u) (pieces bs)
            | none => ([], .broken, bs)
          | _ => ([], .cutOff, [])
        else
          match escaped? e with
          | some c => addPiece (.byte c) (pieces bs)
          | none => ([], .broken, bs)
    else if b < 0x20 then ([], .broken, bs)
    else addPiece (.byte b) (pieces bs)

/-- Whether a UTF-16 unit is the first of a pair. -/
def isLeading (u : Nat) : Bool := 0xd800 ≤ u && u ≤ 0xdbff

/-- Whether a UTF-16 unit is the second of a pair. -/
def isTrailing (u : Nat) : Bool := 0xdc00 ≤ u && u ≤ 0xdfff

/-- The UTF-8 form of a code point. -/
def encode (n : Nat) : List UInt8 := String.utf8EncodeChar (Char.ofNat n)

/-- The UTF-8 form of some pieces; nothing if a surrogate has no partner. -/
def utf8? : List Piece → Option (List UInt8)
  | [] => some []
  | .byte b :: ps => (utf8? ps).map (b :: ·)
  | .unit u :: ps =>
    if isTrailing u then none
    else if isLeading u then
      match ps with
      | .unit v :: ps =>
        if isTrailing v then
          (utf8? ps).map (encode ((u - 0xd800) * 0x400 + (v - 0xdc00) + 0x10000) ++ ·)
        else none
      | _ => none
    else (utf8? ps).map (encode u ++ ·)

/-- The string of some pieces; nothing if they are no text. -/
def string? (ps : List Piece) : Option String :=
  (utf8? ps).bind fun bs => String.fromUTF8? ⟨bs.toArray⟩

/-- The problem of skipping a string, of which only the ending matters. -/
def Ending.skipped : Ending → Option Problem
  | .closed => none
  | .cutOff => some .truncated
  | .broken => some .malformed

/-- The first flaw of the escapes and characters of a string whose opening quote has been read;
`half` if the first surrogate of a pair stands in front. -/
def stringHalt? (half : Bool) : List UInt8 → Option Halt
  | [] => some ⟨.unclosedString, 0⟩
  | b :: bs =>
    if b = byte '\\' then
      match bs with
      | [] => some ⟨.unclosedString, 0⟩
      | e :: bs =>
        if e = byte 'u' then
          match bs with
          | x₁ :: x₂ :: x₃ :: x₄ :: bs =>
            match hexUnit? x₁ x₂ x₃ x₄ with
            | some u =>
              if isTrailing u = half then stringHalt? (!half && isLeading u) bs
              else some ⟨.loneSurrogate, bs.length⟩
            | none => some ⟨.badEscape, bs.length⟩
          | _ => some ⟨.unclosedString, 0⟩
        else if half then some ⟨.brokenPair, bs.length⟩
        else
          match escaped? e with
          | some _ => stringHalt? false bs
          | none => some ⟨.badEscape, bs.length⟩
    else if half then some ⟨.brokenPair, bs.length⟩
    else if b = byte '"' then none
    else if b < 0x20 then some ⟨.controlCharacter, bs.length⟩
    else stringHalt? false bs

/-- The token of a string whose opening quote has been read, and what follows it. -/
def stringAt (bs : List UInt8) : Token × Option (List UInt8) :=
  let (ps, ending, rest) := pieces bs
  let after := if ending = .closed then some rest else none
  match after, string? ps with
  | some _, some s => (.string s, after)
  | _, _ =>
    (.brokenString ((stringHalt? false bs).getD ⟨.badText, rest.length⟩) ending.skipped, after)

/-! ## Numbers and words -/

/-- The digits at the start of a text. -/
def digits : List UInt8 → List Nat × List UInt8
  | [] => ([], [])
  | b :: bs =>
    match digit? b with
    | some d => let (ds, rest) := digits bs; (d :: ds, rest)
    | none => ([], b :: bs)

/-- The digits at the start of a text, which must have at least one. -/
def someDigits (bs : List UInt8) : Except Halt (List Nat × List UInt8) :=
  match digits bs with
  | ([], []) => .error ⟨.unfinishedValue, 0⟩
  | ([], _ :: rest) => .error ⟨.badNumber, rest.length⟩
  | r => .ok r

/-- The digits in front of the point: a zero only stands alone. -/
def wholeDigits (bs : List UInt8) : Except Halt (List Nat × List UInt8) := do
  match ← someDigits bs with
  | (0 :: _ :: _, _) => .error ⟨.badNumber, bs.length - 2⟩
  | r => .ok r

/-- The digits after the point, if there is a point. -/
def fractionDigits : List UInt8 → Except Halt (Option (List Nat) × List UInt8)
  | [] => .ok (none, [])
  | b :: bs =>
    if b = byte '.' then (someDigits bs).map fun (ds, rest) => (some ds, rest)
    else .ok (none, b :: bs)

/-- The sign of an exponent, if there is one. -/
def exponentSign : List UInt8 → Bool × List UInt8
  | [] => (false, [])
  | b :: bs =>
    if b = byte '-' then (true, bs) else if b = byte '+' then (false, bs) else (false, b :: bs)

/-- The exponent, if there is one. -/
def exponentDigits : List UInt8 → Except Halt (Option (Bool × List Nat) × List UInt8)
  | [] => .ok (none, [])
  | b :: bs =>
    if b = byte 'e' ∨ b = byte 'E' then
      let (minus, bs) := exponentSign bs
      (someDigits bs).map fun (ds, rest) => (some (minus, ds), rest)
    else .ok (none, b :: bs)

/-- The numeral at the start of a text, behind its sign. -/
def numeral (negative : Bool) (bs : List UInt8) : Except Halt (Numeral × List UInt8) := do
  let (whole, bs) ← wholeDigits bs
  let (fraction, bs) ← fractionDigits bs
  let (power, bs) ← exponentDigits bs
  return (⟨negative, whole, fraction, power⟩, bs)

/-- The number at the start of a text, behind its sign.  An unfinished number is no value
that could be skipped. -/
def numberAt (negative : Bool) (bs : List UInt8) : Token × Option (List UInt8) :=
  match numeral negative bs with
  | .ok (n, rest) =>
    match n.value? with
    | some v => (.number v, some rest)
    | none => (.brokenNumber ⟨.hugeNumber, rest.length + n.surplus⟩ none, some rest)
  | .error h => (.brokenNumber h (some .malformed), none)

/-- What follows the rest of a word. -/
def afterWord : List Char → List UInt8 → Except Halt (List UInt8)
  | [], bs => .ok bs
  | _ :: _, [] => .error ⟨.unfinishedValue, 0⟩
  | c :: cs, b :: bs => if b = byte c then afterWord cs bs else .error ⟨.badWord, bs.length⟩

/-- The token of a word whose first letter has been read. -/
def wordAt (word : Token) (rest : List Char) (bs : List UInt8) : Token × Option (List UInt8) :=
  match afterWord rest bs with
  | .ok bs => (word, some bs)
  | .error h => (.brokenWord (word = .null) h, none)

/-! ## Scanning -/

/-- The token which starts with a byte, and what follows it, if a token can follow. -/
def next (b : UInt8) (bs : List UInt8) : Token × Option (List UInt8) :=
  if b = byte '[' then (.openArray, some bs)
  else if b = byte ']' then (.closeArray, some bs)
  else if b = byte '\x7b' then (.openObject, some bs)
  else if b = byte '\x7d' then (.closeObject, some bs)
  else if b = byte ',' then (.comma, some bs)
  else if b = byte ':' then (.colon, some bs)
  else if b = byte '"' then stringAt bs
  else if b = byte 'n' then wordAt .null ['u', 'l', 'l'] bs
  else if b = byte 't' then wordAt (.bool true) ['r', 'u', 'e'] bs
  else if b = byte 'f' then wordAt (.bool false) ['a', 'l', 's', 'e'] bs
  else if b = byte '-' then numberAt true bs
  else if (digit? b).isSome then numberAt false (b :: bs)
  else (.stray, none)

/-- The tokens of a text of at most `limit` bytes. -/
def scanUpTo : (limit : Nat) → List UInt8 → List Token
  | 0, _ => []
  | _ + 1, [] => []
  | limit + 1, b :: bs =>
    if isBlank b then scanUpTo limit bs
    else
      match next b bs with
      | (t, some rest) => t :: scanUpTo limit rest
      | (t, none) => [t]

/-- The tokens of a text. -/
def scan (bs : List UInt8) : List Token := scanUpTo bs.length bs

/-! ## Writing -/

/-- The lower case digit of a number below sixteen. -/
def hexChar (n : Nat) : Char := Nat.digitChar n

/-- A character within a string: quotes, backslashes and control characters are escaped. -/
def escape (c : Char) : List Char :=
  if c = '"' then ['\\', '"']
  else if c = '\\' then ['\\', '\\']
  else if c.toNat = 0x08 then ['\\', 'b']
  else if c.toNat = 0x09 then ['\\', 't']
  else if c.toNat = 0x0a then ['\\', 'n']
  else if c.toNat = 0x0c then ['\\', 'f']
  else if c.toNat = 0x0d then ['\\', 'r']
  else if c.toNat < 0x20 then ['\\', 'u', '0', '0', hexChar (c.toNat / 16), hexChar (c.toNat % 16)]
  else [c]

/-- Floats are written positionally from 0.00001 up to below 10^16. -/
def floatLayout : DecimalLayout := ⟨-5, 16⟩

/-- The text of a number. -/
def numberText : Number → List Char
  | .integer i => if i < 0 then '-' :: digitChars i.natAbs else digitChars i.natAbs
  | .float x =>
    let magnitude := floatLayout.write x.shortest
    if x.negative then '-' :: magnitude else magnitude

/-- The text of a token; a broken one has none. -/
def text : Token → List Char
  | .openArray => ['[']
  | .closeArray => [']']
  | .openObject => ['\x7b']
  | .closeObject => ['\x7d']
  | .comma => [',']
  | .colon => [':']
  | .null => ['n', 'u', 'l', 'l']
  | .bool true => ['t', 'r', 'u', 'e']
  | .bool false => ['f', 'a', 'l', 's', 'e']
  | .string s => '"' :: s.toList.flatMap escape ++ ['"']
  | .number n => numberText n
  | .brokenWord _ _ => []
  | .brokenString _ _ => []
  | .brokenNumber _ _ => []
  | .stray => []

end Token

end TenantRestore
