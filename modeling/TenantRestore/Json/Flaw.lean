/-
# Flaws of JSON texts

What can be wrong with a text that should be JSON, and what is said about it.  Somebody who
only wants the value learns what kind of problem there is; a log also says what is wrong and
in which line and column.

The place of a flaw is that of the byte which shows it: the first one that can't stand where
it stands, or the end of the text if more is needed.
-/

namespace TenantRestore

/-- Something that is wrong with a text. -/
inductive Flaw
  /-- The text ends within an array. -/
  | unclosedArray
  /-- The text ends within an object. -/
  | unclosedObject
  /-- The text ends within a string. -/
  | unclosedString
  /-- The text ends where a value is needed, or within a number or word. -/
  | unfinishedValue
  /-- Something else than a value. -/
  | noValue
  /-- Something else than the separator of a key and its value. -/
  | noColon
  /-- Something else than a separator or the end of an array. -/
  | noItemEnd
  /-- Something else than a separator or the end of an object. -/
  | noFieldEnd
  /-- A key which is no string. -/
  | noKey
  /-- A separator with nothing behind it. -/
  | trailingComma
  /-- Something after the value. -/
  | trailingText
  /-- An unknown word. -/
  | badWord
  /-- A number which is not written as it should be. -/
  | badNumber
  /-- A number beyond all floats. -/
  | hugeNumber
  /-- An unknown escape within a string. -/
  | badEscape
  /-- The first surrogate of a pair without an escape behind it. -/
  | brokenPair
  /-- A surrogate without its partner. -/
  | loneSurrogate
  /-- A string which is no UTF-8. -/
  | badText
  /-- A control character within a string. -/
  | controlCharacter
  /-- Too many arrays and objects within each other. -/
  | tooDeep
deriving DecidableEq, Repr

namespace Flaw

/-- The wording of a flaw. -/
def message : Flaw → String
  | unclosedArray => "EOF while parsing a list"
  | unclosedObject => "EOF while parsing an object"
  | unclosedString => "EOF while parsing a string"
  | unfinishedValue => "EOF while parsing a value"
  | noValue => "expected value"
  | noColon => "expected `:`"
  | noItemEnd => "expected `,` or `]`"
  | noFieldEnd => "expected `,` or `\x7d`"
  | noKey => "key must be a string"
  | trailingComma => "trailing comma"
  | trailingText => "trailing characters"
  | badWord => "expected ident"
  | badNumber => "invalid number"
  | hugeNumber => "number out of range"
  | badEscape => "invalid escape"
  | brokenPair => "unexpected end of hex escape"
  | loneSurrogate => "lone leading surrogate in hex escape"
  | badText => "invalid unicode code point"
  | controlCharacter => "control character (\\u0000-\\u001F) found while parsing a string"
  | tooDeep => "recursion limit exceeded"

/-- Whether a longer text might be without the flaw. -/
def isTruncation : Flaw → Bool
  | unclosedArray | unclosedObject | unclosedString | unfinishedValue => true
  | _ => false

end Flaw

/-- A place in a text. -/
structure Place where
  /-- The number of the line, from one. -/
  line : Nat
  /-- The number of bytes in the line up to the place. -/
  column : Nat
deriving DecidableEq, Repr

/-- The place at the end of some bytes. -/
def Place.after (bytes : List UInt8) : Place where
  line := bytes.count 0x0a + 1
  column := (bytes.reverse.takeWhile (· ≠ 0x0a)).length

/-- The first flaw of a text. -/
structure Diagnosis where
  /-- What is wrong. -/
  flaw : Flaw
  /-- Where it is. -/
  place : Place
deriving DecidableEq, Repr

/-- The wording of a flaw and its place. -/
def Diagnosis.message (d : Diagnosis) : String :=
  d.flaw.message ++ " at line " ++ toString d.place.line ++ " column " ++ toString d.place.column

/-- What keeps a text from being read. -/
inductive Problem
  /-- The text ends too early. -/
  | truncated
  /-- The text is not JSON. -/
  | malformed
  /-- The text is JSON, but not of the expected shape. -/
  | mismatched
  /-- The text is not JSON, and its first flaw is known. -/
  | flawed (diagnosis : Diagnosis)
deriving DecidableEq, Repr

/-- The problem a flaw is. -/
def Flaw.problem (f : Flaw) : Problem := if f.isTruncation then .truncated else .malformed

namespace Problem

/-- The short name of a problem. -/
def name : Problem → String
  | truncated => "eof"
  | malformed => "syntax"
  | mismatched => "data"
  | flawed d => if d.flaw.isTruncation then "eof" else "syntax"

/-- The wording of a problem, which only says of what kind it is. -/
def message (p : Problem) : String := "<json error: " ++ p.name ++ ">"

/-- All that is known about a problem. -/
def details : Problem → String
  | flawed d => d.message
  | p => p.message

end Problem

/-- A flaw met while reading bytes. -/
structure Halt where
  /-- What is wrong. -/
  flaw : Flaw
  /-- The number of bytes behind the one which shows it. -/
  unread : Nat
deriving DecidableEq, Repr

namespace Halt

/-- The problem of a text which is not read further. -/
def problem (h : Halt) : Problem := h.flaw.problem

/-- The diagnosis of a text which can be read up to a flaw. -/
def diagnose (text : List UInt8) (h : Halt) : Diagnosis :=
  ⟨h.flaw, .after (text.take (text.length - h.unread))⟩

end Halt

end TenantRestore
