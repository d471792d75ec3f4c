/-
# The first flaw of a text

A text is read from left to right, token by token, without building a value.  At every token
it is known what may come next, so the first token that can't stand where it stands is found,
and the first string, number or word that is broken itself.
-/
import TenantRestore.Json.Reader

namespace TenantRestore

namespace Reader

/-- The flaw of a text that ends where something is awaited, unless it may end there. -/
def Awaited.missing? : Awaited → List Bracket → Option Flaw
  | .value, _ => some .unfinishedValue
  | .firstItem, _ => some .unclosedArray
  | .item, _ => some .unfinishedValue
  | .firstKey, _ => some .unclosedObject
  | .key, _ => some .unfinishedValue
  | .colon, _ => some .unclosedObject
  | .more, [] => none
  | .more, false :: _ => some .unclosedArray
  | .more, true :: _ => some .unclosedObject

/-- The flaw of a text with another token than what is awaited. -/
def Awaited.unfit : Awaited → List Bracket → Token → Flaw
  | .item, _, .closeArray => .trailingComma
  | .value, _, _ => .noValue
  | .firstItem, _, _ => .noValue
  | .item, _, _ => .noValue
  | .key, _, .closeObject => .trailingComma
  | .firstKey, _, _ => .noKey
  | .key, _, _ => .noKey
  | .colon, _, _ => .noColon
  | .more, [], _ => .trailingText
  | .more, false :: _, _ => .noItemEnd
  | .more, true :: _, _ => .noFieldEnd

/-- The flaw within a broken token, if a token of its kind is awaited. -/
def Awaited.halt? : Awaited → Token → Option Halt
  | .colon, _ => none
  | .more, _ => none
  | _, .brokenString h _ => some h
  | .firstKey, _ => none
  | .key, _ => none
  | _, .brokenNumber h _ => some h
  | _, .brokenWord _ h => some h
  | _, _ => none

/-- Go on behind a token, of which all but the first byte is among the `unread` bytes; there may
be less than `levels` open brackets. -/
def passToken (levels : Nat) (awaited : Awaited) (brackets : List Bracket) (t : Token)
    (unread : Nat) : Except Halt (Awaited × List Bracket) :=
  match awaited.halt? t, skipToken awaited brackets t with
  | some h, _ => .error h
  | none, .stop _ => .error ⟨awaited.unfit brackets t, unread⟩
  | none, .go next inner =>
    if inner.length < levels then .ok (next, inner) else .error ⟨.tooDeep, unread⟩

/-- The first flaw of the rest of a text of at most `limit` bytes. -/
def haltFrom (levels : Nat) : (limit : Nat) → Awaited → List Bracket → List UInt8 → Option Halt
  | _, awaited, brackets, [] => (awaited.missing? brackets).map (⟨·, 0⟩)
  | 0, _, _, _ :: _ => none
  | limit + 1, awaited, brackets, b :: bs =>
    if Token.isBlank b then haltFrom levels limit awaited brackets bs
    else
      let (t, rest) := Token.next b bs
      match passToken levels awaited brackets t bs.length with
      | .error h => some h
      | .ok (next, inner) => haltFrom levels limit next inner (rest.getD [])

end Reader

/-- The first flaw of a text in which less than `levels` arrays and objects may be nested. -/
def Diagnosis.ofText? (levels : Nat) (text : List UInt8) : Option Diagnosis :=
  (Reader.haltFrom levels text.length .value [] text).map (Halt.diagnose text)

end TenantRestore
