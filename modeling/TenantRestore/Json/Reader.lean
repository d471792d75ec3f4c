/-
# Reading values of a known shape

A reader takes the value it expects from the front of some tokens and leaves the rest.  It
works from left to right and the first problem it meets decides, so a value of a wrong shape
is reported even if the text is broken further on.  A scalar of a wrong shape is read to its
end first, an array or object is not.

Records are read by the names of their fields, or by position if they are written as arrays.
-/
import TenantRestore.Json.Basic

namespace TenantRestore

/-- A reader of values at the front of some tokens. -/
abbrev Reader (α : Type) := List Token → Except Problem (α × List Token)

namespace Reader

/-- The problem of finding another value than the expected one. -/
def unexpected : List Token → Problem
  | [] => .truncated
  | .null :: _ => .mismatched
  | .bool _ :: _ => .mismatched
  | .number _ :: _ => .mismatched
  | .string _ :: _ => .mismatched
  | .openArray :: _ => .mismatched
  | .openObject :: _ => .mismatched
  | .brokenWord _ h :: _ => h.problem
  | .brokenString h _ :: _ => h.problem
  | .brokenNumber h _ :: _ => h.problem
  | .closeArray :: _ => .malformed
  | .closeObject :: _ => .malformed
  | .comma :: _ => .malformed
  | .colon :: _ => .malformed
  | .stray :: _ => .malformed

/-! ## Scalars -/

/-- Read a string. -/
def string : Reader String
  | .string s :: ts => .ok (s, ts)
  | ts => .error (unexpected ts)

/-- Read a truth value. -/
def bool : Reader Bool
  | .bool b :: ts => .ok (b, ts)
  | ts => .error (unexpected ts)

/-- Read an integer from zero to a limit. -/
def natural (limit : Nat) : Reader Nat
  | .number (.integer i) :: ts =>
    if 0 ≤ i ∧ i ≤ limit then .ok (i.toNat, ts) else .error .mismatched
  | ts => .error (unexpected ts)

/-- Read a value and convert it; a value without conversion is a mismatch. -/
def convert {α β : Type} (r : Reader α) (f : α → Option β) : Reader β := fun ts => do
  let (a, ts) ← r ts
  match f a with
  | some b => return (b, ts)
  | none => .error .mismatched

/-- Read a value that may be absent, which is written as null. -/
def optional {α : Type} (r : Reader α) : Reader (Option α)
  | .null :: ts => .ok (none, ts)
  | .brokenWord true h :: _ => .error h.problem
  | ts => do
    let (a, ts) ← r ts
    return (some a, ts)

/-- Read the separator between a key and its value. -/
def colon : Reader Unit
  | .colon :: ts => .ok ((), ts)
  | [] => .error .truncated
  | _ => .error .malformed

/-- Read a string where the text can't go on with anything else. -/
def quoted : Reader String
  | .string s :: ts => .ok (s, ts)
  | .brokenString h _ :: _ => .error h.problem
  | [] => .error .truncated
  | _ => .error .malformed

/-- Read one of the names of `named`: as a string, or as an object of one field of that name
with the value null. -/
def oneOf {α : Type} (named : String → Option α) : Reader α
  | .openObject :: ts => do
    let (a, ts) ← convert quoted named ts
    let (_, ts) ← colon ts
    match ts with
    | .null :: .closeObject :: ts => return (a, ts)
    | [.null] => .error .truncated
    | .null :: _ => .error .malformed
    | ts => .error (unexpected ts)
  | ts => convert quoted named ts

/-! ## Skipping a value -/

/-- What can stand next while a value is skipped. -/
inductive Awaited
  /-- A value. -/
  | value
  /-- The first element of an array, or its end. -/
  | firstItem
  /-- A further element of an array. -/
  | item
  /-- The first key of an object, or its end. -/
  | firstKey
  /-- A further key of an object. -/
  | key
  /-- The separator between a key and its value. -/
  | colon
  /-- A separator or the end of the innermost array or object. -/
  | more

/-- A bracket that is still open: whether it is that of an object. -/
abbrev Bracket := Bool

/-- What is done after a token has been skipped. -/
inductive Skip
  /-- Wait for something else, within some open brackets. -/
  | go (next : Awaited) (brackets : List Bracket)
  /-- Stop at a problem. -/
  | stop (problem : Problem)

/-- A value is complete: go on within the brackets around it. -/
def Skip.complete (brackets : List Bracket) : Skip := .go .more brackets

/-- Skip a token where a value is awaited. -/
def skipValue (brackets : List Bracket) : Token → Skip
  | .openArray => .go .firstItem (false :: brackets)
  | .openObject => .go .firstKey (true :: brackets)
  | .null => .complete brackets
  | .bool _ => .complete brackets
  | .string _ => .complete brackets
  | .number _ => .complete brackets
  | .brokenString _ none => .complete brackets
  | .brokenNumber _ none => .complete brackets
  | .brokenString _ (some p) => .stop p
  | .brokenNumber _ (some p) => .stop p
  | .brokenWord _ h => .stop h.problem
  | _ => .stop .malformed

/-- Skip a token where a key is awaited. -/
def skipKey (brackets : List Bracket) : Token → Skip
  | .string _ => .go .colon brackets
  | .brokenString _ none => .go .colon brackets
  | .brokenString _ (some p) => .stop p
  | _ => .stop .malformed

/-- Skip a token. -/
def skipToken : Awaited → List Bracket → Token → Skip
  | .value, brackets, t => skipValue brackets t
  | .firstItem, _ :: outer, .closeArray => .complete outer
  | .firstItem, brackets, t => skipValue brackets t
  | .item, brackets, t => skipValue brackets t
  | .firstKey, _ :: outer, .closeObject => .complete outer
  | .firstKey, brackets, t => skipKey brackets t
  | .key, brackets, t => skipKey brackets t
  | .colon, brackets, .colon => .go .value brackets
  | .more, false :: outer, .comma => .go .item (false :: outer)
  | .more, true :: outer, .comma => .go .key (true :: outer)
  | .more, false :: outer, .closeArray => .complete outer
  | .more, true :: outer, .closeObject => .complete outer
  | _, _, _ => .stop .malformed

/-- Skip tokens until the value they start with is complete. -/
def skipFrom : Awaited → List Bracket → List Token → Except Problem (List Token)
  | .more, [], ts => .ok ts
  | _, _, [] => .error .truncated
  | awaited, brackets, t :: ts =>
    match skipToken awaited brackets t with
    | .go next brackets => skipFrom next brackets ts
    | .stop p => .error p

/-- Skip a value; only its grammar is looked at. -/
def skip : Reader Unit := fun ts => do
  let ts ← skipFrom .value [] ts
  return ((), ts)

/-! ## Arrays -/

/-- Go on to the next element of an array, if there is one; `first` if none has been read. -/
def nextItem (first : Bool) : Reader Bool
  | [] => .error .truncated
  | .closeArray :: ts => .ok (false, ts)
  | .comma :: ts =>
    if first then .ok (true, .comma :: ts)
    else
      match ts with
      | [] => .error .truncated
      | .closeArray :: _ => .error .malformed
      | ts => .ok (true, ts)
  | ts => if first then .ok (true, ts) else .error .malformed

/-- The elements of an array, of which there are less than `limit`. -/
def items {α : Type} (r : Reader α) : (limit : Nat) → (first : Bool) → Reader (List α)
  | 0, _, _ => .error .truncated
  | limit + 1, first, ts => do
    let (more, ts) ← nextItem first ts
    if more then
      let (a, ts) ← r ts
      let (as, ts) ← items r limit false ts
      return (a :: as, ts)
    else return ([], ts)

/-- Read an array. -/
def array {α : Type} (r : Reader α) : Reader (List α)
  | .openArray :: ts => items r (ts.length + 1) true ts
  | ts => .error (unexpected ts)

/-! ## Records -/

/-- Go on to the next key of an object, if there is one; `first` if none has been read. -/
def nextKey (first : Bool) : Reader (Option String)
  | [] => .error .truncated
  | .closeObject :: ts => .ok (none, ts)
  | t :: ts =>
    let ts := if first then t :: ts else ts
    if !first ∧ t ≠ .comma then .error .malformed
    else (quoted ts).map fun (k, ts) => (some k, ts)

/-- A field of a record which is read into a value of `ρ`. -/
structure Field (ρ : Type) where
  /-- The name of the field. -/
  name : String
  /-- Whether the field has to be there. -/
  required : Bool
  /-- Read the value of the field and store it. -/
  read : Reader (ρ → ρ)

/-- A field stored by a setter. -/
def field {α ρ : Type} (name : String) (r : Reader α) (set : α → ρ → ρ) : Field ρ where
  name := name
  required := false
  read := fun ts => do
    let (a, ts) ← r ts
    return (set a, ts)

/-- A field which has to be there. -/
def Field.needed {ρ : Type} (f : Field ρ) : Field ρ := { f with required := true }

/-- The fields of an object, less than `limit` of them; `seen` have been read already.  In an
open record unknown fields are skipped, in a closed one there must be none. -/
def members {ρ : Type} (open_ : Bool) (fields : List (Field ρ)) :
    (limit : Nat) → (seen : List String) → (first : Bool) → ρ → Reader ρ
  | 0, _, _, _, _ => .error .truncated
  | limit + 1, seen, first, a, ts => do
    let (key, ts) ← nextKey first ts
    match key with
    | none =>
      if fields.all fun f => !f.required || seen.contains f.name then return (a, ts)
      else .error .mismatched
    | some k =>
      match fields.find? fun f => f.name = k with
      | some f =>
        if seen.contains k then .error .mismatched
        else
          let (_, ts) ← colon ts
          let (set, ts) ← f.read ts
          members open_ fields limit (k :: seen) false (set a) ts
      | none =>
        if open_ then
          let (_, ts) ← colon ts
          let (_, ts) ← skip ts
          members open_ fields limit seen false a ts
        else .error .mismatched

/-- The fields of a record in their order; those at the end may be left out unless they are
required. -/
def positions {ρ : Type} : List (Field ρ) → (first : Bool) → ρ → Reader ρ
  | [], _, a, .closeArray :: ts => .ok (a, ts)
  | [], _, _, [] => .error .truncated
  | [], _, _, _ => .error .malformed
  | f :: fs, first, a, ts => do
    let (more, ts) ← nextItem first ts
    if more then
      let (set, ts) ← f.read ts
      positions fs false (set a) ts
    else if (f :: fs).any Field.required then .error .mismatched
    else return (a, ts)

/-- Read a record, starting with the values its fields have by default. -/
def record {ρ : Type} (open_ : Bool) (fields : List (Field ρ)) (start : ρ) : Reader ρ
  | .openObject :: ts => members open_ fields (ts.length + 1) [] true start ts
  | .openArray :: ts => positions fields true start ts
  | ts => .error (unexpected ts)

/-! ## Whole texts and values -/

/-- Read a whole text, after which nothing may follow. -/
def readText {α : Type} (r : Reader α) (data : ByteArray) : Except Problem α := do
  let (a, rest) ← r (Token.scan data.data.toList)
  if rest.isEmpty then return a else .error .malformed

/-- Read a value in memory through its tokens. -/
def readValue? {α : Type} (r : Reader α) (v : Json) : Option α :=
  match r v.tokens with
  | .ok (a, []) => some a
  | _ => none

end Reader

end TenantRestore
