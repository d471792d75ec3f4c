/-
# Reading values of any shape

Arrays and objects may be nested, but not deeper than a fixed number of levels; strings and
numbers must be sound everywhere.
-/
import TenantRestore.Json.FirstFlaw

namespace TenantRestore

namespace Reader

/-- The fields of an object, less than `limit` of them, their values read by `r`. -/
def fields {α : Type} (r : Reader α) : (limit : Nat) → (first : Bool) → Reader (List (String × α))
  | 0, _, _ => .error .truncated
  | limit + 1, first, ts => do
    let (key, ts) ← nextKey first ts
    match key with
    | none => return ([], ts)
    | some k =>
      let (_, ts) ← colon ts
      let (a, ts) ← r ts
      let (fs, ts) ← fields r limit false ts
      return ((k, a) :: fs, ts)

/-- Read a value in which less than `levels` arrays and objects are nested. -/
def value : (levels : Nat) → Reader Json
  | _, .null :: ts => .ok (.null, ts)
  | _, .bool b :: ts => .ok (.bool b, ts)
  | _, .number n :: ts => .ok (.number n, ts)
  | _, .string s :: ts => .ok (.string s, ts)
  | levels + 2, .openArray :: ts => do
    let (vs, ts) ← items (value (levels + 1)) (ts.length + 1) true ts
    return (.array vs, ts)
  | levels + 2, .openObject :: ts => do
    let (fs, ts) ← fields (value (levels + 1)) (ts.length + 1) true ts
    return (.object fs, ts)
  | _, .openArray :: _ => .error .malformed
  | _, .openObject :: _ => .error .malformed
  | _, ts => .error (unexpected ts)

/-- One more than the number of levels a text may have. -/
def maxLevels : Nat := 128

end Reader

/-- Read a JSON text; one that can't be read is diagnosed. -/
def Json.read (data : ByteArray) : Except Problem Json :=
  ((Reader.value Reader.maxLevels).readText data).mapError fun p =>
    match Diagnosis.ofText? Reader.maxLevels data.data.toList with
    | some d => .flawed d
    | none => p

end TenantRestore
