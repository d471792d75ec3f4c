/-
# The progress of a restore

A restore counts the collections it has handled, the items it has seen, those it has
restored, and the bytes of these.
-/
import TenantRestore.Json.Reader
import TenantRestore.Progress.ByteSize

namespace TenantRestore

/-- Counts of items. -/
structure Tally where
  /-- Items seen. -/
  objects : Nat := 0
  /-- Items restored. -/
  successes : Nat := 0
  /-- Bytes of the restored items. -/
  bytes : Nat := 0
deriving DecidableEq, Repr

namespace Tally

/-- Count an item that was seen. -/
def see (t : Tally) : Tally := { t with objects := t.objects + 1 }

/-- Count an item that was restored. -/
def succeed (t : Tally) (size : Nat) : Tally :=
  { t with successes := t.successes + 1, bytes := t.bytes + size }

instance : Add Tally where
  add a b := ⟨a.objects + b.objects, a.successes + b.successes, a.bytes + b.bytes⟩

/-- Read counts; all of them have to be there. -/
def reader : Reader Tally := Reader.record true [
  (Reader.field "objects" (.natural maxUnsigned) fun v t => { t with objects := v }).needed,
  (Reader.field "successes" (.natural maxUnsigned) fun v t => { t with successes := v }).needed,
  (Reader.field "bytes" (.natural maxUnsigned) fun v t => { t with bytes := v }).needed] {}

end Tally

/-- How far a restore has come. -/
structure Progress where
  /-- The number of collections handled. -/
  folders : Nat := 0
  /-- The counts of all collections. -/
  tally : Tally := {}
  /-- Where the data is restored to. -/
  destination : String := ""
deriving DecidableEq, Repr

namespace Progress

/-- The decimal text of a count. -/
def count (n : Nat) : String := String.ofList (digitChars n)

/-- The progress in one line. -/
def summary (p : Progress) : String :=
  "Restore: " ++ count p.tally.successes ++ " of " ++ count p.tally.objects ++ " objects (" ++
    String.ofList (ByteSize.text p.tally.bytes) ++ ") in " ++ count p.folders ++ " folders (" ++
    p.destination ++ ")"

end Progress

end TenantRestore
