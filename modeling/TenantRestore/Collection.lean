/-
# Collections

A collection is a directory or container of a backup.  Its entries are read one after the
other, and single entries can be fetched by their name.  Reading an entry can fail without
keeping the following ones from being read.  A collection may also dry up: after its last
entry nothing more comes, not even its end, and the restore has to be stopped.
-/
import TenantRestore.Path.Order
import TenantRestore.Remote.Failure

namespace TenantRestore

/-- An entry of a collection. -/
structure Entry where
  /-- The name of the entry within its collection. -/
  name : String
  /-- The stored content. -/
  data : ByteArray

/-- A collection of a backup. -/
structure Collection where
  /-- The path of the collection. -/
  path : BackupPath
  /-- What comes when the entries are read. -/
  entries : List (Except Failure Entry)
  /-- Whether the end of the entries never comes, so that the restore is stopped. -/
  driesUp : Bool := false
  /-- Fetch an entry by its name. -/
  fetch : String → Except Failure Entry

namespace Collection

/-- The collection of some entries, which are fetched from where they are read: the first
readable one of a name is found. -/
def ofEntries (path : BackupPath) (entries : List (Except Failure Entry))
    (driesUp : Bool := false) : Collection where
  path := path
  entries := entries
  driesUp := driesUp
  fetch name :=
    match entries.findSome? fun e => e.toOption.filter fun i => i.name = name with
    | some i => .ok i
    | none => .error (.because ("item `" ++ name ++ "` not found in `" ++ path.text ++ "`"))

/-- Put collections in the order in which they are restored: by their paths, hence parents
before children; collections of the same path keep their order. -/
def sort (cs : List Collection) : List Collection :=
  cs.mergeSort fun a b => a.path.precedes b.path

end Collection

end TenantRestore
