/-
# Options of a restore

Options may be given as a JSON record.  Fields that are left out take their default, fields
that are unknown are an error.
-/
import TenantRestore.Collision.Policy
import TenantRestore.Json.Reader

namespace TenantRestore

/-- How a restore is to be done. -/
structure Options where
  /-- The name of the container to restore into; empty for the place the data came from. -/
  location : String := ""
  /-- What to do with items that exist at the destination. -/
  onCollision : CollisionPolicy := .skip
  /-- Whether the permissions of drive items and folders are restored. -/
  restorePermissions : Bool := false
  /-- Whether the first fault stops the restore. -/
  failFast : Bool := false
  /-- How many entries of a collection are read ahead. -/
  itemsBuffer : Nat := 32
deriving DecidableEq, Repr

namespace Options

/-- Read options. -/
def reader : Reader Options := Reader.record false [
  Reader.field "location" .string fun v o => { o with location := v },
  Reader.field "on-collision" (.oneOf CollisionPolicy.ofName?) fun v o =>
    { o with onCollision := v },
  Reader.field "restore-permissions" .bool fun v o => { o with restorePermissions := v },
  Reader.field "fail-fast" .bool fun v o => { o with failFast := v },
  Reader.field "items-buffer" (.natural maxUnsigned) fun v o => { o with itemsBuffer := v }] {}

/-- The record of some options. -/
def toJson (o : Options) : Json := .object [
  ("location", .string o.location),
  ("on-collision", .string o.onCollision.name),
  ("restore-permissions", .bool o.restorePermissions),
  ("fail-fast", .bool o.failFast),
  ("items-buffer", .number (.integer o.itemsBuffer))]

end Options

end TenantRestore
