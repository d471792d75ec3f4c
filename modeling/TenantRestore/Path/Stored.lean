/-
# The stored form of paths

A path may be stored as a JSON record of its parts, all of which have to be there.  Elements
are taken as they are, so a stored path can have elements which no text of a path has.
-/
import TenantRestore.Json.Reader
import TenantRestore.Path.Basic

namespace TenantRestore

namespace BackupPath

/-- Read a stored path. -/
def reader : Reader BackupPath := Reader.record true [
  (Reader.field "tenant" .string fun v p => { p with tenant := v }).needed,
  (Reader.field "service" (.oneOf Service.ofName?) fun v p => { p with service := v }).needed,
  (Reader.field "resource_owner" .string fun v p => { p with owner := v }).needed,
  (Reader.field "category" (.oneOf Category.ofName?) fun v p => { p with category := v }).needed,
  (Reader.field "elements" (.array .string) fun v p => { p with elements := v }).needed]
  ⟨"", .exchange, "", .contacts, []⟩

/-- The stored form of a path. -/
def toJson (p : BackupPath) : Json := .object [
  ("tenant", .string p.tenant), ("service", .string p.service.name),
  ("resource_owner", .string p.owner), ("category", .string p.category.name),
  ("elements", .array (p.elements.map .string))]

end BackupPath

end TenantRestore
