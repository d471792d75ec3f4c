/-
# Permissions of the remote service

The remote service says of a permission to which of several kinds of principals it is
granted.  The permission of a backup made of it takes the first kind, in a fixed order, which
is there at all; without an id the entry has no principal that could be named and is left out.
-/
import TenantRestore.Permission.Stored

namespace TenantRestore

open Reader (field)

/-- A principal of the remote service. -/
structure Principal where
  /-- The id of the principal. -/
  id : Option String := none
  /-- The name of the principal. -/
  displayName : Option String := none
deriving DecidableEq, Repr

/-- The principals a permission of the remote service is granted to, by kind. -/
structure PrincipalSet where
  /-- A user of the tenant. -/
  user : Option Principal := none
  /-- A user of a site. -/
  siteUser : Option Principal := none
  /-- A group of the tenant. -/
  group : Option Principal := none
  /-- A group of a site. -/
  siteGroup : Option Principal := none
  /-- An application. -/
  application : Option Principal := none
  /-- A device. -/
  device : Option Principal := none
deriving DecidableEq, Repr

/-- A permission of the remote service. -/
structure RemoteGrant where
  /-- The id of the permission. -/
  id : Option String := none
  /-- The granted roles. -/
  roles : List String := []
  /-- The principals; absent for the sharing of a link. -/
  grantedTo : Option PrincipalSet := none
  /-- When the permission expires. -/
  expiration : Option Moment := none
deriving DecidableEq, Repr

namespace PrincipalSet

/-- The principals in the order in which they are looked at, with their kinds. -/
def candidates (s : PrincipalSet) : List (PrincipalKind × Option Principal) :=
  [(.user, s.user), (.siteUser, s.siteUser), (.group, s.group), (.siteGroup, s.siteGroup),
    (.application, s.application), (.device, s.device)]

/-- The first principal that is there, with its kind. -/
def first? (s : PrincipalSet) : Option (PrincipalKind × Principal) :=
  s.candidates.findSome? fun c => c.2.map fun p => (c.1, p)

end PrincipalSet

namespace RemoteGrant

/-- The permission of a backup for one of the remote service, if its principal has an id. -/
def permission? (g : RemoteGrant) : Option Permission := do
  let (kind, principal) ← (← g.grantedTo).first?
  let id ← principal.id
  if id = "" then none
  else some { id := g.id.getD "", roles := g.roles, entityId := id, kind := kind,
              expiration := g.expiration }

/-- The permissions of a backup for those of the remote service. -/
def permissions (gs : List RemoteGrant) : List Permission := gs.filterMap permission?

end RemoteGrant

/-! ## The form of the remote service -/

/-- A value that may be absent; an absent one is written as null. -/
def optionalJson {α : Type} (toJson : α → Json) : Option α → Json
  | none => .null
  | some a => toJson a

namespace Principal

/-- Read a principal. -/
def reader : Reader Principal := Reader.record true [
  field "id" (.optional .string) fun v p => { p with id := v },
  field "displayName" (.optional .string) fun v p => { p with displayName := v }] {}

/-- The form of a principal. -/
def toJson (p : Principal) : Json :=
  .object [("id", optionalJson .string p.id), ("displayName", optionalJson .string p.displayName)]

end Principal

namespace PrincipalSet

/-- Read principals. -/
def reader : Reader PrincipalSet := Reader.record true [
  field "user" (.optional Principal.reader) fun v s => { s with user := v },
  field "siteUser" (.optional Principal.reader) fun v s => { s with siteUser := v },
  field "group" (.optional Principal.reader) fun v s => { s with group := v },
  field "siteGroup" (.optional Principal.reader) fun v s => { s with siteGroup := v },
  field "application" (.optional Principal.reader) fun v s => { s with application := v },
  field "device" (.optional Principal.reader) fun v s => { s with device := v }] {}

/-- The form of principals. -/
def toJson (s : PrincipalSet) : Json :=
  .object [("user", optionalJson Principal.toJson s.user),
    ("siteUser", optionalJson Principal.toJson s.siteUser),
    ("group", optionalJson Principal.toJson s.group),
    ("siteGroup", optionalJson Principal.toJson s.siteGroup),
    ("application", optionalJson Principal.toJson s.application),
    ("device", optionalJson Principal.toJson s.device)]

end PrincipalSet

namespace RemoteGrant

/-- Read a permission of the remote service. -/
def reader : Reader RemoteGrant := Reader.record true [
  field "id" (.optional .string) fun v g => { g with id := v },
  field "roles" (.array .string) fun v g => { g with roles := v },
  field "grantedToV2" (.optional PrincipalSet.reader) fun v g => { g with grantedTo := v },
  field "expirationDateTime" (.optional Moment.reader) fun v g => { g with expiration := v }] {}

/-- The form of a permission of the remote service. -/
def toJson (g : RemoteGrant) : Json :=
  .object [("id", optionalJson .string g.id), ("roles", .array (g.roles.map .string)),
    ("grantedToV2", optionalJson PrincipalSet.toJson g.grantedTo),
    ("expirationDateTime", optionalJson (fun m => .string m.text) g.expiration)]

end RemoteGrant

end TenantRestore
