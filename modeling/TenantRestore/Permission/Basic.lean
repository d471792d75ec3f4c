/-
# Permissions and sharing metadata

A permission grants roles on a drive item to one principal, named by an id or, in old
backups, by an email.  The metadata of an item or folder says whether it shares the
permissions of the folder above it or has its own.

An empty text stands for an absent id, email or name throughout.
-/
import TenantRestore.Time.Moment

namespace TenantRestore

/-- The kind of principal a permission is granted to. -/
inductive PrincipalKind
  /-- An application. -/
  | application
  /-- A device. -/
  | device
  /-- A group of the tenant. -/
  | group
  /-- A user of a site. -/
  | siteUser
  /-- A group of a site. -/
  | siteGroup
  /-- A user of the tenant. -/
  | user
deriving DecidableEq, Repr

/-- The name of a kind of principal. -/
def PrincipalKind.name : PrincipalKind → String
  | .application => "application"
  | .device => "device"
  | .group => "group"
  | .siteUser => "site_user"
  | .siteGroup => "site_group"
  | .user => "user"

/-- All kinds of principals. -/
def PrincipalKind.all : List PrincipalKind :=
  [.application, .device, .group, .siteUser, .siteGroup, .user]

/-- The kind of principal with a given name. -/
def PrincipalKind.ofName? (name : String) : Option PrincipalKind :=
  all.find? fun k => k.name = name

/-- The role which can't be granted. -/
def ownerRole : String := "owner"

/-- A permission granted on an item to one principal. -/
structure Permission where
  /-- The id given by the system the backup was made of. -/
  id : String := ""
  /-- The granted roles. -/
  roles : List String := []
  /-- The email of the principal, only used in old backups. -/
  email : String := ""
  /-- The id of the principal. -/
  entityId : String := ""
  /-- The kind of the principal. -/
  kind : Option PrincipalKind := none
  /-- When the permission expires. -/
  expiration : Option Moment := none
deriving DecidableEq, Repr

/-- Whether an item has its own permissions or shares those of the folder above it. -/
inductive Sharing
  /-- The item has its own permissions. -/
  | custom
  /-- The item has the permissions of the folder above it. -/
  | inherited
deriving DecidableEq, Repr

/-- The number a mode of sharing is stored as. -/
def Sharing.code : Sharing → Nat
  | .custom => 0
  | .inherited => 1

/-- The mode of sharing stored as a number. -/
def Sharing.ofCode? : Nat → Option Sharing
  | 0 => some .custom
  | 1 => some .inherited
  | _ => none

/-- The sharing metadata of a drive item or folder. -/
structure Metadata where
  /-- The name of the item, since version 6 of the format. -/
  fileName : String := ""
  /-- Whether the item has its own permissions. -/
  sharing : Sharing := .custom
  /-- The permissions of the item. -/
  permissions : List Permission := []
deriving DecidableEq, Repr

/-- The principal an invitation goes to. -/
inductive Recipient
  /-- A principal given by its id. -/
  | objectId (id : String)
  /-- A principal given by its email. -/
  | email (address : String)
deriving DecidableEq, Repr

/-- A request to grant a permission on an item. -/
structure Invitation where
  /-- The roles to grant. -/
  roles : List String
  /-- The principal to grant them to. -/
  recipient : Recipient
  /-- When the permission expires. -/
  expiration : Option Moment
deriving DecidableEq, Repr

namespace Permission

/-- Whether a permission names its principal. -/
def hasIdentity (p : Permission) : Bool := p.entityId ≠ "" || p.email ≠ ""

/-- The roles which can be granted. -/
def restorableRoles (p : Permission) : List String := p.roles.filter fun r => r ≠ ownerRole

/-- The principal of a permission, by its id or else by its email. -/
def recipient? (p : Permission) : Option Recipient :=
  if p.entityId ≠ "" then some (.objectId p.entityId)
  else if p.email ≠ "" then some (.email p.email)
  else none

/-- The invitation that grants a permission again.  There is none if the permission has no
role that can be granted, names no principal, or belongs to the group of a site. -/
def invitation? (p : Permission) : Option Invitation :=
  if p.restorableRoles.isEmpty || p.kind = some .siteGroup then none
  else p.recipient?.map fun r => ⟨p.restorableRoles, r, p.expiration⟩

end Permission

end TenantRestore
