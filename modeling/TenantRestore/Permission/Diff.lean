/-
# Comparing permissions

Two permissions agree if they grant the same set of roles to the same principal.  Ids and
emails are compared where both permissions have them; they must be equal, and at least one of
the two must have been compared.  So a permission that names nobody agrees with none, and
agreement is symmetric but not transitive.

The difference of two lists of permissions are the permissions of one list that agree with
none of the other.
-/
import TenantRestore.Permission.Basic

namespace TenantRestore

namespace Permission

/-- The identifiers two permissions both have, side by side. -/
def sharedIdentifiers (a b : Permission) : List (String × String) :=
  [(a.entityId, b.entityId), (a.email, b.email)].filter fun p => p.1 ≠ "" ∧ p.2 ≠ ""

/-- Whether two lists hold the same roles. -/
def sameRoles (a b : List String) : Bool :=
  a.all b.contains && b.all a.contains

/-- Whether two permissions grant the same roles to the same principal. -/
def agrees (a b : Permission) : Bool :=
  let shared := sharedIdentifiers a b
  !shared.isEmpty && shared.all (fun p => p.1 = p.2) && sameRoles a.roles b.roles

/-- The permissions of a list that agree with none of another list, in order. -/
def without (ps others : List Permission) : List Permission :=
  ps.filter fun p => !others.any fun q => p.agrees q

/-- The permissions that were added and those that were removed between two lists. -/
structure Difference where
  /-- The permissions of the later list which are new. -/
  added : List Permission
  /-- The permissions of the earlier list which are gone. -/
  removed : List Permission
deriving DecidableEq, Repr

/-- What has changed from one list of permissions to another. -/
def difference (earlier later : List Permission) : Difference where
  added := without later earlier
  removed := without earlier later

end Permission

end TenantRestore
