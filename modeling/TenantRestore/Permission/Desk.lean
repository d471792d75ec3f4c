/-
# A desk with prepared answers

A desk answers requests to grant permissions and to take them back from prepared answers, one
after the other.  When none are left, everything succeeds, and granted permissions get running
numbers as ids.  A desk keeps a record of the requests.
-/
import TenantRestore.Permission.Restore
import TenantRestore.Progress.Basic
import TenantRestore.Remote.Call

namespace TenantRestore

/-- A desk with prepared answers. -/
structure Desk where
  /-- The answers to the next requests to grant a permission. -/
  grants : List (Except Failure (Option String)) := []
  /-- The answers to the next requests to take back a permission. -/
  revocations : List (Except Failure Unit) := []
  /-- The number of ids given when no answers were left. -/
  count : Nat := 0
  /-- The requests so far. -/
  requests : List DriveCall := []

namespace Desk

/-- Answer a request to grant a permission. -/
def grant (drive item : String) (invitation : Invitation) :
    StateM Desk (Except Failure (Option String)) := fun d =>
  let d := { d with requests := d.requests ++ [DriveCall.grant drive item invitation] }
  match d.grants with
  | [] =>
    (.ok (some ("perm-" ++ Progress.count (d.count + 1))), { d with count := d.count + 1 })
  | answer :: rest => (answer, { d with grants := rest })

/-- Answer a request to take back a permission. -/
def revoke (drive item permission : String) : StateM Desk (Except Failure Unit) := fun d =>
  let d := { d with requests := d.requests ++ [DriveCall.revoke drive item permission] }
  match d.revocations with
  | [] => (.ok (), d)
  | answer :: rest => (answer, { d with revocations := rest })

/-- Change permissions at a desk. -/
def updater : Updater (StateM Desk) := ⟨grant, revoke⟩

end Desk

end TenantRestore
