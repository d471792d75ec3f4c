/-
# What a restore has learnt

A restore asks the remote service for a folder, a container or the keys of a destination
once, and remembers the answer.  It also remembers the metadata of the folders it has come
through and the ids under which permissions were granted anew.
-/
import TenantRestore.Collision.Policy
import TenantRestore.Permission.Basic

namespace TenantRestore

/-- The tables of a restore. -/
structure Registry where
  /-- The metadata of the folders that have been restored, by path. -/
  metadata : Table String Metadata := .empty
  /-- The new ids of permissions, by their id in the backup. -/
  permissionIds : Table String String := .empty
  /-- The keys of the items in a container, by the id of the container. -/
  keys : Table String Keys := .empty
  /-- The ids of folders, by drive and by the names below its root. -/
  folders : Table (String × List String) String := .empty
  /-- The ids of containers, by category, owner and name. -/
  containers : Table (Category × String × String) String := .empty
deriving DecidableEq

end TenantRestore
