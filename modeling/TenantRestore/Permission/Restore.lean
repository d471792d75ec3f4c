/-
# Restoring permissions

A restored item shares the permissions of the folder it lies in.  What has to be changed is
the difference between these and the permissions the item had: permissions it did not have
are taken back, those it had in addition are granted.

The permissions of a folder are found in its metadata, or in that of the next folder above it
which has its own; they have to be known already, because folders are restored before what
lies in them.  Permissions are taken back by the ids they got when they were granted anew.
-/
import TenantRestore.Fault.Basic
import TenantRestore.Permission.Diff
import TenantRestore.Table

namespace TenantRestore

namespace BackupPath

/-- The beginnings of a list, from the longest proper one to the empty one. -/
def properBeginnings : List String → List (List String)
  | [] => []
  | e :: es => (properBeginnings es).map (e :: ·) ++ [[]]

/-- The directories above a path, from the nearest to that without elements. -/
def above (p : BackupPath) : List BackupPath :=
  (properBeginnings p.elements).map fun es => { p with elements := es }

end BackupPath

/-- The metadata of the nearest of some folders with permissions of its own.  Folders in
between must be known to share those above them; the root of the drive has none to share. -/
def nearestCustom (known : Table String Metadata) : List BackupPath → Except Fault Metadata
  | [] => .ok {}
  | folder :: outer =>
    match folder.drive with
    | .error e => .error (.path e)
    | .ok address =>
      if address.isRoot then .ok {}
      else
        match known.find? folder.text with
        | none => .error (.missingParentMetadata folder.text)
        | some m => if m.sharing = .custom then .ok m else nearestCustom known outer

/-- The metadata whose permissions an item shares with the folders above it. -/
def inheritedMetadata (known : Table String Metadata) (item : BackupPath) :
    Except Fault Metadata :=
  if item.elements.isEmpty then .error (.path (.noParent item.text))
  else nearestCustom known item.above

/-- Who grants permissions on the items of drives and takes them back. -/
structure Updater (m : Type → Type) where
  /-- Grant a permission and return its id. -/
  grant : (drive item : String) → Invitation → m (Except Failure (Option String))
  /-- Take back a permission. -/
  revoke : (drive item permission : String) → m (Except Failure Unit)

namespace Updater

variable {m : Type → Type} [Monad m]

/-- Take back permissions one after the other, by their new ids. -/
def revokeAll (u : Updater m) (drive item : String) (ids : Table String String) :
    List Permission → m (Except Fault Unit)
  | [] => return .ok ()
  | p :: ps => do
    match ids.find? p.id with
    | none => return .error (.noNewPermissionId p.id)
    | some id =>
      match ← u.revoke drive item id with
      | .error f => return .error (.remote f)
      | .ok () => u.revokeAll drive item ids ps

/-- Grant permissions one after the other, as far as they can be granted, and record their new
ids. -/
def grantAll (u : Updater m) (drive item : String) (ids : Table String String) :
    List Permission → m (Except Fault Unit × Table String String)
  | [] => return (.ok (), ids)
  | p :: ps => do
    match p.invitation? with
    | none => u.grantAll drive item ids ps
    | some invitation =>
      match ← u.grant drive item invitation with
      | .error f => return (.error (.remote f), ids)
      | .ok none => return (.error (.noPermissionIdReturned item), ids)
      | .ok (some id) => u.grantAll drive item (ids.insert p.id id) ps

/-- Change the permissions of an item.  Permissions are taken back before others are granted,
since a granted one may stand for the same principal as one that is taken back. -/
def update (u : Updater m) (drive item : String) (change : Permission.Difference)
    (ids : Table String String) : m (Except Fault Unit × Table String String) := do
  match ← u.revokeAll drive item ids change.removed with
  | .error f => return (.error f, ids)
  | .ok () => u.grantAll drive item ids change.added

/-- Restore the permissions of an item at a path, given its metadata and that of the folders
above it. -/
def restore (u : Updater m) (drive item : String) (path : BackupPath) (current : Metadata)
    (known : Table String Metadata) (ids : Table String String) :
    m (Except Fault Unit × Table String String) :=
  if current.sharing = .inherited then return (.ok (), ids)
  else
    match inheritedMetadata known path with
    | .error f => return (.error f, ids)
    | .ok above =>
      u.update drive item (Permission.difference above.permissions current.permissions) ids

end Updater

end TenantRestore
