/-
# Faults

A fault is anything that goes wrong while restoring: with a path, with stored data, with the
permissions to restore, with an item that exists already, or with a collaborator.  A restore
that is stopped from outside ends with a fault as well.
-/
import TenantRestore.Item.Basic
import TenantRestore.Json.Flaw
import TenantRestore.Path.Basic
import TenantRestore.Remote.Failure

namespace TenantRestore

/-- What can go wrong while restoring. -/
inductive Fault
  /-- A path is not as it should be. -/
  | path (error : PathError)
  /-- The metadata of a folder above an item has not been seen. -/
  | missingParentMetadata (folder : String)
  /-- A permission to remove has not been granted by this restore. -/
  | noNewPermissionId (permission : String)
  /-- A metadata file can't be read. -/
  | undecodableMetadata (name : String) (problem : Problem)
  /-- A permission was granted on an item, but its id is unknown. -/
  | noPermissionIdReturned (item : String)
  /-- The destination has an item with the same key, which must not be touched. -/
  | itemAlreadyExists (key : String)
  /-- An item was restored, but the one it replaces could not be deleted. -/
  | deletingReplacedItemFailed (created replaced : String) (cause : Failure)
  /-- A stored item can't be read. -/
  | undecodableItem (id : String) (problem : Problem)
  /-- A stored item is of another kind than its collection. -/
  | unexpectedKind (id : String) (found expected : ItemKind)
  /-- An entry of a collection can't be fetched by its name. -/
  | fetchingFailed (name path : String) (cause : Failure)
  /-- The next entry of a collection can't be read. -/
  | readingFailed (path : String) (cause : Failure)
  /-- The remote service takes no data of a category. -/
  | noHandler (category : Category)
  /-- A container has no id or no name. -/
  | incompleteContainer (name : String)
  /-- Handling a container failed. -/
  | handlingContainerFailed (id : String) (cause : Failure)
  /-- A call of the remote service failed. -/
  | remote (cause : Failure)
  /-- The restore was stopped from outside. -/
  | cancelled
deriving DecidableEq, Repr

namespace Fault

/-- The wording of a fault; `describe` words what is wrong with a stored text. -/
def wording (describe : Problem → String) : Fault → String
  | .path e => e.message
  | .missingParentMetadata f => "no metadata found for parent folder: `" ++ f ++ "`"
  | .noNewPermissionId p => "no new permission id for removed permission `" ++ p ++ "`"
  | .undecodableMetadata n p =>
    "deserializing metadata `" ++ n ++ "` failed: `" ++ describe p ++ "`"
  | .noPermissionIdReturned i =>
    "remote returned no id for the created permission on item `" ++ i ++ "`"
  | .itemAlreadyExists k => "item with key `" ++ k ++ "` already exists at the destination"
  | .deletingReplacedItemFailed n o c =>
    "item `" ++ n ++ "` was restored, but deleting the replaced item `" ++ o ++ "` failed: `" ++
      c.message ++ "`"
  | .undecodableItem i p => "deserializing item `" ++ i ++ "` failed: `" ++ describe p ++ "`"
  | .unexpectedKind i f e =>
    "item `" ++ i ++ "` is a `" ++ f.name ++ "`, expected a `" ++ e.name ++ "`"
  | .fetchingFailed n p c =>
    "fetching `" ++ n ++ "` from collection `" ++ p ++ "` failed: `" ++ c.message ++ "`"
  | .readingFailed p c =>
    "reading an item of collection `" ++ p ++ "` failed: `" ++ c.message ++ "`"
  | .noHandler c => "no handler configured for category `" ++ c.name ++ "`"
  | .incompleteContainer n => "container `" ++ n ++ "` has no id or no name"
  | .handlingContainerFailed i c => "handling container `" ++ i ++ "` failed: `" ++ c.message ++ "`"
  | .remote c => c.message
  | .cancelled => "operation cancelled"

/-- The wording of a fault, which only says of what kind a problem with a stored text is. -/
def message : Fault → String := wording Problem.message

/-- The wording of a fault with all that is known about it. -/
def details : Fault → String := wording Problem.details

/-- Whether an existing item kept the restore from creating another one. -/
def isConflict : Fault → Bool
  | .itemAlreadyExists _ => true
  | _ => false

/-- Whether a folder was not restored before what lies in it. -/
def isMissingPrecondition : Fault → Bool
  | .missingParentMetadata _ => true
  | _ => false

/-- Whether the restore was stopped from outside. -/
def isCancelled : Fault → Bool
  | .cancelled => true
  | _ => false

/-- The failed call of the remote service that caused a fault, if one did. -/
def remoteFailure? : Fault → Option Failure
  | .remote c => some c
  | .deletingReplacedItemFailed _ _ c => some c
  | _ => none

/-- Whether a failed call of the remote service caused a fault. -/
def isRemote (f : Fault) : Bool := f.remoteFailure?.isSome

/-- The id of the item that had been created when the fault happened, if one had. -/
def createdItem? : Fault → Option String
  | .deletingReplacedItemFailed n _ _ => some n
  | _ => none

end Fault

end TenantRestore
