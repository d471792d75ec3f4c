/-
# Calls of the remote service

The restore talks to the outside by calls, each of which is answered before the next one is
made: operations on the folders, files and permissions of a drive, operations on the items
of a container, and the receipt that is handed out for every restored item.  An answer is a
value whose type depends on the call, or a failure.

Nothing is assumed about who answers.  A `Remote` is any machine with a state of its own
that answers one call after the other and may stop the restore while doing so.
-/
import TenantRestore.Collision.Policy
import TenantRestore.Item.Basic
import TenantRestore.Permission.Basic
import TenantRestore.Receipt
import TenantRestore.Remote.Failure
import TenantRestore.Table

namespace TenantRestore

/-- What items are put into: a folder, a calendar, a site. -/
structure Container where
  /-- The id of the container. -/
  id : String
  /-- The name of the container. -/
  name : String
  /-- The id of the container around it, if there is one. -/
  parent : Option String
deriving DecidableEq, Repr

/-- A call that concerns a drive. -/
inductive DriveCall
  /-- Find the root folder of a drive. -/
  | rootFolder (drive : String)
  /-- Find a folder by its name. -/
  | findFolder (drive parent name : String)
  /-- Create a folder. -/
  | createFolder (drive parent name : String)
  /-- List the names of the files in a folder, with their ids. -/
  | listKeys (drive folder : String)
  /-- Create a file; the policy tells what to do if its name is taken. -/
  | upload (drive folder name : String) (data : ByteArray) (policy : CollisionPolicy)
  /-- Delete a file. -/
  | delete (drive item : String)
  /-- Rename a file within its folder. -/
  | rename (drive item name : String)
  /-- Grant a permission on a file or folder. -/
  | grant (drive item : String) (invitation : Invitation)
  /-- Take back a permission. -/
  | revoke (drive item permission : String)

/-- The type of the answer to a call that concerns a drive. -/
def DriveCall.Answer : DriveCall → Type
  | .rootFolder _ => Container
  | .findFolder _ _ _ => Option Container
  | .createFolder _ _ _ => Container
  | .listKeys _ _ => Keys
  | .upload _ _ _ _ _ => String
  | .delete _ _ => Unit
  | .rename _ _ _ => Unit
  | .grant _ _ _ => Option String
  | .revoke _ _ _ => Unit

/-- A call that concerns items. -/
inductive ItemCall
  /-- Find the container of a name, or create it. -/
  | container (owner name : String)
  /-- List the keys of the items in a container, with their ids. -/
  | listKeys (container : String)
  /-- Create an item. -/
  | create (container : String) (item : Item)
  /-- Create the children of an item. -/
  | addChildren (container item : String) (children : List Json)
  /-- Delete an item. -/
  | delete (container item : String)
deriving DecidableEq

/-- The type of the answer to a call that concerns items. -/
def ItemCall.Answer : ItemCall → Type
  | .container _ _ => Container
  | .listKeys _ => Keys
  | .create _ _ => String
  | .addChildren _ _ _ => Unit
  | .delete _ _ => Unit

/-- A call to the outside. -/
inductive Call
  /-- A call that concerns a drive. -/
  | drive (call : DriveCall)
  /-- A call that concerns items of a kind. -/
  | items (kind : ItemKind) (call : ItemCall)
  /-- Hand out the receipt of a restored item. -/
  | receipt (receipt : Receipt)

/-- The type of the answer to a call. -/
def Call.Answer : Call → Type
  | .drive c => c.Answer
  | .items _ c => c.Answer
  | .receipt _ => Unit

/-- What comes back from a call. -/
structure Response (α : Type) where
  /-- The answer, or the failure of the call. -/
  answer : Except Failure α
  /-- Whether the restore is stopped meanwhile. -/
  stops : Bool := false

/-- Who answers the calls that concern a category. -/
inductive Handler
  /-- Drives, for files and libraries. -/
  | drive
  /-- The containers of items of a kind. -/
  | items (kind : ItemKind)
deriving DecidableEq, Repr

/-- The handler of a category. -/
def Category.handler : Category → Handler
  | .files => .drive
  | .libraries => .drive
  | .contacts => .items .contact
  | .events => .items .event
  | .lists => .items .list
  | .pages => .items .page

/-- Anything that answers calls, one after the other, from a state of its own. -/
structure Remote (σ : Type) where
  /-- Whether there is a handler. -/
  serves : Handler → Bool
  /-- Answer a call. -/
  respond : (call : Call) → σ → Response call.Answer × σ

/-- A call together with what came back from it. -/
structure Exchange where
  /-- The call. -/
  call : Call
  /-- The answer, or the failure of the call. -/
  answer : Except Failure call.Answer

end TenantRestore
