/-
# Collisions

Items to restore may exist at their destination already.  They are recognised by a key, and
a policy tells what to do: keep the existing item, put the restored one beside it, or let it
take the place of the existing one.

The keys of a destination are kept as a table from keys to ids.  Settling an item creates it
if the policy allows, records it under its key, and only then deletes the item it replaces;
if that fails, both stay.
-/
import TenantRestore.Fault.Basic
import TenantRestore.Table

namespace TenantRestore

/-- What to do with an item that exists at its destination. -/
inductive CollisionPolicy
  /-- Keep the existing item. -/
  | skip
  /-- Put the restored item beside the existing one. -/
  | copy
  /-- Put the restored item in place of the existing one. -/
  | replace
deriving DecidableEq, Repr

namespace CollisionPolicy

/-- All policies. -/
def all : List CollisionPolicy := [.skip, .copy, .replace]

/-- The name of a policy. -/
def name : CollisionPolicy → String
  | .skip => "skip"
  | .copy => "copy"
  | .replace => "replace"

/-- The policy with a given name. -/
def ofName? (name : String) : Option CollisionPolicy := all.find? fun p => p.name = name

end CollisionPolicy

/-- The keys of the items at a destination, with their ids. -/
abbrev Keys := Table String String

namespace CollisionPolicy

/-- Settle an item of a given key: create it as far as the policy allows, and delete the item
it replaces.  Returns the id of the created item and the keys afterwards. -/
def settle {m : Type → Type} [Monad m] (policy : CollisionPolicy) (key : String) (keys : Keys)
    (create : m (Except Failure String)) (delete : String → m (Except Failure Unit)) :
    m (Except Fault String × Keys) := do
  if keys.contains key ∧ policy = .skip then
    return (.error (.itemAlreadyExists key), keys)
  match ← create with
  | .error f => return (.error (.remote f), keys)
  | .ok new =>
    let after := keys.insert key new
    match policy, keys.find? key with
    | .replace, some old =>
      match ← delete old with
      | .error f => return (.error (.deletingReplacedItemFailed new old f), after)
      | .ok () => return (.ok new, after)
    | _, _ => return (.ok new, after)

end CollisionPolicy

end TenantRestore
