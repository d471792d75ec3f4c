/-
# Restoring collections of items

The items of a collection are put into one container, named by the location of the restore or
else by the last element of the path.  The children of an item are created after it.
-/
import TenantRestore.Item.Stored
import TenantRestore.Restore.Entries

namespace TenantRestore

variable {σ : Type}

/-- The name of the container for the items of a collection. -/
def Options.containerName (o : Options) (path : BackupPath) : String :=
  if o.location = "" then path.last?.getD "" else o.location

/-- The id of the container for the items of a collection, which is asked for once. -/
def Plan.containerFor (plan : Plan σ) (kind : ItemKind) (path : BackupPath) :
    Restoring σ String := do
  let name := plan.options.containerName path
  let place := (kind.category, path.owner, name)
  match (← get).registry.containers.find? place with
  | some id => return id
  | none =>
    let container ← Restoring.need (plan.askItems kind (.container path.owner name))
    Restoring.always
      (learn fun r => { r with containers := r.containers.insert place container.id })
    return container.id

/-- Read an item of a given kind. -/
def Item.ofEntry (kind : ItemKind) (entry : Entry) : Except Fault Item :=
  match Item.ofData entry.data with
  | .error p => .error (.undecodableItem entry.name p)
  | .ok item =>
    if item.kind = kind then .ok item
    else .error (.unexpectedKind entry.name item.kind kind)

/-- Create an item in a container.  Returns its id and whether it was to replace another one. -/
def Plan.createItem (plan : Plan σ) (kind : ItemKind) (container : String) (item : Item) :
    Restoring σ (String × Bool) := do
  let keys ← knownKeys container (plan.askItems kind (.listKeys container))
  let replaces := plan.options.onCollision = .replace ∧ keys.contains item.key
  let result ← Restoring.always (plan.place container item.key keys
    (plan.askItems kind (.create container item))
    fun old => plan.askItems kind (.delete container old))
  match result with
  | .ok id => return (id, replaces)
  | .error fault =>
    match fault.createdItem? with
    | none => throw fault
    | some id =>
      Restoring.always (plan.note fault)
      return (id, replaces)

/-- Restore an item into a container. -/
def Plan.restoreItem (plan : Plan σ) (kind : ItemKind) (c : Collection) (container : String)
    (entry : Entry) : Restoring σ Unit := do
  Restoring.always (tally Tally.see)
  let stored ← Restoring.ofExcept (Item.ofEntry kind entry)
  let located := stored.locate plan.options.location entry.name
  let item := located.withoutChildren
  let (id, replaces) ← plan.createItem kind container item
  if !located.children.isEmpty then
    Restoring.need (plan.askItems kind (.addChildren container id located.children))
  Restoring.always (tally fun t => t.succeed entry.data.size)
  Restoring.always (plan.handOut {
    source := c.path.text ++ "/" ++ entry.name
    location := plan.options.containerName c.path
    category := kind.category
    name := item.displayName
    size := entry.data.size
    updated := replaces })

/-- Restore a collection of items of a kind. -/
def Plan.restoreItems (plan : Plan σ) (kind : ItemKind) (c : Collection) : Restoring σ Unit := do
  let container ← plan.containerFor kind c.path
  plan.forEachEntry c (plan.restoreItem kind c container)

end TenantRestore
