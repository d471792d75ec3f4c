/-
# Items in memory

A store of items has containers, found by their owner and name, and items, each in one
container.  All ids are made of a word and a running number.  Asking for a container uses up
a number even if the container exists.
-/
import TenantRestore.Progress.Basic
import TenantRestore.Remote.Call

namespace TenantRestore

/-- An item of a store. -/
structure StoredItem where
  /-- The id of the item. -/
  id : String
  /-- The id of the container the item is in. -/
  container : String
  /-- The item. -/
  item : Item
  /-- The children that were created for the item. -/
  children : List Json
deriving DecidableEq

/-- A store of items. -/
structure ItemStore where
  /-- The ids of the containers, by owner and name. -/
  containers : Table (String × String) String := .empty
  /-- The items, in the order of their creation. -/
  items : List StoredItem := []
  /-- How often a container was asked for. -/
  lookups : Nat := 0
  /-- The number of ids given so far. -/
  count : Nat := 0
  /-- Whether the store can keep the children of items. -/
  keepsChildren : Bool := true
deriving DecidableEq

namespace ItemStore

/-- The id made of a word and the number of the next id. -/
def newId (s : ItemStore) (word : String) : String := word ++ "-" ++ Progress.count (s.count + 1)

/-- The id of a container, which is created if it is missing. -/
def containerOf (s : ItemStore) (owner name : String) : String × ItemStore :=
  let id := (s.containers.find? (owner, name)).getD (s.newId "container")
  (id, { s with containers := s.containers.insert (owner, name) id, count := s.count + 1 })

/-- Put an item into a container under a new id. -/
def add (s : ItemStore) (word container : String) (item : Item) : String × ItemStore :=
  let id := s.newId word
  (id, { s with items := s.items ++ [⟨id, container, item, []⟩], count := s.count + 1 })

/-- Put an item into the container of an owner and name, which is created if it is missing. -/
def addExisting (s : ItemStore) (owner name : String) (item : Item) : String × ItemStore :=
  let (container, s) := s.containerOf owner name
  s.add "existing" container item

/-- The id of a container, if it exists. -/
def containerId? (s : ItemStore) (owner name : String) : Option String :=
  s.containers.find? (owner, name)

/-- The keys of the items in a container, with their ids. -/
def keys (s : ItemStore) (container : String) : Keys :=
  .ofList ((s.items.filter fun i => i.container = container).map fun i => (i.item.key, i.id))

/-- Create an item in an existing container. -/
def create (s : ItemStore) (container : String) (item : Item) :
    Except Failure String × ItemStore :=
  if s.containers.entries.any fun e => e.2 = container then
    let (id, s) := s.add "item" container item
    (.ok id, s)
  else (.error (.because ("container `" ++ container ++ "` not found")), s)

/-- What a handler without a place for children answers: there must be none. -/
def refuseChildren (kind : ItemKind) (item : String) (children : List Json) :
    Except Failure Unit :=
  if children.isEmpty then .ok ()
  else .error (.because (Progress.count children.length ++ " children of " ++ kind.name ++
    " item " ++ item ++ " can't be restored"))

/-- Add children to the first of some items with a given id. -/
def putChildren (item : String) (children : List Json) : List StoredItem → List StoredItem
  | [] => []
  | i :: is =>
    if i.id = item then { i with children := i.children ++ children } :: is
    else i :: putChildren item children is

/-- Create the children of an item. -/
def addChildren (s : ItemStore) (item : String) (children : List Json) :
    Except Failure Unit × ItemStore :=
  if s.items.any fun i => i.id = item then
    (.ok (), { s with items := putChildren item children s.items })
  else (.error (.because ("item `" ++ item ++ "` not found")), s)

/-- Delete an item of a container. -/
def delete (s : ItemStore) (container item : String) : Except Failure Unit × ItemStore :=
  if s.items.any fun i => i.container = container ∧ i.id = item then
    (.ok (), { s with items := s.items.filter fun i => ¬(i.container = container ∧ i.id = item) })
  else (.error (.because ("item `" ++ item ++ "` not found")), s)

/-- Answer a call that concerns items of a kind. -/
def respond (s : ItemStore) (kind : ItemKind) :
    (call : ItemCall) → Except Failure call.Answer × ItemStore
  | .container owner name =>
    let (id, s) := s.containerOf owner name
    (.ok ⟨id, name, none⟩, { s with lookups := s.lookups + 1 })
  | .listKeys container => (.ok (s.keys container), s)
  | .create container item => s.create container item
  | .addChildren _ item children =>
    if s.keepsChildren then s.addChildren item children
    else (refuseChildren kind item children, s)
  | .delete container item => s.delete container item

end ItemStore

end TenantRestore
