/-
# A drive in memory

A drive holds folders and files, and the permissions granted on them.  Each has an id, under
which it is found, and a place: the id of its parent and its name.  Ids are made of a word and
a running number, so an id is never given twice.

Nothing keeps two files of one folder from having the same name; whoever is first in the
order of ids is found by it.  Uploads avoid that by looking for a free name.
-/
import TenantRestore.Path.Text
import TenantRestore.Progress.Basic
import TenantRestore.Remote.Call

namespace TenantRestore

/-- A folder or file of a drive. -/
structure Node where
  /-- The id of the node. -/
  id : String
  /-- The name of the node. -/
  name : String
  /-- The id of the folder the node is in; the root has none. -/
  parent : Option String
  /-- The content of a file; a folder has none. -/
  content : Option ByteArray

/-- The folder a node stands for. -/
def Node.container (n : Node) : Container := ⟨n.id, n.name, n.parent⟩

/-- A change of a drive that was made by a call. -/
inductive DriveChange
  /-- A folder was created. -/
  | createdFolder (parent name : String)
  /-- A file was uploaded. -/
  | uploaded (folder name : String)
  /-- A file or folder was deleted. -/
  | deleted (item : String)
  /-- A file or folder was renamed. -/
  | renamed (item name : String)
  /-- A permission was granted. -/
  | granted (item : String) (invitation : Invitation)
  /-- A permission was taken back. -/
  | revoked (item permission : String)
deriving DecidableEq

/-- The id of the root folder. -/
def rootId : String := "root"

/-- A drive in memory. -/
structure DriveStore where
  /-- The id of the drive. -/
  drive : String
  /-- The folders and files, in the order of their ids. -/
  nodes : List Node := [⟨rootId, rootId, none, none⟩]
  /-- The permissions granted on each node, with their ids. -/
  grants : Table String (List (String × Invitation)) := .empty
  /-- The changes made by calls, in order. -/
  changes : List DriveChange := []
  /-- The number of ids given so far. -/
  count : Nat := 0
  /-- Whether nothing can be deleted. -/
  keepsAll : Bool := false

namespace DriveStore

/-! ## Nodes -/

/-- Put a node into nodes ordered by id. -/
def insertNode (n : Node) : List Node → List Node
  | [] => [n]
  | m :: ms =>
    if n.id < m.id then n :: m :: ms
    else if n.id = m.id then n :: ms
    else m :: insertNode n ms

/-- The node of an id. -/
def node? (s : DriveStore) (id : String) : Option Node := s.nodes.find? fun n => n.id = id

/-- The first node of a name in a folder. -/
def child? (s : DriveStore) (parent name : String) : Option Node :=
  s.nodes.find? fun n => n.parent = some parent ∧ n.name = name

/-- The nodes in a folder. -/
def nodesIn (s : DriveStore) (parent : String) : List Node :=
  s.nodes.filter fun n => n.parent = some parent

/-- The id made of a word and the number of the next id. -/
def newId (s : DriveStore) (word : String) : String := word ++ "-" ++ Progress.count (s.count + 1)

/-- Add a node under a new id. -/
def addNode (s : DriveStore) (word parent name : String) (content : Option ByteArray) :
    DriveStore :=
  { s with
    nodes := insertNode ⟨s.newId word, name, some parent, content⟩ s.nodes
    count := s.count + 1 }

/-- The name of the copy of a number; the copy of number zero has the name itself. -/
def copyName (name : String) (copy : Nat) : String :=
  if copy = 0 then name else name ++ " (" ++ Progress.count copy ++ ")"

/-- The first name not taken in a folder, from the copy of a given number on; there are more
than `limit` names to try. -/
def freeName (s : DriveStore) (parent name : String) : (limit : Nat) → (copy : Nat) → String
  | 0, copy => copyName name copy
  | limit + 1, copy =>
    if (s.child? parent (copyName name copy)).isSome then freeName s parent name limit (copy + 1)
    else copyName name copy

/-! ## Answering calls -/

/-- Note a change. -/
def noting (s : DriveStore) (change : DriveChange) : DriveStore :=
  { s with changes := s.changes ++ [change] }

/-- Find a folder by its name. -/
def findFolder (s : DriveStore) (parent name : String) : Option Container :=
  ((s.child? parent name).filter fun n => n.content.isNone).map Node.container

/-- Create a folder. -/
def createFolder (s : DriveStore) (parent name : String) :
    Except Failure Container × DriveStore :=
  if (s.node? parent).isNone then (.error (.because ("folder `" ++ parent ++ "` not found")), s)
  else
    (.ok ⟨s.newId "folder", name, some parent⟩,
      (s.addNode "folder" parent name none).noting (.createdFolder parent name))

/-- The names of the files in a folder, with their ids. -/
def keys (s : DriveStore) (folder : String) : Keys :=
  .ofList (((s.nodesIn folder).filter fun n => n.content.isSome).map fun n => (n.name, n.id))

/-- Upload a file under a name that is free; under the policy to skip the name itself must be. -/
def upload (s : DriveStore) (folder name : String) (data : ByteArray) (policy : CollisionPolicy) :
    Except Failure String × DriveStore :=
  if (s.child? folder name).isSome ∧ policy = .skip then
    (.error (.because ("item `" ++ name ++ "` already exists")), s)
  else
    (.ok (s.newId "item"),
      (s.addNode "item" folder (s.freeName folder name s.nodes.length 0) (some data)).noting
        (.uploaded folder name))

/-- Delete a file or folder. -/
def delete (s : DriveStore) (item : String) : Except Failure Unit × DriveStore :=
  if s.keepsAll then (.error (.because ("deleting `" ++ item ++ "` is not allowed")), s)
  else if (s.node? item).isNone then (.error (.because ("item `" ++ item ++ "` not found")), s)
  else
    let s := { s with nodes := s.nodes.filter fun n => n.id ≠ item }
    (.ok (), s.noting (.deleted item))

/-- Rename a file or folder. -/
def rename (s : DriveStore) (item name : String) : Except Failure Unit × DriveStore :=
  match s.node? item with
  | none => (.error (.because ("item `" ++ item ++ "` not found")), s)
  | some n =>
    if (s.child? (n.parent.getD "") name).any fun m => m.id ≠ item then
      (.error (.because ("item `" ++ name ++ "` already exists")), s)
    else
      let named (m : Node) : Node := if m.id = item then { m with name := name } else m
      let s := { s with nodes := s.nodes.map named }
      (.ok (), s.noting (.renamed item name))

/-- The permissions granted on a node, with their ids. -/
def grantsOn (s : DriveStore) (item : String) : List (String × Invitation) :=
  (s.grants.find? item).getD []

/-- Grant a permission. -/
def grant (s : DriveStore) (item : String) (invitation : Invitation) :
    Except Failure (Option String) × DriveStore :=
  if (s.node? item).isNone then (.error (.because ("item `" ++ item ++ "` not found")), s)
  else
    let id := s.newId "perm"
    let s := { s with
      grants := s.grants.insert item (s.grantsOn item ++ [(id, invitation)])
      count := s.count + 1 }
    (.ok (some id), s.noting (.granted item invitation))

/-- Take back a permission, if it is there. -/
def revoke (s : DriveStore) (item permission : String) : DriveStore :=
  let grants := match s.grants.find? item with
    | none => s.grants
    | some gs => s.grants.insert item (gs.filter fun g => g.1 ≠ permission)
  { s with grants := grants }.noting (.revoked item permission)

/-- Answer a call, unless it concerns another drive. -/
def respond (s : DriveStore) : (call : DriveCall) → Except Failure call.Answer × DriveStore
  | .rootFolder d => onDrive d (.ok ⟨rootId, rootId, none⟩, s)
  | .findFolder d parent name => onDrive d (.ok (s.findFolder parent name), s)
  | .createFolder d parent name => onDrive d (s.createFolder parent name)
  | .listKeys d folder => onDrive d (.ok (s.keys folder), s)
  | .upload d folder name data policy => onDrive d (s.upload folder name data policy)
  | .delete d item => onDrive d (s.delete item)
  | .rename d item name => onDrive d (s.rename item name)
  | .grant d item invitation => onDrive d (s.grant item invitation)
  | .revoke d item permission => onDrive d (.ok (), s.revoke item permission)
where
  /-- Refuse a call that concerns another drive. -/
  onDrive {α : Type} (d : String) (answer : Except Failure α × DriveStore) :
      Except Failure α × DriveStore :=
    if d = s.drive then answer else (.error (.because ("drive `" ++ d ++ "` not found")), s)

/-! ## Setting up and looking around -/

/-- The parts of a path within a drive; empty parts do not count. -/
def pathParts (path : String) : List String :=
  (splitAtChar pathSeparator path).filter fun part => part ≠ ""

/-- Go to a folder in the folder of an id, creating it if there is nothing of its name. -/
def enter (s : DriveStore) (parent : String) : List String → String × DriveStore
  | [] => (parent, s)
  | name :: names =>
    match s.child? parent name with
    | some n => enter s n.id names
    | none => enter (s.addNode "folder" parent name none) (s.newId "folder") names

/-- Put a file at a path.  Missing folders are created; the file is new in any case.  Returns
the id of the file. -/
def addFile (s : DriveStore) (path : String) (data : ByteArray) : String × DriveStore :=
  let parts := splitAtChar pathSeparator path
  let (parent, s) := s.enter rootId (parts.dropLast.filter fun part => part ≠ "")
  (s.newId "existing", s.addNode "existing" parent (parts.getLast?.getD "") (some data))

/-- The id of the folder or file at a path. -/
def idAt (s : DriveStore) (path : String) : Option String :=
  (pathParts path).foldlM (fun id name => (s.child? id name).map (·.id)) rootId

/-- The content of the file at a path. -/
def fileAt (s : DriveStore) (path : String) : Option ByteArray :=
  (s.idAt path).bind fun id => (s.node? id).bind (·.content)

/-- The names in the folder at a path, sorted. -/
def namesAt (s : DriveStore) (path : String) : List String :=
  match s.idAt path with
  | none => []
  | some id => ((s.nodesIn id).map (·.name)).mergeSort fun a b => decide (a ≤ b)

/-- The permissions granted on the folder or file at a path. -/
def permissionsAt (s : DriveStore) (path : String) : List Invitation :=
  match s.idAt path with
  | none => []
  | some id => (s.grantsOn id).map (·.2)

/-- What is found under a name when the folders of a drive are walked through. -/
inductive Tree
  /-- A name that can't be part of a path. -/
  | unreachable (name : String)
  /-- A folder or file, and what is in it. -/
  | found (name : String) (id : Option String) (file : Option ByteArray)
    (permissions : List Invitation) (children : List Tree)

/-- Walk through the folders from a path on, at most `levels` of them below each other. -/
def treeAt (s : DriveStore) : (levels : Nat) → (path : String) → List Tree
  | 0, _ => []
  | levels + 1, path =>
    (s.namesAt path).map fun name =>
      if isElement name then
        let inner := path ++ "/" ++ name
        .found name (s.idAt inner) (s.fileAt inner) (s.permissionsAt inner) (s.treeAt levels inner)
      else .unreachable name

/-- Walk through all folders of a drive. -/
def tree (s : DriveStore) : List Tree := s.treeAt (s.nodes.length + 1) ""

end DriveStore

end TenantRestore
