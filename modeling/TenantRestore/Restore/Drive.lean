/-
# Restoring drive collections

A drive collection is a folder of a drive.  Its destination is the folder of the same name at
the location of the restore, which is created if it is missing.  Every file is uploaded there
under the collision policy; its permissions, and those of the folder itself, are restored
afterwards if that is wanted.

Where the metadata of files and folders is found depends on the version of the format.
-/
import TenantRestore.Permission.Restore
import TenantRestore.Permission.Stored
import TenantRestore.Restore.Entries

namespace TenantRestore

variable {σ : Type}

/-! ## Permissions -/

/-- Grant permissions and take them back by calls. -/
def Plan.updater (plan : Plan σ) : Updater (Steps σ) where
  grant drive item invitation := plan.askDrive (.grant drive item invitation)
  revoke drive item permission := plan.askDrive (.revoke drive item permission)

/-- Restore the permissions of an item or folder. -/
def Plan.restorePermissions (plan : Plan σ) (drive item : String) (path : BackupPath)
    (current : Metadata) : Restoring σ Unit := do
  let registry := (← get).registry
  let (result, ids) ← Restoring.always
    (plan.updater.restore drive item path current registry.metadata registry.permissionIds)
  Restoring.always (learn fun r => { r with permissionIds := ids })
  Restoring.ofExcept result

/-- Remember the metadata of the folder at a path. -/
def rememberMetadata (path : BackupPath) (m : Metadata) : Steps σ Unit :=
  learn fun r => { r with metadata := r.metadata.insert path.text m }

/-! ## Metadata -/

/-- Fetch a metadata file of a collection and read it. -/
def fetchMetadata (c : Collection) (name : String) : Except Fault Metadata :=
  match c.fetch name with
  | .error f => .error (.fetchingFailed name c.path.text f)
  | .ok entry =>
    match Metadata.ofData entry.data with
    | .error p => .error (.undecodableMetadata name p)
    | .ok m => .ok m

/-- The metadata of the first of some folders that is known.  The root of the drive is the last one
that is looked up; if it is not known either, the metadata is empty. -/
def firstKnown (known : Table String Metadata) : List BackupPath → Except Fault Metadata
  | [] => .ok {}
  | folder :: outer =>
    match known.find? folder.text with
    | some m => .ok m
    | none =>
      match folder.drive with
      | .error e => .error (.path e)
      | .ok address => if address.isRoot then .ok {} else firstKnown known outer

/-- The metadata of the folder a collection stands for.  Before version 4 it has been found in
the collection of a folder above; since then it is stored in the collection itself. -/
def Plan.folderMetadata (plan : Plan σ) (c : Collection) (address : DriveAddress)
    (known : Table String Metadata) : Except Fault Metadata :=
  if !plan.options.restorePermissions || !plan.version.hasMetaFiles then .ok {}
  else
    match address.folders.getLast? with
    | none => .ok {}
    | some folder =>
      if plan.version.keepsOwnDirMeta then fetchMetadata c (plan.version.dirMetaName folder)
      else firstKnown known (c.path :: c.path.above)

/-- The metadata of the file of a given stem, as far as it is needed. -/
def Plan.fileMetadata (plan : Plan σ) (c : Collection) (stem : String) : Except Fault Metadata :=
  if !plan.options.restorePermissions && !plan.version.hasNameInMeta then .ok {}
  else fetchMetadata c (stem ++ metaSuffix)

/-! ## Folders -/

/-- The names of the folders from the root of the drive to the destination of an address. -/
def Options.destination (o : Options) (address : DriveAddress) : List String :=
  if o.location = "" then address.folders else o.location :: address.folders

/-- The id of the root folder of a drive. -/
def Plan.rootFolder (plan : Plan σ) (drive : String) : Restoring σ String := do
  match (← get).registry.folders.find? (drive, []) with
  | some id => return id
  | none =>
    let root ← Restoring.need (plan.askDrive (.rootFolder drive))
    Restoring.always (learn fun r => { r with folders := r.folders.insert (drive, []) root.id })
    return root.id

/-- The id of the folder `name` in the folder `parent`, which is created if it is missing. -/
def Plan.subfolder (plan : Plan σ) (drive parent name : String) : Restoring σ String := do
  match ← Restoring.need (plan.askDrive (.findFolder drive parent name)) with
  | some folder => return folder.id
  | none =>
    let folder ← Restoring.need (plan.askDrive (.createFolder drive parent name))
    return folder.id

/-- Go down from a folder, whose place below the root is `place`, by some names. -/
def Plan.descend (plan : Plan σ) (drive : String) (place : List String) (parent : String) :
    List String → Restoring σ String
  | [] => return parent
  | name :: names => do
    let place := place ++ [name]
    match (← get).registry.folders.find? (drive, place) with
    | some id => plan.descend drive place id names
    | none =>
      let id ← plan.subfolder drive parent name
      Restoring.always (learn fun r => { r with folders := r.folders.insert (drive, place) id })
      plan.descend drive place id names

/-- The id of the folder which is the destination of an address. -/
def Plan.destinationFolder (plan : Plan σ) (address : DriveAddress) : Restoring σ String := do
  let names := plan.options.destination address
  match (← get).registry.folders.find? (address.drive, names) with
  | some id => return id
  | none =>
    let root ← plan.rootFolder address.drive
    plan.descend address.drive [] root names

/-! ## Files -/

/-- A file to upload. -/
structure DriveFile where
  /-- The name of the entry within its collection. -/
  entry : String
  /-- The name to restore the file by. -/
  name : String
  /-- The metadata of the file. -/
  metadata : Metadata
  /-- The content of the file. -/
  data : ByteArray

/-- What an entry of a drive collection is. -/
inductive DriveEntry
  /-- A file to upload. -/
  | file (file : DriveFile)
  /-- The metadata of a folder in the folder of the collection. -/
  | folderMetadata (folder : BackupPath) (metadata : Metadata)
  /-- Nothing to act on. -/
  | nothing

/-- Recognise an entry of a drive collection.  At first every entry was a file; since then
files are told from metadata by the endings of their names. -/
def Plan.recognise (plan : Plan σ) (c : Collection) (entry : Entry) : Except Fault DriveEntry :=
  if !plan.version.hasMetaFiles then .ok (.file ⟨entry.name, entry.name, {}, entry.data⟩)
  else
    match stem? entry.name dirMetaSuffix with
    | some folder =>
      if !plan.version.keepsOwnDirMeta && plan.options.restorePermissions then
        match Metadata.ofData entry.data with
        | .error p => .error (.undecodableMetadata entry.name p)
        | .ok m =>
          match c.path.append folder with
          | .error e => .error (.path e)
          | .ok path => .ok (.folderMetadata path m)
      else .ok .nothing
    | none =>
      if (stem? entry.name metaSuffix).isSome then .ok .nothing
      else
        match stem? entry.name dataSuffix with
        | none => .ok .nothing
        | some stem =>
          match plan.fileMetadata c stem with
          | .error f => .error f
          | .ok m =>
            let name := if plan.version.hasNameInMeta then m.fileName else stem
            .ok (.file ⟨entry.name, name, m, entry.data⟩)

/-- The path of a file within the backup: by its name, or by its entry if the name can't be
part of a path. -/
def BackupPath.ofFile (folder : BackupPath) (file : DriveFile) : Except Fault BackupPath :=
  match folder.append file.name with
  | .ok path => .ok path
  | .error _ =>
    match folder.append file.entry with
    | .ok path => .ok path
    | .error e => .error (.path e)

/-- Upload a file to a folder.  A file that replaces another one was stored under a name of its
own, and gets the name of the replaced one when that is deleted. -/
def Plan.uploadFile (plan : Plan σ) (drive folder : String) (file : DriveFile) :
    Restoring σ (String × Bool) := do
  let policy := plan.options.onCollision
  let keys ← knownKeys folder (plan.askDrive (.listKeys drive folder))
  let replaces := policy = .replace ∧ keys.contains file.name
  let result ← Restoring.always (plan.place folder file.name keys
    (plan.askDrive (.upload drive folder file.name file.data policy))
    fun old => plan.askDrive (.delete drive old))
  match result with
  | .ok id =>
    if replaces then
      match ← Restoring.always (plan.askDrive (.rename drive id file.name)) with
      | .ok () => pure ()
      | .error f => Restoring.always (plan.note (.remote f))
    return (id, replaces)
  | .error fault =>
    match fault.createdItem? with
    | none => throw fault
    | some id =>
      Restoring.always (plan.note fault)
      return (id, replaces)

/-- Restore a file. -/
def Plan.restoreFile (plan : Plan σ) (c : Collection) (address : DriveAddress) (folder : String)
    (file : DriveFile) : Restoring σ Unit := do
  Restoring.always (tally Tally.see)
  let (id, updated) ← plan.uploadFile address.drive folder file
  Restoring.always (tally fun t => t.succeed file.data.size)
  Restoring.always (plan.handOut {
    source := c.path.text ++ "/" ++ file.entry
    location := String.intercalate "/" (plan.options.destination address)
    category := c.path.category
    name := file.name
    size := file.data.size
    updated := updated })
  if plan.options.restorePermissions && plan.version.hasMetaFiles then
    let path ← Restoring.ofExcept (c.path.ofFile file)
    plan.restorePermissions address.drive id path file.metadata

/-- Restore an entry of a drive collection. -/
def Plan.restoreDriveEntry (plan : Plan σ) (c : Collection) (address : DriveAddress)
    (folder : String) (entry : Entry) : Restoring σ Unit := do
  match ← Restoring.ofExcept (plan.recognise c entry) with
  | .nothing => return
  | .folderMetadata path m => Restoring.always (rememberMetadata path m)
  | .file file => plan.restoreFile c address folder file

/-! ## Collections -/

/-- Find or create the folder of a drive collection and restore its permissions.  Returns the
address of the collection and the id of its folder. -/
def Plan.enterFolder (plan : Plan σ) (c : Collection) : Restoring σ (DriveAddress × String) := do
  let address ← Restoring.ofExcept (c.path.drive.mapError .path)
  let m ← Restoring.ofExcept (plan.folderMetadata c address (← get).registry.metadata)
  let folder ← plan.destinationFolder address
  if plan.options.restorePermissions && !address.isRoot then
    match ← Restoring.always (plan.restorePermissions address.drive folder c.path m).run with
    | .ok () => pure ()
    | .error fault => Restoring.always (plan.note fault)
  Restoring.always (rememberMetadata c.path m)
  return (address, folder)

/-- Restore a drive collection. -/
def Plan.restoreDrive (plan : Plan σ) (c : Collection) : Restoring σ Unit := do
  let (address, folder) ← plan.enterFolder c
  plan.forEachEntry c (plan.restoreDriveEntry c address folder)

end TenantRestore
