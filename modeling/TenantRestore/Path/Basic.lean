/-
# Paths of backed up data

A path names a collection or an item of a backup: the tenant, the service, the resource
owner and the category, followed by any number of elements.  Below the categories that
belong to a drive the elements are `drives`, the drive id, `root:` and then the folders from
the drive root downwards; `BackupPath.drive` reads a path that way.

Everything here is about the path as a value.  Its text is the subject of
`TenantRestore.Path.Text`, its order of `TenantRestore.Path.Order`.
-/

namespace TenantRestore

/-- The service the data of a resource owner belongs to. -/
inductive Service
  /-- Mail, contacts and calendars. -/
  | exchange
  /-- Personal drives. -/
  | onedrive
  /-- Sites with document libraries, lists and pages. -/
  | sharepoint
deriving DecidableEq, Repr

/-- All services, in their order. -/
def Service.all : List Service := [.exchange, .onedrive, .sharepoint]

/-- The name of a service within a path. -/
def Service.name : Service → String
  | .exchange => "exchange"
  | .onedrive => "onedrive"
  | .sharepoint => "sharepoint"

/-- The service with a given name. -/
def Service.ofName? (name : String) : Option Service :=
  all.find? fun s => s.name = name

/-- The kind of data stored below a path. -/
inductive Category
  /-- Contacts of a mailbox. -/
  | contacts
  /-- Calendar events of a mailbox. -/
  | events
  /-- Files of a personal drive. -/
  | files
  /-- Document libraries of a site. -/
  | libraries
  /-- Lists of a site. -/
  | lists
  /-- Pages of a site. -/
  | pages
deriving DecidableEq, Repr

/-- All categories, in their order. -/
def Category.all : List Category := [.contacts, .events, .files, .libraries, .lists, .pages]

/-- The name of a category within a path. -/
def Category.name : Category → String
  | .contacts => "contacts"
  | .events => "events"
  | .files => "files"
  | .libraries => "libraries"
  | .lists => "lists"
  | .pages => "pages"

/-- The category with a given name. -/
def Category.ofName? (name : String) : Option Category :=
  all.find? fun c => c.name = name

/-- The path of a collection or of an item within a backup. -/
structure BackupPath where
  /-- The tenant the data belongs to. -/
  tenant : String
  /-- The service of the data. -/
  service : Service
  /-- The user or site which owns the data. -/
  owner : String
  /-- The kind of the data. -/
  category : Category
  /-- What follows the category, outermost first. -/
  elements : List String
deriving DecidableEq, Repr

/-- Where a path points to within a drive. -/
structure DriveAddress where
  /-- The id of the drive. -/
  drive : String
  /-- The folders below the root of the drive, outermost first. -/
  folders : List String
deriving DecidableEq, Repr

/-- Whether the address is the root folder of its drive. -/
def DriveAddress.isRoot (a : DriveAddress) : Bool := a.folders.isEmpty

/-- What can be wrong with a path. -/
inductive PathError
  /-- The text has less than the four parts every path has. -/
  | tooFewElements (text : String)
  /-- The second part is no service. -/
  | unknownService (name : String)
  /-- The fourth part is no category. -/
  | unknownCategory (name : String)
  /-- The path has no elements left, hence no directory above it. -/
  | noParent (path : String)
  /-- The elements do not start like those of a drive. -/
  | notADrivePath (path : String)
  /-- An element is empty or contains a separator. -/
  | invalidElement (element : String)
deriving DecidableEq, Repr

/-- The wording of a path error. -/
def PathError.message : PathError → String
  | .tooFewElements t => "path `" ++ t ++ "` has too few elements"
  | .unknownService n => "unknown service `" ++ n ++ "`"
  | .unknownCategory n => "unknown category `" ++ n ++ "`"
  | .noParent p => "path `" ++ p ++ "` has no parent directory"
  | .notADrivePath p => "path `" ++ p ++ "` is not a drive path"
  | .invalidElement e => "path element `" ++ e ++ "` must be non-empty and must not contain `/`"

/-- The character between the parts of a path. -/
def pathSeparator : Char := '/'

/-- Whether a text can be an element of a path: it is not empty and has no separator. -/
def isElement (e : String) : Bool := !e.toList.isEmpty && !e.toList.contains pathSeparator

/-- The element which starts the drive part of a path. -/
def drivesElement : String := "drives"

/-- The element which stands for the root folder of a drive. -/
def rootElement : String := "root:"

namespace BackupPath

/-- The text of a path: its parts with a separator between them. -/
def text (p : BackupPath) : String :=
  p.elements.foldl (fun t e => t ++ "/" ++ e)
    (p.tenant ++ "/" ++ p.service.name ++ "/" ++ p.owner ++ "/" ++ p.category.name)

/-- The path of checked elements; the first element which is none is the error. -/
def make (tenant : String) (service : Service) (owner : String) (category : Category)
    (elements : List String) : Except PathError BackupPath :=
  match elements.find? fun e => !isElement e with
  | some e => .error (.invalidElement e)
  | none => .ok ⟨tenant, service, owner, category, elements⟩

/-- The last element of a path. -/
def last? (p : BackupPath) : Option String := p.elements.getLast?

/-- The directory a path lies in. -/
def dir (p : BackupPath) : Except PathError BackupPath :=
  if p.elements.isEmpty then .error (.noParent p.text)
  else .ok { p with elements := p.elements.dropLast }

/-- The path of `element` within the directory at a path. -/
def append (p : BackupPath) (element : String) : Except PathError BackupPath :=
  if isElement element then .ok { p with elements := p.elements ++ [element] }
  else .error (.invalidElement element)

/-- Read a path as an address within a drive. -/
def drive (p : BackupPath) : Except PathError DriveAddress :=
  match p.elements with
  | drives :: id :: root :: folders =>
    if drives = drivesElement ∧ root = rootElement then .ok ⟨id, folders⟩
    else .error (.notADrivePath p.text)
  | _ => .error (.notADrivePath p.text)

end BackupPath

end TenantRestore
