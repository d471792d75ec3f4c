/-
# The stored form of permissions and metadata

Permissions and metadata are stored as JSON records.  Absent and empty fields are left out,
and take their default when they are read; only the mode of sharing is always written, as a
number.
-/
import TenantRestore.Json.Reader
import TenantRestore.Permission.Basic
import TenantRestore.Time.Read
import TenantRestore.Time.Write

namespace TenantRestore

open Reader (field)

/-- Read a point in time in the relaxed form. -/
def Moment.reader : Reader Moment :=
  Reader.convert Reader.string fun s => ofRelaxed? s.toList

namespace Permission

/-- The fields of a stored permission. -/
def fields : List (Reader.Field Permission) := [
  field "id" .string fun v p => { p with id := v },
  field "role" (.array .string) fun v p => { p with roles := v },
  field "email" .string fun v p => { p with email := v },
  field "entityId" .string fun v p => { p with entityId := v },
  field "entityType" (.optional (.oneOf PrincipalKind.ofName?)) fun v p => { p with kind := v },
  field "expiration" (.optional Moment.reader) fun v p => { p with expiration := v }]

/-- Read a stored permission. -/
def reader : Reader Permission := Reader.record true fields {}

/-- A text field, unless the text is empty. -/
def textField (name value : String) : List (String × Json) :=
  if value = "" then [] else [(name, .string value)]

/-- A list field, unless the list is empty. -/
def listField {α : Type} (name : String) (toJson : α → Json) (values : List α) :
    List (String × Json) :=
  if values.isEmpty then [] else [(name, .array (values.map toJson))]

/-- A field that may be absent. -/
def optionalField {α : Type} (name : String) (toJson : α → Json) (value : Option α) :
    List (String × Json) :=
  match value with
  | none => []
  | some a => [(name, toJson a)]

/-- The stored form of a permission. -/
def toJson (p : Permission) : Json :=
  .object (textField "id" p.id ++ listField "role" .string p.roles ++
    textField "email" p.email ++ textField "entityId" p.entityId ++
    optionalField "entityType" (fun k => .string k.name) p.kind ++
    optionalField "expiration" (fun m => .string m.text) p.expiration)

end Permission

namespace Metadata

/-- The fields of stored metadata. -/
def fields : List (Reader.Field Metadata) := [
  field "filename" .string fun v m => { m with fileName := v },
  field "permissionMode" (.convert (.natural 255) Sharing.ofCode?) fun v m =>
    { m with sharing := v },
  field "permissions" (.array Permission.reader) fun v m => { m with permissions := v }]

/-- Read stored metadata. -/
def reader : Reader Metadata := Reader.record true fields {}

/-- Read the content of a metadata file. -/
def ofData (data : ByteArray) : Except Problem Metadata := reader.readText data

/-- The stored form of metadata. -/
def toJson (m : Metadata) : Json :=
  .object (Permission.textField "filename" m.fileName ++
    [("permissionMode", .number (.integer m.sharing.code))] ++
    Permission.listField "permissions" Permission.toJson m.permissions)

end Metadata

end TenantRestore
