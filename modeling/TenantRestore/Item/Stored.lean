/-
# The stored form of items

An item is stored as a JSON object with its kind among the fields.  The kind is recognised
while the object is read; all other fields are read as values of any shape and are given
their meaning only when the object is complete, so a field of a wrong shape is noticed after
every fault of the text.

Fields without a meaning are kept in their canonical form.
-/
import TenantRestore.Item.Basic
import TenantRestore.Json.Tree
import TenantRestore.Permission.Stored

namespace TenantRestore

open Reader (field)
open Permission (listField optionalField)

/-- The name of the field with the kind of an item. -/
def kindField : String := "kind"

namespace ZonedTime

/-- Read a date and time with its time zone. -/
def reader : Reader ZonedTime := Reader.record true [
  field "dateTime" .string fun v t => { t with dateTime := v },
  field "timeZone" .string fun v t => { t with timeZone := v }] {}

/-- The stored form of a date and time with its time zone. -/
def toJson (t : ZonedTime) : Json :=
  .object [("dateTime", .string t.dateTime), ("timeZone", .string t.timeZone)]

end ZonedTime

namespace Item

/-! ## The fields of each kind -/

/-- The value of a field which must not be repeated; `absent` if the field is not there. -/
def fieldValue? {α : Type} (name : String) (r : Reader α) (absent : α)
    (fields : List (String × Json)) : Option α :=
  match fields.filter fun f => f.1 = name with
  | [] => some absent
  | [f] => r.readValue? f.2
  | _ => none

/-- The fields which are not among `names`, in their canonical form. -/
def extraFields (names : List String) (fields : List (String × Json)) : ExtraFields :=
  Json.sortFields (Json.canonicalFields (fields.filter fun f => !names.contains f.1))

/-- The names of the fields an item of a kind gives a meaning to. -/
def fieldNames : ItemKind → List String
  | .contact => ["givenName", "surname", "emailAddresses"]
  | .event => ["subject", "start", "end"]
  | .list => ["displayName", "items"]
  | .page => ["name", "title"]

/-- Read a value of any shape in its canonical form. -/
def anyValue : Reader Json := fun ts => do
  let (v, ts) ← Reader.value (ts.length + 2) ts
  return (v.canonical, ts)

/-- The item of a kind with some fields. -/
def ofFields? (kind : ItemKind) (fields : List (String × Json)) : Option Item := do
  let extra := extraFields (fieldNames kind) fields
  match kind with
  | .contact =>
    return .contact {
      givenName := ← fieldValue? "givenName" (.optional .string) none fields
      surname := ← fieldValue? "surname" (.optional .string) none fields
      emails := ← fieldValue? "emailAddresses" (.array .string) [] fields
      extra := extra }
  | .event =>
    return .event {
      subject := ← fieldValue? "subject" (.optional .string) none fields
      start := ← fieldValue? "start" (.optional ZonedTime.reader) none fields
      finish := ← fieldValue? "end" (.optional ZonedTime.reader) none fields
      extra := extra }
  | .list =>
    return .list {
      displayName := ← fieldValue? "displayName" (.optional .string) none fields
      items := ← fieldValue? "items" (.array anyValue) [] fields
      extra := extra }
  | .page =>
    return .page {
      name := ← fieldValue? "name" (.optional .string) none fields
      title := ← fieldValue? "title" (.optional .string) none fields
      extra := extra }

/-! ## Reading -/

/-- The kind of an item, given by its name. -/
def kindReader : Reader ItemKind := Reader.convert .string ItemKind.ofName?

/-- The fields of an object, less than `limit` of them, and the kind found among them.
The kind must occur once. -/
def bodyFields : (limit : Nat) → (kind : Option ItemKind) → (first : Bool) →
    Reader (ItemKind × List (String × Json))
  | 0, _, _, _ => .error .truncated
  | limit + 1, kind, first, ts => do
    let (key, ts) ← Reader.nextKey first ts
    match key with
    | none =>
      match kind with
      | some k => return ((k, []), ts)
      | none => .error .mismatched
    | some key =>
      if key = kindField then
        if kind.isSome then .error .mismatched
        else
          let (_, ts) ← Reader.colon ts
          let (k, ts) ← kindReader ts
          bodyFields limit (some k) false ts
      else
        let (_, ts) ← Reader.colon ts
        let (v, ts) ← Reader.value (Reader.maxLevels - 1) ts
        let ((k, fs), ts) ← bodyFields limit kind false ts
        return ((k, (key, v) :: fs), ts)

/-- Read an array in place of an item: its kind comes first, but it has no fields. -/
def bodyItems {α : Type} : Reader α := fun ts => do
  let (more, ts) ← Reader.nextItem true ts
  if more then
    let (_, ts) ← kindReader ts
    let (_, _) ← Reader.items (Reader.value (Reader.maxLevels - 1)) (ts.length + 1) false ts
    .error .mismatched
  else .error .mismatched

/-- Read an item. -/
def reader : Reader Item
  | .openObject :: ts => do
    let ((kind, fields), ts) ← bodyFields (ts.length + 1) none true ts
    match ofFields? kind fields with
    | some item => return (item, ts)
    | none => .error .mismatched
  | .openArray :: ts => bodyItems ts
  | ts => .error (Reader.unexpected ts)

/-- Read a stored item. -/
def ofData (data : ByteArray) : Except Problem Item := reader.readText data

/-! ## Writing -/

/-- The fields of an item other than its kind. -/
def toFields : Item → List (String × Json)
  | .contact c =>
    optionalField "givenName" .string c.givenName ++ optionalField "surname" .string c.surname ++
      listField "emailAddresses" .string c.emails ++ c.extra
  | .event e =>
    optionalField "subject" .string e.subject ++ optionalField "start" ZonedTime.toJson e.start ++
      optionalField "end" ZonedTime.toJson e.finish ++ e.extra
  | .list l =>
    optionalField "displayName" .string l.displayName ++ listField "items" id l.items ++ l.extra
  | .page p =>
    optionalField "name" .string p.name ++ optionalField "title" .string p.title ++ p.extra

/-- The form of an item within a store that knows its kind. -/
def toJson (item : Item) : Json := .object item.toFields

/-- The stored form of an item. -/
def toStored (item : Item) : Json :=
  .object ((kindField, .string item.kind.name) :: item.toFields)

end Item

end TenantRestore
