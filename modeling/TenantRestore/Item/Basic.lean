/-
# Items

An item is a contact, a calendar event, a list of a site or a page of a site.  The fields a
restore needs are kept by name, all others as they are, sorted by name, so that they can be
handed back to the remote service.

Two items are taken to be the same if they have the same key.  The key of an item is made of
those fields which a user would recognise it by.
-/
import TenantRestore.Json.Basic
import TenantRestore.Path.Basic
import TenantRestore.Text.LowerCase
import TenantRestore.Time.Read
import TenantRestore.Time.Write

namespace TenantRestore

/-- The kinds of items. -/
inductive ItemKind
  /-- A contact of a mailbox. -/
  | contact
  /-- An event of a calendar. -/
  | event
  /-- A list of a site. -/
  | list
  /-- A page of a site. -/
  | page
deriving DecidableEq, Repr

namespace ItemKind

/-- All kinds of items. -/
def all : List ItemKind := [.contact, .event, .list, .page]

/-- The name of a kind of items. -/
def name : ItemKind → String
  | .contact => "contact"
  | .event => "event"
  | .list => "list"
  | .page => "page"

/-- The kind of items with a given name. -/
def ofName? (name : String) : Option ItemKind := all.find? fun k => k.name = name

/-- The category the items of a kind are stored in. -/
def category : ItemKind → Category
  | .contact => .contacts
  | .event => .events
  | .list => .lists
  | .page => .pages

end ItemKind

/-- A date and time together with the name of its time zone. -/
structure ZonedTime where
  /-- The date and time. -/
  dateTime : String := ""
  /-- The name of the time zone; empty for UTC. -/
  timeZone : String := ""
deriving DecidableEq, Repr

/-- The fields of an item which are handed back as they are. -/
abbrev ExtraFields := List (String × Json)

/-- A contact. -/
structure Contact where
  /-- The given name. -/
  givenName : Option String := none
  /-- The surname. -/
  surname : Option String := none
  /-- The email addresses. -/
  emails : List String := []
  /-- All other fields. -/
  extra : ExtraFields := []
deriving DecidableEq

/-- A calendar event. -/
structure Event where
  /-- The subject. -/
  subject : Option String := none
  /-- When the event starts. -/
  start : Option ZonedTime := none
  /-- When the event ends. -/
  finish : Option ZonedTime := none
  /-- All other fields. -/
  extra : ExtraFields := []
deriving DecidableEq

/-- A list of a site. -/
structure SiteList where
  /-- The name of the list. -/
  displayName : Option String := none
  /-- The items of the list, which are created after the list itself. -/
  items : List Json := []
  /-- All other fields. -/
  extra : ExtraFields := []
deriving DecidableEq

/-- A page of a site. -/
structure SitePage where
  /-- The file name of the page. -/
  name : Option String := none
  /-- The title of the page. -/
  title : Option String := none
  /-- All other fields. -/
  extra : ExtraFields := []
deriving DecidableEq

/-- An item of any kind. -/
inductive Item
  /-- A contact. -/
  | contact (contact : Contact)
  /-- A calendar event. -/
  | event (event : Event)
  /-- A list of a site. -/
  | list (list : SiteList)
  /-- A page of a site. -/
  | page (page : SitePage)
deriving DecidableEq

/-! ## Times -/

namespace ZonedTime

/-- Whether a name is that of UTC, in letters of any case. -/
def isUtc (zone : String) : Bool :=
  zone.toList.isEmpty || zone.toList.map Char.toLower = ['u', 't', 'c']

/-- The point in time of a date and time, read in the strict or else in the plain form. -/
def moment? (t : ZonedTime) : Option Moment :=
  (Moment.ofStrict? t.dateTime.toList).or (Moment.ofPlain? t.dateTime.toList)

/-- One text for all spellings of a time in UTC; other times keep their date, time and zone. -/
def normalized (t : ZonedTime) : String :=
  match t.moment? with
  | some m => if isUtc t.timeZone then m.offsetText else t.dateTime ++ t.timeZone
  | none => t.dateTime ++ t.timeZone

end ZonedTime

/-! ## Keys and names -/

namespace Item

/-- The kind of an item. -/
def kind : Item → ItemKind
  | .contact _ => .contact
  | .event _ => .event
  | .list _ => .list
  | .page _ => .page

/-- The key which an item shares with those taken to be the same. -/
def key : Item → String
  | .contact c =>
    c.givenName.getD "" ++ c.surname.getD "" ++ (c.emails.head?.map toLowerCase).getD ""
  | .event e =>
    e.subject.getD "" ++ (e.start.map ZonedTime.normalized).getD "" ++
      (e.finish.map ZonedTime.normalized).getD ""
  | .list l => l.displayName.getD ""
  | .page p => p.name.getD ""

/-- The name an item is reported by. -/
def displayName : Item → String
  | .contact c => String.intercalate " " (c.givenName.toList ++ c.surname.toList)
  | .event e => e.subject.getD ""
  | .list l => l.displayName.getD ""
  | .page p => (p.title.or p.name).getD ""

/-- The name of a list or page at a location: it is put behind that of the location. -/
def locatedName (location name : String) : String :=
  if location = "" then name
  else if name = "" then location
  else location ++ "_" ++ name

/-- Adapt an item to the location it is restored to; lists and pages without a name get
`fallback`.  Contacts and events stay as they are. -/
def locate (location fallback : String) : Item → Item
  | .list l =>
    .list { l with displayName := some (locatedName location (l.displayName.getD fallback)) }
  | .page p => .page { p with name := some (locatedName location (p.name.getD fallback)) }
  | item => item

/-- The children of an item, which are created after it. -/
def children : Item → List Json
  | .list l => l.items
  | _ => []

/-- An item without its children. -/
def withoutChildren : Item → Item
  | .list l => .list { l with items := [] }
  | item => item

@[simp] theorem children_withoutChildren (item : Item) : item.withoutChildren.children = [] := by
  cases item <;> rfl

@[simp] theorem kind_locate (location fallback : String) (item : Item) :
    (item.locate location fallback).kind = item.kind := by
  cases item <;> rfl

@[simp] theorem kind_withoutChildren (item : Item) : item.withoutChildren.kind = item.kind := by
  cases item <;> rfl

end Item

end TenantRestore
