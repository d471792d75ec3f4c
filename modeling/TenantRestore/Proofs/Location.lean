/-
# What the location of a restore changes

A restore may be directed to a location, which is given by its name.  A list or page is then
called `<location>_<name>`, and the container of a collection is the one with the name of the
location.  Without a location names stay as they are, and the container is the one which the path
of the collection ends in.  In either case a list or page that has no name first takes that of its
entry; contacts and events are never renamed.

These rules are stated here without the program: `CalledAt` and `Item.Prepared` for items, and
`BackupPath.ContainerAt` for containers.  Each of them has just one outcome, and this is the one
the program computes.
-/
import TenantRestore.Restore.Items

namespace TenantRestore

variable {location name called entry : String}

/-! ## Items -/

/-- What a list or page of some name is called at a location. -/
inductive CalledAt (location : String) : String → String → Prop
  /-- Without a location it keeps its name. -/
  | kept {name : String} (hlocation : location = "") : CalledAt location name name
  /-- If its name is empty, it is called like the location. -/
  | nameless (hlocation : location ≠ "") : CalledAt location "" location
  /-- The location stands before its name. -/
  | joined {name : String} (hlocation : location ≠ "") (hname : name ≠ "") :
    CalledAt location name (location ++ "_" ++ name)

theorem calledAt_iff : CalledAt location name called ↔ called = Item.locatedName location name := by
  unfold Item.locatedName
  constructor
  · rintro (hlocation | hlocation | ⟨hlocation, hname⟩)
    · rw [if_pos hlocation]
    · rw [if_neg hlocation, if_pos rfl]
    · rw [if_neg hlocation, if_neg hname]
  · rintro rfl
    by_cases hlocation : location = ""
    · rw [if_pos hlocation]
      exact .kept hlocation
    rw [if_neg hlocation]
    by_cases hname : name = ""
    · rw [if_pos hname, hname]
      exact .nameless hlocation
    · rw [if_neg hname]
      exact .joined hlocation hname

/-- What an item, read from an entry, is at a location. -/
inductive Item.Located (location entry : String) : Item → Item → Prop
  /-- A contact stays as it is. -/
  | contact (c : Contact) : Located location entry (.contact c) (.contact c)
  /-- So does an event. -/
  | event (e : Event) : Located location entry (.event e) (.event e)
  /-- A list is called as the location wants it. -/
  | list (l : SiteList) {called : String}
      (hcalled : CalledAt location (l.displayName.getD entry) called) :
    Located location entry (.list l) (.list { l with displayName := some called })
  /-- So is a page; its title does not matter. -/
  | page (p : SitePage) {called : String}
      (hcalled : CalledAt location (p.name.getD entry) called) :
    Located location entry (.page p) (.page { p with name := some called })

theorem Item.located_iff {item located : Item} :
    item.Located location entry located ↔ located = item.locate location entry := by
  constructor
  · rintro (_ | _ | ⟨l, hcalled⟩ | ⟨p, hcalled⟩)
    · rfl
    · rfl
    · rw [calledAt_iff.1 hcalled, Item.locate]
    · rw [calledAt_iff.1 hcalled, Item.locate]
  · rintro rfl
    cases item with
    | contact c => exact .contact c
    | event e => exact .event e
    | list l => exact .list l (calledAt_iff.2 rfl)
    | page p => exact .page p (calledAt_iff.2 rfl)

/-- What is stored for an item read from an entry: the item at its location, apart from its
children.  Only lists have children. -/
inductive Item.Prepared (location entry : String) (item : Item) : Item → List Json → Prop
  /-- A list is stored without its items, which are its children. -/
  | list {l : SiteList} (hlocated : item.Located location entry (.list l)) :
    Prepared location entry item (.list { l with items := [] }) l.items
  /-- All else is stored as it is. -/
  | whole {located : Item} (hlocated : item.Located location entry located)
      (hlist : located.kind ≠ .list) : Prepared location entry item located []

theorem Item.prepared_iff {item stored : Item} {children : List Json} :
    item.Prepared location entry stored children ↔
      stored = (item.locate location entry).withoutChildren ∧
        children = (item.locate location entry).children := by
  constructor
  · rintro (hlocated | ⟨hlocated, hlist⟩)
    · rw [← located_iff.1 hlocated]
      exact ⟨rfl, rfl⟩
    · rw [← located_iff.1 hlocated]
      cases stored <;> first | exact ⟨rfl, rfl⟩ | exact absurd rfl hlist
  · rintro ⟨rfl, rfl⟩
    have hlocated := located_iff.2 (rfl : item.locate location entry = item.locate location entry)
    generalize item.locate location entry = located at hlocated ⊢
    cases located with
    | list l => exact .list hlocated
    | contact _ | event _ | page _ => exact .whole hlocated (by rintro ⟨⟩)

/-! ## Containers -/

/-- The name of the container for the items of the collection at a path. -/
inductive BackupPath.ContainerAt (location : String) (path : BackupPath) : String → Prop
  /-- It is that of the location. -/
  | located (hlocation : location ≠ "") : ContainerAt location path location
  /-- Without a location it is the last element of the path. -/
  | original {name : String} (hlocation : location = "")
      (hlast : path.elements.getLast? = some name) : ContainerAt location path name
  /-- It is empty if the path has no elements. -/
  | bare (hlocation : location = "") (hnone : path.elements = []) : ContainerAt location path ""

theorem Options.containerAt_iff {o : Options} {path : BackupPath} :
    path.ContainerAt o.location name ↔ name = o.containerName path := by
  unfold Options.containerName BackupPath.last?
  constructor
  · rintro (hlocation | ⟨hlocation, hlast⟩ | ⟨hlocation, hnone⟩)
    · rw [if_neg hlocation]
    · rw [if_pos hlocation, hlast, Option.getD_some]
    · rw [if_pos hlocation, hnone, List.getLast?_nil, Option.getD_none]
  · rintro rfl
    by_cases hlocation : o.location = ""
    · rw [if_pos hlocation]
      rcases hlast : path.elements.getLast? with _ | name
      · exact .bare hlocation (List.getLast?_eq_none_iff.1 hlast)
      · exact .original hlocation hlast
    · rw [if_neg hlocation]
      exact .located hlocation

end TenantRestore
