/-
# The order of paths

Paths are compared part by part, the elements one after the other, so a path comes before
all paths it is a beginning of, and everything below a path stands together.  Services and
categories are ordered as they are listed.
-/
import TenantRestore.Path.Basic

namespace TenantRestore

/-- The position of a service in the list of services. -/
def Service.rank : Service → Nat
  | .exchange => 0
  | .onedrive => 1
  | .sharepoint => 2

/-- The position of a category in the list of categories. -/
def Category.rank : Category → Nat
  | .contacts => 0
  | .events => 1
  | .files => 2
  | .libraries => 3
  | .lists => 4
  | .pages => 5

namespace BackupPath

/-- Compare two paths part by part. -/
instance : Ord BackupPath where
  compare := compareLex (compareOn tenant) <| compareLex (compareOn (·.service.rank)) <|
    compareLex (compareOn owner) <| compareLex (compareOn (·.category.rank)) <|
    compareOn elements

/-- Whether a path does not come after another one. -/
def precedes (a b : BackupPath) : Bool := (compare a b).isLE

end BackupPath

end TenantRestore
