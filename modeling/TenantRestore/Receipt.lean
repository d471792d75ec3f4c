/-
# Receipts

For every restored item a receipt says where it came from, where it went to and what it is.
-/
import TenantRestore.Path.Basic

namespace TenantRestore

/-- The receipt of a restored item. -/
structure Receipt where
  /-- The path of the item within the backup. -/
  source : String
  /-- Where the item was restored to, for a reader. -/
  location : String
  /-- The category of the item. -/
  category : Category
  /-- The name of the restored item. -/
  name : String
  /-- The size of the stored item in bytes. -/
  size : Nat
  /-- Whether the item has replaced an existing one. -/
  updated : Bool
deriving DecidableEq, Repr

end TenantRestore
