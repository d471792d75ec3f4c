/-
# Taking the entries of a collection

The entries of a collection are taken one after the other until there are no more, the run
has failed, or the restore is stopped.  A fault of a single entry is noted, and the next
entry is taken.
-/
import TenantRestore.Collection
import TenantRestore.Restore.Session

namespace TenantRestore

variable {σ : Type}

/-- Whether another entry is to be taken; none is once the run has failed. -/
def another : Restoring σ Bool := do
  let s ← get
  if s.faults.hasFailed then return false
  else if s.stopped then throw .cancelled
  else return true

/-- Stop the restore while it waits for an entry. -/
def dryUp : Restoring σ Unit := do
  modify fun s => { s with stopped := true }
  throw .cancelled

/-- Note the fault of an entry, unless the restore has been stopped. -/
def Plan.noteEntry (plan : Plan σ) : Except Fault Unit → Restoring σ Unit
  | .ok () => return
  | .error fault =>
    if fault.isCancelled then throw fault else Restoring.always (plan.note fault)

/-- Do something with every entry that comes. -/
def Plan.forEach (plan : Plan σ) (path : String) (driesUp : Bool) (act : Entry → Restoring σ Unit) :
    List (Except Failure Entry) → Restoring σ Unit
  | [] => do
    if ← another then
      if driesUp then dryUp
  | .error f :: rest => do
    if ← another then
      Restoring.always (plan.note (.readingFailed path f))
      plan.forEach path driesUp act rest
  | .ok entry :: rest => do
    if ← another then
      let result ← Restoring.always (act entry).run
      plan.noteEntry result
      plan.forEach path driesUp act rest

/-- Do something with every entry of a collection. -/
def Plan.forEachEntry (plan : Plan σ) (c : Collection) (act : Entry → Restoring σ Unit) :
    Restoring σ Unit :=
  plan.forEach c.path.text c.driesUp act c.entries

end TenantRestore
