/-
# Running a restore

The collections are restored one after the other, parents before children.  A fault of a
single item or collection is noted and the restore goes on, unless it is to fail fast; it
also ends when it is stopped from outside.

What is restored up to then is accounted for in the session in any case.
-/
import TenantRestore.Restore.Drive
import TenantRestore.Restore.Items

namespace TenantRestore

variable {σ : Type}

/-- Restore a collection. -/
def Plan.restoreCollection (plan : Plan σ) (c : Collection) : Restoring σ Unit :=
  let handler := c.path.category.handler
  if plan.remote.serves handler then
    match handler with
    | .drive => plan.restoreDrive c
    | .items kind => plan.restoreItems kind c
  else throw (.noHandler c.path.category)

/-- Restore collections in their order, until the run fails or is stopped. -/
def Plan.restoreAll (plan : Plan σ) : List Collection → Steps σ Unit
  | [] => return
  | c :: cs => do
    let s ← get
    if s.stopped || s.faults.hasFailed then return
    let result ← (plan.restoreCollection c).run
    modify fun s => { s with progress := { s.progress with folders := s.progress.folders + 1 } }
    match result with
    | .ok () => plan.restoreAll cs
    | .error fault =>
      if fault.isCancelled then return
      plan.note fault
      plan.restoreAll cs

/-- How a run ends: with the fault of being stopped, else with the failure of the run, which is
taken out of the log. -/
def conclude : Steps σ (Except Fault Unit) := fun s =>
  if s.stopped then (.error .cancelled, s)
  else
    match s.faults.takeFailure with
    | (some fault, faults) => (.error fault, { s with faults := faults })
    | (none, _) => (.ok (), s)

/-- Restore some collections. -/
def Plan.run (plan : Plan σ) (cs : List Collection) : Steps σ (Except Fault Unit) := do
  plan.restoreAll (Collection.sort cs)
  conclude

end TenantRestore
