/-
# The session of a restore

A session is the state of a restore: what it has learnt, how far it has come, which faults
there were, whether it has been stopped, and every call it has made together with what came
back.  The machine that answers the calls keeps its state in the session, too.

A step of a restore is a state transformer that may end in a fault.
-/
import TenantRestore.Fault.Log
import TenantRestore.Format
import TenantRestore.Options
import TenantRestore.Progress.Basic
import TenantRestore.Registry
import TenantRestore.Remote.Call

namespace TenantRestore

/-- What a restore is to do, and who answers its calls. -/
structure Plan (σ : Type) where
  /-- The options. -/
  options : Options
  /-- The version of the format of the backup. -/
  version : FormatVersion
  /-- Who answers the calls. -/
  remote : Remote σ

/-- The state of a restore. -/
structure Session (σ : Type) where
  /-- What the restore has learnt. -/
  registry : Registry := {}
  /-- How far the restore has come. -/
  progress : Progress := {}
  /-- The faults. -/
  faults : FaultLog := {}
  /-- Whether the restore has been stopped. -/
  stopped : Bool := false
  /-- The calls so far, with what came back. -/
  trace : List Exchange := []
  /-- The state of who answers the calls. -/
  remote : σ

/-- A step of a restore which has no fault of its own. -/
abbrev Steps (σ : Type) := StateM (Session σ)

/-- A step of a restore which may end in a fault. -/
abbrev Restoring (σ : Type) := ExceptT Fault (Steps σ)

variable {σ : Type}

/-- The session at the start of a restore. -/
def Session.start (plan : Plan σ) (faults : FaultLog) (stopped : Bool) (remote : σ) :
    Session σ where
  progress := { destination := plan.options.location }
  faults := faults
  stopped := stopped
  remote := remote

/-- Make a call. -/
def Plan.ask (plan : Plan σ) (call : Call) : Steps σ (Except Failure call.Answer) := fun s =>
  let (r, remote) := plan.remote.respond call s.remote
  (r.answer,
    { s with
      stopped := s.stopped || r.stops
      trace := s.trace ++ [⟨call, r.answer⟩]
      remote := remote })

/-- Make a call that concerns a drive. -/
def Plan.askDrive (plan : Plan σ) (call : DriveCall) : Steps σ (Except Failure call.Answer) :=
  plan.ask (.drive call)

/-- Make a call that concerns items of a kind. -/
def Plan.askItems (plan : Plan σ) (kind : ItemKind) (call : ItemCall) :
    Steps σ (Except Failure call.Answer) :=
  plan.ask (.items kind call)

namespace Restoring

/-- Go on with a result, or end in its fault. -/
def ofExcept {α : Type} (r : Except Fault α) : Restoring σ α := fun s => (r, s)

/-- Go on with an answer, or end in the fault of a failed call. -/
def need {α : Type} (ask : Steps σ (Except Failure α)) : Restoring σ α := do
  match ← ask with
  | .ok a => return a
  | .error f => throw (.remote f)

/-- Do a step that has no fault of its own. -/
def always {α : Type} (step : Steps σ α) : Restoring σ α := ExceptT.lift step

end Restoring

/-- Change what the restore has learnt. -/
def learn (f : Registry → Registry) : Steps σ Unit :=
  modify fun s => { s with registry := f s.registry }

/-- Change the counts. -/
def tally (f : Tally → Tally) : Steps σ Unit :=
  modify fun s => { s with progress := { s.progress with tally := f s.progress.tally } }

/-- Note a fault that does not end the current step; failing fast, it stops the run. -/
def Plan.note (plan : Plan σ) (fault : Fault) : Steps σ Unit :=
  modify fun s =>
    { s with faults := if plan.options.failFast then s.faults.fail fault else s.faults.add fault }

/-- Hand out a receipt; if it is not taken, the restore goes on without. -/
def Plan.handOut (plan : Plan σ) (receipt : Receipt) : Steps σ Unit := do
  let _ ← plan.ask (.receipt receipt)

/-- The keys of a container, which are asked for once. -/
def knownKeys (container : String) (ask : Steps σ (Except Failure Keys)) : Restoring σ Keys := do
  match (← get).registry.keys.find? container with
  | some keys => return keys
  | none =>
    let keys ← Restoring.need ask
    Restoring.always (learn fun r => { r with keys := r.keys.insert container keys })
    return keys

/-- Create an item under a key as far as the policy allows, keeping the keys of its container
up to date. -/
def Plan.place (plan : Plan σ) (container key : String) (keys : Keys)
    (create : Steps σ (Except Failure String))
    (delete : String → Steps σ (Except Failure Unit)) : Steps σ (Except Fault String) := do
  let (result, keys) ← plan.options.onCollision.settle key keys create delete
  learn fun r => { r with keys := r.keys.insert container keys }
  return result

end TenantRestore
