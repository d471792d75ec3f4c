/-
# The faults of a run

Most faults do not end a restore.  They are collected, and the restore goes on; only the
failure of the run stops it.  A run has at most one failure, faults after it are collected
like all others.  When failing fast, the first fault is the failure.

A log may announce every fault and warning as it is added, with all that is known about it.
-/
import TenantRestore.Fault.Basic

namespace TenantRestore

/-- How urgent an announcement is. -/
inductive Urgency
  /-- Something went wrong. -/
  | error
  /-- Something is worth knowing. -/
  | warning
deriving DecidableEq, Repr

/-- A line announced by a log. -/
structure Announcement where
  /-- How urgent it is. -/
  urgency : Urgency
  /-- Its text. -/
  text : String
deriving DecidableEq, Repr

/-- The faults of a run. -/
structure FaultLog where
  /-- The fault that stops the run. -/
  failure : Option Fault := none
  /-- The faults that do not stop it, in order. -/
  recovered : List Fault := []
  /-- The warnings, in order. -/
  warnings : List String := []
  /-- Whether the first fault stops the run. -/
  failFast : Bool := false
  /-- Whether additions are announced. -/
  announces : Bool := false
deriving DecidableEq, Repr

namespace FaultLog

/-- Whether the run has to stop. -/
def hasFailed (l : FaultLog) : Bool := l.failure.isSome

/-- Whether there is any fault. -/
def hasErrors (l : FaultLog) : Bool := l.hasFailed || !l.recovered.isEmpty

/-- Collect a fault that does not stop the run. -/
def recover (l : FaultLog) (f : Fault) : FaultLog := { l with recovered := l.recovered ++ [f] }

/-- Add a fault that stops the run, unless it has failed already. -/
def fail (l : FaultLog) (f : Fault) : FaultLog :=
  if l.hasFailed then l.recover f else { l with failure := some f }

/-- Add a fault that does not stop the run, unless it is to fail fast. -/
def add (l : FaultLog) (f : Fault) : FaultLog := if l.failFast then l.fail f else l.recover f

/-- Add a warning. -/
def warn (l : FaultLog) (text : String) : FaultLog := { l with warnings := l.warnings ++ [text] }

/-- Take the failure out of the log. -/
def takeFailure (l : FaultLog) : Option Fault × FaultLog := (l.failure, { l with failure := none })

/-- What is announced when a fault is added. -/
def announceFault (l : FaultLog) (f : Fault) : List Announcement :=
  if l.announces then [⟨.error, f.details⟩] else []

/-- What is announced when a warning is added. -/
def announceWarning (l : FaultLog) (text : String) : List Announcement :=
  if l.announces then [⟨.warning, text⟩] else []

/-- Everything in the log: the failure, the other faults and the warnings. -/
def report (l : FaultLog) : List Announcement :=
  l.failure.toList.map (fun f => ⟨.error, f.details⟩) ++
    l.recovered.map (fun f => ⟨.error, f.details⟩) ++ l.warnings.map fun w => ⟨.warning, w⟩

@[simp] theorem hasFailed_fail (l : FaultLog) (f : Fault) : (l.fail f).hasFailed := by
  unfold fail
  split
  · assumption
  · rfl

@[simp] theorem hasErrors_add (l : FaultLog) (f : Fault) : (l.add f).hasErrors := by
  unfold add
  split
  · simp [hasErrors]
  · simp [hasErrors, recover]

end FaultLog

end TenantRestore
