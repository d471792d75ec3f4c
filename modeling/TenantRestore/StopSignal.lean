/-
# Stopping from outside

A stop signal is raised once and stays raised.  Whoever wants to raise or watch a signal
holds a handle of it, and handles can be copied.  A watcher that waits is woken up when the
signal is raised, or when it can no longer be raised because nobody holds a handle of it.
-/
import TenantRestore.Fault.Basic

namespace TenantRestore

/-- The handles of some stop signals, which are numbered. -/
structure StopBoard where
  /-- The signal of each handle. -/
  handles : List Nat := []
  /-- The signals that have been raised. -/
  raised : List Nat := []
  /-- The number of signals so far. -/
  signals : Nat := 0
deriving DecidableEq, Repr

namespace StopBoard

/-- Add a handle of a new signal. -/
def create (b : StopBoard) : StopBoard :=
  { b with handles := b.handles ++ [b.signals], signals := b.signals + 1 }

/-- Add a handle of the same signal as another handle. -/
def copy (b : StopBoard) (handle : Nat) : StopBoard :=
  { b with handles := b.handles ++ b.handles[handle]?.toList }

/-- Raise the signal of a handle. -/
def raise (b : StopBoard) (handle : Nat) : StopBoard :=
  { b with raised := b.handles[handle]?.toList ++ b.raised }

/-- Give up a handle. -/
def drop (b : StopBoard) (handle : Nat) : StopBoard :=
  { b with handles := b.handles.eraseIdx handle }

/-- Whether a signal has been raised. -/
def isRaised (b : StopBoard) (signal : Nat) : Bool := b.raised.contains signal

/-- Whether a watcher of a signal is woken up. -/
def wakes (b : StopBoard) (signal : Nat) : Bool :=
  b.isRaised signal || !b.handles.contains signal

end StopBoard

/-- Go on unless the signal has been raised. -/
def checkStop (raised : Bool) : Except Fault Unit :=
  if raised then .error .cancelled else .ok ()

end TenantRestore
