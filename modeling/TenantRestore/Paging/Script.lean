/-
# Replaying pages

A script is a pager that hands out given pages and failures one after the other, and others
after it was started over.  It keeps a record of what it was asked for.
-/
import TenantRestore.Paging.Basic

namespace TenantRestore

/-- Something a script was asked for. -/
inductive PagerEvent
  /-- The current page. -/
  | fetched
  /-- The current page, when the link has expired. -/
  | expired (failure : Failure)
  /-- To start over. -/
  | restarted
  /-- To go on to a link. -/
  | wentTo (link : String)
deriving DecidableEq, Repr

/-- The state of a script. -/
structure Script (α : Type) where
  /-- What is handed out next. -/
  pages : List (Except Failure (Page α))
  /-- What is handed out after starting over. -/
  afterRestart : List (Except Failure (Page α)) := []
  /-- The number of fetches so far. -/
  fetches : Nat := 0
  /-- The number of the fetch during which the enumeration is stopped. -/
  stopsAt : Option Nat := none
  /-- What the script was asked for, in order. -/
  events : List PagerEvent := []

namespace Script

variable {α : Type}

/-- Note something the script was asked for. -/
def noting (s : Script α) (e : PagerEvent) : Script α := { s with events := s.events ++ [e] }

/-- Hand out what is next. -/
def fetch (s : Script α) : Response (Page α) × Script α :=
  let s := { s.noting .fetched with fetches := s.fetches + 1 }
  let stops : Bool := s.stopsAt = some s.fetches
  match s.pages with
  | [] => (⟨.error (.because "no more pages"), stops⟩, s)
  | answer :: rest =>
    let s := { s with pages := rest }
    match answer with
    | .ok page => (⟨.ok page, stops⟩, s)
    | .error f =>
      (⟨.error f, stops⟩, if f.isExpiredLink then s.noting (.expired f) else s)

/-- Start over with the pages kept for that. -/
def restart (s : Script α) : Script α :=
  { s.noting .restarted with pages := s.afterRestart, afterRestart := [] }

/-- The pager of a script. -/
def pager : Pager (Script α) α where
  fetch := fetch
  goTo link s := s.noting (.wentTo link)
  restart := restart

/-- Enough fetches for all pages of a script. -/
def limit (s : Script α) : Nat := s.pages.length + s.afterRestart.length + 3

end Script

end TenantRestore
