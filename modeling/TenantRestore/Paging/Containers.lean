/-
# Enumerating containers

All containers of a list are handed to a visitor.  Containers without an id or a name are
faults, and so are failures of the visitor; neither ends the enumeration unless the run has
failed by them.
-/
import TenantRestore.Paging.Basic

namespace TenantRestore

/-- Anything that handles containers, from a state of its own. -/
abbrev Visitor (τ : Type) := Container → τ → Response Unit × τ

/-- How an enumeration of containers stands. -/
structure Visits (σ τ : Type) where
  /-- How the paging stands. -/
  paging : PagingState σ
  /-- The state of the visitor. -/
  visitor : τ
  /-- The faults of the run. -/
  faults : FaultLog

namespace Visits

variable {σ τ : Type}

/-- Hand a container to a visitor. -/
def visit (f : Visitor τ) (c : Container) (v : Visits σ τ) : Visits σ τ :=
  if c.id = "" ∨ c.name = "" then
    { v with faults := v.faults.add (.incompleteContainer (c.id ++ "/" ++ c.name)) }
  else
    let (r, visitor) := f c v.visitor
    let v := { v with visitor := visitor, paging.stopped := v.paging.stopped || r.stops }
    match r.answer with
    | .ok () => v
    | .error e => { v with faults := v.faults.add (.handlingContainerFailed c.id e) }

/-- Hand the containers of a page to a visitor, until the run fails. -/
def visitAll (f : Visitor τ) : List Container → Visits σ τ → Visits σ τ
  | [], v => v
  | c :: cs, v => if v.faults.hasFailed then v else visitAll f cs (v.visit f c)

/-- Hand all containers a pager hands out in at most `limit` pages to a visitor. -/
def enumerate (p : Pager σ Container) (f : Visitor τ) : (limit : Nat) → Visits σ τ →
    Option (Except Fault Unit) × Visits σ τ
  | 0, v => (none, v)
  | limit + 1, v =>
    if v.faults.hasFailed then (some (.ok ()), v)
    else if v.paging.stopped then (some (.error .cancelled), v)
    else
      match p.fetchPage v.paging with
      | (.error e, paging) => (some (.error (.remote e)), { v with paging := paging })
      | (.ok page, paging) =>
        let v := visitAll f page.values { v with paging := paging }
        match page.nextLink? with
        | some link =>
          enumerate p f limit { v with paging.pager := p.goTo link v.paging.pager }
        | none => (some (.ok ()), v)

end Visits

end TenantRestore
