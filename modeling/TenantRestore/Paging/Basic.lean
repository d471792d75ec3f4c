/-
# Enumerating page by page

The remote service hands out long lists in pages, each with a link to the next one.  A pager
fetches the current page and can be sent on to another link; the pager of an enumeration of
changes can also be sent back to start over from nothing.

A pager is any machine with a state of its own.  It need not come to an end, so the
enumerations are told how many pages to fetch at most, and have no result if that is not
enough.
-/
import TenantRestore.Fault.Log
import TenantRestore.Remote.Call

namespace TenantRestore

/-- A page of a list. -/
structure Page (α : Type) where
  /-- The values of the page. -/
  values : List α
  /-- The link to the next page; none or empty on the last page. -/
  next : Option String
  /-- The link to enumerate later changes by; only on the last page. -/
  delta : Option String
deriving DecidableEq, Repr

namespace Page

variable {α : Type} {p : Page α} {link : String}

/-- The link to the next page, unless a page is the last. -/
def nextLink? (p : Page α) : Option String := p.next.filter fun link => link ≠ ""

theorem nextLink?_eq_some_iff : p.nextLink? = some link ↔ p.next = some link ∧ link ≠ "" := by
  simp [nextLink?, Option.filter_eq_some_iff]

theorem nextLink?_eq_none_iff : p.nextLink? = none ↔ p.next = none ∨ p.next = some "" := by
  rcases h : p.next with _ | link <;> simp [nextLink?, h, Option.filter_some]

end Page

/-- Anything that hands out pages. -/
structure Pager (σ α : Type) where
  /-- Fetch the current page. -/
  fetch : σ → Response (Page α) × σ
  /-- Go on to the page of a link. -/
  goTo : String → σ → σ
  /-- Start over from nothing. -/
  restart : σ → σ

/-- How an enumeration stands. -/
structure PagingState (σ : Type) where
  /-- Whether it has been stopped from outside. -/
  stopped : Bool
  /-- The state of the pager. -/
  pager : σ

/-- Fetch the current page. -/
def Pager.fetchPage {σ α : Type} (p : Pager σ α) (s : PagingState σ) :
    Except Failure (Page α) × PagingState σ :=
  let (r, pager) := p.fetch s.pager
  (r.answer, ⟨s.stopped || r.stops, pager⟩)

end TenantRestore
