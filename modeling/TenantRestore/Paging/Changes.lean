/-
# Enumerating changes

The changes of a container since an earlier enumeration are items added or removed.  If the
link of the earlier enumeration has expired, the pager starts over once; then all items are
enumerated, and what was known before has to be given up.
-/
import TenantRestore.Paging.Basic

namespace TenantRestore

/-- A change of an item. -/
structure ItemChange where
  /-- The id of the item. -/
  id : String
  /-- Whether the item was removed. -/
  removed : Bool
deriving DecidableEq, Repr

/-- The changes of a container. -/
structure Changes where
  /-- The ids of the added items. -/
  added : List String := []
  /-- The ids of the removed items. -/
  removed : List String := []
  /-- The link to enumerate later changes by. -/
  link : String := ""
  /-- Whether the enumeration started over. -/
  restarted : Bool := false
deriving DecidableEq, Repr

namespace Changes

/-- The changes together with those of a further page. -/
def extend (c : Changes) (values : List ItemChange) : Changes :=
  { c with
    added := c.added ++ (values.filter fun v => !v.removed).map (·.id)
    removed := c.removed ++ (values.filter fun v => v.removed).map (·.id) }

/-- Collect changes, fetching at most `limit` pages; `known` are those of the pages before. -/
def collect {σ : Type} (p : Pager σ ItemChange) : (limit : Nat) → (known : Changes) →
    PagingState σ → Option (Except Fault Changes) × PagingState σ
  | 0, _, s => (none, s)
  | limit + 1, known, s =>
    if s.stopped then (some (.error .cancelled), s)
    else
      match p.fetchPage s with
      | (.error f, s) =>
        if f.isExpiredLink ∧ !known.restarted then
          collect p limit { restarted := true } { s with pager := p.restart s.pager }
        else (some (.error (.remote f)), s)
      | (.ok page, s) =>
        let known := known.extend page.values
        match page.nextLink? with
        | some link => collect p limit known { s with pager := p.goTo link s.pager }
        | none => (some (.ok { known with link := page.delta.getD "" }), s)

/-- The changes a pager hands out in at most `limit` pages. -/
def enumerate {σ : Type} (p : Pager σ ItemChange) (limit : Nat) (s : PagingState σ) :
    Option (Except Fault Changes) × PagingState σ :=
  collect p limit {} s

end Changes

end TenantRestore
