/-
# Enumerating containers, one after the other

An enumeration of containers is a loop within a loop, and each of them may end early.  What happens
in it is one list of events: exchanges with the pager, containers that are visited and containers
that are refused because they have no id or no name.  The list tells all there is to know about the
state of the enumeration, the faults of the run included (`Visits.After`), and no event happens
unless it may after those before (`Visits.Orderly`): no container is handled and no page is fetched
once the run has failed, and no container is passed over.  How an enumeration can end is listed in
`Visits.Ends`, and all of this is put together in `Visits.enumerate_visits`.
-/
import Mathlib.Data.List.Basic
import TenantRestore.Paging.Containers
import TenantRestore.Paging.Script
import TenantRestore.Proofs.Paging.Exchanges

namespace TenantRestore

/-- Whether a container has an id and a name. -/
def Container.isComplete (c : Container) : Bool := c.id ≠ "" ∧ c.name ≠ ""

/-- What was handed out in an exchange. -/
def PagerExchange.values {α : Type} : PagerExchange α → List α
  | .fetched ⟨.ok page, _⟩ => page.values
  | _ => []

/-- A visitor comes from a state to another one by handling a container. -/
inductive Visitor.Answers {τ : Type} (f : Visitor τ) : τ → Container × Response Unit → τ → Prop
  /-- It answers as it does in that state. -/
  | visited (c : Container) (s : τ) : Answers f s (c, (f c s).1) (f c s).2

namespace Visits

/-! ## What happens in an enumeration -/

/-- Something that happens in an enumeration of containers. -/
inductive Event
  /-- The pager is asked for something. -/
  | paging (x : PagerExchange Container)
  /-- A container is handed to the visitor, which answers. -/
  | visited (c : Container) (r : Response Unit)
  /-- A container is not handed to the visitor, because it has no id or no name. -/
  | refused (c : Container)

namespace Event

/-- The exchange with the pager. -/
def exchange? : Event → Option (PagerExchange Container)
  | .paging x => some x
  | _ => none

/-- The exchange with the visitor. -/
def call? : Event → Option (Container × Response Unit)
  | .visited c r => some (c, r)
  | _ => none

/-- The container that is handled. -/
def container? : Event → Option Container
  | .paging _ => none
  | .visited c _ => some c
  | .refused c => some c

/-- The fault that is added to those of the run. -/
def fault? : Event → Option Fault
  | .visited c ⟨.error e, _⟩ => some (.handlingContainerFailed c.id e)
  | .refused c => some (.incompleteContainer (c.id ++ "/" ++ c.name))
  | _ => none

/-- Whether the enumeration is stopped. -/
def stops : Event → Bool
  | .paging x => x.stops
  | .visited _ r => r.stops
  | .refused _ => false

end Event

variable {made before : List Event} {x : Event} {stopped : Bool} {l : FaultLog} {limit : Nat}
  {c : Container} {cs : List Container} {r : Option (Except Fault Unit)}

/-- The exchanges with the pager. -/
def exchanges (made : List Event) : List (PagerExchange Container) :=
  made.filterMap Event.exchange?

/-- The exchanges with the visitor. -/
def calls (made : List Event) : List (Container × Response Unit) := made.filterMap Event.call?

/-- The containers that were handled, in order. -/
def handled (made : List Event) : List Container := made.filterMap Event.container?

/-- The containers of all pages that were fetched, in order. -/
def handedOut (made : List Event) : List Container :=
  (exchanges made).flatMap PagerExchange.values

/-- The faults of the containers that were handled, in order. -/
def arisen (made : List Event) : List Fault := made.filterMap Event.fault?

/-- The faults of a run, which were `l` before. -/
def faultsAfter (l : FaultLog) (made : List Event) : FaultLog :=
  (arisen made).foldl FaultLog.add l

/-- Whether an enumeration has been stopped; `stopped` tells whether it was before. -/
def hasStopped (stopped : Bool) (made : List Event) : Bool := stopped || made.any Event.stops

section Concat

variable (made : List Event) (x : Event)

@[simp] theorem exchanges_concat :
    exchanges (made ++ [x]) = exchanges made ++ x.exchange?.toList := by
  simp [exchanges, List.filterMap_eq_flatMap_toList]

@[simp] theorem calls_concat : calls (made ++ [x]) = calls made ++ x.call?.toList := by
  simp [calls, List.filterMap_eq_flatMap_toList]

@[simp] theorem handled_concat : handled (made ++ [x]) = handled made ++ x.container?.toList := by
  simp [handled, List.filterMap_eq_flatMap_toList]

@[simp] theorem handedOut_concat :
    handedOut (made ++ [x]) =
      handedOut made ++ x.exchange?.toList.flatMap PagerExchange.values := by
  simp [handedOut]

@[simp] theorem arisen_concat : arisen (made ++ [x]) = arisen made ++ x.fault?.toList := by
  simp [arisen, List.filterMap_eq_flatMap_toList]

@[simp] theorem faultsAfter_concat (l : FaultLog) :
    faultsAfter l (made ++ [x]) = x.fault?.toList.foldl FaultLog.add (faultsAfter l made) := by
  simp [faultsAfter]

@[simp] theorem hasStopped_concat (stopped : Bool) :
    hasStopped stopped (made ++ [x]) = (hasStopped stopped made || x.stops) := by
  simp [hasStopped, Bool.or_assoc]

end Concat

/-! ## The order of events -/

/-- What may happen after some events. -/
inductive Allowed (stopped : Bool) (l : FaultLog) (before : List Event) : Event → Prop
  /-- A page may be fetched when all containers before have been handled, unless the run has failed
  or has been stopped. -/
  | fetched (r : Response (Page Container))
      (hfailed : (faultsAfter l before).hasFailed = false)
      (hstopped : hasStopped stopped before = false) (hdone : handled before = handedOut before) :
      Allowed stopped l before (.paging (.fetched r))
  /-- The pager may be sent on when all containers have been handled or the run has failed. -/
  | wentTo (link : String)
      (hdone : handled before = handedOut before ∨ (faultsAfter l before).hasFailed) :
      Allowed stopped l before (.paging (.wentTo link))
  /-- The next container may be visited if it is complete, unless the run has failed. -/
  | visited (c : Container) (r : Response Unit)
      (hfailed : (faultsAfter l before).hasFailed = false) (hcomplete : c.isComplete = true)
      (hnext : handled before ++ [c] <+: handedOut before) :
      Allowed stopped l before (.visited c r)
  /-- The next container may be refused if it is incomplete, unless the run has failed. -/
  | refused (c : Container)
      (hfailed : (faultsAfter l before).hasFailed = false) (hincomplete : c.isComplete = false)
      (hnext : handled before ++ [c] <+: handedOut before) :
      Allowed stopped l before (.refused c)

/-- Nothing happens that may not happen. -/
def Orderly (stopped : Bool) (l : FaultLog) (made : List Event) : Prop :=
  ∀ before x, before ++ [x] <+: made → Allowed stopped l before x

namespace Orderly

theorem nil (stopped : Bool) (l : FaultLog) : Orderly stopped l [] := by
  intro before x h
  simp at h

theorem concat_iff :
    Orderly stopped l (made ++ [x]) ↔ Orderly stopped l made ∧ Allowed stopped l made x := by
  constructor
  · intro h
    exact ⟨fun before y hy => h before y (hy.trans (List.prefix_append ..)),
      h made x List.prefix_rfl⟩
  · rintro ⟨h, hx⟩ before y hy
    rcases List.prefix_concat_iff.1 hy with heq | hy
    · obtain ⟨rfl, rfl⟩ := List.append_singleton_inj.1 heq
      exact hx
    · exact h before y hy

theorem concat (h : Orderly stopped l made) (hx : Allowed stopped l made x) :
    Orderly stopped l (made ++ [x]) :=
  concat_iff.2 ⟨h, hx⟩

/-- Containers are handled in the order in which they are handed out. -/
theorem handled_prefix (h : Orderly stopped l made) : handled made <+: handedOut made := by
  induction made using List.reverseRecOn with
  | nil => exact List.prefix_rfl
  | append_singleton made x ih =>
    obtain ⟨hmade, hx⟩ := concat_iff.1 h
    rw [handled_concat, handedOut_concat]
    cases hx with
    | fetched | wentTo => simpa [Event.container?] using (ih hmade).trans (List.prefix_append ..)
    | visited _ _ _ _ hnext | refused _ _ _ hnext =>
      simpa [Event.container?, Event.exchange?] using hnext

/-- Those that are handed to the visitor are the complete ones. -/
theorem map_calls (h : Orderly stopped l made) :
    (calls made).map Prod.fst = (handled made).filter Container.isComplete := by
  induction made using List.reverseRecOn with
  | nil => rfl
  | append_singleton made x ih =>
    obtain ⟨hmade, hx⟩ := concat_iff.1 h
    rw [handled_concat, calls_concat, List.map_append, List.filter_append, ih hmade]
    cases hx with
    | fetched | wentTo => rfl
    | visited _ _ _ hcomplete _ => simp [Event.call?, Event.container?, hcomplete]
    | refused _ _ hincomplete _ => simp [Event.call?, Event.container?, hincomplete]

/-- If a run fails fast, the first fault is its failure, and there is no other one. -/
theorem faultsAfter_of_failFast (h : Orderly stopped l made) (hfast : l.failFast = true) :
    faultsAfter l made = { l with failure := l.failure.or (arisen made).head? } ∧
      (l.failure.toList ++ arisen made).length ≤ 1 := by
  induction made using List.reverseRecOn with
  | nil =>
    obtain ⟨_ | _, _, _, _, _⟩ := l <;> exact ⟨rfl, by simp [arisen]⟩
  | append_singleton made x ih =>
    obtain ⟨hmade, hx⟩ := concat_iff.1 h
    cases hfault : x.fault? with
    | none => simpa [hfault] using ih hmade
    | some e =>
      obtain ⟨heq, -⟩ := ih hmade
      -- the run had not failed before
      have hnot : (faultsAfter l made).hasFailed = false := by
        cases hx with
        | fetched | wentTo => cases hfault
        | visited _ _ hfailed | refused _ hfailed => exact hfailed
      have hnone : l.failure = none ∧ arisen made = [] := by
        simpa [heq, FaultLog.hasFailed] using hnot
      rw [faultsAfter_concat, arisen_concat, heq, hfault, hnone.1, hnone.2]
      simp [FaultLog.add, FaultLog.fail, FaultLog.hasFailed, hfast]

end Orderly

/-- If a run does not fail fast, all faults are added to those it has recovered from. -/
theorem faultsAfter_of_patient (hpatient : l.failFast = false) (made : List Event) :
    faultsAfter l made = { l with recovered := l.recovered ++ arisen made } := by
  induction made using List.reverseRecOn with
  | nil => simp [faultsAfter, arisen]
  | append_singleton made x ih =>
    rw [faultsAfter_concat, ih, arisen_concat]
    cases x.fault? <;> simp [FaultLog.add, FaultLog.recover, hpatient]

/-- All containers of the pages that were fetched have been handled, or else the run has failed. -/
structure Settled (stopped : Bool) (l : FaultLog) (made : List Event) : Prop where
  /-- Nothing has happened that may not happen. -/
  orderly : Orderly stopped l made
  /-- No container is left, unless the run has failed. -/
  complete : handled made = handedOut made ∨ (faultsAfter l made).hasFailed

namespace Settled

/-- Then the pager may be sent on. -/
theorem wentTo (h : Settled stopped l made) (link : String) :
    Settled stopped l (made ++ [.paging (.wentTo link)]) where
  orderly := h.orderly.concat (.wentTo link h.complete)
  complete := by
    simpa [Event.container?, Event.exchange?, Event.fault?, PagerExchange.values] using h.complete

theorem handled_eq (h : Settled stopped l made)
    (hfailed : (faultsAfter l made).hasFailed = false) : handled made = handedOut made :=
  h.complete.resolve_right (by simp [hfailed])

section Fetched

variable (h : Settled stopped l made) (hfailed : (faultsAfter l made).hasFailed = false)

include h hfailed

/-- Then the next page may be fetched. -/
theorem fetched (hgoing : hasStopped stopped made = false) (r : Response (Page Container)) :
    Orderly stopped l (made ++ [.paging (.fetched r)]) :=
  h.orderly.concat (.fetched r hfailed hgoing (h.handled_eq hfailed))

theorem handedOut_fetched (page : Page Container) (stops : Bool) :
    handedOut (made ++ [.paging (.fetched ⟨.ok page, stops⟩)]) =
      handled (made ++ [.paging (.fetched ⟨.ok page, stops⟩)]) ++ page.values := by
  simp [Event.container?, Event.exchange?, PagerExchange.values, h.handled_eq hfailed]

theorem broken (hgoing : hasStopped stopped made = false) (e : Failure) (stops : Bool) :
    Settled stopped l (made ++ [.paging (.fetched ⟨.error e, stops⟩)]) where
  orderly := h.fetched hfailed hgoing ⟨.error e, stops⟩
  complete := Or.inl (by
    simpa [Event.container?, Event.exchange?, PagerExchange.values] using h.handled_eq hfailed)

end Fetched

end Settled

/-! ## How an enumeration ends -/

/-- The ways an enumeration ends that fetches `limit` pages at most; the faults of the run were `l`
before, and `stopped` tells whether it was stopped before. -/
inductive Ends (stopped : Bool) (l : FaultLog) (limit : Nat) :
    List Event → Option (Except Fault Unit) → Prop
  /-- The run has failed when the next page would be fetched. -/
  | failed {ps : List (Page Container)} {made : List Event} (h : Follows ps (exchanges made))
      (hfailed : (faultsAfter l made).hasFailed) : Ends stopped l limit made (some (.ok ()))
  /-- It has come to a page without a link to a next one, or with an empty one. -/
  | finished {ps : List (Page Container)} {made : List Event}
      {followed : List (PagerExchange Container)} {page : Page Container}
      (h : Follows ps followed) (hlast : page.next = none ∨ page.next = some "") (stops : Bool)
      (hmade : exchanges made = followed ++ [.fetched ⟨.ok page, stops⟩]) :
      Ends stopped l limit made (some (.ok ()))
  /-- A page can't be fetched. -/
  | broken {ps : List (Page Container)} {made : List Event} (h : Follows ps (exchanges made))
      (e : Failure) (stops : Bool) :
      Ends stopped l limit (made ++ [.paging (.fetched ⟨.error e, stops⟩)])
        (some (.error (.remote e)))
  /-- It has been stopped when the next page would be fetched. -/
  | cancelled {ps : List (Page Container)} {made : List Event} (h : Follows ps (exchanges made))
      (hfailed : (faultsAfter l made).hasFailed = false)
      (hstopped : hasStopped stopped made = true) :
      Ends stopped l limit made (some (.error .cancelled))
  /-- It has fetched as many pages as it may. -/
  | unfinished {ps : List (Page Container)} {made : List Event} (h : Follows ps (exchanges made))
      (hlimit : (exchanges made).countP PagerExchange.isFetch = limit) :
      Ends stopped l limit made none

/-! ## The state of an enumeration -/

section State

variable {σ τ : Type} {p : Pager σ Container} {f : Visitor τ} {v u : Visits σ τ} {t : σ}

/-- An enumeration has come from a state to another one by some events. -/
structure After (p : Pager σ Container) (f : Visitor τ) (v : Visits σ τ) (made : List Event)
    (u : Visits σ τ) : Prop where
  /-- The pager has come as far as it does by its exchanges. -/
  pager : Exchanges p.Answers v.paging.pager (exchanges made) u.paging.pager
  /-- The visitor has come as far as it does by its exchanges. -/
  visitor : Exchanges f.Answers v.visitor (calls made) u.visitor
  /-- It has been stopped if it was in one of the events or before. -/
  stopped : u.paging.stopped = hasStopped v.paging.stopped made
  /-- The faults of the events have been added to those of the run, one by one. -/
  faults : u.faults = faultsAfter v.faults made

/-- What happens when a container is handled. -/
def eventOf (f : Visitor τ) (c : Container) (v : Visits σ τ) : Event :=
  if c.isComplete then .visited c (f c v.visitor).1 else .refused c

theorem container?_eventOf (f : Visitor τ) (c : Container) (v : Visits σ τ) :
    (eventOf f c v).container? = some c := by
  unfold eventOf
  split <;> rfl

theorem exchange?_eventOf (f : Visitor τ) (c : Container) (v : Visits σ τ) :
    (eventOf f c v).exchange? = none := by
  unfold eventOf
  split <;> rfl

theorem allowed_eventOf (hfailed : (faultsAfter l made).hasFailed = false)
    (hnext : handled made ++ [c] <+: handedOut made) (f : Visitor τ) (v : Visits σ τ) :
    Allowed stopped l made (eventOf f c v) := by
  unfold eventOf
  split
  · exact .visited c _ hfailed ‹_› hnext
  · exact .refused c hfailed (Bool.eq_false_iff.2 ‹_›) hnext

theorem visit_incomplete (h : c.isComplete = false) (f : Visitor τ) (v : Visits σ τ) :
    v.visit f c =
      { v with faults := v.faults.add (.incompleteContainer (c.id ++ "/" ++ c.name)) } := by
  have hmissing : c.id = "" ∨ c.name = "" := by
    simpa [Container.isComplete, imp_iff_not_or] using h
  exact if_pos hmissing

theorem visit_complete (h : c.isComplete = true) (f : Visitor τ) (v : Visits σ τ) :
    v.visit f c =
      { v with
        visitor := (f c v.visitor).2
        paging.stopped := v.paging.stopped || (f c v.visitor).1.stops
        faults := (Event.visited c (f c v.visitor).1).fault?.toList.foldl FaultLog.add
          v.faults } := by
  have hpresent : ¬ (c.id = "" ∨ c.name = "") := by
    simpa [Container.isComplete] using h
  rw [visit, if_neg hpresent]
  rcases f c v.visitor with ⟨⟨_ | _, stops⟩, s⟩ <;> rfl

namespace After

theorem refl (p : Pager σ Container) (f : Visitor τ) (v : Visits σ τ) : After p f v [] v where
  pager := .none
  visitor := .none
  stopped := by simp [hasStopped]
  faults := rfl

theorem fetched (h : After p f v made u) {r : Response (Page Container)}
    (hfetch : p.fetch u.paging.pager = (r, t)) :
    After p f v (made ++ [.paging (.fetched r)])
      { u with paging := ⟨u.paging.stopped || r.stops, t⟩ } where
  pager := by
    rw [exchanges_concat]
    exact h.pager.more (.of_fetch hfetch)
  visitor := by simpa [Event.call?] using h.visitor
  stopped := by rw [hasStopped_concat, ← h.stopped]; rfl
  faults := by simpa [Event.fault?] using h.faults

theorem wentTo (h : After p f v made u) (link : String) :
    After p f v (made ++ [.paging (.wentTo link)])
      { u with paging.pager := p.goTo link u.paging.pager } where
  pager := by
    rw [exchanges_concat]
    exact h.pager.more (.wentTo link _)
  visitor := by simpa [Event.call?] using h.visitor
  stopped := by simpa [Event.stops, PagerExchange.stops] using h.stopped
  faults := by simpa [Event.fault?] using h.faults

theorem visit (h : After p f v made u) (c : Container) :
    After p f v (made ++ [eventOf f c u]) (u.visit f c) := by
  unfold eventOf
  cases hcomplete : c.isComplete with
  | false =>
    rw [visit_incomplete hcomplete, if_neg Bool.false_ne_true]
    exact
      { pager := by simpa [Event.exchange?] using h.pager
        visitor := by simpa [Event.call?] using h.visitor
        stopped := by simpa [Event.stops] using h.stopped
        faults := by rw [faultsAfter_concat, ← h.faults]; rfl }
  | true =>
    rw [visit_complete hcomplete, if_pos rfl]
    exact
      { pager := by simpa [Event.exchange?] using h.pager
        visitor := by rw [calls_concat]; exact h.visitor.more (.visited c _)
        stopped := by rw [hasStopped_concat, ← h.stopped]; rfl
        faults := by rw [faultsAfter_concat, ← h.faults] }

end After

/-! ## The course of an enumeration -/

/-- From where a page has been fetched, an enumeration comes to where its containers have been
handled or the run has failed. -/
theorem visitAll_settles (cs : List Container) (h : After p f v made u)
    (horder : Orderly v.paging.stopped v.faults made)
    (hcs : handedOut made = handled made ++ cs) :
    ∃ whole, After p f v whole (visitAll f cs u) ∧ Settled v.paging.stopped v.faults whole ∧
      exchanges whole = exchanges made := by
  induction cs generalizing made u with
  | nil => exact ⟨made, h, ⟨horder, Or.inl (by simpa using hcs.symm)⟩, rfl⟩
  | cons c cs ih =>
    cases hfailed : u.faults.hasFailed with
    | true =>
      rw [visitAll, if_pos hfailed]
      exact ⟨made, h, ⟨horder, Or.inr (h.faults ▸ hfailed)⟩, rfl⟩
    | false =>
      rw [visitAll, if_neg (Bool.eq_false_iff.1 hfailed)]
      have hnext : handled made ++ [c] <+: handedOut made := ⟨cs, by simp [hcs]⟩
      have hallowed : Allowed v.paging.stopped v.faults made (eventOf f c u) :=
        allowed_eventOf (h.faults ▸ hfailed) hnext f u
      obtain ⟨whole, hafter, hwhole, hsame⟩ := ih (h.visit c) (horder.concat hallowed)
        (by simp [hcs, container?_eventOf, exchange?_eventOf])
      exact ⟨whole, hafter, hwhole, by simpa [exchange?_eventOf] using hsame⟩

section Rounds

variable {e : Failure} {page : Page Container} {stops : Bool}

theorem enumerate_failed (hfailed : v.faults.hasFailed = true) (limit : Nat) :
    enumerate p f (limit + 1) v = (some (.ok ()), v) :=
  if_pos hfailed

theorem enumerate_stopped (hfailed : v.faults.hasFailed = false) (hstopped : v.paging.stopped)
    (limit : Nat) : enumerate p f (limit + 1) v = (some (.error .cancelled), v) := by
  rw [enumerate, if_neg (Bool.eq_false_iff.1 hfailed), if_pos hstopped]

theorem enumerate_error (hfailed : v.faults.hasFailed = false) (hgoing : v.paging.stopped = false)
    (hfetch : p.fetch v.paging.pager = (⟨.error e, stops⟩, t)) (limit : Nat) :
    enumerate p f (limit + 1) v =
      (some (.error (.remote e)), { v with paging := ⟨v.paging.stopped || stops, t⟩ }) := by
  simp [enumerate, Pager.fetchPage, hfailed, hgoing, hfetch]

theorem enumerate_linked {link : String} (hfailed : v.faults.hasFailed = false)
    (hgoing : v.paging.stopped = false)
    (hfetch : p.fetch v.paging.pager = (⟨.ok page, stops⟩, t))
    (hlink : page.nextLink? = some link)
    (hall : visitAll f page.values { v with paging := ⟨v.paging.stopped || stops, t⟩ } = u)
    (limit : Nat) :
    enumerate p f (limit + 1) v =
      enumerate p f limit { u with paging.pager := p.goTo link u.paging.pager } := by
  subst hall
  simp [enumerate, Pager.fetchPage, hfailed, hgoing, hfetch, hlink]

theorem enumerate_last (hfailed : v.faults.hasFailed = false)
    (hgoing : v.paging.stopped = false)
    (hfetch : p.fetch v.paging.pager = (⟨.ok page, stops⟩, t)) (hlast : page.nextLink? = none)
    (limit : Nat) :
    enumerate p f (limit + 1) v =
      (some (.ok ()),
        visitAll f page.values { v with paging := ⟨v.paging.stopped || stops, t⟩ }) := by
  simp [enumerate, Pager.fetchPage, hfailed, hgoing, hfetch, hlast]

end Rounds

/-- From any point at which it has followed all links an enumeration goes on to one of its ends. -/
theorem enumerate_ends (limit : Nat) (h : After p f v made u)
    (hsettled : Settled v.paging.stopped v.faults made) {ps : List (Page Container)}
    (hfollows : Follows ps (exchanges made)) :
    ∃ whole r t, enumerate p f limit u = (r, t) ∧ After p f v whole t ∧
      Settled v.paging.stopped v.faults whole ∧
      Ends v.paging.stopped v.faults ((exchanges made).countP PagerExchange.isFetch + limit)
        whole r := by
  induction limit generalizing made u ps with
  | zero => exact ⟨made, none, u, rfl, h, hsettled, .unfinished hfollows rfl⟩
  | succ limit ih =>
    cases hfailed : u.faults.hasFailed with
    | true =>
      rw [enumerate_failed hfailed]
      exact ⟨made, _, u, rfl, h, hsettled, .failed hfollows (h.faults ▸ hfailed)⟩
    | false =>
      have hsound : (faultsAfter v.faults made).hasFailed = false := h.faults ▸ hfailed
      cases hstopped : u.paging.stopped with
      | true =>
        rw [enumerate_stopped hfailed hstopped]
        exact ⟨made, _, u, rfl, h, hsettled, .cancelled hfollows hsound (h.stopped ▸ hstopped)⟩
      | false =>
        rcases hfetch : p.fetch u.paging.pager with ⟨⟨answer, stops⟩, t⟩
        have hfetched := h.fetched hfetch
        have hgoing : hasStopped v.paging.stopped made = false := h.stopped ▸ hstopped
        rcases answer with e | page
        · exact ⟨_, _, _, enumerate_error hfailed hstopped hfetch limit, hfetched,
            hsettled.broken hsound hgoing e stops, .broken hfollows e stops⟩
        · obtain ⟨whole, hafter, hwhole, hsame⟩ := visitAll_settles page.values hfetched
            (hsettled.fetched hsound hgoing _) (hsettled.handedOut_fetched hsound page stops)
          rw [exchanges_concat] at hsame
          cases hlink : page.nextLink? with
          | none =>
            exact ⟨whole, _, _, enumerate_last hfailed hstopped hfetch hlink limit, hafter, hwhole,
              .finished hfollows (Page.nextLink?_eq_none_iff.1 hlink) stops hsame⟩
          | some link =>
            have hlinked : exchanges (whole ++ [.paging (.wentTo link)]) =
                exchanges made ++ [.fetched ⟨.ok page, stops⟩] ++ [.wentTo link] := by
              rw [exchanges_concat, hsame]
              rfl
            obtain ⟨hnext, hnonempty⟩ := Page.nextLink?_eq_some_iff.1 hlink
            obtain ⟨all, r, w, hrun, hrest⟩ := ih (hafter.wentTo link) (hwhole.wentTo link)
              (hlinked ▸ hfollows.more hnext hnonempty stops)
            rw [hlinked, PagerExchange.countP_isFetch_concat _ _ rfl, Nat.add_assoc,
              Nat.add_comm 1] at hrest
            exact ⟨all, r, w, (enumerate_linked hfailed hstopped hfetch hlink rfl limit).trans hrun,
              hrest⟩

/-- An enumeration that has come to an end would not fetch more pages if it might. -/
theorem enumerate_mono {e : Except Fault Unit} (h : enumerate p f limit v = (some e, u))
    (more : Nat) : enumerate p f (limit + more) v = (some e, u) := by
  induction limit generalizing v with
  | zero => cases h
  | succ limit ih =>
    rw [Nat.add_right_comm]
    cases hfailed : v.faults.hasFailed with
    | true =>
      rw [enumerate_failed hfailed] at h ⊢
      exact h
    | false =>
      cases hstopped : v.paging.stopped with
      | true =>
        rw [enumerate_stopped hfailed hstopped] at h ⊢
        exact h
      | false =>
        rcases hfetch : p.fetch v.paging.pager with ⟨⟨e | page, stops⟩, t⟩
        · rw [enumerate_error hfailed hstopped hfetch] at h ⊢
          exact h
        · cases hlink : page.nextLink? with
          | none =>
            rw [enumerate_last hfailed hstopped hfetch hlink] at h ⊢
            exact h
          | some link =>
            rw [enumerate_linked hfailed hstopped hfetch hlink rfl] at h ⊢
            exact ih h

end State

/-! ## What the end tells -/

theorem paging_mem_iff {y : PagerExchange Container} :
    .paging y ∈ made ↔ y ∈ exchanges made := by
  simp only [exchanges, List.mem_filterMap]
  constructor
  · exact fun h => ⟨_, h, rfl⟩
  · rintro ⟨x, hx, hy⟩
    cases x with
    | paging z =>
      obtain rfl := Option.some.inj hy
      exact hx
    | visited | refused => cases hy

/-- If a run has failed, its enumeration comes to a good end. -/
theorem Ends.of_failed (h : Ends stopped l limit made r) (hr : r.isSome)
    (horder : Orderly stopped l made) (hfailed : (faultsAfter l made).hasFailed) :
    r = some (.ok ()) := by
  cases h with
  | failed | finished => rfl
  | broken =>
    -- the page would not have been fetched
    cases (Orderly.concat_iff.1 horder).2 with
    | fetched _ hnot => simp [Event.fault?, hnot] at hfailed
  | cancelled _ hnot => simp [hnot] at hfailed
  | unfinished => cases hr

/-- An enumeration that has come to an end was cancelled just if it would have fetched a page, but
was stopped before. -/
theorem Ends.cancelled_iff (h : Ends stopped l limit made r) (hr : r.isSome) :
    r = some (.error .cancelled) ↔ (∃ ps, Follows ps (exchanges made)) ∧
      (faultsAfter l made).hasFailed = false ∧ hasStopped stopped made = true := by
  cases h with
  | failed _ hfailed =>
    refine ⟨by rintro ⟨⟩, ?_⟩
    rintro ⟨-, hnot, -⟩
    simp [hnot] at hfailed
  | finished _ _ stops hmade =>
    refine ⟨by rintro ⟨⟩, ?_⟩
    rintro ⟨⟨ps, hps⟩, -⟩
    exact absurd (hmade ▸ List.getLast?_concat) (hps.getLast?_ne_fetched _)
  | broken h e stops =>
    refine ⟨by rintro ⟨⟩, ?_⟩
    rintro ⟨⟨ps, hps⟩, -⟩
    rw [exchanges_concat] at hps
    exact absurd List.getLast?_concat (hps.getLast?_ne_fetched _)
  | cancelled h hfailed hstopped => exact iff_of_true rfl ⟨⟨_, h⟩, hfailed, hstopped⟩
  | unfinished => cases hr

/-- An enumeration ends with a failure of the pager just if a page could not be fetched. -/
theorem Ends.remote_iff (h : Ends stopped l limit made r) (e : Failure) :
    r = some (.error (.remote e)) ↔ ∃ stops, .paging (.fetched ⟨.error e, stops⟩) ∈ made := by
  simp only [paging_mem_iff]
  have hnone {ps : List (Page Container)} {xs : List (PagerExchange Container)}
      (hps : Follows ps xs) : ¬ ∃ stops, .fetched ⟨.error e, stops⟩ ∈ xs := by
    rintro ⟨stops, hmem⟩
    obtain ⟨page, hpage⟩ := hps.exists_ok hmem
    cases hpage
  cases h with
  | failed h | cancelled h | unfinished h => exact iff_of_false (by rintro ⟨⟩) (hnone h)
  | finished h _ stops hmade =>
    refine iff_of_false (by rintro ⟨⟩) ?_
    simpa [hmade] using hnone h
  | broken h e' stops =>
    have hbefore := hnone h
    rw [exchanges_concat]
    constructor
    · rintro ⟨⟩
      exact ⟨stops, List.mem_append_right _ (List.mem_singleton_self _)⟩
    · rintro ⟨stops', hmem⟩
      rcases List.mem_append.1 hmem with hmem | hmem
      · exact absurd ⟨stops', hmem⟩ hbefore
      · obtain ⟨⟩ := List.mem_singleton.1 hmem
        rfl

/-- What is told by the events of an enumeration that fetches `limit` pages at most. -/
structure Course (stopped : Bool) (l : FaultLog) (limit : Nat) (made : List Event)
    (r : Option (Except Fault Unit)) : Prop where
  /-- Nothing happens that may not happen. -/
  orderly : Orderly stopped l made
  /-- The containers are handled in the order in which they are handed out. -/
  inOrder : handled made <+: handedOut made
  /-- None is left, unless the run has failed. -/
  complete : handled made = handedOut made ∨ (faultsAfter l made).hasFailed
  /-- Those handed to the visitor are the complete ones. -/
  calls : (calls made).map Prod.fst = (handled made).filter Container.isComplete
  /-- The run recovers from all faults that arise, unless it fails fast. -/
  patient : l.failFast = false →
    faultsAfter l made = { l with recovered := l.recovered ++ arisen made }
  /-- If it fails fast, the first fault is its failure, and there is no other one. -/
  failFast : l.failFast = true →
    faultsAfter l made = { l with failure := l.failure.or (arisen made).head? } ∧
      (l.failure.toList ++ arisen made).length ≤ 1
  /-- It ends in one of the ways there are. -/
  ends : Ends stopped l limit made r
  /-- If it comes to an end and the run has failed, that is a good end. -/
  failed : r.isSome → (faultsAfter l made).hasFailed → r = some (.ok ())
  /-- If it comes to an end, it is cancelled just if it is stopped before it would fetch a page. -/
  cancelled : r.isSome → (r = some (.error .cancelled) ↔
    (∃ ps, Follows ps (exchanges made)) ∧ (faultsAfter l made).hasFailed = false ∧
      hasStopped stopped made = true)
  /-- It ends with a failure of the pager just if a page can't be fetched. -/
  remote : ∀ e, r = some (.error (.remote e)) ↔
    ∃ stops, .paging (.fetched ⟨.error e, stops⟩) ∈ made

/-- Whoever hands out the pages and whoever handles the containers, an enumeration takes its course,
and its result does not depend on how many pages it may fetch, if these are enough. -/
theorem enumerate_visits {σ τ : Type} (p : Pager σ Container) (f : Visitor τ) (limit : Nat)
    (v : Visits σ τ) :
    ∃ made r u, enumerate p f limit v = (r, u) ∧ After p f v made u ∧
      (∀ log, Logs p.Answers log → log u.paging.pager = log v.paging.pager ++ exchanges made) ∧
      (∀ log, Logs f.Answers log → log u.visitor = log v.visitor ++ calls made) ∧
      Course v.paging.stopped v.faults limit made r ∧
      (r.isSome → ∀ more, enumerate p f (limit + more) v = enumerate p f limit v) := by
  have hstart : Settled v.paging.stopped v.faults [] := ⟨.nil _ _, Or.inl rfl⟩
  obtain ⟨made, r, u, hrun, hafter, ⟨horder, hcomplete⟩, hends⟩ :=
    enumerate_ends limit (.refl p f v) hstart .none
  rw [exchanges, List.filterMap_nil, List.countP_nil, Nat.zero_add] at hends
  refine ⟨made, r, u, hrun, hafter, fun log hlog => hlog.eq_append hafter.pager,
    fun log hlog => hlog.eq_append hafter.visitor, ?_, ?_⟩
  · exact
      { orderly := horder
        inOrder := horder.handled_prefix
        complete := hcomplete
        calls := horder.map_calls
        patient := fun hpatient => faultsAfter_of_patient hpatient made
        failFast := horder.faultsAfter_of_failFast
        ends := hends
        failed := fun hr => hends.of_failed hr horder
        cancelled := hends.cancelled_iff
        remote := hends.remote_iff }
  · intro hr more
    obtain ⟨e, rfl⟩ := Option.isSome_iff_exists.1 hr
    exact (enumerate_mono hrun more).trans hrun.symm

/-- A container without a name is in the way of the others just if the run is to fail fast. -/
example (failFast : Bool) :
    let script : Script Container :=
      { pages := [.ok ⟨[⟨"a", "Inbox", none⟩, ⟨"b", "", none⟩], some "next", none⟩,
          .ok ⟨[⟨"c", "Drafts", none⟩], none, none⟩] }
    let noteIds : Visitor (List String) := fun c ids => (⟨.ok (), false⟩, ids ++ [c.id])
    let (r, v) := enumerate Script.pager noteIds 3 ⟨⟨false, script⟩, [], { failFast }⟩
    r = some (.ok ()) ∧ v.visitor = if failFast then ["a"] else ["a", "c"] := by
  cases failFast <;> exact ⟨rfl, rfl⟩

/-- For a script, enough fetches are enough. -/
theorem isSome_enumerate_script {τ : Type} (f : Visitor τ) (v : Visits (Script Container) τ) :
    (enumerate Script.pager f v.paging.pager.limit v).1.isSome := by
  have hstart : Settled v.paging.stopped v.faults [] := ⟨.nil _ _, Or.inl rfl⟩
  obtain ⟨made, r, u, hrun, hafter, -, hends⟩ :=
    enumerate_ends v.paging.pager.limit (.refl Script.pager f v) hstart .none
  have hpages := Script.countP_isPage_le hafter.pager
  rw [hrun]
  cases hends with
  | failed | finished | broken | cancelled => rfl
  | unfinished h hlimit =>
    rw [h.countP_isFetch] at hlimit
    simp only [Script.limit, Script.left] at hlimit hpages
    omega

end Visits

end TenantRestore
