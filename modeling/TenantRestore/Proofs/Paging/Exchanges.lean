/-
# What a pager is asked for

An enumeration asks a pager for its current page, sends it on to a link, or lets it start over.
Whatever a pager makes of that, an enumeration leads it through a list of such exchanges from one
state to another one (`Exchanges`), and a pager that keeps a log of what it is asked for has just
these in it (`Logs.eq_append`).

An enumeration can only be stopped while a page is fetched, or before it starts, so the exchanges
tell whether it has been stopped.
-/
import Mathlib.Data.List.Induction
import Mathlib.Tactic.Common
import TenantRestore.Paging.Script

namespace TenantRestore

/-- Something a pager was asked for, with what it answered. -/
inductive PagerExchange (α : Type)
  /-- The current page. -/
  | fetched (response : Response (Page α))
  /-- To go on to the page of a link. -/
  | wentTo (link : String)
  /-- To start over. -/
  | restarted

variable {σ α : Type}

namespace PagerExchange

/-- Whether an enumeration is stopped during an exchange. -/
def stops : PagerExchange α → Bool
  | .fetched r => r.stops
  | _ => false

/-- Whether a page was asked for. -/
def isFetch : PagerExchange α → Bool
  | .fetched _ => true
  | _ => false

/-- Whether a page was handed out. -/
def isPage : PagerExchange α → Bool
  | .fetched ⟨.ok _, _⟩ => true
  | _ => false

/-- Whether the pager was let start over. -/
def isRestart : PagerExchange α → Bool
  | .restarted => true
  | _ => false

/-- A page is fetched once, whatever comes after that. -/
theorem countP_isFetch_concat (made : List (PagerExchange α)) (r : Response (Page α))
    {x : PagerExchange α} (hx : x.isFetch = false) :
    List.countP isFetch (made ++ [.fetched r] ++ [x]) = made.countP isFetch + 1 := by
  have hone : List.countP isFetch [.fetched r] = 1 := rfl
  have hnone : List.countP isFetch [x] = 0 := by simp [hx]
  rw [List.countP_append, List.countP_append, hone, hnone]

end PagerExchange

/-- Whether an enumeration has been stopped once some exchanges have been made; `stopped` tells
whether it was stopped before. -/
def stoppedAfter (stopped : Bool) (made : List (PagerExchange α)) : Bool :=
  stopped || made.any PagerExchange.stops

@[simp] theorem stoppedAfter_nil (stopped : Bool) :
    stoppedAfter stopped ([] : List (PagerExchange α)) = stopped := by
  simp [stoppedAfter]

@[simp] theorem stoppedAfter_concat (stopped : Bool) (made : List (PagerExchange α))
    (x : PagerExchange α) :
    stoppedAfter stopped (made ++ [x]) = (stoppedAfter stopped made || x.stops) := by
  simp [stoppedAfter, Bool.or_assoc]

section StoppedAfter

variable {stopped : Bool} {made : List (PagerExchange α)}

/-- If an enumeration has not been stopped before a page is fetched, this tells whether it is. -/
theorem stoppedAfter_fetched (hgoing : stoppedAfter stopped made = false)
    (r : Response (Page α)) : stoppedAfter stopped (made ++ [.fetched r]) = r.stops := by
  rw [stoppedAfter_concat, hgoing, Bool.false_or]
  rfl

/-- Anything else makes no difference. -/
theorem stoppedAfter_aside {x : PagerExchange α} (hx : x.stops = false) :
    stoppedAfter stopped (made ++ [x]) = stoppedAfter stopped made := by
  rw [stoppedAfter_concat, hx, Bool.or_false]

end StoppedAfter

/-- No page was asked for once the enumeration had been stopped. -/
def Unstopped (stopped : Bool) (made : List (PagerExchange α)) : Prop :=
  ∀ before r, before ++ [.fetched r] <+: made → stoppedAfter stopped before = false

theorem Unstopped.nil (stopped : Bool) : Unstopped stopped ([] : List (PagerExchange α)) := by
  intro before r h
  simp at h

theorem Unstopped.concat {stopped : Bool} {made : List (PagerExchange α)} {x : PagerExchange α}
    (h : Unstopped stopped made) (hx : x.isFetch → stoppedAfter stopped made = false) :
    Unstopped stopped (made ++ [x]) := by
  intro before r hprefix
  rcases List.prefix_concat_iff.1 hprefix with heq | hprefix
  · obtain ⟨rfl, rfl⟩ := List.append_singleton_inj.1 heq
    exact hx rfl
  · exact h before r hprefix

section Exchanges

variable {ξ : Type}

/-- A machine comes from a state to another one by some exchanges; `answers` tells what one of them
does. -/
inductive Exchanges (answers : σ → ξ → σ → Prop) (s : σ) : List ξ → σ → Prop
  /-- There are none. -/
  | none : Exchanges answers s [] s
  /-- After some of them there is one more. -/
  | more {made : List ξ} {x : ξ} {t u : σ} (h : Exchanges answers s made t)
      (hx : answers t x u) : Exchanges answers s (made ++ [x]) u

/-- A machine keeps a log of its exchanges. -/
def Logs (answers : σ → ξ → σ → Prop) (log : σ → List ξ) : Prop :=
  ∀ s x t, answers s x t → log t = log s ++ [x]

/-- The exchanges by which a machine comes to a state are those its log shows. -/
theorem Logs.eq_append {answers : σ → ξ → σ → Prop} {log : σ → List ξ} (hlog : Logs answers log)
    {s t : σ} {made : List ξ} (h : Exchanges answers s made t) : log t = log s ++ made := by
  induction h with
  | none => exact (List.append_nil _).symm
  | more _ hx ih => rw [hlog _ _ _ hx, ih, List.append_assoc]

end Exchanges

/-- Anything but a fetch may happen at any time. -/
theorem Unstopped.aside {stopped : Bool} {made : List (PagerExchange α)} {x : PagerExchange α}
    (h : Unstopped stopped made) (hx : x.isFetch = false) : Unstopped stopped (made ++ [x]) :=
  h.concat (by simp [hx])

namespace Pager

/-- A pager comes from a state to another one by one exchange. -/
inductive Answers (p : Pager σ α) : σ → PagerExchange α → σ → Prop
  /-- It hands out its current page. -/
  | fetched (s : σ) : Answers p s (.fetched (p.fetch s).1) (p.fetch s).2
  /-- It goes on to a link. -/
  | wentTo (link : String) (s : σ) : Answers p s (.wentTo link) (p.goTo link s)
  /-- It starts over. -/
  | restarted (s : σ) : Answers p s .restarted (p.restart s)

theorem Answers.of_fetch {p : Pager σ α} {s t : σ} {r : Response (Page α)}
    (h : p.fetch s = (r, t)) : p.Answers s (.fetched r) t := by
  have hfetched : p.Answers s (.fetched (p.fetch s).1) (p.fetch s).2 := .fetched s
  rwa [h] at hfetched

end Pager

namespace Script

variable {s t : Script α}

/-- The number of pages and failures a script may still hand out. -/
def left (s : Script α) : Nat := s.pages.length + s.afterRestart.length

theorem left_answers {x : PagerExchange α} (h : Script.pager.Answers s x t) :
    x.isPage.toNat + t.left ≤ s.left := by
  cases h with
  | wentTo link => simp [pager, noting, left, PagerExchange.isPage]
  | restarted => simp [pager, noting, restart, left, PagerExchange.isPage]
  | fetched =>
    change (PagerExchange.fetched (fetch s).1).isPage.toNat + (fetch s).2.left ≤ s.left
    obtain ⟨pages, afterRestart, _, _, _⟩ := s
    rcases pages with _ | ⟨f | page, pages⟩
    · exact Nat.le_of_eq (Nat.zero_add _)
    · simp only [fetch, left, PagerExchange.isPage, noting, apply_ite]
      split <;> simp
    · simp [fetch, left, PagerExchange.isPage, noting]
      omega

/-- A script hands out each of its pages once at most. -/
theorem countP_isPage_le {made : List (PagerExchange α)}
    (h : Exchanges Script.pager.Answers s made t) :
    made.countP PagerExchange.isPage + t.left ≤ s.left := by
  induction h with
  | none => simp
  | @more made x t u _ hx ih =>
    have hleft := left_answers hx
    rw [List.countP_append, List.countP_singleton]
    cases hpage : x.isPage <;> simp [hpage] at hleft ⊢ <;> omega

end Script

/-- Pages that were handed out one after the other, each with a link to the next one, which is not
empty and to which the pager was sent on, and the exchanges this took. -/
inductive Follows : List (Page α) → List (PagerExchange α) → Prop
  /-- There are none. -/
  | none : Follows [] []
  /-- After some pages there is one more. -/
  | more {ps : List (Page α)} {made : List (PagerExchange α)} {page : Page α} {link : String}
      (h : Follows ps made) (hnext : page.next = some link) (hlink : link ≠ "") (stops : Bool) :
      Follows (ps ++ [page]) (made ++ [.fetched ⟨.ok page, stops⟩] ++ [.wentTo link])

namespace Follows

variable {ps : List (Page α)} {made : List (PagerExchange α)}

theorem getLast?_ne_fetched (h : Follows ps made) (r : Response (Page α)) :
    made.getLast? ≠ some (.fetched r) := by
  cases h with
  | none => simp
  | more => simp

theorem countP_isFetch (h : Follows ps made) :
    made.countP PagerExchange.isFetch = made.countP PagerExchange.isPage := by
  induction h with
  | none => rfl
  | more _ _ _ _ ih => simp [List.countP_cons, ih, PagerExchange.isFetch, PagerExchange.isPage]

theorem countP_isRestart (h : Follows ps made) : made.countP PagerExchange.isRestart = 0 := by
  induction h with
  | none => rfl
  | more _ _ _ _ ih => simp [ih, PagerExchange.isRestart]

/-- All pages were handed out without a failure. -/
theorem exists_ok (h : Follows ps made) {r : Response (Page α)} (hr : .fetched r ∈ made) :
    ∃ page, r.answer = .ok page := by
  induction h with
  | none => cases hr
  | more _ _ _ _ ih =>
    rcases List.mem_append.1 hr with hr | hr
    · rcases List.mem_append.1 hr with hr | hr
      · exact ih hr
      · obtain ⟨⟩ := List.mem_singleton.1 hr
        exact ⟨_, rfl⟩
    · cases List.mem_singleton.1 hr

end Follows

end TenantRestore
