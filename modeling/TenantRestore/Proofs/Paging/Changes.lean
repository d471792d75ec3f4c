/-
# Enumerating changes, page by page

An enumeration of changes follows the links from page to page, up to the first page without one.
It starts over if the pager says that its link has expired, but only once, and then forgets all
pages it has got before.  So at any time the exchanges with the pager are those of following pages,
after a first attempt if it has started over (`Changes.Underway`), and what is known are the changes
of the pages since then.  How an enumeration can end from there is listed in `Changes.Ends`:
`Changes.enumerate_course`.
-/
import TenantRestore.Paging.Changes
import TenantRestore.Proofs.Paging.Exchanges

namespace TenantRestore

variable {σ : Type}

namespace Changes

/-- The changes of some pages, in order. -/
def ofPages (restarted : Bool) (ps : List (Page ItemChange)) (link : String) : Changes where
  added := ((ps.flatMap fun page => page.values).filter fun v => !v.removed).map fun v => v.id
  removed := ((ps.flatMap fun page => page.values).filter fun v => v.removed).map fun v => v.id
  link := link
  restarted := restarted

theorem extend_ofPages (restarted : Bool) (ps : List (Page ItemChange)) (link : String)
    (page : Page ItemChange) :
    (ofPages restarted ps link).extend page.values = ofPages restarted (ps ++ [page]) link := by
  simp [ofPages, extend]

variable {p : Pager σ ItemChange} {ps : List (Page ItemChange)} {page : Page ItemChange}
  {made : List (PagerExchange ItemChange)} {stopped restarted : Bool} {f : Failure} {limit : Nat}
  {r : Option (Except Fault Changes)}

/-! ## How an enumeration goes on and ends -/

/-- The exchanges after which an enumeration goes on to fetch a page, the pages it has got since it
started over, and whether it did. -/
inductive Underway : Bool → List (Page ItemChange) → List (PagerExchange ItemChange) → Prop
  /-- It has not started over. -/
  | first {ps : List (Page ItemChange)} {made : List (PagerExchange ItemChange)}
      (h : Follows ps made) : Underway false ps made
  /-- It has started over, because the link had expired. -/
  | again {qs ps : List (Page ItemChange)} {earlier made : List (PagerExchange ItemChange)}
      {f : Failure} (hearlier : Follows qs earlier) (hexpired : f.isExpiredLink) (stops : Bool)
      (h : Follows ps made) :
      Underway true ps (earlier ++ [.fetched ⟨.error f, stops⟩] ++ [.restarted] ++ made)

/-- The ways an enumeration ends that fetches `limit` pages at most; `stopped` tells whether it was
stopped before. -/
inductive Ends (stopped : Bool) (limit : Nat) :
    List (PagerExchange ItemChange) → Option (Except Fault Changes) → Prop
  /-- It has come to a page without a link to a next one, or with an empty one. -/
  | finished {restarted : Bool} {ps : List (Page ItemChange)} {page : Page ItemChange}
      {made : List (PagerExchange ItemChange)} (h : Underway restarted ps made)
      (hlast : page.next = none ∨ page.next = some "") (stops : Bool) :
      Ends stopped limit (made ++ [.fetched ⟨.ok page, stops⟩])
        (some (.ok (ofPages restarted (ps ++ [page]) (page.delta.getD ""))))
  /-- A page can't be fetched, and that is not because of an expired link, or it has started over
  before. -/
  | failed {restarted : Bool} {ps : List (Page ItemChange)}
      {made : List (PagerExchange ItemChange)} {f : Failure} (h : Underway restarted ps made)
      (hfailed : f.isExpiredLink → restarted = true) (stops : Bool) :
      Ends stopped limit (made ++ [.fetched ⟨.error f, stops⟩]) (some (.error (.remote f)))
  /-- It has been stopped before it fetches the next page. -/
  | cancelled {restarted : Bool} {ps : List (Page ItemChange)}
      {made : List (PagerExchange ItemChange)} (h : Underway restarted ps made)
      (hstopped : stoppedAfter stopped made = true) :
      Ends stopped limit made (some (.error .cancelled))
  /-- It has fetched as many pages as it may. -/
  | unfinished {restarted : Bool} {ps : List (Page ItemChange)}
      {made : List (PagerExchange ItemChange)} (h : Underway restarted ps made)
      (hlimit : made.countP PagerExchange.isFetch = limit) : Ends stopped limit made none

namespace Underway

/-- One more page is followed. -/
theorem more {link : String} (h : Underway restarted ps made) (hnext : page.next = some link)
    (hlink : link ≠ "") (stops : Bool) :
    Underway restarted (ps ++ [page]) (made ++ [.fetched ⟨.ok page, stops⟩] ++ [.wentTo link]) := by
  cases h with
  | first h => exact .first (h.more hnext hlink stops)
  | again hearlier hexpired stops' h =>
    simpa only [List.append_assoc] using again hearlier hexpired stops' (h.more hnext hlink stops)

/-- The enumeration starts over. -/
theorem restart (h : Underway false ps made) (hexpired : f.isExpiredLink) (stops : Bool) :
    Underway true [] (made ++ [.fetched ⟨.error f, stops⟩] ++ [.restarted]) := by
  cases h with
  | first h => simpa using again h hexpired stops .none

theorem getLast?_ne_fetched (h : Underway restarted ps made) (r : Response (Page ItemChange)) :
    made.getLast? ≠ some (.fetched r) := by
  cases h with
  | first h => exact h.getLast?_ne_fetched r
  | @again _ _ _ made _ _ _ _ h =>
    rw [List.getLast?_append]
    cases hlast : made.getLast? with
    | none => simp
    | some x => simpa [hlast] using h.getLast?_ne_fetched r

/-- Each page that is asked for is handed out, except if the link has expired. -/
theorem countP_isFetch (h : Underway restarted ps made) :
    made.countP PagerExchange.isFetch = made.countP PagerExchange.isPage + restarted.toNat := by
  cases h with
  | first h => exact h.countP_isFetch
  | again hearlier _ _ h =>
    simp [List.countP_cons, hearlier.countP_isFetch, h.countP_isFetch, PagerExchange.isFetch,
      PagerExchange.isPage]
    omega

theorem countP_isRestart (h : Underway restarted ps made) :
    made.countP PagerExchange.isRestart = restarted.toNat := by
  cases h with
  | first h => exact h.countP_isRestart
  | again hearlier _ _ h =>
    simp [List.countP_cons, hearlier.countP_isRestart, h.countP_isRestart,
      PagerExchange.isRestart]

end Underway

/-- An enumeration starts over once at most, and what it finds tells whether it did. -/
theorem Ends.countP_isRestart (h : Ends stopped limit made r) :
    made.countP PagerExchange.isRestart ≤ 1 ∧
      ∀ c, r = some (.ok c) → made.countP PagerExchange.isRestart = c.restarted.toNat := by
  have hle (restarted : Bool) : restarted.toNat ≤ 1 := Bool.toNat_le restarted
  cases h with
  | finished h _ _ =>
    have hcount := h.countP_isRestart
    rw [List.countP_append, hcount]
    refine ⟨hle _, ?_⟩
    rintro c ⟨⟩
    rfl
  | failed h _ _ =>
    rw [List.countP_append, h.countP_isRestart]
    exact ⟨hle _, by rintro c ⟨⟩⟩
  | cancelled h _ =>
    rw [h.countP_isRestart]
    exact ⟨hle _, by rintro c ⟨⟩⟩
  | unfinished h _ =>
    rw [h.countP_isRestart]
    exact ⟨hle _, by rintro c ⟨⟩⟩

/-- An enumeration that has come to an end was cancelled just if it would have fetched a page, but
was stopped before. -/
theorem Ends.cancelled_iff (h : Ends stopped limit made r) (hr : r.isSome) :
    r = some (.error .cancelled) ↔
      (∃ restarted ps, Underway restarted ps made) ∧ stoppedAfter stopped made = true := by
  cases h with
  | finished h _ stops =>
    refine ⟨by rintro ⟨⟩, ?_⟩
    rintro ⟨⟨restarted, ps, hmade⟩, -⟩
    exact absurd List.getLast?_concat (hmade.getLast?_ne_fetched _)
  | failed h _ stops =>
    refine ⟨by rintro ⟨⟩, ?_⟩
    rintro ⟨⟨restarted, ps, hmade⟩, -⟩
    exact absurd List.getLast?_concat (hmade.getLast?_ne_fetched _)
  | cancelled h hstopped => exact iff_of_true rfl ⟨⟨_, _, h⟩, hstopped⟩
  | unfinished => cases hr

/-! ## The course of an enumeration -/

section Collect

variable {known : Changes} {t u : σ} {stops : Bool}

theorem collect_stopped (p : Pager σ ItemChange) (limit : Nat) (known : Changes) (t : σ) :
    collect p (limit + 1) known ⟨true, t⟩ = (some (.error .cancelled), ⟨true, t⟩) :=
  rfl

theorem collect_expired (h : p.fetch t = (⟨.error f, stops⟩, u)) (hexpired : f.isExpiredLink)
    (hfirst : known.restarted = false) (limit : Nat) :
    collect p (limit + 1) known ⟨false, t⟩ =
      collect p limit { restarted := true } ⟨stops, p.restart u⟩ := by
  simp [collect, Pager.fetchPage, h, hexpired, hfirst]

theorem collect_failed (h : p.fetch t = (⟨.error f, stops⟩, u))
    (hfailed : f.isExpiredLink → known.restarted = true) (limit : Nat) :
    collect p (limit + 1) known ⟨false, t⟩ = (some (.error (.remote f)), ⟨stops, u⟩) := by
  have hends : ¬ (f.isExpiredLink ∧ !known.restarted) := by
    rintro ⟨hexpired, hfirst⟩
    simp [hfailed hexpired] at hfirst
  simp only [collect, Pager.fetchPage, h, if_neg Bool.false_ne_true, Bool.false_or, if_neg hends]

theorem collect_linked {link : String} (h : p.fetch t = (⟨.ok page, stops⟩, u))
    (hlink : page.nextLink? = some link) (limit : Nat) :
    collect p (limit + 1) known ⟨false, t⟩ =
      collect p limit (known.extend page.values) ⟨stops, p.goTo link u⟩ := by
  simp [collect, Pager.fetchPage, h, hlink]

theorem collect_last (h : p.fetch t = (⟨.ok page, stops⟩, u)) (hlast : page.nextLink? = none)
    (limit : Nat) :
    collect p (limit + 1) known ⟨false, t⟩ =
      (some (.ok { known.extend page.values with link := page.delta.getD "" }), ⟨stops, u⟩) := by
  simp [collect, Pager.fetchPage, h, hlast]

end Collect

/-- From any point at which it is underway an enumeration goes on to one of its ends. -/
theorem collect_ends (limit : Nat) {s t : σ} (hmade : Exchanges p.Answers s made t)
    (h : Underway restarted ps made) (hunstopped : Unstopped stopped made) :
    ∃ whole r u, collect p limit (ofPages restarted ps "") ⟨stoppedAfter stopped made, t⟩ =
        (r, ⟨stoppedAfter stopped whole, u⟩) ∧
      Exchanges p.Answers s whole u ∧ Unstopped stopped whole ∧
      Ends stopped (made.countP PagerExchange.isFetch + limit) whole r := by
  induction limit generalizing made ps restarted t with
  | zero => exact ⟨made, none, t, rfl, hmade, hunstopped, .unfinished h rfl⟩
  | succ limit ih =>
    cases hstopped : stoppedAfter stopped made with
    | true =>
      rw [collect_stopped]
      exact ⟨made, _, t, by rw [hstopped], hmade, hunstopped, .cancelled h hstopped⟩
    | false =>
      rcases hfetch : p.fetch t with ⟨⟨answer, stops⟩, u⟩
      have hfetched := hmade.more (.of_fetch hfetch)
      have hquiet : Unstopped stopped (made ++ [.fetched ⟨answer, stops⟩]) :=
        hunstopped.concat fun _ => hstopped
      rcases answer with f | page
      · by_cases hagain : f.isExpiredLink ∧ restarted = false
        · -- what is known is forgotten
          obtain ⟨hexpired, rfl⟩ := hagain
          obtain ⟨whole, r, v, hrun, hwhole, hend⟩ :=
            ih (hfetched.more (.restarted u)) (h.restart hexpired stops) (hquiet.aside rfl)
          rw [stoppedAfter_aside rfl, stoppedAfter_fetched hstopped] at hrun
          rw [PagerExchange.countP_isFetch_concat _ _ rfl, Nat.add_assoc, Nat.add_comm 1] at hend
          exact ⟨whole, r, v, (collect_expired hfetch hexpired rfl limit).trans hrun, hwhole, hend⟩
        · have hfailed : f.isExpiredLink → restarted = true := by simpa using hagain
          refine ⟨_, _, u, ?_, hfetched, hquiet, .failed h hfailed stops⟩
          rw [stoppedAfter_fetched hstopped]
          exact collect_failed hfetch hfailed limit
      · cases hlink : page.nextLink? with
        | some link =>
          obtain ⟨hnext, hnonempty⟩ := Page.nextLink?_eq_some_iff.1 hlink
          obtain ⟨whole, r, v, hrun, hwhole, hend⟩ :=
            ih (hfetched.more (.wentTo link u)) (h.more hnext hnonempty stops) (hquiet.aside rfl)
          rw [stoppedAfter_aside rfl, stoppedAfter_fetched hstopped, ← extend_ofPages] at hrun
          rw [PagerExchange.countP_isFetch_concat _ _ rfl, Nat.add_assoc, Nat.add_comm 1] at hend
          exact ⟨whole, r, v, (collect_linked hfetch hlink limit).trans hrun, hwhole, hend⟩
        | none =>
          have hlast := Page.nextLink?_eq_none_iff.1 hlink
          refine ⟨_, _, u, ?_, hfetched, hquiet, .finished h hlast stops⟩
          rw [collect_last hfetch hlink, extend_ofPages, stoppedAfter_fetched hstopped]
          rfl

theorem enumerate_ends (p : Pager σ ItemChange) (limit : Nat) (s : PagingState σ) :
    ∃ made r t, enumerate p limit s = (r, ⟨stoppedAfter s.stopped made, t⟩) ∧
      Exchanges p.Answers s.pager made t ∧ Unstopped s.stopped made ∧
      Ends s.stopped limit made r := by
  obtain ⟨made, r, t, hrun, hmade, hquiet, hends⟩ :=
    collect_ends limit (.none : Exchanges p.Answers s.pager [] s.pager) (.first .none)
      (.nil s.stopped)
  rw [stoppedAfter_nil] at hrun
  rw [List.countP_nil, Nat.zero_add] at hends
  exact ⟨made, r, t, hrun, hmade, hquiet, hends⟩

/-- An enumeration that has come to an end would not fetch more pages if it might. -/
theorem collect_mono {known : Changes} {s t : PagingState σ} {e : Except Fault Changes}
    (h : collect p limit known s = (some e, t)) (more : Nat) :
    collect p (limit + more) known s = (some e, t) := by
  induction limit generalizing known s with
  | zero => cases h
  | succ limit ih =>
    rw [Nat.add_right_comm]
    obtain ⟨_ | _, s⟩ := s
    · rcases hfetch : p.fetch s with ⟨⟨f | page, stops⟩, u⟩
      · by_cases hagain : f.isExpiredLink ∧ known.restarted = false
        · rw [collect_expired hfetch hagain.1 hagain.2] at h ⊢
          exact ih h
        · have hfailed : f.isExpiredLink → known.restarted = true := by simpa using hagain
          rw [collect_failed hfetch hfailed] at h ⊢
          exact h
      · cases hlink : page.nextLink? with
        | some link =>
          rw [collect_linked hfetch hlink] at h ⊢
          exact ih h
        | none =>
          rw [collect_last hfetch hlink] at h ⊢
          exact h
    · rw [collect_stopped] at h ⊢
      exact h

/-- What is told by the exchanges of an enumeration that fetches `limit` pages at most. -/
structure Course (stopped : Bool) (limit : Nat) (made : List (PagerExchange ItemChange))
    (r : Option (Except Fault Changes)) : Prop where
  /-- It ends in one of the ways there are. -/
  ends : Ends stopped limit made r
  /-- It fetches no page once it has been stopped. -/
  unstopped : Unstopped stopped made
  /-- It starts over once at most. -/
  restarts : made.countP PagerExchange.isRestart ≤ 1
  /-- What it finds tells whether it has started over. -/
  restarted : ∀ c, r = some (.ok c) →
    (c.restarted = true ↔ ∃ x ∈ made, x.isRestart)
  /-- If it comes to an end, it is cancelled just if it is stopped before it would fetch a page. -/
  cancelled : r.isSome → (r = some (.error .cancelled) ↔
    (∃ restarted ps, Underway restarted ps made) ∧ stoppedAfter stopped made = true)

/-- Whoever hands out the pages, an enumeration takes its course, and its result does not depend on
how many pages it may fetch, if these are enough. -/
theorem enumerate_course (p : Pager σ ItemChange) (limit : Nat) (s : PagingState σ) :
    ∃ made r t, enumerate p limit s = (r, ⟨stoppedAfter s.stopped made, t⟩) ∧
      Exchanges p.Answers s.pager made t ∧
      (∀ log, Logs p.Answers log → log t = log s.pager ++ made) ∧
      Course s.stopped limit made r ∧
      (r.isSome → ∀ more, enumerate p (limit + more) s = enumerate p limit s) := by
  obtain ⟨made, r, t, hrun, hmade, hquiet, hends⟩ := enumerate_ends p limit s
  refine ⟨made, r, t, hrun, hmade, fun log hlog => hlog.eq_append hmade, ?_, ?_⟩
  · obtain ⟨hrestarts, hcount⟩ := hends.countP_isRestart
    refine ⟨hends, hquiet, hrestarts, fun c hc => ?_, hends.cancelled_iff⟩
    rw [← List.countP_pos_iff, hcount c hc]
    cases c.restarted <;> decide
  · intro hr more
    obtain ⟨e, rfl⟩ := Option.isSome_iff_exists.1 hr
    exact (collect_mono hrun more).trans hrun.symm

/-- Starting over makes an enumeration forget the pages before. -/
example :
    let script : Script ItemChange :=
      { pages := [.ok ⟨[⟨"old", false⟩], some "next", none⟩,
          .error (.within "page" .expiredLink)]
        afterRestart := [.ok ⟨[⟨"new", false⟩, ⟨"gone", true⟩], some "", some "later"⟩] }
    (enumerate Script.pager 3 ⟨false, script⟩).1 =
      some (.ok ⟨["new"], ["gone"], "later", true⟩) := by
  rfl

/-- For a script, enough fetches are enough. -/
theorem isSome_enumerate_script (s : PagingState (Script ItemChange)) :
    (enumerate Script.pager s.pager.limit s).1.isSome := by
  obtain ⟨made, r, t, hrun, hmade, -, hends⟩ := enumerate_ends Script.pager s.pager.limit s
  have hpages := Script.countP_isPage_le hmade
  rw [hrun]
  cases hends with
  | finished | failed | cancelled => rfl
  | @unfinished restarted _ _ h hlimit =>
    have hfetches := h.countP_isFetch
    have honce := Bool.toNat_le restarted
    simp only [Script.limit, Script.left] at hlimit hpages
    omega

end Changes

end TenantRestore
