/-
# Stopping a run cuts it at a boundary

Nobody but the run itself looks at whether it has been stopped, and it does so only at a
boundary.  So up to the first boundary at which it has been stopped, a run is the run that is
never stopped: `Plan.calm` gets the same answers from someone who does not stop it.  There it
ends, with all it has done up to that boundary, the step that was under way included.

Being stopped is never recorded as a fault, and a failure that was there before is not taken
out of the log when the run ends stopped.
-/
import Mathlib.Data.Nat.Find
import TenantRestore.Proofs.Twins

namespace TenantRestore

variable {σ : Type} {plan : Plan σ}

/-! ## The run that is never stopped -/

/-- The session of a restore that has not been stopped. -/
def Session.calm (s : Session σ) : Session σ := { s with stopped := false }

/-- Someone who gives the same answers, but never stops the restore. -/
def Remote.calm (remote : Remote σ) : Remote σ where
  serves := remote.serves
  respond call s :=
    let (r, t) := remote.respond call s
    (⟨r.answer, false⟩, t)

/-- The restore that is never stopped. -/
def Plan.calm (plan : Plan σ) : Plan σ := plan.answeredBy plan.remote.calm

/-- Two sessions that differ at most in that the restore has been stopped in the first. -/
structure Session.Alongside (s s' : Session σ) : Prop where
  registry : s.registry = s'.registry
  progress : s.progress = s'.progress
  faults : s.faults = s'.faults
  trace : s.trace = s'.trace
  remote : s.remote = s'.remote
  stopped : s'.stopped → s.stopped

theorem Session.alongside_calm (s : Session σ) : s.Alongside s.calm :=
  ⟨rfl, rfl, rfl, rfl, rfl, fun h => by cases h⟩

/-- The same is answered, whether or not the restore is stopped meanwhile. -/
theorem Plan.answer_calm (plan : Plan σ) (c : Call) {s s' : Session σ}
    (h : s.remote = s'.remote) : (plan.ask c s).1 = (plan.calm.ask c s').1 := by
  have hsame : (plan.calm.ask c s').1 = (plan.ask c s').1 := rfl
  rw [hsame, Plan.ask, Plan.ask, h]

theorem Plan.remote_calm (plan : Plan σ) (c : Call) {s s' : Session σ}
    (h : s.remote = s'.remote) : (plan.ask c s).2.remote = (plan.calm.ask c s').2.remote := by
  have hsame : (plan.calm.ask c s').2.remote = (plan.ask c s').2.remote := rfl
  rw [hsame, Plan.ask, Plan.ask, h]

theorem Plan.stopped_calm (plan : Plan σ) (c : Call) (s : Session σ) :
    (plan.calm.ask c s).2.stopped = s.stopped := Bool.or_false s.stopped

theorem Session.Alongside.perform {s s' : Session σ} (h : s.Alongside s') (e : Effect) :
    (plan.perform e s).Alongside (plan.calm.perform e s') := by
  cases e with
  | call c =>
    refine ⟨h.registry, h.progress, h.faults, ?_, plan.remote_calm c h.remote, ?_⟩
    · have hanswer := plan.answer_calm c h.remote
      change s.trace ++ [⟨c, (plan.ask c s).1⟩] = s'.trace ++ [⟨c, (plan.calm.ask c s').1⟩]
      rw [h.trace, hanswer]
    · intro hs
      have hbefore : s'.stopped := by rwa [← plan.stopped_calm c s']
      have hafter := h.stopped hbefore
      simp [Plan.perform, Plan.ask, hafter]
  | metadata p m => exact { h with registry := by simp only [Plan.perform, h.registry] }
  | permissionIds ids => exact { h with registry := by simp only [Plan.perform, h.registry] }
  | keys c ks => exact { h with registry := by simp only [Plan.perform, h.registry] }
  | folder p id => exact { h with registry := by simp only [Plan.perform, h.registry] }
  | container p id => exact { h with registry := by simp only [Plan.perform, h.registry] }
  | tally f => exact { h with progress := by simp only [Plan.perform, h.progress] }
  | note f =>
    refine { h with faults := ?_ }
    change (if plan.options.failFast then s.faults.fail f else s.faults.add f) =
      if plan.options.failFast then s'.faults.fail f else s'.faults.add f
    rw [h.faults]
  | stop => exact { h with stopped := fun _ => rfl }
  | countCollection => exact { h with progress := by simp only [Plan.perform, h.progress] }

theorem Plan.twins_calm (plan : Plan σ) :
    plan.Twins plan.remote.calm Session.Alongside where
  serves := rfl
  registry _ _ hs := hs.registry
  answer c _ _ hs := plan.answer_calm c hs.remote
  perform e _ _ hs := hs.perform e

/-- As long as it is not stopped, a run goes the way of the run that is never stopped. -/
theorem Plan.boundary_calm (plan : Plan σ) (cs : List Collection) (start : Session σ) (n : Nat)
    (h : ∀ m < n, (plan.boundary cs start m).session.stopped = false) :
    Boundary.Twin Session.Alongside (plan.boundary cs start n)
      (plan.calm.boundary cs start.calm n) := by
  induction n with
  | zero =>
    rw [Plan.boundary_zero, Plan.boundary_zero]
    exact ⟨start.alongside_calm, rfl, rfl⟩
  | succ n ih =>
    have hb := ih fun m hm => h m (by omega)
    have hstopped := h n (by omega)
    have hstopped' : (plan.calm.boundary cs start.calm n).session.stopped = false := by
      by_contra hs
      have hfirst := hb.session.stopped (by simpa using hs)
      rw [hstopped] at hfirst
      cases hfirst
    have hgoes : (plan.boundary cs start n).session.goesOn =
        (plan.calm.boundary cs start.calm n).session.goesOn := by
      simp only [Session.goesOn, hstopped, hstopped', hb.session.faults]
    rw [Plan.boundary_succ, Plan.boundary_succ]
    exact plan.twins_calm.advance hb hgoes

/-! ## Being stopped is not a fault of the log -/

/-- A log in which being stopped is recorded no more often than in an earlier one, and whose
failure is that of the earlier one if this had failed. -/
structure FaultLog.Continues (before after : FaultLog) : Prop where
  recovered : after.recovered.count .cancelled = before.recovered.count .cancelled
  cancelled : after.failure = some .cancelled → before.failure = some .cancelled
  failure : ∀ f, before.failure = some f → after.failure = some f

namespace FaultLog.Continues

variable {before after : FaultLog} {f : Fault}

theorem refl (l : FaultLog) : l.Continues l := ⟨rfl, id, fun _ => id⟩

theorem recover (h : before.Continues after) (hf : f.isCancelled = false) :
    before.Continues (after.recover f) where
  recovered := by
    have hne : f ≠ .cancelled := by
      rintro rfl
      cases hf
    rw [FaultLog.recover, List.count_append, h.recovered]
    simp [hne]
  cancelled := h.cancelled
  failure := h.failure

theorem fail (h : before.Continues after) (hf : f.isCancelled = false) :
    before.Continues (after.fail f) := by
  unfold FaultLog.fail
  split
  · exact h.recover hf
  · rename_i hfailed
    have hnone : after.failure = none := by simpa [FaultLog.hasFailed] using hfailed
    refine ⟨h.recovered, ?_, ?_⟩
    · intro hcancelled
      cases hcancelled
      cases hf
    · intro g hg
      rw [h.failure g hg] at hnone
      cases hnone

theorem add (h : before.Continues after) (hf : f.isCancelled = false) :
    before.Continues (after.add f) := by
  unfold FaultLog.add
  split
  · exact h.fail hf
  · exact h.recover hf

end FaultLog.Continues

/-- Every effect but that of noting that the restore has been stopped continues the log. -/
theorem upkeep_continues (plan : Plan σ) (log : FaultLog) :
    Upkeep plan (· ≠ .note .cancelled) (fun s => log.Continues s.faults) Going := by
  refine Upkeep.of_keep ?_ fun _ _ => Fault.not_isCancelled_of_isPlain
  intro e s he hs
  cases e with
  | note f =>
    have hf : f.isCancelled = false := by
      cases f <;> first | rfl | exact absurd rfl he
    change log.Continues (if _ then _ else _)
    split
    · exact hs.fail hf
    · exact hs.add hf
  | call _ | metadata _ _ | permissionIds _ | keys _ _ | folder _ _ | container _ _ | tally _
  | stop | countCollection => exact hs

theorem tolerates_continues :
    Tolerates (· ≠ .note .cancelled) (Going : Fault → Session σ → Prop) where
  plain _ _ := Fault.not_isCancelled_of_isPlain
  not_cancelled _ _ h := h
  note f _ h := by
    rintro ⟨⟩
    cases h
  note_plain f h := by
    rintro ⟨⟩
    cases h

theorem Plan.continues_boundary (plan : Plan σ) (cs : List Collection) (start : Session σ)
    (n : Nat) : start.faults.Continues (plan.boundary cs start n).session.faults := by
  refine (upkeep_continues plan start.faults).boundary tolerates_continues ?_ cs
    (FaultLog.Continues.refl _) n
  rintro e he rfl
  cases he

/-! ## How a run ends -/

/-- A run comes to a first boundary at which it does not go on. -/
theorem Plan.exists_first_over (plan : Plan σ) (cs : List Collection) (start : Session σ) :
    ∃ n, (plan.boundary cs start n).over ∧
      ∀ m < n, (plan.boundary cs start m).session.stopped = false := by
  classical
  have hex := plan.exists_over cs start
  refine ⟨Nat.find hex, Nat.find_spec hex, ?_⟩
  intro m hm
  have hnot := Nat.find_min hex hm
  by_contra hstopped
  refine hnot (Or.inl ?_)
  have htrue : (plan.boundary cs start m).session.stopped = true := by simpa using hstopped
  simp [Session.goesOn, htrue]

/-- At a boundary, a run that may be stopped ends as the beginning of the run that is never
stopped. -/
structure Plan.CutAt (plan : Plan σ) (cs : List Collection) (start : Session σ) (n : Nat) :
    Prop where
  /-- At no earlier boundary the run had been stopped. -/
  first : ∀ m < n, (plan.boundary cs start m).session.stopped = false
  /-- At this boundary it has been stopped, or is over for another reason. -/
  last : (plan.boundary cs start n).over
  /-- Whether it has been stopped does not change any more. -/
  stopped : (plan.run cs start).2.stopped = (plan.boundary cs start n).session.stopped
  /-- If it has not been stopped, it is the run that is never stopped. -/
  whole : (plan.run cs start).2.stopped = false →
    plan.run cs start = plan.calm.run cs start.calm
  /-- Its calls, and what came back, are those of the run that is never stopped up to this
  boundary, so they are the first ones of that run. -/
  trace : (plan.run cs start).2.trace = (plan.calm.boundary cs start.calm n).session.trace
  calls : (plan.run cs start).2.trace <+: (plan.calm.run cs start.calm).2.trace
  /-- Whoever answered the calls has come as far. -/
  remote : (plan.run cs start).2.remote = (plan.calm.boundary cs start.calm n).session.remote
  /-- What has been learnt is the same. -/
  registry : (plan.run cs start).2.registry =
    (plan.calm.boundary cs start.calm n).session.registry
  /-- The counts are the same, and the collection in progress counts as handled. -/
  progress : (plan.run cs start).2.progress =
    (plan.calm.close (plan.calm.boundary cs start.calm n)).progress
  /-- The faults are the same; if the run has been stopped, its failure stays in the log. -/
  faults : (plan.run cs start).2.faults =
    if (plan.run cs start).2.stopped then (plan.calm.boundary cs start.calm n).session.faults
    else { (plan.calm.boundary cs start.calm n).session.faults with failure := none }
  /-- A failure from before the run is not replaced. -/
  failure : ∀ f, start.faults.failure = some f →
    (plan.calm.boundary cs start.calm n).session.faults.failure = some f
  /-- Having been stopped is recorded neither among the faults nor as the failure. -/
  recovered : (plan.run cs start).2.faults.recovered.count .cancelled =
    start.faults.recovered.count .cancelled
  not_failure : (plan.run cs start).2.faults.failure = some .cancelled →
    start.faults.failure = some .cancelled
  /-- The run ends in the fault of being stopped if it has been; the only other way is that this
  had been its failure before it began. -/
  result : (plan.run cs start).1 = .error .cancelled ↔
    (plan.run cs start).2.stopped ∨ start.faults.failure = some .cancelled

theorem Session.Alongside.eq {s s' : Session σ} (h : s.Alongside s')
    (hstopped : s.stopped = s'.stopped) : s = s' := by
  obtain ⟨registry, progress, faults, stopped, trace, remote⟩ := s
  obtain ⟨rfl, rfl, rfl, rfl, rfl, -⟩ := h
  dsimp only at hstopped
  subst hstopped
  rfl

/-- A run whose last boundary is the `n`-th has been stopped there, or is the whole run. -/
theorem Plan.cutAt_of_over {cs : List Collection} {start : Session σ} {n : Nat}
    (hover : (plan.boundary cs start n).over)
    (hfirst : ∀ m < n, (plan.boundary cs start m).session.stopped = false) :
    plan.CutAt cs start n := by
  have htwin := plan.boundary_calm cs start n hfirst
  have hsession := htwin.session
  have hlog := plan.continues_boundary cs start n
  have hcalls : (plan.calm.boundary cs start.calm n).session.trace <+:
      (plan.calm.run cs start.calm).2.trace := plan.calm.trace_boundary cs start.calm n
  have hfailure : ∀ f, start.faults.failure = some f →
      (plan.calm.boundary cs start.calm n).session.faults.failure = some f := by
    intro f hf
    rw [← hsession.faults]
    exact hlog.failure f hf
  have hclose : (plan.close (plan.boundary cs start n)).Alongside
      (plan.calm.close (plan.calm.boundary cs start.calm n)) := by
    unfold Plan.close
    rw [← htwin.current]
    split
    · exact hsession
    · exact hsession.perform .countCollection
  have hrun := plan.run_eq_close hover
  cases hstopped : (plan.boundary cs start n).session.stopped with
  | true =>
    have hend := conclude_of_stopped (s := plan.close (plan.boundary cs start n))
      (by rw [Plan.stopped_close, hstopped])
    rw [hend] at hrun
    refine ⟨hfirst, hover, ?_, ?_, ?_, ?_, ?_, ?_, ?_, ?_, hfailure, ?_, ?_, ?_⟩ <;>
      simp only [hrun, Plan.stopped_close, Plan.trace_close, Plan.remote_close,
        Plan.registry_close, Plan.faults_close]
    · rw [hstopped]
      intro hnot
      cases hnot
    · exact hsession.trace
    · rw [hsession.trace]
      exact hcalls
    · exact hsession.remote
    · exact hsession.registry
    · exact hclose.progress
    · rw [hstopped, if_pos rfl, hsession.faults]
    · exact hlog.recovered
    · exact hlog.cancelled
    · simp [hstopped]
  | false =>
    have hend := conclude_of_not_stopped (s := plan.close (plan.boundary cs start n))
      (by rw [Plan.stopped_close, hstopped])
    rw [hend] at hrun
    have hstopped' : (plan.calm.boundary cs start.calm n).session.stopped = false := by
      by_contra hcalm
      have hboth := hsession.stopped (by simpa using hcalm)
      rw [hstopped] at hboth
      cases hboth
    have hover' : (plan.calm.boundary cs start.calm n).over := by
      have hsame := hsession.eq (by rw [hstopped, hstopped'])
      unfold Boundary.over at hover ⊢
      rwa [← hsame, ← htwin.current, ← htwin.later]
    refine ⟨hfirst, hover, ?_, ?_, ?_, ?_, ?_, ?_, ?_, ?_, hfailure, ?_, ?_, ?_⟩
    · simp [hrun]
    · intro _
      have hsame := hclose.eq (by rw [Plan.stopped_close, Plan.stopped_close, hstopped, hstopped'])
      rw [plan.run_eq_close hover, plan.calm.run_eq_close hover', hsame]
    · simp [hrun, hsession.trace]
    · simp [hrun, hsession.trace, hcalls]
    · simp [hrun, hsession.remote]
    · simp [hrun, hsession.registry]
    · simp [hrun, hclose.progress]
    · simp [hrun, hstopped, hsession.faults]
    · simp [hrun, hlog.recovered]
    · simp [hrun]
    · simp only [hrun, Plan.stopped_close, Plan.faults_close, hstopped, Bool.false_eq_true,
        false_or]
      constructor
      · intro hresult
        refine hlog.cancelled ?_
        cases hf : (plan.boundary cs start n).session.faults.failure with
        | none =>
          rw [hf] at hresult
          cases hresult
        | some f =>
          rw [hf] at hresult
          cases hresult
          rfl
      · intro hf
        rw [hlog.failure _ hf]
        rfl

/-- However a run is stopped, before it begins or during a call, it ends at a boundary as the
beginning of the run that is never stopped. -/
theorem Plan.cut_at_boundary (plan : Plan σ) (cs : List Collection) (start : Session σ) :
    ∃ n, plan.CutAt cs start n := by
  obtain ⟨n, hover, hfirst⟩ := plan.exists_first_over cs start
  exact ⟨n, Plan.cutAt_of_over hover hfirst⟩

end TenantRestore
