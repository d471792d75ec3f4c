/-
# No fault is lost, and the first one can stop a restore

The faults of a run arise at several places, and one entry may give rise to several of them.
Whatever becomes of them: they are the faults of its course, in their order.  A run that does not
fail fast has all of them in its log in the end and is successful.  A run that fails fast ends in
the first one, and has the others in its log.

How a log that fails fast fills is known in closed form: the first fault becomes its failure, all
others are appended.  So a run still goes on just as long as nothing has arisen, and this puts all
its faults at one turn, which is its last.  The main result is `Plan.keepsFaults`.
-/
import TenantRestore.Proofs.Path
import TenantRestore.Proofs.Turns
import TenantRestore.Store.Rehearsal

namespace TenantRestore

variable {σ : Type} {plan : Plan σ}

/-! ## How a log fills -/

/-- Whether the first fault is the failure of the run. -/
def Plan.failsFast (plan : Plan σ) (log : FaultLog) : Bool := plan.options.failFast || log.failFast

theorem Plan.record_of_patient {log : FaultLog} (h : plan.failsFast log = false) (f : Fault) :
    plan.record log f = log.recover f := by
  obtain ⟨hoptions, hlog⟩ := Bool.or_eq_false_iff.1 h
  simp [record, FaultLog.add, hoptions, hlog]

theorem Plan.record_of_failsFast {log : FaultLog} (h : plan.failsFast log) (f : Fault) :
    plan.record log f = log.fail f := by
  unfold record
  split
  · rfl
  · rename_i hoptions
    have hlog : log.failFast := by simpa [failsFast, hoptions] using h
    simp [FaultLog.add, hlog]

@[simp] theorem Plan.failsFast_record (plan : Plan σ) (log : FaultLog) (f : Fault) :
    plan.failsFast (plan.record log f) = plan.failsFast log := by
  cases h : plan.failsFast log with
  | false =>
    rw [Plan.record_of_patient h]
    exact h
  | true =>
    rw [Plan.record_of_failsFast h, FaultLog.fail]
    split <;> exact h

/-- A log that does not fail fast recovers all faults in their order. -/
theorem Plan.foldl_record_of_patient {log : FaultLog} (h : plan.failsFast log = false)
    (fs : List Fault) :
    (fs.foldl plan.record log).failure = log.failure ∧
      (fs.foldl plan.record log).recovered = log.recovered ++ fs := by
  induction fs generalizing log with
  | nil => exact ⟨rfl, (List.append_nil _).symm⟩
  | cons f fs ih =>
    obtain ⟨hfailure, hrecovered⟩ := @ih (plan.record log f) (by simpa using h)
    rw [List.foldl_cons, hfailure, hrecovered, Plan.record_of_patient h]
    simp [FaultLog.recover]

/-- A log that has failed recovers all later faults in their order. -/
theorem Plan.foldl_record_of_failed {log : FaultLog} {failure : Fault}
    (hfast : plan.failsFast log) (h : log.failure = some failure) (fs : List Fault) :
    (fs.foldl plan.record log).failure = some failure ∧
      (fs.foldl plan.record log).recovered = log.recovered ++ fs := by
  induction fs generalizing log with
  | nil => exact ⟨h, (List.append_nil _).symm⟩
  | cons f fs ih =>
    have hrecord : plan.record log f = log.recover f := by
      rw [Plan.record_of_failsFast hfast, FaultLog.fail, if_pos (by simp [FaultLog.hasFailed, h])]
    have hrest := @ih (plan.record log f) (by simpa using hfast) (by rw [hrecord]; exact h)
    rw [List.foldl_cons, hrest.1, hrest.2, hrecord]
    simp [FaultLog.recover]

/-- A log that fails fast, but has not failed yet, fails with the first fault. -/
theorem Plan.foldl_record_of_failsFast {log : FaultLog} (hfast : plan.failsFast log)
    (h : log.failure = none) (f : Fault) (fs : List Fault) :
    ((f :: fs).foldl plan.record log).failure = some f ∧
      ((f :: fs).foldl plan.record log).recovered = log.recovered ++ fs := by
  have hrecord : plan.record log f = { log with failure := some f } := by
    rw [Plan.record_of_failsFast hfast, FaultLog.fail, if_neg (by simp [FaultLog.hasFailed, h])]
  have hstill : plan.failsFast (plan.record log f) := by simpa using hfast
  have hfailure : (plan.record log f).failure = some f := by rw [hrecord]
  have hfailed := Plan.foldl_record_of_failed hstill hfailure fs
  rw [List.foldl_cons]
  rw [hrecord] at hfailed ⊢
  exact hfailed

/-- A log without faults has neither a failure nor anything that was recovered. -/
theorem FaultLog.hasErrors_eq_false {log : FaultLog} :
    log.hasErrors = false ↔ log.failure = none ∧ log.recovered = [] := by
  simp [hasErrors, hasFailed]

/-! ## What has arisen up to a boundary -/

theorem Plan.arisen_append (plan : Plan σ) (course course' : List (Session σ × Turn)) :
    plan.arisen (course ++ course') = plan.arisen course ++ plan.arisen course' := by
  simp [arisen]

/-- At every boundary the log has what has arisen until then. -/
theorem Plan.faults_boundary (plan : Plan σ) (cs : List Collection) (start : Session σ) (n : Nat) :
    (plan.boundary cs start n).session.faults =
      (plan.arisen (plan.courseUntil cs start n)).foldl plan.record start.faults := by
  obtain ⟨l, hcourse, hadds⟩ := plan.boundary_adds cs start n
  rw [← Plan.faults_close plan, hadds.faults, hcourse.faults_eq]

theorem Plan.faults_restoreAll (plan : Plan σ) (cs : List Collection) (start : Session σ) :
    (plan.restoreAll (Collection.sort cs) start).2.faults =
      (plan.arisen (plan.course cs start)).foldl plan.record start.faults := by
  obtain ⟨l, hcourse, hadds⟩ := plan.restoreAll_adds cs start
  rw [hadds.faults, hcourse.faults_eq]

section FailsFast

variable {cs : List Collection} {start : Session σ}

/-- A run that fails fast goes on only if nothing has arisen. -/
theorem Plan.arisen_of_goesOn (hfast : plan.failsFast start.faults)
    (hempty : start.faults.failure = none) {n : Nat}
    (h : (plan.boundary cs start n).session.goesOn) :
    plan.arisen (plan.courseUntil cs start n) = [] := by
  have hgoing := (Session.goesOn_iff.1 h).2
  rw [Plan.faults_boundary] at hgoing
  cases harisen : plan.arisen (plan.courseUntil cs start n) with
  | nil => rfl
  | cons f fs =>
    have hfailed := (Plan.foldl_record_of_failsFast hfast hempty f fs).1
    rw [harisen, FaultLog.hasFailed, hfailed] at hgoing
    cases hgoing

/-- All that arises in a run arises after `n` turns, at the next one, which is the last. -/
structure Plan.StopsAfter (plan : Plan σ) (cs : List Collection) (start : Session σ) (n : Nat) :
    Prop where
  /-- Nothing arises before. -/
  before : plan.arisen (plan.courseUntil cs start n) = []
  /-- All faults of the run arise at this turn. -/
  here : ∃ turn, (plan.boundary cs start n).turn? = some turn ∧
    plan.arising (plan.boundary cs start n).session turn = plan.arisen (plan.course cs start)
  /-- Afterwards neither is an entry taken nor a collection entered. -/
  last : ∀ m, n < m → (plan.boundary cs start m).turn? = none
  /-- No call is made, either. -/
  silent : (plan.run cs start).2.trace = (plan.boundary cs start (n + 1)).session.trace

/-- A run that fails fast stops after the first turn at which a fault arises. -/
theorem Plan.exists_stopsAfter (hfast : plan.failsFast start.faults)
    (hempty : start.faults.failure = none) (h : plan.arisen (plan.course cs start) ≠ []) :
    ∃ n, plan.StopsAfter cs start n := by
  obtain ⟨f, hf⟩ := List.exists_mem_of_ne_nil _ h
  obtain ⟨⟨s, turn⟩, hstep, hf⟩ := List.mem_flatMap.1 hf
  obtain ⟨n, hn, rfl, hturn⟩ := Plan.turn?_of_mem_courseUntil hstep
  have hbefore := Plan.arisen_of_goesOn hfast hempty (Boundary.goesOn_of_turn? hturn)
  have huntil : plan.arisen (plan.courseUntil cs start (n + 1)) =
      plan.arising (plan.boundary cs start n).session turn := by
    rw [Plan.courseUntil_succ, Plan.arisen_append, hbefore, hturn]
    simp [arisen]
  -- the log has failed now, so the run is over
  have hover : (plan.boundary cs start (n + 1)).over := by
    refine Or.inl ?_
    by_contra hgoes
    have hnone := Plan.arisen_of_goesOn hfast hempty (by simpa using hgoes)
    rw [huntil] at hnone
    rw [hnone] at hf
    cases hf
  refine ⟨n, hbefore, ⟨turn, hturn, ?_⟩, fun m hm => ?_, ?_⟩
  · rw [Plan.course, Plan.courseUntil_of_over hover hn, huntil]
  · rw [Plan.boundary_of_over hover hm]
    exact Boundary.turn?_eq_none.2 hover
  · rw [Plan.run_eq_close hover, conclude_trace, Plan.trace_close]

end FailsFast

/-! ## Runs -/

/-- What becomes of the faults that arise in a run. -/
structure Plan.KeepsFaults (plan : Plan σ) (cs : List Collection) (start : Session σ) : Prop where
  /-- A run that does not fail fast is successful and recovers all of them in their order. -/
  patient : plan.options.failFast = false → start.faults.failFast = false →
    (plan.run cs start).1 = .ok () ∧
      (plan.run cs start).2.faults.recovered = plan.arisen (plan.course cs start)
  /-- A run in which none arises is successful. -/
  faultless : plan.arisen (plan.course cs start) = [] →
    (plan.run cs start).1 = .ok () ∧ (plan.run cs start).2.faults.recovered = []
  /-- A run that fails fast ends in the first one, recovers the others in their order, and stops
  at the turn they arise at. -/
  first : plan.options.failFast ∨ start.faults.failFast →
    ∀ f fs, plan.arisen (plan.course cs start) = f :: fs →
      (plan.run cs start).1 = .error f ∧ (plan.run cs start).2.faults.recovered = fs ∧
        ∃ n, plan.StopsAfter cs start n

/-- How a run ends that has not been stopped. -/
theorem Plan.run_of_not_stopped {cs : List Collection} {start : Session σ} {log : FaultLog}
    (hstopped : (plan.run cs start).2.stopped = false)
    (h : (plan.restoreAll (Collection.sort cs) start).2.faults = log) :
    (plan.run cs start).1 = log.failure.elim (.ok ()) .error ∧
      (plan.run cs start).2.faults.recovered = log.recovered := by
  rw [Plan.run_eq, conclude_stopped] at hstopped
  rw [Plan.run_eq, conclude_of_not_stopped hstopped, ← h]
  cases (plan.restoreAll (Collection.sort cs) start).2.faults.failure <;> exact ⟨rfl, rfl⟩

/-- No fault of a run is lost, and they stay in their order.  Failing fast, the first one ends
the run. -/
theorem Plan.keepsFaults (plan : Plan σ) (cs : List Collection) (start : Session σ)
    (hempty : start.faults.hasErrors = false)
    (hstopped : (plan.run cs start).2.stopped = false) : plan.KeepsFaults cs start := by
  obtain ⟨hfailure, hrecovered⟩ := FaultLog.hasErrors_eq_false.1 hempty
  have hrun := Plan.run_of_not_stopped hstopped (plan.faults_restoreAll cs start)
  refine ⟨fun hoptions hlog => ?_, fun hnone => ?_, fun hfast f fs harisen => ?_⟩
  · have hpatient : plan.failsFast start.faults = false := by simp [failsFast, hoptions, hlog]
    have hlast := Plan.foldl_record_of_patient hpatient (plan.arisen (plan.course cs start))
    rw [hfailure, hrecovered, List.nil_append] at hlast
    rw [hlast.1, hlast.2] at hrun
    exact hrun
  · rw [hnone, List.foldl_nil, hfailure, hrecovered] at hrun
    exact hrun
  · have hfast : plan.failsFast start.faults := by simpa [failsFast] using hfast
    have hlast := Plan.foldl_record_of_failsFast hfast hfailure f fs
    rw [hrecovered, List.nil_append] at hlast
    rw [harisen, hlast.1, hlast.2] at hrun
    exact ⟨hrun.1, hrun.2, Plan.exists_stopsAfter hfast hfailure (by simp [harisen])⟩

/-! ## A list that can't be replaced -/

/-- A store with a list named "tasks" which can't be deleted; there is no place for what is in a
list. -/
def lockedLists : Rehearsal where
  items := Table.empty.insert .list (ItemStore.addExisting { keepsChildren := false } "site" "root"
    (.list { displayName := some "tasks" })).2
  disturbances := [⟨.delete, none, false, some (.because "locked"), false⟩]

/-- Replace what exists, and fail fast. -/
def replaceLists : Plan Rehearsal where
  options := { onCollision := .replace, failFast := true }
  version := FormatVersion.current
  remote := lockedLists.remote

/-- Two lists that are to be restored. -/
def taskLists : List Collection :=
  let stored := "\x7b\"kind\":\"list\",\"displayName\":\"tasks\",\"items\":[1]\x7d".toUTF8
  [.ofEntries ⟨"tenant", .sharepoint, "site", .lists, ["root"]⟩
    [.ok ⟨"first", stored⟩, .ok ⟨"second", stored⟩]]

theorem sort_taskLists : Collection.sort taskLists = taskLists :=
  Collection.sort_of_pairwise (by decide +kernel)

/-- The first list gives rise to two faults: it is restored beside the one it replaces, and without
what is in it.  The second is not taken any more. -/
theorem taskLists_stopped :
    let start := Session.start replaceLists {} false lockedLists
    let arisen := replaceLists.arisen (replaceLists.course taskLists start)
    (start.faults.hasErrors = false ∧ (replaceLists.run taskLists start).2.stopped = false) ∧
      arisen.length = 2 ∧ replaceLists.KeepsFaults taskLists start := by
  intro start arisen
  have hstopped : (replaceLists.run taskLists start).2.stopped = false := by
    simp only [start, Plan.run_eq, sort_taskLists]
    decide +kernel
  have harisen : arisen.length = 2 := by
    simp only [arisen, start, Plan.course, Plan.courseUntil, Plan.boundary, sort_taskLists]
    decide +kernel
  exact ⟨⟨rfl, hstopped⟩, harisen, Plan.keepsFaults replaceLists taskLists start rfl hstopped⟩

end TenantRestore
