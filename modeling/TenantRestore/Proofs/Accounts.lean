/-
# A restore accounts for what it does

A restore says how many items it has seen and restored, and how many bytes these have; it hands
out a receipt for each of them, keeps a log of its faults, and makes calls.  However the calls are
answered, whether the restore fails fast, and wherever it is stopped, all these agree in the end:
`Plan.accounted`.  Nothing of this can be seen at one place, for an item is counted as seen, is
created, counts as restored, gets its receipt and may fail in different steps; but each turn of a
run is balanced, and so is its course.
-/
import TenantRestore.Proofs.Parents
import TenantRestore.Proofs.Truncation
import TenantRestore.Proofs.Turns

namespace TenantRestore

variable {σ : Type}

/-! ## What is reported -/

/-- The faults a run reports: the failure it ends in, and those that are left in its log.  Having
been stopped is not one of them. -/
def reported (ended : Except Fault Unit × Session σ) : List Fault :=
  (faultOf ended.1).filter (fun f => !f.isCancelled) ++ ended.2.faults.faults

/-- A fault that is noted is one more in the log. -/
theorem FaultLog.faults_record_perm (plan : Plan σ) (log : FaultLog) (f : Fault) :
    (plan.record log f).faults.Perm (f :: log.faults) := by
  have hrecover : (log.recover f).faults.Perm (f :: log.faults) := by
    rw [faults, recover, ← List.append_assoc]
    exact List.perm_append_singleton f _
  have hfail : (log.fail f).faults.Perm (f :: log.faults) := by
    unfold fail
    split
    · exact hrecover
    · rename_i hfailed
      have hnone : log.failure = none := by simpa [hasFailed] using hfailed
      rw [faults, faults, hnone]
      exact List.Perm.refl _
  unfold Plan.record
  split
  · exact hfail
  · unfold add
    split
    · exact hfail
    · exact hrecover

theorem FaultLog.faults_foldl_perm (plan : Plan σ) (log : FaultLog) (fs : List Fault) :
    (fs.foldl plan.record log).faults.Perm (fs ++ log.faults) := by
  induction fs generalizing log with
  | nil => exact List.Perm.refl _
  | cons f fs ih =>
    refine (ih (plan.record log f)).trans ?_
    exact ((faults_record_perm plan log f).append_left fs).trans List.perm_middle

theorem FaultLog.length_faults_foldl (plan : Plan σ) (log : FaultLog) (fs : List Fault) :
    (fs.foldl plan.record log).faults.length = log.faults.length + fs.length := by
  rw [(faults_foldl_perm plan log fs).length_eq, List.length_append, Nat.add_comm]

/-- All faults of a log are reported in the end, as long as being stopped is not its failure. -/
theorem length_reported {s : Session σ} (h : s.faults.failure ≠ some .cancelled) :
    (reported (conclude s)).length = s.faults.faults.length := by
  cases hstopped : s.stopped with
  | true =>
    rw [conclude_of_stopped hstopped]
    rfl
  | false =>
    rw [conclude_of_not_stopped hstopped]
    cases hfailure : s.faults.failure with
    | none => simp [reported, faultOf, FaultLog.faults, hfailure]
    | some f =>
      have hf : f.isCancelled = false := by
        cases f <;> first | rfl | exact absurd hfailure h
      simp [reported, faultOf, FaultLog.faults, hfailure, hf]

/-! ## Runs -/

/-- A book that has all receipts at the start of a run has them in the end. -/
theorem Session.Booked.restoreAll {handlers : Remote σ} {plan : Plan (σ × List Receipt)}
    (hremote : plan.remote = handlers.withBook) (cs : List Collection)
    {start : Session (σ × List Receipt)} (h : start.Booked) :
    (plan.restoreAll cs start).2.Booked :=
  (Plan.restoreAll_keeps (I := Session.Booked) (fun e _ hs => hs.perform hremote e) cs start h).1

/-- A run notes no stop as its failure. -/
theorem Plan.failure_restoreAll_ne_cancelled (plan : Plan σ) (cs : List Collection)
    {start : Session σ} (h : start.faults.failure ≠ some .cancelled) :
    (plan.restoreAll (Collection.sort cs) start).2.faults.failure ≠ some .cancelled := by
  rw [Plan.restoreAll_eq_close (Plan.over_of_work_le (Nat.le_refl _)), Plan.faults_close]
  exact fun hcancelled => h ((plan.continues_boundary cs start _).cancelled hcancelled)

/-- A run accounts for what it does; the receipts are in the book. -/
structure Plan.Accounted (plan : Plan (σ × List Receipt)) (cs : List Collection)
    (start : Session (σ × List Receipt)) : Prop where
  /-- As many items count as restored as receipts are in the book. -/
  successes : (plan.run cs start).2.progress.tally.successes =
    (plan.run cs start).2.remote.2.length
  /-- Their bytes are those of the receipts. -/
  bytes : (plan.run cs start).2.progress.tally.bytes =
    ((plan.run cs start).2.remote.2.map Receipt.size).sum
  /-- No more items count as restored than have been seen. -/
  seen : (plan.run cs start).2.progress.tally.successes ≤
    (plan.run cs start).2.progress.tally.objects
  /-- For every item that has been seen, but does not count as restored, a fault is reported. -/
  explained : (plan.run cs start).2.progress.tally.objects -
      (plan.run cs start).2.progress.tally.successes ≤
    (reported (plan.run cs start)).length
  /-- Every item that has been created counts as restored, unless its children were refused. -/
  created : (creations (plan.run cs start).2.trace).length =
    (plan.run cs start).2.progress.tally.successes + refusals (plan.run cs start).2.trace
  /-- All collections that have been started are counted. -/
  folders : (plan.run cs start).2.progress.folders = startedIn (plan.course cs start)

/-- Whatever the handlers do, and wherever it is stopped, a restore that starts anew accounts for
what it does. -/
theorem Plan.accounted (options : Options) (version : FormatVersion) (handlers : Remote σ)
    (cs : List Collection) (failFast announces stopped : Bool) (state : σ) :
    let plan : Plan (σ × List Receipt) := ⟨options, version, handlers.withBook⟩
    plan.Accounted cs (Session.start plan { failFast := failFast, announces := announces } stopped
      (state, [])) := by
  intro plan
  generalize hstart : Session.start plan { failFast := failFast, announces := announces } stopped
    (state, []) = start
  obtain ⟨l, hcourse, hadds⟩ := plan.restoreAll_adds cs start
  have hbook : (plan.restoreAll (Collection.sort cs) start).2.Booked := by
    refine Session.Booked.restoreAll rfl _ ?_
    rw [← hstart]
    rfl
  have hfresh : start.faults.failure ≠ some .cancelled := by
    rw [← hstart]
    exact nofun
  -- the run starts with nothing, so in the end there is what its ledger says
  have htrace : (plan.restoreAll (Collection.sort cs) start).2.trace = l.exchanges := by
    rw [hadds.trace, ← hstart]
    rfl
  have htally : (plan.restoreAll (Collection.sort cs) start).2.progress.tally = l.tally := by
    rw [hadds.tally, ← hstart]
    exact Tally.zero_add l.tally
  have hfolders : (plan.restoreAll (Collection.sort cs) start).2.progress.folders = l.folders := by
    rw [hadds.folders, ← hstart]
    exact Nat.zero_add l.folders
  have hreported : (reported (plan.run cs start)).length = l.faults.length := by
    rw [Plan.run_eq, length_reported (plan.failure_restoreAll_ne_cancelled cs hfresh), hadds.faults,
      FaultLog.length_faults_foldl, ← hstart]
    exact Nat.zero_add l.faults.length
  have hbalanced := hcourse.balanced
  refine ⟨?_, ?_, ?_, ?_, ?_, ?_⟩ <;>
    simp only [Plan.run_eq, conclude_progress, conclude_remote, conclude_trace, htally, hfolders]
  · rw [hbook, htrace]
    exact hbalanced.successes
  · rw [hbook, htrace]
    exact hbalanced.bytes
  · exact hbalanced.seen
  · rw [← Plan.run_eq, hreported]
    exact Nat.sub_le_iff_le_add'.2 hbalanced.explained
  · rw [htrace]
    exact hbalanced.created
  · exact hcourse.folders_eq

end TenantRestore
