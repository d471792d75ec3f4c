/-
# The course of a run

A run restores its collections one after the other, and the entries of a collection one after
the other.  So the session in which it starts a collection is the one after the collections
before, and the session in which it takes an entry is the one after the entries before:
`Plan.restoreAll_append` and `Plan.forEach_append`.

Sessions only grow along the way.  The trace is never shortened, a restore that has been
stopped or has failed stays so, and nothing that has been learnt about a folder or container
is forgotten; this is `Session.Before`.
-/
import TenantRestore.Proofs.Effect.Run

namespace TenantRestore

variable {σ : Type} {plan : Plan σ}

/-! ## Earlier and later sessions -/

/-- Whether a run goes on in a session. -/
def Session.goesOn (s : Session σ) : Bool := !(s.stopped || s.faults.hasFailed)

theorem Session.goesOn_iff {s : Session σ} :
    s.goesOn ↔ s.stopped = false ∧ s.faults.hasFailed = false := by
  simp [goesOn]

/-- A session has failed, or else has been stopped, or the run goes on in it. -/
theorem Session.failed_or_stopped_or_goesOn (s : Session σ) :
    s.faults.hasFailed ∨ (s.stopped ∧ s.faults.hasFailed = false) ∨ s.goesOn := by
  cases hfailed : s.faults.hasFailed with
  | true => exact Or.inl rfl
  | false =>
    cases hstopped : s.stopped with
    | true => exact Or.inr (Or.inl ⟨rfl, rfl⟩)
    | false => exact Or.inr (Or.inr (Session.goesOn_iff.2 ⟨hstopped, hfailed⟩))

/-- What an earlier session says of a later one of the same run. -/
structure Session.Before (s t : Session σ) : Prop where
  trace : s.trace <+: t.trace
  stopped : s.stopped → t.stopped
  failed : s.faults.hasFailed → t.faults.hasFailed
  metadata : ∀ p, s.registry.metadata.contains p → t.registry.metadata.contains p
  keys : ∀ c, s.registry.keys.contains c → t.registry.keys.contains c

namespace Session.Before

theorem refl (s : Session σ) : s.Before s where
  trace := List.prefix_refl _
  stopped := id
  failed := id
  metadata _ := id
  keys _ := id

theorem trans {s t u : Session σ} (h : s.Before t) (h' : t.Before u) : s.Before u where
  trace := h.trace.trans h'.trace
  stopped := h'.stopped ∘ h.stopped
  failed := h'.failed ∘ h.failed
  metadata p := h'.metadata p ∘ h.metadata p
  keys c := h'.keys c ∘ h.keys c

theorem goesOn {s t : Session σ} (h : s.Before t) (ht : t.goesOn) : s.goesOn := by
  have hstopped := h.stopped
  have hfailed := h.failed
  rw [Session.goesOn_iff] at ht ⊢
  constructor
  · by_contra hs
    exact absurd (hstopped (by simpa using hs)) (by simp [ht.1])
  · by_contra hs
    exact absurd (hfailed (by simpa using hs)) (by simp [ht.2])

/-- What is not known of a folder later is not known earlier. -/
theorem unknown {s t : Session σ} (h : s.Before t) {p : String}
    (ht : t.registry.metadata.contains p = false) : s.registry.metadata.contains p = false := by
  by_contra hs
  have hstill := h.metadata p (by simpa using hs)
  rw [ht] at hstill
  cases hstill

end Session.Before

theorem FaultLog.hasFailed_add_of_hasFailed {l : FaultLog} (h : l.hasFailed) (f : Fault) :
    (l.add f).hasFailed := by
  unfold add
  split
  · simp
  · exact h

/-- Every effect leads to a later session. -/
theorem Plan.before_perform (plan : Plan σ) (e : Effect) (s : Session σ) :
    s.Before (plan.perform e s) := by
  have h := Session.Before.refl s
  cases e with
  | call c =>
    exact { h with
      trace := List.prefix_append ..
      stopped := fun hs => by simp [perform, ask, hs] }
  | metadata p m =>
    exact { h with metadata := fun q hq => by simp [perform, hq] }
  | keys c ks =>
    exact { h with keys := fun q hq => by simp [perform, hq] }
  | note f =>
    -- the first fault of a run may become its failure, which no later one replaces
    refine { h with failed := fun hs => ?_ }
    change FaultLog.hasFailed (if _ then _ else _)
    split
    · simp
    · exact FaultLog.hasFailed_add_of_hasFailed hs f
  | stop => exact { h with stopped := fun _ => rfl }
  | permissionIds _ | folder _ _ | container _ _ | tally _ | countCollection => exact { h with }

section Before

variable (plan)

theorem Plan.before_step (s : Session σ) (h : Handler) (e : Effect) (t : Session σ)
    (_ : e.isOf h) (hst : s.Before t) : s.Before (plan.perform e t) :=
  hst.trans (plan.before_perform e t)

theorem Plan.before_forEach {act : Entry → Restoring σ Unit}
    (hact : ∀ s e, Restoring.Keeps (Session.Before s) (act e) Going) (path : String)
    (driesUp : Bool) (es : List (Except Failure Entry)) (s : Session σ) :
    s.Before ((plan.forEach path driesUp act es).run s).2 :=
  (Plan.forEach_keeps (fun f t h => h.trans (plan.before_perform (.note f) t))
    (fun t h => h.trans (plan.before_perform .stop t)) (hact s)).snd (.refl s)

theorem Plan.before_restoreDriveEntry (c : Collection) (address : DriveAddress) (folder : String)
    (s : Session σ) (e : Entry) :
    Restoring.Keeps (Session.Before s) (plan.restoreDriveEntry c address folder e) Going :=
  Plan.restoreDriveEntry_keeps (fun e t he => plan.before_step s .drive e t he.1) c address folder e

end Before

theorem Plan.before_restoreAll (plan : Plan σ) (cs : List Collection) (s : Session σ) :
    s.Before (plan.restoreAll cs s).2 :=
  (Plan.restoreAll_keeps (fun e _ h => h.trans (plan.before_perform e _)) cs s (.refl s)).1

/-! ## One collection after the other -/

/-- The fault of being stopped ends a collection only if the restore has been stopped. -/
theorem Plan.stopped_of_restoreCollection {c : Collection} {s t : Session σ} {f : Fault}
    (h : (plan.restoreCollection c).run s = (.error f, t)) (hf : f.isCancelled) : t.stopped := by
  have hkeeps : Restoring.Keeps (fun _ => True) (plan.restoreCollection c) (Stopping Going) :=
    Plan.restoreCollection_keeps fun _ _ _ _ => trivial
  rcases (hkeeps.error h trivial).2 with hgoing | ⟨-, hstopped⟩
  · rw [Going, hf] at hgoing
    cases hgoing
  · exact hstopped

theorem Plan.restoreAll_of_not_goesOn {s : Session σ} (h : s.goesOn = false)
    (cs : List Collection) : plan.restoreAll cs s = ((), s) := by
  cases cs with
  | nil => rfl
  | cons c cs =>
    rw [Plan.restoreAll_cons, if_pos]
    simpa only [Session.goesOn, Bool.not_eq_false'] using h

/-- Restoring some collections and then others is restoring all of them. -/
theorem Plan.restoreAll_append (cs cs' : List Collection) (s : Session σ) :
    plan.restoreAll (cs ++ cs') s = plan.restoreAll cs' (plan.restoreAll cs s).2 := by
  induction cs generalizing s with
  | nil => rfl
  | cons c cs ih =>
    rw [List.cons_append, Plan.restoreAll_cons, Plan.restoreAll_cons]
    split
    · rename_i hend
      refine (Plan.restoreAll_of_not_goesOn ?_ _).symm
      simpa only [Session.goesOn, Bool.not_eq_false'] using hend
    rcases hrun : (plan.restoreCollection c).run s with ⟨f | ⟨⟩, t⟩
    · dsimp only
      split
      · rename_i hf
        -- a collection that ends in being stopped is the last one
        refine (Plan.restoreAll_of_not_goesOn ?_ _).symm
        have hstopped := Plan.stopped_of_restoreCollection hrun hf
        simp [Session.goesOn, Plan.perform, hstopped]
      · exact ih _
    · exact ih _

/-- The session after a collection that has been started. -/
def Plan.afterCollection (plan : Plan σ) : Except Fault Unit × Session σ → Session σ
  | (.ok (), t) => plan.perform .countCollection t
  | (.error f, t) =>
    if f.isCancelled then plan.perform .countCollection t
    else plan.perform (.note f) (plan.perform .countCollection t)

theorem Plan.restoreAll_singleton {s : Session σ} (h : s.goesOn) (c : Collection) :
    (plan.restoreAll [c] s).2 = plan.afterCollection ((plan.restoreCollection c).run s) := by
  rw [Plan.restoreAll_cons, if_neg (by simpa [Session.goesOn] using h)]
  rcases (plan.restoreCollection c).run s with ⟨f | ⟨⟩, t⟩
  · dsimp only [Plan.afterCollection]
    split <;> rfl
  · rfl

/-- What is kept by counting a collection and by noting a fault is kept after a collection. -/
theorem Plan.afterCollection_keeps {I : Session σ → Prop}
    (hcount : ∀ s, I s → I (plan.perform .countCollection s))
    (hnote : ∀ f s, I s → I (plan.perform (.note f) s)) (r : Except Fault Unit × Session σ)
    (h : I r.2) : I (plan.afterCollection r) := by
  rcases r with ⟨f | ⟨⟩, t⟩
  · dsimp only [Plan.afterCollection]
    split
    · exact hcount t h
    · exact hnote f _ (hcount t h)
  · exact hcount t h

theorem Plan.before_afterCollection (plan : Plan σ) (r : Except Fault Unit × Session σ) :
    r.2.Before (plan.afterCollection r) :=
  Plan.afterCollection_keeps (fun s hs => hs.trans (plan.before_perform .countCollection s))
    (fun f s hs => hs.trans (plan.before_perform (.note f) s)) r (.refl _)

theorem Plan.run_eq (cs : List Collection) (s : Session σ) :
    plan.run cs s = conclude (plan.restoreAll (Collection.sort cs) s).2 := rfl

theorem conclude_of_stopped {s : Session σ} (h : s.stopped) :
    conclude s = (.error .cancelled, s) := by
  simp [conclude, h]

/-- A run that has not been stopped ends in its failure, which is taken out of the log. -/
theorem conclude_of_not_stopped {s : Session σ} (h : s.stopped = false) :
    conclude s = (s.faults.failure.elim (.ok ()) .error,
      { s with faults := { s.faults with failure := none } }) := by
  obtain ⟨registry, progress, ⟨failure, recovered, warnings, failFast, announces⟩, stopped, trace,
    remote⟩ := s
  dsimp only at h
  subst h
  cases failure with
  | none => rfl
  | some f => rfl

@[simp] theorem conclude_stopped (s : Session σ) : (conclude s).2.stopped = s.stopped := by
  unfold conclude
  split
  · rfl
  · split <;> rfl

@[simp] theorem conclude_trace (s : Session σ) : (conclude s).2.trace = s.trace := by
  unfold conclude
  split
  · rfl
  · split <;> rfl

@[simp] theorem conclude_progress (s : Session σ) : (conclude s).2.progress = s.progress := by
  unfold conclude
  split
  · rfl
  · split <;> rfl

@[simp] theorem conclude_registry (s : Session σ) : (conclude s).2.registry = s.registry := by
  unfold conclude
  split
  · rfl
  · split <;> rfl

@[simp] theorem conclude_remote (s : Session σ) : (conclude s).2.remote = s.remote := by
  unfold conclude
  split
  · rfl
  · split <;> rfl

/-- A run that goes on after some collections has gone on before each of them. -/
theorem Plan.goesOn_of_restoreAll {cs : List Collection} {s : Session σ}
    (h : (plan.restoreAll cs s).2.goesOn) : s.goesOn :=
  (plan.before_restoreAll cs s).goesOn h

/-! ## One entry after the other -/

section ForEach

variable {path : String} {driesUp : Bool} {act : Entry → Restoring σ Unit}

theorem another_run (s : Session σ) : (another : Restoring σ Bool).run s =
    if s.faults.hasFailed then (.ok false, s)
    else if s.stopped then (.error .cancelled, s)
    else (.ok true, s) := by
  unfold another
  simp only [Restoring.run_bind, Restoring.run_get]
  split
  · rfl
  · split <;> rfl

theorem another_run_of_goesOn {s : Session σ} (h : s.goesOn) :
    (another : Restoring σ Bool).run s = (.ok true, s) := by
  obtain ⟨hstopped, hfailed⟩ := Session.goesOn_iff.1 h
  simp [another_run, hstopped, hfailed]

theorem Plan.forEach_of_failed {s : Session σ} (h : s.faults.hasFailed)
    (es : List (Except Failure Entry)) :
    (plan.forEach path driesUp act es).run s = (.ok (), s) := by
  have hstart : (another : Restoring σ Bool).run s = (.ok false, s) := by simp [another_run, h]
  rcases es with _ | ⟨_ | _, _⟩ <;> exact Restoring.run_bind_ok hstart _

theorem Plan.forEach_of_stopped {s : Session σ} (h : s.stopped)
    (hfailed : s.faults.hasFailed = false) (es : List (Except Failure Entry)) :
    (plan.forEach path driesUp act es).run s = (.error .cancelled, s) := by
  have hstart : (another : Restoring σ Bool).run s = (.error .cancelled, s) := by
    simp [another_run, h, hfailed]
  rcases es with _ | ⟨_ | _, _⟩ <;> exact Restoring.run_bind_error hstart _

theorem Plan.forEach_nil {s : Session σ} (h : s.goesOn) :
    (plan.forEach path false act []).run s = (.ok (), s) :=
  Restoring.run_bind_ok (another_run_of_goesOn h) _

theorem Plan.forEach_error {s : Session σ} (h : s.goesOn) (f : Failure)
    (es : List (Except Failure Entry)) :
    (plan.forEach path driesUp act (.error f :: es)).run s =
      (plan.forEach path driesUp act es).run (plan.perform (.note (.readingFailed path f)) s) :=
  Restoring.run_bind_ok (another_run_of_goesOn h) _

/-- Taking an entry, whose fault is noted unless the restore has been stopped. -/
theorem Plan.forEach_ok {s : Session σ} (h : s.goesOn) (e : Entry)
    (es : List (Except Failure Entry)) :
    (plan.forEach path driesUp act (.ok e :: es)).run s =
      match (act e).run s with
      | (.ok (), t) => (plan.forEach path driesUp act es).run t
      | (.error f, t) =>
        if f.isCancelled then (.error f, t)
        else (plan.forEach path driesUp act es).run (plan.perform (.note f) t) := by
  refine (Restoring.run_bind_ok (another_run_of_goesOn h) _).trans ?_
  simp only [↓reduceIte, Restoring.run_bind, Restoring.run_always]
  have hrun : (act e).run s = act e s := rfl
  rw [hrun]
  rcases act e s with ⟨f | ⟨⟩, t⟩
  · by_cases hf : f.isCancelled = true
    · simp [Plan.noteEntry, hf]
    · simp only [Plan.noteEntry, hf]
      rfl
  · rfl

/-- Taking some entries and then others is taking all of them. -/
theorem Plan.forEach_append (es es' : List (Except Failure Entry)) (s : Session σ) :
    (plan.forEach path driesUp act (es ++ es')).run s =
      (plan.forEach path false act es >>= fun _ => plan.forEach path driesUp act es').run s := by
  induction es generalizing s with
  | nil =>
    rcases s.failed_or_stopped_or_goesOn with hfailed | ⟨hstopped, hfailed⟩ | hgoes
    · rw [Restoring.run_bind_ok (Plan.forEach_of_failed hfailed _)]
      rfl
    · rw [Restoring.run_bind_error (Plan.forEach_of_stopped hstopped hfailed _)]
      exact Plan.forEach_of_stopped hstopped hfailed _
    · rw [Restoring.run_bind_ok (Plan.forEach_nil hgoes)]
      rfl
  | cons x es ih =>
    rcases s.failed_or_stopped_or_goesOn with hfailed | ⟨hstopped, hfailed⟩ | h
    · rw [Restoring.run_bind_ok (Plan.forEach_of_failed hfailed _)]
      rw [Plan.forEach_of_failed hfailed, Plan.forEach_of_failed hfailed]
    · rw [Restoring.run_bind_error (Plan.forEach_of_stopped hstopped hfailed _)]
      exact Plan.forEach_of_stopped hstopped hfailed _
    -- only where the run goes on is the first entry taken
    rw [List.cons_append, Restoring.run_bind]
    cases x with
    | error f =>
      rw [Plan.forEach_error h, Plan.forEach_error h, ih, Restoring.run_bind]
    | ok e =>
      rw [Plan.forEach_ok h, Plan.forEach_ok h]
      rcases (act e).run s with ⟨f | ⟨⟩, t⟩
      · dsimp only
        split
        · rfl
        · rw [ih, Restoring.run_bind]
      · dsimp only
        rw [ih, Restoring.run_bind]

/-- If the run goes on after some entries, those that follow are taken in the session in which
these end. -/
theorem Plan.forEach_append_of_goesOn {es : List (Except Failure Entry)} {s : Session σ}
    (hact : ∀ e, Restoring.Keeps (fun _ => True) (act e) Going)
    (h : ((plan.forEach path false act es).run s).2.goesOn) (es' : List (Except Failure Entry)) :
    (plan.forEach path driesUp act (es ++ es')).run s =
      (plan.forEach path driesUp act es').run ((plan.forEach path false act es).run s).2 := by
  have hkeep : Upkeep plan (fun _ => True) (fun _ => True) Going :=
    Upkeep.of_keep (fun _ _ _ _ => trivial) fun _ _ => Fault.not_isCancelled_of_isPlain
  have hend : Restoring.Ensures _ (plan.forEach path false act es) _ _ :=
    hkeep.forEach (tolerates_going fun _ => trivial) trivial fun e _ => hact e
  rw [Plan.forEach_append, Restoring.run_bind]
  rcases hrun : (plan.forEach path false act es).run s with ⟨f | ⟨⟩, t⟩
  · -- the entries end in a fault only where the restore has been stopped
    rw [hrun, Session.goesOn_iff] at h
    have hstopped := (hend.error hrun trivial).2.2
    rw [h.1] at hstopped
    cases hstopped
  · rfl

/-- The session after an entry that has been taken. -/
def Plan.afterEntry (plan : Plan σ) : Except Fault Unit × Session σ → Session σ
  | (.ok (), t) => t
  | (.error f, t) => if f.isCancelled then t else plan.perform (.note f) t

/-- What is kept by noting a fault is kept after an entry. -/
theorem Plan.afterEntry_keeps {I : Session σ → Prop}
    (hnote : ∀ f s, I s → I (plan.perform (.note f) s)) (r : Except Fault Unit × Session σ)
    (h : I r.2) : I (plan.afterEntry r) := by
  rcases r with ⟨f | ⟨⟩, t⟩
  · dsimp only [Plan.afterEntry]
    split
    · exact h
    · exact hnote f t h
  · exact h

theorem Plan.forEach_nil_snd (s : Session σ) : ((plan.forEach path false act []).run s).2 = s := by
  rcases s.failed_or_stopped_or_goesOn with hfailed | ⟨hstopped, hfailed⟩ | hgoes
  · rw [Plan.forEach_of_failed hfailed]
  · rw [Plan.forEach_of_stopped hstopped hfailed]
  · rw [Plan.forEach_nil hgoes]

theorem Plan.forEach_of_not_goesOn {s : Session σ} (h : s.goesOn = false)
    (es : List (Except Failure Entry)) : ((plan.forEach path driesUp act es).run s).2 = s := by
  rcases s.failed_or_stopped_or_goesOn with hfailed | ⟨hstopped, hfailed⟩ | hgoes
  · rw [Plan.forEach_of_failed hfailed]
  · rw [Plan.forEach_of_stopped hstopped hfailed]
  · rw [h] at hgoes
    cases hgoes

theorem Plan.forEach_singleton {s : Session σ} (h : s.goesOn) (e : Entry) :
    ((plan.forEach path false act [.ok e]).run s).2 = plan.afterEntry ((act e).run s) := by
  rw [Plan.forEach_ok h]
  rcases (act e).run s with ⟨f | ⟨⟩, t⟩
  · dsimp only [Plan.afterEntry]
    split
    · rfl
    · exact Plan.forEach_nil_snd _
  · exact Plan.forEach_nil_snd t

/-- Drying up after some entries at most stops the restore. -/
theorem Plan.forEach_driesUp (plan : Plan σ) (path : String) (driesUp : Bool)
    (act : Entry → Restoring σ Unit) (es : List (Except Failure Entry)) (s : Session σ) :
    ∃ stopped, ((plan.forEach path driesUp act es).run s).2 =
      { ((plan.forEach path false act es).run s).2 with stopped := stopped } := by
  have happend : (plan.forEach path driesUp act (es ++ [])).run s = _ := Plan.forEach_append es [] s
  rw [List.append_nil, Restoring.run_bind] at happend
  rw [happend]
  rcases (plan.forEach path false act es).run s with ⟨f | ⟨⟩, t⟩
  · exact ⟨t.stopped, rfl⟩
  cases driesUp with
  | false => exact ⟨t.stopped, Plan.forEach_nil_snd t⟩
  | true =>
    dsimp only
    rcases t.failed_or_stopped_or_goesOn with hfailed | ⟨hstopped, hfailed⟩ | hgoes
    · exact ⟨t.stopped, by rw [Plan.forEach_of_failed hfailed]⟩
    · exact ⟨t.stopped, by rw [Plan.forEach_of_stopped hstopped hfailed]⟩
    · have hdry :
          (plan.forEach path true act []).run t = (.error .cancelled, plan.perform .stop t) :=
        Restoring.run_bind_ok (another_run_of_goesOn hgoes) _
      exact ⟨true, by rw [hdry]; rfl⟩

/-- Taking some entries comes before taking some more. -/
theorem Plan.before_forEach_append
    (hact : ∀ s e, Restoring.Keeps (Session.Before s) (act e) Going)
    (es es' : List (Except Failure Entry)) (s : Session σ) :
    ((plan.forEach path false act es).run s).2.Before
      ((plan.forEach path driesUp act (es ++ es')).run s).2 := by
  rw [Plan.forEach_append, Restoring.run_bind]
  rcases (plan.forEach path false act es).run s with ⟨f | ⟨⟩, t⟩
  · exact .refl t
  · exact plan.before_forEach hact path driesUp es' t

end ForEach

/-! ## Entering a folder -/

/-- The session after the permissions of a folder have been restored, if that is wanted. -/
def Plan.settleFolder (plan : Plan σ) (path : BackupPath) (address : DriveAddress)
    (folder : String) (m : Metadata) (s : Session σ) : Session σ :=
  if plan.options.restorePermissions && !address.isRoot then
    match (plan.restorePermissions address.drive folder path m).run s with
    | (.ok (), t) => t
    | (.error f, t) => plan.perform (.note f) t
  else s

/-- What is kept by restoring the permissions of a folder and by noting a fault is kept by settling
them. -/
theorem Plan.settleFolder_keeps {I : Session σ → Prop} {E : Fault → Session σ → Prop}
    {path : BackupPath} {address : DriveAddress} {folder : String} {m : Metadata}
    (hpermissions : Restoring.Keeps I (plan.restorePermissions address.drive folder path m) E)
    (hnote : ∀ f s, I s → I (plan.perform (.note f) s)) {s : Session σ} (hs : I s) :
    I (plan.settleFolder path address folder m s) := by
  have hend := hpermissions.snd hs
  unfold Plan.settleFolder
  split
  · rcases hrun : (plan.restorePermissions address.drive folder path m).run s with ⟨f | ⟨⟩, t⟩ <;>
      rw [hrun] at hend
    · exact hnote f t hend
    · exact hend
  · exact hs

theorem Plan.enterFolder_error (plan : Plan σ) {c : Collection} {e : PathError}
    (h : c.path.drive = .error e) (s : Session σ) :
    (plan.enterFolder c).run s = (.error (.path e), s) := by
  unfold Plan.enterFolder
  rw [h]
  rfl

/-- A folder is entered by reading its metadata, going there, settling its permissions and
remembering its metadata. -/
theorem Plan.enterFolder_run (plan : Plan σ) {c : Collection} {address : DriveAddress}
    (h : c.path.drive = .ok address) (s : Session σ) :
    (plan.enterFolder c).run s =
      match plan.folderMetadata c address s.registry.metadata with
      | .error f => (.error f, s)
      | .ok m =>
        match (plan.destinationFolder address).run s with
        | (.error f, t) => (.error f, t)
        | (.ok folder, t) =>
          (.ok (address, folder), plan.perform (.metadata c.path.text m)
            (plan.settleFolder c.path address folder m t)) := by
  have haddress : (Restoring.ofExcept (c.path.drive.mapError .path)).run s = (.ok address, s) := by
    rw [h]
    rfl
  unfold Plan.enterFolder
  rw [Restoring.run_bind_ok haddress, Restoring.run_bind_ok (Restoring.run_get s)]
  rw [Restoring.run_bind, Restoring.run_ofExcept]
  rcases plan.folderMetadata c address s.registry.metadata with f | m
  · rfl
  dsimp only
  rw [Restoring.run_bind]
  rcases (plan.destinationFolder address).run s with ⟨f | folder, t⟩
  · rfl
  unfold Plan.settleFolder
  dsimp only
  split
  · rcases hsettled : (plan.restorePermissions address.drive folder c.path m).run t with
      ⟨f | ⟨⟩, u⟩ <;> exact Restoring.run_bind_ok (Restoring.run_caught hsettled) _
  · rfl

/-- A collection fails at once if there is no handler for it. -/
theorem Plan.restoreCollection_noHandler {c : Collection}
    (h : plan.remote.serves c.path.category.handler = false) (s : Session σ) :
    (plan.restoreCollection c).run s = (.error (.noHandler c.path.category), s) := by
  unfold Plan.restoreCollection
  simp only [h]
  rfl

theorem Plan.restoreCollection_eq_restoreDrive {c : Collection}
    (hhandler : c.path.category.handler = .drive) (hserves : plan.remote.serves .drive) :
    plan.restoreCollection c = plan.restoreDrive c := by
  unfold Plan.restoreCollection
  simp only [hhandler, hserves, ↓reduceIte]

/-- A drive collection is restored by entering its folder and taking its entries. -/
theorem Plan.restoreDrive_run {c : Collection} {s t : Session σ}
    {entered : DriveAddress × String} (h : (plan.enterFolder c).run s = (.ok entered, t)) :
    (plan.restoreDrive c).run s =
      (plan.forEachEntry c (plan.restoreDriveEntry c entered.1 entered.2)).run t :=
  Restoring.run_bind_ok h _

theorem Plan.restoreCollection_eq_restoreItems {c : Collection} {kind : ItemKind}
    (hhandler : c.path.category.handler = .items kind)
    (hserves : plan.remote.serves (.items kind)) :
    plan.restoreCollection c = plan.restoreItems kind c := by
  unfold Plan.restoreCollection
  simp only [hhandler, hserves, ↓reduceIte]

/-! ## Handing out receipts -/

/-- The session after something has been counted and its receipt has been handed out. -/
def Plan.credit (plan : Plan σ) (r : Receipt) (s : Session σ) : Session σ :=
  plan.perform (.call (.receipt r)) (plan.perform (.tally fun t => t.succeed r.size) s)

theorem Plan.trace_credit (plan : Plan σ) (r : Receipt) (s : Session σ) :
    ∃ answer, (plan.credit r s).trace = s.trace ++ [⟨.receipt r, answer⟩] := ⟨_, rfl⟩

/-! ## Restoring a file -/

/-- The receipt of a file. -/
def Plan.receiptOf (plan : Plan σ) (c : Collection) (address : DriveAddress) (file : DriveFile)
    (updated : Bool) : Receipt where
  source := c.path.text ++ "/" ++ file.entry
  location := String.intercalate "/" (plan.options.destination address)
  category := c.path.category
  name := file.name
  size := file.data.size
  updated := updated

/-- The session after an uploaded file has been counted and its receipt has been handed out. -/
def Plan.account (plan : Plan σ) (c : Collection) (address : DriveAddress) (file : DriveFile)
    (updated : Bool) (s : Session σ) : Session σ :=
  plan.credit (plan.receiptOf c address file updated) s

/-- A file is restored by uploading it, accounting for it and restoring its permissions. -/
theorem Plan.restoreFile_run (c : Collection) (address : DriveAddress) (folder : String)
    (file : DriveFile) (s : Session σ) :
    (plan.restoreFile c address folder file).run s =
      match (plan.uploadFile address.drive folder file).run (plan.perform (.tally Tally.see) s) with
      | (.error f, t) => (.error f, t)
      | (.ok (id, updated), t) =>
        if plan.options.restorePermissions && plan.version.hasMetaFiles then
          match c.path.ofFile file with
          | .error f => (.error f, plan.account c address file updated t)
          | .ok path => (plan.restorePermissions address.drive id path file.metadata).run
              (plan.account c address file updated t)
        else (.ok (), plan.account c address file updated t) := by
  have hsee : (Restoring.always (tally Tally.see)).run s =
      (.ok (), plan.perform (.tally Tally.see) s) := rfl
  unfold Plan.restoreFile
  rw [Restoring.run_bind_ok hsee]
  rcases hupload : (plan.uploadFile address.drive folder file).run
    (plan.perform (.tally Tally.see) s) with ⟨f | ⟨id, updated⟩, t⟩
  · exact Restoring.run_bind_error hupload _
  rw [Restoring.run_bind_ok hupload]
  dsimp only
  split
  · rcases c.path.ofFile file with f | path <;> rfl
  · rfl

theorem Plan.restoreDriveEntry_run {c : Collection} {address : DriveAddress} {folder : String}
    {entry : Entry} {file : DriveFile} (h : plan.recognise c entry = .ok (.file file))
    (s : Session σ) :
    (plan.restoreDriveEntry c address folder entry).run s =
      (plan.restoreFile c address folder file).run s := by
  unfold Plan.restoreDriveEntry
  rw [h]
  rfl

/-! ## Restoring an item -/

/-- The receipt of an item. -/
def Plan.itemReceipt (plan : Plan σ) (kind : ItemKind) (c : Collection) (entry : Entry)
    (located : Item) (updated : Bool) : Receipt where
  source := c.path.text ++ "/" ++ entry.name
  location := plan.options.containerName c.path
  category := kind.category
  name := located.withoutChildren.displayName
  size := entry.data.size
  updated := updated

/-- An item that can be read is restored by creating it, then its children if there are any, and
accounting for it. -/
theorem Plan.restoreItem_run (kind : ItemKind) (c : Collection) (container : String)
    (entry : Entry) (s : Session σ) :
    (plan.restoreItem kind c container entry).run s =
      match Item.ofEntry kind entry with
      | .error f => (.error f, plan.perform (.tally Tally.see) s)
      | .ok stored =>
        let located := stored.locate plan.options.location entry.name
        match (plan.createItem kind container located.withoutChildren).run
          (plan.perform (.tally Tally.see) s) with
        | (.error f, t) => (.error f, t)
        | (.ok (id, updated), t) =>
          let receipt := plan.itemReceipt kind c entry located updated
          if located.children.isEmpty then (.ok (), plan.credit receipt t)
          else
            match plan.askItems kind (.addChildren container id located.children) t with
            | (.error f, u) => (.error (.remote f), u)
            | (.ok (), u) => (.ok (), plan.credit receipt u) := by
  have hsee : (Restoring.always (tally Tally.see)).run s =
      (.ok (), plan.perform (.tally Tally.see) s) := rfl
  unfold Plan.restoreItem
  rw [Restoring.run_bind_ok hsee]
  rcases Item.ofEntry kind entry with f | stored
  · rfl
  rw [Restoring.run_bind_ok (Restoring.run_ofExcept _ _)]
  dsimp only
  generalize stored.locate plan.options.location entry.name = located
  rcases hcreate : (plan.createItem kind container located.withoutChildren).run
    (plan.perform (.tally Tally.see) s) with ⟨f | ⟨id, updated⟩, t⟩
  · exact Restoring.run_bind_error hcreate _
  rw [Restoring.run_bind_ok hcreate]
  dsimp only
  cases hchildren : located.children.isEmpty with
  | true => rfl
  | false =>
    rcases hadd : plan.askItems kind (.addChildren container id located.children) t with
      ⟨f | ⟨⟩, u⟩
    · have hneed : (Restoring.need
          (plan.askItems kind (.addChildren container id located.children))).run t =
          (.error (.remote f), u) := by rw [Restoring.run_need, hadd]; rfl
      exact Restoring.run_bind_error hneed _
    · have hneed : (Restoring.need
          (plan.askItems kind (.addChildren container id located.children))).run t =
          (.ok (), u) := by rw [Restoring.run_need, hadd]; rfl
      exact Restoring.run_bind_ok hneed _

/-! ## Finding a container and its keys -/

theorem knownKeys_of_some {container : String} {ask : Steps σ (Except Failure Keys)}
    {s : Session σ} {ks : Keys} (h : s.registry.keys.find? container = some ks) :
    (knownKeys container ask).run s = (.ok ks, s) := by
  unfold knownKeys
  rw [Restoring.run_bind_ok (Restoring.run_get s), h]
  rfl

/-- Keys that are not known yet are asked for, and remembered. -/
theorem Plan.knownKeys_of_none (plan : Plan σ) {container : String}
    {ask : Steps σ (Except Failure Keys)} {s t : Session σ} {ks : Keys}
    (h : s.registry.keys.find? container = none) (hask : ask s = (.ok ks, t)) :
    (knownKeys container ask).run s = (.ok ks, plan.perform (.keys container ks) t) := by
  have hneed := Restoring.run_need ask s
  rw [hask] at hneed
  unfold knownKeys
  rw [Restoring.run_bind_ok (Restoring.run_get s), h]
  exact Restoring.run_bind_ok hneed _

/-- The container of a collection is the one that is known, or else the one that is asked for. -/
theorem Plan.containerFor_run (plan : Plan σ) (kind : ItemKind) (path : BackupPath)
    (s : Session σ) :
    (plan.containerFor kind path).run s =
      let name := plan.options.containerName path
      match s.registry.containers.find? (kind.category, path.owner, name) with
      | some id => (.ok id, s)
      | none =>
        match plan.askItems kind (.container path.owner name) s with
        | (.ok container, t) => (.ok (Container.id container),
            plan.perform (.container (kind.category, path.owner, name) (Container.id container)) t)
        | (.error f, t) => (.error (.remote f), t) := by
  unfold Plan.containerFor
  rw [Restoring.run_bind_ok (Restoring.run_get s)]
  have hneed := Restoring.run_need
    (plan.askItems kind (.container path.owner (plan.options.containerName path))) s
  dsimp only
  rcases s.registry.containers.find? _ with _ | id
  · rcases hask : plan.askItems kind (.container path.owner (plan.options.containerName path)) s
      with ⟨f | container, t⟩ <;> rw [hask] at hneed
    · exact Restoring.run_bind_error hneed _
    · exact Restoring.run_bind_ok hneed _
  · rfl

/-! ## Runs that are not interrupted -/

/-- A log that does not fail fast and has not failed. -/
structure FaultLog.Patient (l : FaultLog) : Prop where
  not_failFast : l.failFast = false
  not_failed : l.failure = none

/-- Unless the restore fails fast, no effect makes a run fail. -/
theorem Plan.patient_perform (plan : Plan σ) (hoptions : plan.options.failFast = false)
    (e : Effect) {s : Session σ} (h : s.faults.Patient) : (plan.perform e s).faults.Patient := by
  cases e with
  | note f =>
    change FaultLog.Patient (if _ then _ else _)
    rw [hoptions]
    simp only [Bool.false_eq_true, ↓reduceIte, FaultLog.add, h.not_failFast]
    exact ⟨h.not_failFast, h.not_failed⟩
  | call _ | metadata _ _ | permissionIds _ | keys _ _ | folder _ _ | container _ _ | tally _
  | stop | countCollection => exact h

/-- A run that neither fails fast nor is stopped. -/
structure Plan.Uninterrupted (plan : Plan σ) (cs : List Collection) (start : Session σ) :
    Prop where
  not_failFast : plan.options.failFast = false
  patient : start.faults.Patient
  not_stopped : (plan.run cs start).2.stopped = false

namespace Plan.Uninterrupted

variable {cs pre post : List Collection} {c : Collection} {start : Session σ}

theorem keeps_patient (h : plan.Uninterrupted cs start) (e : Effect) (s : Session σ)
    (hs : s.faults.Patient) : (plan.perform e s).faults.Patient :=
  plan.patient_perform h.not_failFast e hs

theorem patient_restoreAll (h : plan.Uninterrupted cs start) (cs' : List Collection) :
    (plan.restoreAll cs' start).2.faults.Patient :=
  (Plan.restoreAll_keeps (I := fun s : Session σ => s.faults.Patient) h.keeps_patient cs' start
    h.patient).1

/-- A session with a patient log goes on if it comes before the end of the run. -/
theorem goesOn_of_before (h : plan.Uninterrupted cs start) {s : Session σ}
    (hs : s.Before (plan.restoreAll (Collection.sort cs) start).2) (hpatient : s.faults.Patient) :
    s.goesOn := by
  refine Session.goesOn_iff.2 ⟨?_, by simp [FaultLog.hasFailed, hpatient.not_failed]⟩
  by_contra hstopped
  -- it would still be stopped at the end
  have hend := hs.stopped (by simpa using hstopped)
  have hnot := h.not_stopped
  rw [Plan.run_eq, conclude_stopped, hend] at hnot
  cases hnot

theorem before_end (plan : Plan σ) (start : Session σ) (hsort : Collection.sort cs = pre ++ post) :
    (plan.restoreAll pre start).2.Before (plan.restoreAll (Collection.sort cs) start).2 := by
  rw [hsort, Plan.restoreAll_append]
  exact plan.before_restoreAll post _

/-- The run goes on after any first collections. -/
theorem goesOn (h : plan.Uninterrupted cs start) (hsort : Collection.sort cs = pre ++ post) :
    (plan.restoreAll pre start).2.goesOn :=
  h.goesOn_of_before (before_end plan start hsort) (h.patient_restoreAll pre)

theorem before_end_of_collection (h : plan.Uninterrupted cs start)
    (hsort : Collection.sort cs = pre ++ c :: post) :
    ((plan.restoreCollection c).run (plan.restoreAll pre start).2).2.Before
      (plan.restoreAll (Collection.sort cs) start).2 := by
  have hpre : Collection.sort cs = (pre ++ [c]) ++ post := by rw [hsort, List.append_assoc]; rfl
  have hlater := before_end plan start hpre
  rw [Plan.restoreAll_append, Plan.restoreAll_singleton (h.goesOn hsort)] at hlater
  exact (plan.before_afterCollection _).trans hlater

/-- The run goes on between the entries of a collection. -/
theorem goesOn_entries (h : plan.Uninterrupted cs start)
    (hsort : Collection.sort cs = pre ++ c :: post) {act : Entry → Restoring σ Unit}
    {t : Session σ} (ht : t.faults.Patient)
    (hentered : (plan.restoreCollection c).run (plan.restoreAll pre start).2 =
      (plan.forEachEntry c act).run t)
    (hbefore : ∀ s e, Restoring.Keeps (Session.Before s) (act e) Going)
    (hpatient : ∀ e, Restoring.Keeps (fun s => s.faults.Patient) (act e) Going)
    {es es' : List (Except Failure Entry)} (hentries : c.entries = es ++ es') :
    ((plan.forEach c.path.text false act es).run t).2.goesOn := by
  refine h.goesOn_of_before ?_ ?_
  · have hlater := h.before_end_of_collection hsort
    rw [hentered, Plan.forEachEntry, hentries] at hlater
    exact (Plan.before_forEach_append hbefore es es' t).trans hlater
  · have hkeeps : Restoring.Keeps _ (plan.forEach c.path.text false act es) (Stopping Going) :=
      Plan.forEach_keeps (fun f s => h.keeps_patient (.note f) s)
        (fun s => h.keeps_patient .stop s) hpatient
    exact hkeeps.snd ht

/-- The run goes on between the entries of a drive collection. -/
theorem goesOn_driveEntries (h : plan.Uninterrupted cs start)
    (hsort : Collection.sort cs = pre ++ c :: post)
    (hdrive : plan.restoreCollection c = plan.restoreDrive c) {address : DriveAddress}
    {folder : String} {t : Session σ}
    (henter : (plan.enterFolder c).run (plan.restoreAll pre start).2 =
      (.ok (address, folder), t)) {es es' : List (Except Failure Entry)}
    (hentries : c.entries = es ++ es') :
    ((plan.forEach c.path.text false (plan.restoreDriveEntry c address folder) es).run
      t).2.goesOn := by
  have ht := (Plan.enterFolder_keeps (fun e s _ => h.keeps_patient e s) c).ok henter
    (h.patient_restoreAll pre)
  refine h.goesOn_entries hsort ht ?_ (plan.before_restoreDriveEntry c address folder)
    (fun e => Plan.restoreDriveEntry_keeps (fun e s _ => h.keeps_patient e s) c address folder e)
    hentries
  rw [hdrive, Plan.restoreDrive_run henter]

end Plan.Uninterrupted

end TenantRestore
