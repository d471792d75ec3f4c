/-
# Restores that get the same answers

Two restores that do the same work, know the same and get the same answers go through every
step in lockstep, whatever else differs between their sessions.  `Plan.Twins` names what has to
be shown of two ways to answer the calls of a restore, and of a relation between their sessions:
only what single calls and other elementary effects do.  From that, every step is shown to keep
the sessions related, up to the step from one boundary of a run to the next.
-/
import TenantRestore.Proofs.Boundary
import TenantRestore.Proofs.Tandem

namespace TenantRestore

variable {σ : Type} {R : Session σ → Session σ → Prop}

/-! ## Two ways to answer the calls of a restore -/

/-- The restore whose calls are answered by someone else. -/
def Plan.answeredBy (plan : Plan σ) (remote : Remote σ) : Plan σ := { plan with remote := remote }

/-- Someone else gives the same answers in related sessions, which are related again after every
elementary effect. -/
structure Plan.Twins (plan : Plan σ) (remote : Remote σ) (R : Session σ → Session σ → Prop) :
    Prop where
  serves : plan.remote.serves = remote.serves
  registry : ∀ s s', R s s' → s.registry = s'.registry
  answer : ∀ c s s', R s s' → (plan.ask c s).1 = ((plan.answeredBy remote).ask c s').1
  perform : ∀ e s s', R s s' → R (plan.perform e s) ((plan.answeredBy remote).perform e s')

namespace Plan.Twins

variable {plan : Plan σ} {remote : Remote σ}

/-! ### Steps -/

/-- A restore is in tandem with the one that gets the same answers. -/
theorem tandem (h : plan.Twins remote R) :
    plan.Tandem (plan.answeredBy remote) (fun _ => True) R Eq where
  location := rfl
  onCollision := rfl
  answer c s s' _ _ hs := h.answer c s s' hs
  perform e s s' _ hs := h.perform e s s' hs
  alike := Keys.alike_eq
  keys container ks _ s s' hks hs := by
    subst hks
    exact h.perform (.keys container ks) s s' hs

theorem knowKeys (h : plan.Twins remote R) (container : String) {s s' : Session σ} (hs : R s s') :
    s.KnowKeys Eq container s' :=
  .of_eq Keys.alike_eq (by rw [h.registry s s' hs]) container

theorem knowDrives (h : plan.Twins remote R) (s s' : Session σ) (hs : R s s') :
    s.KnowDrives s' where
  folders := by rw [h.registry s s' hs]
  metadata := by rw [h.registry s s' hs]
  permissionIds := by rw [h.registry s s' hs]

theorem restoreDriveEntry (h : plan.Twins remote R) (c : Collection) (address : DriveAddress)
    (folder : String) (e : Entry) :
    Restoring.Twin R (plan.restoreDriveEntry c address folder e)
      ((plan.answeredBy remote).restoreDriveEntry c address folder e) := by
  refine Restoring.Twin.bind (Restoring.Together.ofExcept (plan.recognise c e)) ?_
  rintro (file | ⟨path, m⟩ | _)
  · exact (h.tandem.restoreFile rfl rfl (fun _ _ => trivial) h.knowDrives c address folder
      file).of_imp fun _ _ hs => ⟨hs, h.knowKeys folder hs⟩
  · exact h.tandem.rememberMetadata trivial
  · exact Restoring.Together.pure _

theorem restoreItem (h : plan.Twins remote R) (kind : ItemKind) (c : Collection)
    (container : String) (e : Entry) :
    Restoring.Twin R (plan.restoreItem kind c container e)
      ((plan.answeredBy remote).restoreItem kind c container e) :=
  (h.tandem.restoreItem rfl (fun _ _ => trivial) c container e).of_imp fun _ _ hs =>
    ⟨hs, h.knowKeys container hs⟩

/-! ### From boundary to boundary -/

theorem enter (h : plan.Twins remote R) (c : Collection) :
    Restoring.Twin R (plan.enter c) ((plan.answeredBy remote).enter c) := by
  have hserves : (plan.answeredBy remote).remote.serves = plan.remote.serves := h.serves.symm
  unfold Plan.enter
  dsimp only
  rw [hserves]
  split
  · split
    · exact Restoring.Twin.bind (h.tandem.enterFolder rfl rfl (fun _ _ => trivial) h.knowDrives c)
        fun _ => Restoring.Together.pure _
    · refine Restoring.Twin.bind (h.tandem.containerFor (fun _ _ => trivial) fun s s' hs _ _ => ?_)
        fun _ => Restoring.Together.pure _
      rw [h.registry s s' hs]
  · exact Restoring.Together.throw _

theorem take (h : plan.Twins remote R) (c : Collection) (entrance : Entrance) (e : Entry) :
    Restoring.Twin R (plan.take c entrance e) ((plan.answeredBy remote).take c entrance e) := by
  cases entrance with
  | drive address folder => exact h.restoreDriveEntry c address folder e
  | items kind container => exact h.restoreItem kind c container e

theorem afterCollection (h : plan.Twins remote R) (r : Except Fault Unit) {s s' : Session σ}
    (hs : R s s') :
    R (plan.afterCollection (r, s)) ((plan.answeredBy remote).afterCollection (r, s')) := by
  have hcount := h.perform .countCollection s s' hs
  rcases r with f | ⟨⟩
  · dsimp only [Plan.afterCollection]
    split
    · exact hcount
    · exact h.perform (.note f) _ _ hcount
  · exact hcount

theorem afterEntry (h : plan.Twins remote R) (r : Except Fault Unit) {s s' : Session σ}
    (hs : R s s') : R (plan.afterEntry (r, s)) ((plan.answeredBy remote).afterEntry (r, s')) := by
  rcases r with f | ⟨⟩
  · dsimp only [Plan.afterEntry]
    split
    · exact hs
    · exact h.perform (.note f) s s' hs
  · exact hs

end Plan.Twins

/-- Two runs have come equally far, in related sessions. -/
structure Boundary.Twin (R : Session σ → Session σ → Prop) (b b' : Boundary σ) : Prop where
  session : R b.session b'.session
  current : b.current = b'.current
  later : b.later = b'.later

namespace Plan.Twins

variable {plan : Plan σ} {remote : Remote σ}

theorem begin (h : plan.Twins remote R) (c : Collection) (later : List Collection)
    {s s' : Session σ} (hs : R s s') :
    Boundary.Twin R (plan.begin c later s) ((plan.answeredBy remote).begin c later s') := by
  obtain ⟨r, t, t', hrun, hrun', hend⟩ := (h.enter c).run hs
  unfold Plan.begin
  rw [hrun, hrun']
  cases r with
  | error f => exact ⟨h.afterCollection (.error f) hend, rfl, rfl⟩
  | ok entrance => exact ⟨hend, rfl, rfl⟩

theorem pass (h : plan.Twins remote R) (p : Passage) (later : List Collection) {s s' : Session σ}
    (hs : R s s') :
    Boundary.Twin R (plan.pass p later s) ((plan.answeredBy remote).pass p later s') := by
  obtain ⟨c, entrance, rest⟩ := p
  rcases rest with _ | ⟨f | e, rest⟩
  · dsimp only [Plan.pass]
    split
    · exact ⟨h.perform .countCollection _ _ (h.perform .stop s s' hs), rfl, rfl⟩
    · exact ⟨h.perform .countCollection s s' hs, rfl, rfl⟩
  · exact ⟨h.perform (.note _) s s' hs, rfl, rfl⟩
  · obtain ⟨r, t, t', hrun, hrun', hend⟩ := (h.take c entrance e).run hs
    dsimp only [Plan.pass]
    rw [hrun, hrun']
    exact ⟨h.afterEntry r hend, rfl, rfl⟩

/-- Runs that have come equally far come equally far again, if both go on or neither. -/
theorem advance (h : plan.Twins remote R) {b b' : Boundary σ} (hb : Boundary.Twin R b b')
    (hgoes : b.session.goesOn = b'.session.goesOn) :
    Boundary.Twin R (plan.advance b) ((plan.answeredBy remote).advance b') := by
  obtain ⟨s, current, later⟩ := b
  obtain ⟨s', current', later'⟩ := b'
  obtain ⟨hs, hcurrent, hlater⟩ := hb
  dsimp only at hs hcurrent hlater hgoes
  subst hcurrent hlater
  unfold Plan.advance
  dsimp only
  rw [hgoes]
  split
  · split
    · exact h.pass _ _ hs
    · exact h.begin _ _ hs
    · exact ⟨hs, rfl, rfl⟩
  · exact ⟨hs, rfl, rfl⟩

end Plan.Twins

end TenantRestore
