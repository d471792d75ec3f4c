/-
# Sessions that are alike for a handler go in lockstep

Sessions that are alike for a handler are kept so by the steps of this handler, and each of these
steps has the same result in both: `Plan.tandem_alike`.  The keys of a container have to be the same
for an item to be stored, so they are asked for where this happens, and nowhere else.
-/
import TenantRestore.Proofs.Handlers
import TenantRestore.Proofs.Tandem

namespace TenantRestore

/-- The same keys of a container are known in two sessions, as far as can be told by looking them
up. -/
def Session.SameKeys (container : String) {σ : Type} (s s' : Session σ) : Prop :=
  (s.registry.keys.find? container).map Table.find? =
    (s'.registry.keys.find? container).map Table.find?

theorem Session.SameKeys.knowKeys {σ : Type} {container : String} {s s' : Session σ}
    (h : s.SameKeys container s') :
    s.KnowKeys (fun ks ks' => ks.find? = ks'.find?) container s' := by
  unfold SameKeys at h
  unfold KnowKeys
  rcases hfind : s.registry.keys.find? container with _ | ks <;>
    rcases hfind' : s'.registry.keys.find? container with _ | ks' <;> rw [hfind, hfind'] at h
  · exact .none
  · cases h
  · cases h
  · exact .some (Option.some.inj h)

variable {τ : Handler → Type} {ρ : Type} {plan : Plan (HandlerStates τ ρ)}
  {machine : (h : Handler) → Remote (τ h)} {desk : Remote ρ}

/-- Sessions that are alike for a handler, with the same keys of a container. -/
def Session.AlikeAt (h : Handler) (container : String)
    (s s' : Session (HandlerStates τ ρ)) : Prop :=
  s.Alike h s' ∧ s.SameKeys container s'

theorem Call.handler?_of_isOf {c : Call} {h : Handler} (hc : ∀ r, c ≠ .receipt r)
    (he : (Effect.call c).isOf h) : c.handler? = some h := by
  rcases c with c | ⟨kind, c⟩ | r
  · simp_all [Effect.isOf, handler?]
  · simp_all [Effect.isOf, handler?]
  · exact absurd rfl (hc r)

variable (hremote : plan.remote = Remote.combine machine desk)
include hremote

/-- A restore is in tandem with itself where its sessions are alike for a handler. -/
theorem Plan.tandem_alike (h : Handler) :
    plan.Tandem plan (fun e => e.isOf h) (Session.Alike h) fun ks ks' => ks.find? = ks'.find? where
  location := rfl
  onCollision := rfl
  answer _ _ _ hc he hs := (hs.ask hremote (Call.handler?_of_isOf hc he)).1
  perform e _ _ _ hs := hs.perform hremote e
  alike := Keys.alike_find
  keys _ _ _ _ _ _ hs := { hs with }

theorem Plan.enterFolder_together (c : Collection) :
    Restoring.Together (Session.Alike .drive) (plan.enterFolder c) :=
  (Plan.tandem_alike hremote .drive).enterFolder rfl rfl (fun _ he => he)
    (fun _ _ hs => ⟨hs.folders rfl, hs.metadata rfl, hs.permissionIds rfl⟩) c

theorem Plan.restoreFile_lockstep (c : Collection) (address : DriveAddress) (folder : String)
    (file : DriveFile) :
    Restoring.Lockstep (Session.AlikeAt .drive folder) (Session.Alike .drive) Eq
      (plan.restoreFile c address folder file) (plan.restoreFile c address folder file) :=
  ((Plan.tandem_alike hremote .drive).restoreFile rfl rfl (fun _ he => he)
    (fun _ _ hs => ⟨hs.folders rfl, hs.metadata rfl, hs.permissionIds rfl⟩) c address folder
    file).of_imp fun _ _ hs => ⟨hs.1, hs.2.knowKeys⟩

section Items

variable {kind : ItemKind}

theorem Plan.containerFor_together (path : BackupPath) :
    Restoring.Together (Session.Alike (.items kind)) (plan.containerFor kind path) := by
  refine (Plan.tandem_alike hremote (.items kind)).containerFor
    (fun _ he => Effect.isOf_items (Or.inl he)) ?_
  rintro s s' hs ⟨_, owner, name⟩ rfl
  refine hs.containers _ ?_
  cases kind <;> rfl

theorem Plan.restoreItem_lockstep (c : Collection) (container : String) (entry : Entry) :
    Restoring.Lockstep (Session.AlikeAt (.items kind) container) (Session.Alike (.items kind)) Eq
      (plan.restoreItem kind c container entry) (plan.restoreItem kind c container entry) :=
  ((Plan.tandem_alike hremote (.items kind)).restoreItem rfl (fun _ he => he) c container
    entry).of_imp fun _ _ hs => ⟨hs.1, hs.2.knowKeys⟩

end Items

end TenantRestore
