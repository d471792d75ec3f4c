/-
# Two restores in tandem

Two restores that start a step in related sessions go through it in lockstep: they end it in
related sessions, with related results or in the same fault.  `Restoring.Lockstep P R Q x x'`
says so of the steps `x` and `x'`, for sessions related by `P` at the start and by `R` at the
end, and results related by `Q`.

Which restores these are, and how their sessions are related, is left open.  They are in tandem,
`Plan.Tandem`, if the calls they make are answered alike in related sessions, and if the same
effect leads from related sessions to related ones; only the effects a step has are asked for.
The keys of containers may be related more loosely than by being the same.  From this every step
is shown to go in lockstep, as far as it finds the same in what both know.
-/
import TenantRestore.Proofs.Course

namespace TenantRestore

variable {σ α β : Type} {P R : Session σ → Session σ → Prop}

/-! ## Steps in lockstep -/

/-- Two results, or the same fault twice. -/
def Agree (Q : α → α → Prop) : Except Fault α → Except Fault α → Prop
  | .ok a, .ok a' => Q a a'
  | .error f, .error f' => f = f'
  | _, _ => False

/-- Steps without a fault of their own, in lockstep. -/
def Steps.Lockstep (P R : Session σ → Session σ → Prop) (Q : α → α → Prop)
    (x x' : Steps σ α) : Prop :=
  ∀ s s', P s s' → Q (x s).1 (x' s').1 ∧ R (x s).2 (x' s').2

/-- Steps in lockstep. -/
def Restoring.Lockstep (P R : Session σ → Session σ → Prop) (Q : α → α → Prop)
    (x x' : Restoring σ α) : Prop :=
  ∀ s s', P s s' → Agree Q (x.run s).1 (x'.run s').1 ∧ R (x.run s).2 (x'.run s').2

/-- Two steps without a fault of their own that have the same result in related sessions, and
keep them related. -/
abbrev Steps.Twin (R : Session σ → Session σ → Prop) (x x' : Steps σ α) : Prop :=
  Steps.Lockstep R R Eq x x'

/-- Two steps that have the same result or fault in related sessions, and keep them related. -/
abbrev Restoring.Twin (R : Session σ → Session σ → Prop) (x x' : Restoring σ α) : Prop :=
  Restoring.Lockstep R R Eq x x'

/-- A step that keeps sessions related and has the same result in them. -/
abbrev Steps.Together (R : Session σ → Session σ → Prop) (x : Steps σ α) : Prop :=
  Steps.Twin R x x

/-- A step that keeps sessions related and has the same result or fault in them. -/
abbrev Restoring.Together (R : Session σ → Session σ → Prop) (x : Restoring σ α) : Prop :=
  Restoring.Twin R x x

theorem Agree.eq {r r' : Except Fault α} (h : Agree Eq r r') : r = r' := by
  rcases r with f | a <;> rcases r' with f' | a'
  · exact congrArg Except.error h
  · exact h.elim
  · exact h.elim
  · exact congrArg Except.ok h

theorem Agree.refl (r : Except Fault α) : Agree Eq r r := by
  cases r <;> rfl

namespace Steps

theorem Lockstep.bind {x x' : Steps σ α} {f f' : α → Steps σ β} {Q : α → α → Prop}
    {Q' : β → β → Prop} (hx : Lockstep P R Q x x')
    (hf : ∀ a a', Q a a' → Lockstep R R Q' (f a) (f' a')) :
    Lockstep P R Q' (x >>= f) (x' >>= f') := by
  intro s s' hs
  obtain ⟨hQ, hR⟩ := hx s s' hs
  exact hf _ _ hQ _ _ hR

theorem Twin.bind {x x' : Steps σ α} {f f' : α → Steps σ β} (hx : Twin R x x')
    (hf : ∀ a, Twin R (f a) (f' a)) : Twin R (x >>= f) (x' >>= f') := by
  refine Lockstep.bind hx ?_
  rintro a _ rfl
  exact hf a

theorem Together.pure (a : α) : Together R (Pure.pure a : Steps σ α) :=
  fun _ _ hs => ⟨rfl, hs⟩

end Steps

namespace Restoring

/-- Where the first of two steps ends in a fault, its sessions have to be related like those
after both. -/
theorem Lockstep.bind {M : Session σ → Session σ → Prop} {x x' : Restoring σ α}
    {f f' : α → Restoring σ β} {Q : α → α → Prop} {Q' : β → β → Prop}
    (hx : Lockstep P M Q x x') (hM : ∀ s s', M s s' → R s s')
    (hf : ∀ a a', Q a a' → Lockstep M R Q' (f a) (f' a')) :
    Lockstep P R Q' (x >>= f) (x' >>= f') := by
  intro s s' hs
  have h := hx s s' hs
  rcases hr : x.run s with ⟨e | a, t⟩ <;> rcases hr' : x'.run s' with ⟨e' | a', t'⟩ <;>
    rw [hr, hr'] at h
  · rw [run_bind_error hr, run_bind_error hr']
    exact ⟨h.1, hM t t' h.2⟩
  · exact h.1.elim
  · exact h.1.elim
  · rw [run_bind_ok hr, run_bind_ok hr']
    exact hf a a' h.1 t t' h.2

theorem Lockstep.always {x x' : Steps σ α} {Q : α → α → Prop} (h : Steps.Lockstep P R Q x x') :
    Lockstep P R Q (always x) (always x') :=
  h

theorem Lockstep.of_imp {P' : Session σ → Session σ → Prop} {x x' : Restoring σ α}
    {Q : α → α → Prop} (h : Lockstep P R Q x x') (hP : ∀ s s', P' s s' → P s s') :
    Lockstep P' R Q x x' :=
  fun s s' hs => h s s' (hP s s' hs)

/-- Steps in lockstep that have the same result end alike. -/
theorem Lockstep.run {x x' : Restoring σ α} (h : Lockstep P R Eq x x') {s s' : Session σ}
    (hs : P s s') : ∃ r t t', x.run s = (r, t) ∧ x'.run s' = (r, t') ∧ R t t' := by
  obtain ⟨hsame, hR⟩ := h s s' hs
  exact ⟨(x.run s).1, (x.run s).2, (x'.run s').2, rfl, Prod.ext hsame.eq.symm rfl, hR⟩

namespace Twin

theorem bind {x x' : Restoring σ α} {f f' : α → Restoring σ β} (hx : Twin R x x')
    (hf : ∀ a, Twin R (f a) (f' a)) : Twin R (x >>= f) (x' >>= f') := by
  refine Lockstep.bind hx (fun _ _ hs => hs) ?_
  rintro a _ rfl
  exact hf a

theorem need {ask ask' : Steps σ (Except Failure α)} (h : Steps.Twin R ask ask') :
    Twin R (Restoring.need ask) (Restoring.need ask') := by
  intro s s' hs
  obtain ⟨hanswer, hR⟩ := h s s' hs
  rw [run_need, run_need, hanswer]
  exact ⟨Agree.refl _, hR⟩

/-- A step whose fault is caught has the same end in related sessions. -/
theorem caught {x x' : Restoring σ α} (h : Twin R x x') : Steps.Twin R x.run x'.run :=
  fun s s' hs => ⟨(h s s' hs).1.eq, (h s s' hs).2⟩

theorem ite {p : Prop} [Decidable p] {x x' y y' : Restoring σ α} (hx : Twin R x x')
    (hy : Twin R y y') : Twin R (if p then x else y) (if p then x' else y') := by
  split
  · exact hx
  · exact hy

/-- Steps that first look at the session are twins if they are once they have seen it. -/
theorem get_bind {f f' : Session σ → Restoring σ α} (h : ∀ s s', R s s' → Twin R (f s) (f' s')) :
    Twin R (get >>= f) (get >>= f') :=
  fun s s' hs => h s s' hs s s' hs

end Twin

theorem Together.pure (a : α) : Together R (Pure.pure a : Restoring σ α) :=
  fun _ _ hs => ⟨rfl, hs⟩

theorem Together.throw (f : Fault) : Together R (MonadExcept.throw f : Restoring σ α) :=
  fun _ _ hs => ⟨rfl, hs⟩

theorem Together.ofExcept (r : Except Fault α) : Together R (ofExcept r) :=
  fun _ _ hs => ⟨Agree.refl r, hs⟩

end Restoring

/-! ## Keys -/

/-- Keys that are related have the same ids under all keys, and stay related when they get the
same id under a key. -/
structure Keys.Alike (K : Keys → Keys → Prop) : Prop where
  refl : ∀ ks, K ks ks
  find : ∀ ks ks', K ks ks' → ks.find? = ks'.find?
  insert : ∀ ks ks' key id, K ks ks' → K (ks.insert key id) (ks'.insert key id)

theorem Keys.Alike.contains {K : Keys → Keys → Prop} (h : Keys.Alike K) {ks ks' : Keys}
    (hks : K ks ks') (key : String) : ks.contains key = ks'.contains key := by
  rw [Table.contains, Table.contains, h.find ks ks' hks]

theorem Keys.alike_eq : Keys.Alike Eq where
  refl _ := rfl
  find := by rintro _ _ rfl; rfl
  insert := by rintro _ _ _ _ rfl; rfl

theorem Keys.alike_find : Keys.Alike fun ks ks' => ks.find? = ks'.find? where
  refl _ := rfl
  find _ _ h := h
  insert ks ks' key id h := by
    funext q
    simp only [Table.find?_insert, h]

/-- Two sessions know related keys of a container, or neither knows any. -/
def Session.KnowKeys (K : Keys → Keys → Prop) (container : String) (s s' : Session σ) : Prop :=
  Option.Rel K (s.registry.keys.find? container) (s'.registry.keys.find? container)

theorem Session.KnowKeys.of_eq {K : Keys → Keys → Prop} (hK : Keys.Alike K) {s s' : Session σ}
    (h : s.registry.keys = s'.registry.keys) (container : String) : s.KnowKeys K container s' := by
  rw [KnowKeys, h]
  cases s'.registry.keys.find? container with
  | none => exact .none
  | some ks => exact .some (hK.refl ks)

/-- Settling an item goes in lockstep if creating and deleting do. -/
theorem settle_lockstep {K : Keys → Keys → Prop} (hK : Keys.Alike K) {policy : CollisionPolicy}
    {key : String} {ks ks' : Keys} (hks : K ks ks')
    {create create' : Steps σ (Except Failure String)}
    {delete delete' : String → Steps σ (Except Failure Unit)}
    (hcreate : Steps.Twin R create create')
    (hdelete : ∀ old, Steps.Twin R (delete old) (delete' old)) :
    Steps.Lockstep R R (fun r r' => r.1 = r'.1 ∧ K r.2 r'.2)
      (policy.settle key ks create delete) (policy.settle key ks' create' delete') := by
  have hafter (new : String) := hK.insert ks ks' key new hks
  unfold CollisionPolicy.settle
  rw [hK.contains hks, hK.find ks ks' hks]
  split
  · exact fun s s' hs => ⟨⟨rfl, hks⟩, hs⟩
  refine Steps.Lockstep.bind hcreate ?_
  rintro (f | new) _ rfl
  · exact fun s s' hs => ⟨⟨rfl, hks⟩, hs⟩
  dsimp only
  split
  · refine Steps.Lockstep.bind (hdelete _) ?_
    rintro (f | ⟨⟩) _ rfl <;> exact fun s s' hs => ⟨⟨rfl, hafter new⟩, hs⟩
  · exact fun s s' hs => ⟨⟨rfl, hafter new⟩, hs⟩

/-! ## Restores in tandem -/

/-- Two restores in tandem, as far as the effects with `A` go: their calls are answered alike in
sessions related by `R`, and effects keep these related.  What a receipt is answered with does
not matter. -/
structure Plan.Tandem (plan plan' : Plan σ) (A : Effect → Prop)
    (R : Session σ → Session σ → Prop) (K : Keys → Keys → Prop) : Prop where
  location : plan.options.location = plan'.options.location
  onCollision : plan.options.onCollision = plan'.options.onCollision
  answer : ∀ c s s', (∀ r, c ≠ .receipt r) → A (.call c) → R s s' →
    (plan.ask c s).1 = (plan'.ask c s').1
  perform : ∀ e s s', A e → R s s' → R (plan.perform e s) (plan'.perform e s')
  alike : Keys.Alike K
  keys : ∀ container ks ks' s s', K ks ks' → R s s' →
    R (plan.perform (.keys container ks) s) (plan'.perform (.keys container ks') s')

namespace Plan.Tandem

variable {plan plan' : Plan σ} {A : Effect → Prop} {K : Keys → Keys → Prop}

/-! ### Elementary steps -/

theorem destination (h : plan.Tandem plan' A R K) (address : DriveAddress) :
    plan.options.destination address = plan'.options.destination address := by
  simp only [Options.destination, h.location]

theorem ask (h : plan.Tandem plan' A R K) {c : Call} (hc : ∀ r, c ≠ .receipt r)
    (hA : A (.call c)) : Steps.Twin R (plan.ask c) (plan'.ask c) :=
  fun s s' hs => ⟨h.answer c s s' hc hA hs, h.perform (.call c) s s' hA hs⟩

theorem askDrive (h : plan.Tandem plan' A R K) {c : DriveCall} (hA : A (.call (.drive c))) :
    Steps.Twin R (plan.askDrive c) (plan'.askDrive c) :=
  h.ask nofun hA

theorem askItems (h : plan.Tandem plan' A R K) {kind : ItemKind} {c : ItemCall}
    (hA : A (.call (.items kind c))) :
    Steps.Twin R (plan.askItems kind c) (plan'.askItems kind c) :=
  h.ask nofun hA

/-- An effect without a result. -/
theorem effect (h : plan.Tandem plan' A R K) {e : Effect} (hA : A e) :
    Steps.Twin R (fun s => ((), plan.perform e s)) (fun s => ((), plan'.perform e s)) :=
  fun s s' hs => ⟨rfl, h.perform e s s' hA hs⟩

theorem tally (h : plan.Tandem plan' A R K) {f : Tally → Tally} (hA : A (.tally f)) :
    Restoring.Together R (Restoring.always (tally f)) :=
  Restoring.Lockstep.always (h.effect hA)

theorem note (h : plan.Tandem plan' A R K) {f : Fault} (hA : A (.note f)) :
    Restoring.Twin R (Restoring.always (plan.note f)) (Restoring.always (plan'.note f)) :=
  Restoring.Lockstep.always (h.effect hA)

theorem handOut (h : plan.Tandem plan' A R K) {r : Receipt} (hA : A (.call (.receipt r))) :
    Restoring.Twin R (Restoring.always (plan.handOut r)) (Restoring.always (plan'.handOut r)) :=
  Restoring.Lockstep.always (h.effect hA)

theorem rememberMetadata (h : plan.Tandem plan' A R K) {path : BackupPath} {m : Metadata}
    (hA : A (.metadata path.text m)) :
    Restoring.Together R (Restoring.always (rememberMetadata path m)) :=
  Restoring.Lockstep.always (h.effect hA)

/-! ### Storing under a collision policy -/

theorem knownKeys (h : plan.Tandem plan' A R K) {container : String}
    {ask ask' : Steps σ (Except Failure Keys)} (hask : Steps.Twin R ask ask') :
    Restoring.Lockstep (fun s s' => R s s' ∧ s.KnowKeys K container s') R K
      (knownKeys container ask) (knownKeys container ask') := by
  rintro s s' ⟨hs, hkeys⟩
  unfold Session.KnowKeys at hkeys
  unfold TenantRestore.knownKeys
  rw [Restoring.run_bind_ok (Restoring.run_get s), Restoring.run_bind_ok (Restoring.run_get s')]
  rcases hfind : s.registry.keys.find? container with _ | ks <;>
    rcases hfind' : s'.registry.keys.find? container with _ | ks' <;> rw [hfind, hfind'] at hkeys
  · -- neither knows the keys, so both list them
    refine Restoring.Lockstep.bind (Restoring.Twin.need hask) (fun _ _ hs => hs) ?_ s s' hs
    rintro ks _ rfl t t' ht
    exact ⟨h.alike.refl ks, h.keys container ks ks t t' (h.alike.refl ks) ht⟩
  · cases hkeys
  · cases hkeys
  · cases hkeys with
    | some hks => exact ⟨hks, hs⟩

theorem place (h : plan.Tandem plan' A R K) {container key : String} {ks ks' : Keys}
    (hks : K ks ks') {create create' : Steps σ (Except Failure String)}
    {delete delete' : String → Steps σ (Except Failure Unit)}
    (hcreate : Steps.Twin R create create')
    (hdelete : ∀ old, Steps.Twin R (delete old) (delete' old)) :
    Steps.Twin R (plan.place container key ks create delete)
      (plan'.place container key ks' create' delete') := by
  unfold Plan.place
  rw [h.onCollision]
  refine Steps.Lockstep.bind (settle_lockstep h.alike hks hcreate hdelete) ?_
  rintro ⟨result, after⟩ ⟨_, after'⟩ ⟨rfl, hafter⟩ s s' hs
  exact ⟨rfl, h.keys container after after' s s' hafter hs⟩

/-! ### Folders -/

section Folders

variable (h : plan.Tandem plan' A R K) (hA : ∀ e, e.isFolder → A e)
  (hfolders : ∀ s s', R s s' → s.registry.folders = s'.registry.folders)
include h hA

theorem subfolder (drive parent name : String) :
    Restoring.Twin R (plan.subfolder drive parent name) (plan'.subfolder drive parent name) := by
  refine Restoring.Twin.bind (Restoring.Twin.need (h.askDrive (hA _ rfl))) fun found => ?_
  cases found with
  | some folder => exact Restoring.Together.pure _
  | none =>
    exact Restoring.Twin.bind (Restoring.Twin.need (h.askDrive (hA _ rfl))) fun _ =>
      Restoring.Together.pure _

include hfolders

theorem rootFolder (drive : String) :
    Restoring.Twin R (plan.rootFolder drive) (plan'.rootFolder drive) := by
  refine Restoring.Twin.get_bind fun s s' hs => ?_
  rw [hfolders s s' hs]
  split
  · exact Restoring.Together.pure _
  · refine Restoring.Twin.bind (Restoring.Twin.need (h.askDrive (hA _ rfl))) fun root => ?_
    refine Restoring.Twin.bind ?_ fun _ => Restoring.Together.pure _
    exact Restoring.Lockstep.always (h.effect (hA (.folder (drive, []) root.id) rfl))

theorem descend (drive : String) (place : List String) (parent : String) (names : List String) :
    Restoring.Twin R (plan.descend drive place parent names)
      (plan'.descend drive place parent names) := by
  induction names generalizing place parent with
  | nil => exact Restoring.Together.pure _
  | cons name names ih =>
    refine Restoring.Twin.get_bind fun s s' hs => ?_
    rw [hfolders s s' hs]
    split
    · exact ih _ _
    · refine Restoring.Twin.bind (h.subfolder hA drive parent name) fun id => ?_
      refine Restoring.Twin.bind ?_ fun _ => ih _ _
      exact Restoring.Lockstep.always (h.effect (hA (.folder (drive, place ++ [name]) id) rfl))

theorem destinationFolder (address : DriveAddress) :
    Restoring.Twin R (plan.destinationFolder address) (plan'.destinationFolder address) := by
  refine Restoring.Twin.get_bind fun s s' hs => ?_
  rw [hfolders s s' hs, h.destination]
  split
  · exact Restoring.Together.pure _
  · exact Restoring.Twin.bind (h.rootFolder hA hfolders address.drive) fun root =>
      h.descend hA hfolders address.drive [] root _

end Folders

/-! ### Files -/

/-- Files of the same name and content are uploaded in lockstep, whatever their metadata. -/
theorem uploadFile (h : plan.Tandem plan' A R K) (hA : ∀ e, e.isFile → A e)
    (hnote : ∀ f, A (.note f)) (drive folder : String) (file : DriveFile) (m : Metadata) :
    Restoring.Lockstep (fun s s' => R s s' ∧ s.KnowKeys K folder s') R Eq
      (plan.uploadFile drive folder file)
      (plan'.uploadFile drive folder { file with metadata := m }) := by
  refine Restoring.Lockstep.bind (h.knownKeys (h.askDrive (hA _ rfl))) (fun _ _ hs => hs) ?_
  intro ks ks' hks
  dsimp only
  rw [h.alike.contains hks, h.onCollision]
  refine Restoring.Twin.bind (Restoring.Lockstep.always
    (h.place hks (h.askDrive (hA _ rfl)) fun old => h.askDrive (hA _ rfl))) ?_
  rintro (fault | id)
  · dsimp only
    split
    · exact Restoring.Together.throw fault
    · exact Restoring.Twin.bind (h.note (hnote fault)) fun _ => Restoring.Together.pure _
  · refine Restoring.Twin.ite ?_ (Restoring.Together.pure _)
    refine Restoring.Twin.bind (Restoring.Lockstep.always
      (h.askDrive (c := .rename drive id file.name) (hA _ rfl))) ?_
    rintro (f | ⟨⟩)
    · exact Restoring.Twin.bind (h.note (hnote _)) fun _ => Restoring.Together.pure _
    · exact Restoring.Together.pure _

/-! ### Permissions -/

section Permissions

variable (h : plan.Tandem plan' A R K) (hA : ∀ e, e.isPermission → A e)
include h hA

theorem revokeAll (drive item : String) (ids : Table String String) (ps : List Permission) :
    Steps.Twin R (plan.updater.revokeAll drive item ids ps)
      (plan'.updater.revokeAll drive item ids ps) := by
  induction ps with
  | nil => exact Steps.Together.pure _
  | cons p ps ih =>
    unfold Updater.revokeAll
    cases ids.find? p.id with
    | none => exact Steps.Together.pure _
    | some id =>
      refine Steps.Twin.bind (h.askDrive (c := .revoke drive item id) (hA _ rfl)) ?_
      rintro (f | ⟨⟩)
      · exact Steps.Together.pure _
      · exact ih

theorem grantAll (drive item : String) (ids : Table String String) (ps : List Permission) :
    Steps.Twin R (plan.updater.grantAll drive item ids ps)
      (plan'.updater.grantAll drive item ids ps) := by
  induction ps generalizing ids with
  | nil => exact Steps.Together.pure _
  | cons p ps ih =>
    unfold Updater.grantAll
    cases p.invitation? with
    | none => exact ih ids
    | some invitation =>
      refine Steps.Twin.bind (h.askDrive (c := .grant drive item invitation) (hA _ rfl)) ?_
      rintro (f | _ | id)
      · exact Steps.Together.pure _
      · exact Steps.Together.pure _
      · exact ih _

theorem restore (drive item : String) (path : BackupPath) (current : Metadata)
    (known : Table String Metadata) (ids : Table String String) :
    Steps.Twin R (plan.updater.restore drive item path current known ids)
      (plan'.updater.restore drive item path current known ids) := by
  unfold Updater.restore
  split
  · exact Steps.Together.pure _
  cases inheritedMetadata known path with
  | error f => exact Steps.Together.pure _
  | ok above =>
    refine Steps.Twin.bind (h.revokeAll hA drive item ids _) ?_
    rintro (f | ⟨⟩)
    · exact Steps.Together.pure _
    · exact h.grantAll hA drive item ids _

theorem restorePermissions
    (hmetadata : ∀ s s', R s s' → s.registry.metadata = s'.registry.metadata)
    (hids : ∀ s s', R s s' → s.registry.permissionIds = s'.registry.permissionIds)
    (drive item : String) (path : BackupPath) (current : Metadata) :
    Restoring.Twin R (plan.restorePermissions drive item path current)
      (plan'.restorePermissions drive item path current) := by
  refine Restoring.Twin.get_bind fun s s' hs => ?_
  dsimp only
  rw [hmetadata s s' hs, hids s s' hs]
  refine Restoring.Twin.bind
    (Restoring.Lockstep.always (h.restore hA drive item path current _ _)) fun r => ?_
  refine Restoring.Twin.bind ?_ fun _ => Restoring.Together.ofExcept _
  exact Restoring.Lockstep.always (h.effect (hA (.permissionIds r.2) rfl))

end Permissions

/-! ### Items -/

section Items

variable {kind : ItemKind} (h : plan.Tandem plan' A R K)
include h

theorem containerFor {path : BackupPath} (hA : ∀ e, e.isItem kind → A e)
    (hcontainers : ∀ s s', R s s' → ∀ place, place.1 = kind.category →
      s.registry.containers.find? place = s'.registry.containers.find? place) :
    Restoring.Twin R (plan.containerFor kind path) (plan'.containerFor kind path) := by
  refine Restoring.Twin.get_bind fun s s' hs => ?_
  have hname : plan.options.containerName path = plan'.options.containerName path := by
    simp only [Options.containerName, h.location]
  rw [hname, hcontainers s s' hs (kind.category, path.owner, plan'.options.containerName path) rfl]
  split
  · exact Restoring.Together.pure _
  · refine Restoring.Twin.bind (Restoring.Twin.need (h.askItems (hA _ (by simp [Effect.isItem]))))
      fun (container : Container) => ?_
    refine Restoring.Twin.bind ?_ fun _ => Restoring.Together.pure _
    exact Restoring.Lockstep.always
      (h.effect (hA (.container _ container.id) (by simp [Effect.isItem])))

theorem createItem (hA : ∀ e, e.isItem kind → A e) (hnote : ∀ f, A (.note f))
    (container : String) (item : Item) :
    Restoring.Lockstep (fun s s' => R s s' ∧ s.KnowKeys K container s') R Eq
      (plan.createItem kind container item) (plan'.createItem kind container item) := by
  have hask (c : ItemCall) : Steps.Twin R (plan.askItems kind c) (plan'.askItems kind c) :=
    h.askItems (hA _ (by simp [Effect.isItem]))
  refine Restoring.Lockstep.bind (h.knownKeys (hask (.listKeys container)))
    (fun _ _ hs => hs) ?_
  intro ks ks' hks
  dsimp only
  rw [h.alike.contains hks, h.onCollision]
  refine Restoring.Twin.bind (Restoring.Lockstep.always
    (h.place hks (hask (.create container item)) fun old => hask (.delete container old))) ?_
  rintro (fault | id)
  · dsimp only
    split
    · exact Restoring.Together.throw fault
    · exact Restoring.Twin.bind (h.note (hnote fault)) fun _ => Restoring.Together.pure _
  · exact Restoring.Together.pure _

end Items

end Plan.Tandem

/-! ## Restores of the same task -/

/-- Two sessions that know the same of drives. -/
structure Session.KnowDrives (s s' : Session σ) : Prop where
  folders : s.registry.folders = s'.registry.folders
  metadata : s.registry.metadata = s'.registry.metadata
  permissionIds : s.registry.permissionIds = s'.registry.permissionIds

namespace Plan.Tandem

variable {plan plan' : Plan σ} {A : Effect → Prop} {K : Keys → Keys → Prop}
  (h : plan.Tandem plan' A R K) (hoptions : plan.options = plan'.options)
include h hoptions

section Drive

variable (hversion : plan.version = plan'.version) (hA : ∀ e, e.isOf .drive → A e)
  (hknow : ∀ s s', R s s' → s.KnowDrives s')
include hversion hA hknow

theorem enterFolder (c : Collection) :
    Restoring.Twin R (plan.enterFolder c) (plan'.enterFolder c) := by
  have hfolderMetadata : plan.folderMetadata = plan'.folderMetadata := by
    funext c address known
    simp only [Plan.folderMetadata, hoptions, hversion]
  refine Restoring.Twin.bind (Restoring.Together.ofExcept _) fun address => ?_
  refine Restoring.Twin.get_bind fun s s' hs => ?_
  rw [(hknow s s' hs).metadata, hfolderMetadata, hoptions]
  refine Restoring.Twin.bind (Restoring.Together.ofExcept _) fun m => ?_
  refine Restoring.Twin.bind (h.destinationFolder
    (fun e he => hA e (Effect.isOf_drive (by simp [he])))
    (fun s s' hs => (hknow s s' hs).folders) address) fun folder => ?_
  have hend : Restoring.Together R (do
      Restoring.always (TenantRestore.rememberMetadata c.path m)
      return (address, folder)) :=
    Restoring.Twin.bind (h.rememberMetadata (hA _ rfl)) fun _ => Restoring.Together.pure _
  refine Restoring.Twin.ite ?_ hend
  refine Restoring.Twin.bind (Restoring.Lockstep.always
    (h.restorePermissions (fun e he => hA e (Effect.isOf_drive (by simp [he])))
      (fun s s' hs => (hknow s s' hs).metadata) (fun s s' hs => (hknow s s' hs).permissionIds)
      address.drive folder c.path m).caught) ?_
  rintro (f | ⟨⟩)
  · exact Restoring.Twin.bind (h.note (hA _ rfl)) fun _ => hend
  · exact hend

theorem restoreFile (c : Collection) (address : DriveAddress) (folder : String)
    (file : DriveFile) :
    Restoring.Lockstep (fun s s' => R s s' ∧ s.KnowKeys K folder s') R Eq
      (plan.restoreFile c address folder file) (plan'.restoreFile c address folder file) := by
  unfold Plan.restoreFile
  rw [hoptions, hversion]
  refine Restoring.Lockstep.bind (M := fun s s' => R s s' ∧ s.KnowKeys K folder s') (Q := Eq)
    (fun s s' hs => ⟨rfl, h.perform (.tally Tally.see) s s' (hA _ rfl) hs.1, hs.2⟩)
    (fun _ _ hs => hs.1) fun _ _ _ => ?_
  refine Restoring.Lockstep.bind (h.uploadFile
    (fun e he => hA e (Effect.isOf_drive (by simp [he]))) (fun _ => hA _ rfl) address.drive folder
    file file.metadata) (fun _ _ hs => hs) ?_
  rintro ⟨id, updated⟩ _ rfl
  refine Restoring.Twin.bind (h.tally (hA _ rfl)) fun _ => ?_
  refine Restoring.Twin.bind (h.handOut (hA _ rfl)) fun _ => ?_
  refine Restoring.Twin.ite ?_ (Restoring.Together.pure _)
  exact Restoring.Twin.bind (Restoring.Together.ofExcept _) fun path =>
    h.restorePermissions (fun e he => hA e (Effect.isOf_drive (by simp [he])))
      (fun s s' hs => (hknow s s' hs).metadata) (fun s s' hs => (hknow s s' hs).permissionIds)
      address.drive id path file.metadata

end Drive

theorem restoreItem {kind : ItemKind} (hA : ∀ e, e.isOf (.items kind) → A e) (c : Collection)
    (container : String) (entry : Entry) :
    Restoring.Lockstep (fun s s' => R s s' ∧ s.KnowKeys K container s') R Eq
      (plan.restoreItem kind c container entry) (plan'.restoreItem kind c container entry) := by
  have hitem : ∀ e, e.isItem kind → A e := fun e he => hA e (Effect.isOf_items (Or.inl he))
  unfold Plan.restoreItem
  rw [hoptions]
  refine Restoring.Lockstep.bind (M := fun s s' => R s s' ∧ s.KnowKeys K container s') (Q := Eq)
    (fun s s' hs => ⟨rfl, h.perform (.tally Tally.see) s s' (hA _ rfl) hs.1, hs.2⟩)
    (fun _ _ hs => hs.1) fun _ _ _ => ?_
  refine Restoring.Lockstep.bind (M := fun s s' => R s s' ∧ s.KnowKeys K container s')
    (Restoring.Together.ofExcept _) (fun _ _ hs => hs.1) ?_
  rintro stored _ rfl
  refine Restoring.Lockstep.bind (h.createItem hitem (fun _ => hA _ rfl) container _)
    (fun _ _ hs => hs) ?_
  rintro ⟨id, replaces⟩ _ rfl
  have hend (r : Receipt) : Restoring.Twin R
      (do
        Restoring.always (TenantRestore.tally fun t => t.succeed entry.data.size)
        Restoring.always (plan.handOut r))
      (do
        Restoring.always (TenantRestore.tally fun t => t.succeed entry.data.size)
        Restoring.always (plan'.handOut r)) :=
    Restoring.Twin.bind (h.tally (hA _ rfl)) fun _ => h.handOut (hA _ rfl)
  refine Restoring.Twin.ite ?_ (hend _)
  exact Restoring.Twin.bind
    (Restoring.Twin.need (h.askItems (hitem _ (by simp [Effect.isItem])))) fun _ => hend _

end Plan.Tandem

end TenantRestore
