/-
# The calls that restore permissions

Restoring the permissions of an item attempts some planned calls one after the other, until
one of them does not succeed: first those that take permissions back, up to the first one whose
new id is unknown, and then those that grant permissions.  All other steps of a restore make no
such calls, and leave alone what the restore knows about folders and permissions.
-/
import TenantRestore.Proofs.Course
import TenantRestore.Proofs.Permission.Agreement
import TenantRestore.Proofs.Permission.Update

namespace TenantRestore

variable {σ : Type} {plan : Plan σ}

/-! ## Planned calls and exchanges -/

namespace Permission

/-- Two permissions grant the same: they have an identifier in common, are equal in all those they
have in common, and have the same roles. -/
def GrantsSame (p q : Permission) : Prop :=
  p.Comparable q ∧ p.Concurs q ∧ ∀ r, r ∈ p.roles ↔ r ∈ q.roles

instance : DecidableRel GrantsSame := fun _ _ => decidable_of_iff _ agrees_iff_comparable

/-- The permissions of a list to which there is none in another one that grants the same. -/
def unmatched (ps others : List Permission) : List Permission :=
  ps.filter fun p => ∀ q ∈ others, ¬ p.GrantsSame q

theorem unmatched_eq_without (ps others : List Permission) :
    unmatched ps others = without ps others := by
  refine List.filter_congr fun p _ => ?_
  have hsame (q : Permission) : p.GrantsSame q ↔ p.agrees q := agrees_iff_comparable.symm
  rw [Bool.eq_iff_iff]
  simp [hsame]

end Permission

/-- The calls that take permissions back by their new ids and then make some other calls; there
are no more calls from the first permission on that has no new id. -/
def revokeCalls (ids : Table String String) (drive item : String) (later : List DriveCall) :
    List Permission → List DriveCall
  | [] => later
  | p :: ps =>
    match ids.find? p.id with
    | none => []
    | some id => .revoke drive item id :: revokeCalls ids drive item later ps

/-- The calls that grant permissions, as far as they can be granted. -/
def grantCalls (drive item : String) (ps : List Permission) : List DriveCall :=
  (ps.filter fun p => p.IsGrantable).map fun p => .grant drive item p.invitation

/-- The calls that change the permissions of an item from those of the folder above it to its
own; there are none if it shares them. -/
def plannedCalls (ids : Table String String) (drive item : String) (above : List Permission)
    (current : Metadata) : List DriveCall :=
  if current.sharing = .inherited then []
  else
    revokeCalls ids drive item
      (grantCalls drive item (Permission.unmatched current.permissions above))
      (Permission.unmatched above current.permissions)

/-- Whether a call concerns a permission. -/
def Call.isPermission : Call → Bool
  | .drive c => c.isPermission
  | _ => false

theorem Effect.isPermission_call (c : Call) : (Effect.call c).isPermission = c.isPermission := by
  cases c <;> rfl

/-- Whether a call succeeded; a permission is only granted if its id comes back. -/
def Exchange.succeeds : Exchange → Bool
  | ⟨.drive (.grant _ _ _), .ok (some _)⟩ => true
  | ⟨.drive (.grant _ _ _), _⟩ => false
  | ⟨_, .ok _⟩ => true
  | ⟨_, .error _⟩ => false

theorem Exchange.succeeds_error (call : Call) (f : Failure) :
    (⟨call, .error f⟩ : Exchange).succeeds = false := by
  rcases call with c | _ | _
  · cases c <;> rfl
  · rfl
  · rfl

/-- The exchanges that come about when planned calls are made one after the other, until one
does not succeed. -/
inductive Attempted : List DriveCall → List Exchange → Prop
  /-- No call is left. -/
  | done : Attempted [] []
  /-- The next call succeeds. -/
  | next {call : DriveCall} {calls : List DriveCall} {x : Exchange} {xs : List Exchange}
    (hcall : x.call = .drive call) (hx : x.succeeds) (rest : Attempted calls xs) :
    Attempted (call :: calls) (x :: xs)
  /-- The next call does not succeed. -/
  | last {call : DriveCall} {calls : List DriveCall} {x : Exchange}
    (hcall : x.call = .drive call) (hx : x.succeeds = false) : Attempted (call :: calls) [x]

theorem isPermission_of_mem_plannedCalls {ids : Table String String} {drive item : String}
    {above : List Permission} {current : Metadata} {call : DriveCall}
    (h : call ∈ plannedCalls ids drive item above current) : call.isPermission := by
  unfold plannedCalls at h
  split at h
  · cases h
  · have hlater : ∀ call ∈ grantCalls drive item (Permission.unmatched current.permissions above),
        call.isPermission := by
      intro call h
      obtain ⟨p, -, rfl⟩ := List.mem_map.1 h
      rfl
    generalize grantCalls drive item _ = later, Permission.unmatched above _ = removed at h hlater
    induction removed with
    | nil => exact hlater call h
    | cons p ps ih =>
      rw [revokeCalls] at h
      split at h
      · cases h
      · rcases List.mem_cons.1 h with rfl | h
        · rfl
        · exact ih h

/-- Only planned calls are attempted. -/
theorem Attempted.mem {calls : List DriveCall} {made : List Exchange} (h : Attempted calls made)
    {x : Exchange} (hx : x ∈ made) : ∃ call ∈ calls, x.call = .drive call := by
  induction h with
  | done => cases hx
  | next hcall _ _ ih =>
    rcases List.mem_cons.1 hx with rfl | hx
    · exact ⟨_, List.mem_cons_self .., hcall⟩
    · obtain ⟨call, hmem, hc⟩ := ih hx
      exact ⟨call, List.mem_cons_of_mem _ hmem, hc⟩
  | last hcall _ =>
    rw [List.mem_singleton.1 hx]
    exact ⟨_, List.mem_cons_self .., hcall⟩

/-! ## Steps that restore permissions -/

theorem Plan.trace_ask {c : Call} {s t : Session σ} {r : Except Failure c.Answer}
    (h : plan.ask c s = (r, t)) : t.trace = s.trace ++ [⟨c, r⟩] := by
  cases h
  rfl

theorem Plan.registry_ask {c : Call} {s t : Session σ} {r : Except Failure c.Answer}
    (h : plan.ask c s = (r, t)) : t.registry = s.registry := by
  cases h
  rfl

/-- The trace of a session shows all calls by which permissions are granted and taken back. -/
theorem Plan.logs_trace (plan : Plan σ) : plan.updater.Logs Session.trace where
  revoke _ _ _ _ := rfl
  grant _ _ _ _ := rfl

/-- Nothing is remembered while permissions are granted and taken back. -/
theorem Updater.Exchanges.registry {s t : Session σ} {made : List Exchange}
    (h : plan.updater.Exchanges s made t) : t.registry = s.registry := by
  induction h with
  | done => rfl
  | revoke hask _ ih => exact ih.trans (Plan.registry_ask hask)
  | grant hask _ ih => exact ih.trans (Plan.registry_ask hask)

/-- Restoring permissions is restoring them by calls and recording the new ids. -/
theorem Plan.restorePermissions_run {drive item : String} {s : Session σ} (path : BackupPath)
    (current : Metadata) :
    (plan.restorePermissions drive item path current).run s =
      let r := plan.updater.restore drive item path current s.registry.metadata
        s.registry.permissionIds s
      (r.1.1, plan.perform (.permissionIds r.1.2) r.2) := by
  unfold Plan.restorePermissions
  rw [Restoring.run_bind_ok (Restoring.run_get s)]
  rfl

/-! ## Attempting the planned calls -/

/-- Some calls that succeed may be made before others. -/
theorem Attempted.after {α : Type} {call : α → DriveCall} {x : α → Exchange}
    (hcall : ∀ a, (x a).call = .drive (call a)) (hx : ∀ a, (x a).succeeds)
    {calls : List DriveCall} {made : List Exchange} (h : Attempted calls made) (as : List α) :
    Attempted (as.map call ++ calls) (as.map x ++ made) := by
  induction as with
  | nil => exact h
  | cons a as ih => exact .next (hcall a) (hx a) ih

/-- Calls that all succeed are all made. -/
theorem Attempted.all {α : Type} {call : α → DriveCall} {x : α → Exchange}
    (hcall : ∀ a, (x a).call = .drive (call a)) (hx : ∀ a, (x a).succeeds) (as : List α) :
    Attempted (as.map call) (as.map x) := by
  simpa using Attempted.done.after hcall hx as

section Attempts

variable {drive item : String} {ids : Table String String} {ps : List Permission}
  {made made' : List Exchange} {later : List DriveCall}

theorem revokeCalls_append {taken : List (Permission × String)}
    (hids : ∀ g ∈ taken, ids.find? g.1.id = some g.2) :
    revokeCalls ids drive item later (taken.map Prod.fst ++ ps) =
      taken.map (fun g => .revoke drive item g.2) ++ revokeCalls ids drive item later ps := by
  induction taken with
  | nil => rfl
  | cons g taken ih =>
    obtain ⟨hg, hrest⟩ := List.forall_mem_cons.1 hids
    simp only [List.map_cons, List.cons_append, revokeCalls, hg, ih hrest]

/-- When all permissions have been taken back, other calls follow. -/
theorem TakesBack.attempted (h : TakesBack drive item ids ps made (.ok ()))
    (hlater : Attempted later made') :
    Attempted (revokeCalls ids drive item later ps) (made ++ made') := by
  cases h with
  | all taken hids =>
    rw [← List.append_nil (taken.map Prod.fst), revokeCalls_append hids]
    exact hlater.after (fun _ => rfl) (fun _ => rfl) taken

/-- When a permission is not taken back, no other calls follow. -/
theorem TakesBack.attempted_of_error {f : Fault} (h : TakesBack drive item ids ps made (.error f))
    (later : List DriveCall) : Attempted (revokeCalls ids drive item later ps) made := by
  cases h with
  | unknown taken p rest hids hp =>
    rw [revokeCalls_append hids]
    simp only [revokeCalls, hp, List.append_nil]
    exact .all (fun _ => rfl) (fun _ => rfl) taken
  | refused taken p rest id f hids hp =>
    rw [revokeCalls_append hids]
    simp only [revokeCalls, hp]
    exact (Attempted.last rfl rfl).after (fun _ => rfl) (fun _ => rfl) taken

theorem Grants.attempted {granted : List (Permission × String)} {r : Except Fault Unit}
    (h : Grants drive item ps made granted r) :
    Attempted (ps.map fun p => .grant drive item p.invitation) made := by
  cases h with
  | all granted =>
    rw [List.map_map]
    exact .all (fun _ => rfl) (fun _ => rfl) granted
  | refused granted p rest f =>
    rw [List.map_append, List.map_map]
    exact (Attempted.last rfl rfl).after (fun _ => rfl) (fun _ => rfl) granted
  | nameless granted p rest =>
    rw [List.map_append, List.map_map]
    exact (Attempted.last rfl rfl).after (fun _ => rfl) (fun _ => rfl) granted

end Attempts

/-- Restoring permissions attempts the planned calls. -/
theorem Plan.restore_attempted (plan : Plan σ) (drive item : String) {path : BackupPath}
    (current : Metadata) {above : Metadata} {known : Table String Metadata}
    (ids : Table String String) (h : inheritedMetadata known path = .ok above) (s : Session σ) :
    ∃ made,
      (plan.updater.restore drive item path current known ids s).2.trace = s.trace ++ made ∧
      (plan.updater.restore drive item path current known ids s).2.registry = s.registry ∧
      Attempted (plannedCalls ids drive item above.permissions current) made := by
  unfold plannedCalls Updater.restore
  rw [Permission.unmatched_eq_without, Permission.unmatched_eq_without]
  split
  · exact ⟨[], (List.append_nil _).symm, rfl, .done⟩
  rw [h]
  dsimp only
  rw [Updater.update_run]
  dsimp only [Permission.difference]
  obtain ⟨made, r, t, hrun, hmade, htaken⟩ := plan.updater.revokeAll_takesBack drive item ids
    (Permission.without above.permissions current.permissions) s
  rw [hrun]
  rcases r with f | ⟨⟩
  · exact ⟨made, plan.logs_trace.eq_append hmade, hmade.registry, htaken.attempted_of_error _⟩
  · obtain ⟨made', granted, r, v, hrun', hmade', hgranted⟩ := plan.updater.grantAll_grants drive
      item ids (Permission.without current.permissions above.permissions) t
    have hall := hmade.append hmade'
    dsimp only
    rw [hrun']
    exact ⟨made ++ made', plan.logs_trace.eq_append hall, hall.registry,
      htaken.attempted hgranted.attempted⟩

/-- Restoring the permissions of an item attempts the planned calls, and changes nothing of what
is known about folders. -/
theorem Plan.restorePermissions_attempted (plan : Plan σ) (drive item : String)
    {path : BackupPath} (current : Metadata) {above : Metadata} {s : Session σ}
    (h : inheritedMetadata s.registry.metadata path = .ok above) :
    ∃ made,
      ((plan.restorePermissions drive item path current).run s).2.trace = s.trace ++ made ∧
      ((plan.restorePermissions drive item path current).run s).2.registry.metadata =
        s.registry.metadata ∧
      Attempted (plannedCalls s.registry.permissionIds drive item above.permissions current)
        made := by
  rw [Plan.restorePermissions_run]
  obtain ⟨made, hmade, hsame, hend⟩ :=
    plan.restore_attempted drive item current s.registry.permissionIds h s
  have hmetadata := congrArg Registry.metadata hsame
  exact ⟨made, hmade, hmetadata, hend⟩

/-! ## Steps that have nothing to do with permissions -/

/-- The exchanges about permissions on the way from a session to a later one. -/
def PermissionExchanges (s t : Session σ) (made : List Exchange) : Prop :=
  ∃ exchanges, t.trace = s.trace ++ exchanges ∧
    exchanges.filter (fun x => x.call.isPermission) = made

namespace PermissionExchanges

variable {s t u : Session σ} {made made' : List Exchange}

theorem refl (s : Session σ) : PermissionExchanges s s [] := ⟨[], by simp, rfl⟩

theorem trans (h : PermissionExchanges s t made) (h' : PermissionExchanges t u made') :
    PermissionExchanges s u (made ++ made') := by
  obtain ⟨xs, hxs, rfl⟩ := h
  obtain ⟨ys, hys, rfl⟩ := h'
  exact ⟨xs ++ ys, by rw [hys, hxs, List.append_assoc], List.filter_append ..⟩

/-- A call that does not concern permissions makes no difference. -/
theorem of_call {c : Call} (hc : c.isPermission = false) (s : Session σ) :
    PermissionExchanges s (plan.ask c s).2 [] :=
  ⟨[⟨c, (plan.ask c s).1⟩], rfl, List.filter_eq_nil_iff.2 (by simp [hc])⟩

/-- The planned calls that were attempted are exchanges about permissions. -/
theorem of_attempted {ids : Table String String} {drive item : String}
    {above : List Permission} {current : Metadata} (htrace : t.trace = s.trace ++ made)
    (h : Attempted (plannedCalls ids drive item above current) made) :
    PermissionExchanges s t made := by
  refine ⟨made, htrace, List.filter_eq_self.2 fun x hx => ?_⟩
  obtain ⟨call, hcall, hx⟩ := h.mem hx
  rw [hx]
  exact isPermission_of_mem_plannedCalls hcall

end PermissionExchanges

/-- Whether an effect concerns neither permissions nor the metadata of folders. -/
def Effect.isAside : Effect → Bool
  | metadata _ _ => false
  | e => !e.isPermission

/-- What a step that concerns neither permissions nor the metadata of folders leaves alone. -/
structure Session.Aside (s t : Session σ) : Prop where
  exchanges : PermissionExchanges s t []
  permissionIds : t.registry.permissionIds = s.registry.permissionIds
  metadata : t.registry.metadata = s.registry.metadata

namespace Session.Aside

theorem refl (s : Session σ) : s.Aside s := ⟨.refl s, rfl, rfl⟩

theorem perform {s t : Session σ} {e : Effect} (h : s.Aside t) (he : e.isAside) :
    s.Aside (plan.perform e t) := by
  cases e with
  | call c =>
    have hc : c.isPermission = false := by
      simpa [Effect.isAside, Effect.isPermission_call] using he
    exact ⟨h.exchanges.trans (.of_call hc t), h.permissionIds, h.metadata⟩
  | metadata _ _ => cases he
  | permissionIds _ => cases he
  | keys _ _ | folder _ _ | container _ _ | tally _ | note _ | stop | countCollection =>
    exact ⟨h.exchanges, h.permissionIds, h.metadata⟩

theorem credit {s t : Session σ} (h : s.Aside t) (r : Receipt) : s.Aside (plan.credit r t) :=
  (h.perform rfl).perform rfl

end Session.Aside

theorem upkeep_aside (s : Session σ) :
    Upkeep plan (fun e => e.isAside) (s.Aside ·) Going :=
  Upkeep.of_keep (fun _ _ he h => h.perform he) fun _ _ => Fault.not_isCancelled_of_isPlain

theorem tolerates_aside : Tolerates (fun e => e.isAside) (Going : Fault → Session σ → Prop) :=
  tolerates_going fun _ => rfl

theorem Effect.isAside_of {e : Effect} (h : e.isFolder ∨ e.isFile ∨ e.isAccount) :
    e.isAside := by
  rcases e with (c | _ | _) | _ | _ | _ | _ | _ | _ | _ | _ | _
  · cases c <;>
      simp [isFolder, isFile, isAccount, isAside, isPermission, DriveCall.isFolder,
        DriveCall.isFile, DriveCall.isPermission] at h ⊢
  all_goals simp [isFolder, isFile, isAccount, isAside, isPermission] at h ⊢

theorem Plan.destinationFolder_aside (plan : Plan σ) (address : DriveAddress) (s : Session σ) :
    s.Aside ((plan.destinationFolder address).run s).2 :=
  ((upkeep_aside s).destinationFolder (fun _ he => Effect.isAside_of (by simp [he]))
    address).snd (.refl s)

theorem Plan.uploadFile_aside (plan : Plan σ) (drive folder : String) (file : DriveFile)
    (s : Session σ) : s.Aside ((plan.uploadFile drive folder file).run s).2 :=
  ((upkeep_aside s).uploadFile tolerates_aside (fun _ he => Effect.isAside_of (by simp [he]))
    drive folder file).snd (.refl s)

/-! ## Entering folders and restoring files -/

/-- Settling the permissions of a folder attempts the planned calls. -/
theorem Plan.settleFolder_attempted (plan : Plan σ) {path : BackupPath} {address : DriveAddress}
    (folder : String) (m : Metadata) {above : Metadata} {s : Session σ}
    (hwanted : plan.options.restorePermissions)
    (hroot : address.isRoot = false)
    (h : inheritedMetadata s.registry.metadata path = .ok above) :
    ∃ made, PermissionExchanges s (plan.settleFolder path address folder m s) made ∧
      (plan.settleFolder path address folder m s).registry.metadata = s.registry.metadata ∧
      Attempted (plannedCalls s.registry.permissionIds address.drive folder above.permissions m)
        made := by
  obtain ⟨made, hmade, hmetadata, hend⟩ :=
    plan.restorePermissions_attempted address.drive folder m h
  have hexchanges := PermissionExchanges.of_attempted hmade hend
  unfold Plan.settleFolder
  simp only [hwanted, hroot, Bool.not_false, Bool.and_self, ↓reduceIte]
  generalize (plan.restorePermissions address.drive folder path m).run s = r
    at hmetadata hexchanges ⊢
  rcases r with ⟨f | ⟨⟩, t⟩
  · exact ⟨made, hexchanges, hmetadata, hend⟩
  · exact ⟨made, hexchanges, hmetadata, hend⟩

/-- Restoring a file attempts the planned calls on the uploaded item, and makes no calls that
concern permissions if it is not uploaded. -/
theorem Plan.restoreFile_attempted (plan : Plan σ) {c : Collection} (address : DriveAddress)
    (folder : String) {file : DriveFile} {path : BackupPath} {above : Metadata} {s : Session σ}
    (hwanted : plan.options.restorePermissions) (hversion : plan.version.hasMetaFiles)
    (hpath : c.path.ofFile file = .ok path)
    (h : inheritedMetadata s.registry.metadata path = .ok above) :
    ∃ made, PermissionExchanges s ((plan.restoreFile c address folder file).run s).2 made ∧
      match ((plan.uploadFile address.drive folder file).run
        (plan.perform (.tally Tally.see) s)).1 with
      | .ok (id, _) => Attempted
          (plannedCalls s.registry.permissionIds address.drive id above.permissions file.metadata)
          made
      | .error _ => made = [] := by
  have haside := plan.uploadFile_aside address.drive folder file
    (plan.perform (.tally Tally.see) s)
  rw [Plan.restoreFile_run]
  generalize (plan.uploadFile address.drive folder file).run
    (plan.perform (.tally Tally.see) s) = r at haside ⊢
  rcases r with ⟨f | ⟨id, updated⟩, t⟩
  · exact ⟨[], haside.exchanges, rfl⟩
  simp only [hwanted, hversion, hpath, Bool.and_self, ↓reduceIte]
  have hupload : s.Aside t := ⟨haside.exchanges, haside.permissionIds, haside.metadata⟩
  -- the permissions are compared in the session in which the file has been accounted for
  have haside' : s.Aside (plan.account c address file updated t) := hupload.credit _
  rw [← haside'.metadata] at h
  obtain ⟨made, hmade, -, hend⟩ :=
    plan.restorePermissions_attempted address.drive id file.metadata h
  rw [haside'.permissionIds] at hend
  exact ⟨made, haside'.exchanges.trans (.of_attempted hmade hend), hend⟩

end TenantRestore
