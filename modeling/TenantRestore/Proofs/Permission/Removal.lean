/-
# Taking back the right permissions

A permission which a folder shares with an item, but which the item did not have, is taken back
by the id it got when it was granted anew.  The ids are found by those of the backup, in a
table which every later grant under the same id of the backup overwrites, on whatever item it
is made; and a permission that can't be granted has no new id at all.

So a removed permission is not always found, nor is it always the one that is taken back.
`Plan.removesRight_iff` says when it is: the last grant under its id has to be one that was made
on the nearest folder with permissions of its own, or on a folder above that one, or at least
to have got the same new id as such a grant.
-/
import Mathlib.Data.List.Basic
import TenantRestore.Proofs.Permission.Baseline
import TenantRestore.Proofs.Permission.Visits

namespace TenantRestore

/-! ## What a visit comes to -/

/-- Whether a call failed. -/
def Exchange.failed : Exchange → Bool
  | ⟨_, .error _⟩ => true
  | ⟨_, .ok _⟩ => false

/-- The id by which a permission is taken back. -/
def Exchange.revoked? : Exchange → Option String
  | ⟨.drive (.revoke _ _ id), _⟩ => some id
  | _ => none

/-- The id of a permission that has been granted. -/
def Exchange.granted? : Exchange → Option String
  | ⟨.drive (.grant _ _ _), .ok (some id)⟩ => some id
  | _ => none

/-- The nearest of some folders with permissions of its own, and its metadata, provided that all
folders on the way there are known. -/
def nearestFolder? (known : Table String Metadata) :
    List BackupPath → Option (BackupPath × Metadata)
  | [] => none
  | folder :: outer =>
    match known.find? folder.text with
    | none => none
    | some m => if m.sharing = .custom then some (folder, m) else nearestFolder? known outer

/-- How the permissions of an item or folder have been changed. -/
structure PermissionChange where
  /-- Whether it is a folder. -/
  onFolder : Bool
  /-- Its path within the backup. -/
  path : BackupPath
  /-- The nearest folder above it with permissions of its own. -/
  nearest : Option BackupPath
  /-- The permissions of that folder which are missing on it. -/
  missing : List Permission
  /-- The ids by which permissions were taken back, in order. -/
  revoked : List String
  /-- The permissions that were granted, with their new ids, in order. -/
  granted : List (Permission × String)
  /-- The fault in which it ended. -/
  fault : Option Fault
deriving DecidableEq

section Changes

variable {σ : Type}

/-- What a visit comes to. -/
def Plan.change (plan : Plan σ) (v : Visit σ) : PermissionChange :=
  let nearest := nearestFolder? v.start.registry.metadata v.path.foldersAbove
  let above := (nearest.map fun f => f.2.permissions).getD []
  let added := Permission.without v.current.permissions above
  { onFolder := v.onFolder
    path := v.path
    nearest := nearest.map Prod.fst
    missing :=
      if v.current.sharing = .inherited then []
      else Permission.without above v.current.permissions
    revoked := (plan.exchanges v).filterMap Exchange.revoked?
    granted := (added.filter fun p => p.invitation?.isSome).zip
      ((plan.exchanges v).filterMap Exchange.granted?)
    fault :=
      match (plan.visit v).1 with
      | .ok () => none
      | .error f => some f }

/-- The changes of permissions a run makes, in order. -/
def Plan.changes (plan : Plan σ) (cs : List Collection) (start : Session σ) :
    List PermissionChange :=
  (plan.visits (Collection.sort cs) start).map plan.change

/-- The new ids of permissions after some changes, by their id in the backup; a later grant wins
over an earlier one. -/
def newIds (changes : List PermissionChange) : Table String String :=
  .ofList ((changes.flatMap PermissionChange.granted).map fun g => (g.1.id, g.2))

namespace PermissionChange

/-- An id is that of an earlier grant of the same permission on the nearest folder with
permissions of its own, or on a folder above that one. -/
def GrantedAbove (c : PermissionChange) (earlier : List PermissionChange) (p : Permission)
    (id : String) : Prop :=
  ∃ folder, c.nearest = some folder ∧
    ∃ e ∈ earlier, e.onFolder ∧ e.path ∈ folder :: folder.above ∧
      ∃ g ∈ e.granted, g.2 = id ∧ g.1.agrees p

/-- The right permissions are taken back: each missing one has a new id, nothing is taken back
but missing ones in their order, and this by an id under which the same permission was granted
above. -/
structure RemovesRight (c : PermissionChange) (earlier : List PermissionChange) : Prop where
  found : ∀ id, c.fault ≠ some (.noNewPermissionId id)
  caused : c.revoked.length ≤ c.missing.length
  revoked : ∀ r ∈ c.missing.zip c.revoked, c.GrantedAbove earlier r.1 r.2

/-- The last grant under the id of a missing permission has an id under which the same permission
was granted above. -/
def LastGrantFits (c : PermissionChange) (earlier : List PermissionChange) : Prop :=
  ∀ p ∈ c.missing, ∃ id, (newIds earlier).find? p.id = some id ∧ c.GrantedAbove earlier p id

end PermissionChange

/-- Every change of permissions a run makes is related to the changes before it. -/
def Plan.EachChange (plan : Plan σ) (cs : List Collection) (start : Session σ)
    (related : PermissionChange → List PermissionChange → Prop) : Prop :=
  ∀ earlier c later, plan.changes cs start = earlier ++ c :: later → related c earlier

/-! ## The calls of a visit -/

variable {plan : Plan σ}

section Calls

variable {drive item : String} {ids : Table String String} {ps : List Permission}
  {made : List Exchange} {granted : List (Permission × String)} {r : Except Fault Unit}

theorem filterMap_granted?_revocation (taken : List (Permission × String)) :
    (taken.map (Exchange.revocation drive item)).filterMap Exchange.granted? = [] := by
  rw [List.filterMap_map]
  exact List.filterMap_eq_nil_iff.2 fun _ _ => rfl

theorem filterMap_revoked?_revocation (taken : List (Permission × String)) :
    (taken.map (Exchange.revocation drive item)).filterMap Exchange.revoked? =
      taken.map Prod.snd := by
  rw [List.filterMap_map, ← List.filterMap_eq_map]
  rfl

theorem filterMap_granted?_grant (granted : List (Permission × String)) :
    (granted.map (Exchange.grant drive item)).filterMap Exchange.granted? =
      granted.map Prod.snd := by
  rw [List.filterMap_map, ← List.filterMap_eq_map]
  rfl

theorem filterMap_revoked?_grant (granted : List (Permission × String)) :
    (granted.map (Exchange.grant drive item)).filterMap Exchange.revoked? = [] := by
  rw [List.filterMap_map]
  exact List.filterMap_eq_nil_iff.2 fun _ _ => rfl

theorem TakesBack.grants_nothing (h : TakesBack drive item ids ps made r) :
    made.filterMap Exchange.granted? = [] := by
  cases h with
  | all taken | unknown taken => exact filterMap_granted?_revocation taken
  | refused taken =>
    rw [List.filterMap_append, filterMap_granted?_revocation]
    rfl

/-- If no call fails, either a permission has no new id, or all are taken back by theirs. -/
theorem TakesBack.revoked (h : TakesBack drive item ids ps made r)
    (hok : ∀ x ∈ made, x.failed = false) :
    (∃ p ∈ ps, ids.find? p.id = none ∧ r = .error (.noNewPermissionId p.id)) ∨
      r = .ok () ∧ (∀ p ∈ ps, (ids.find? p.id).isSome) ∧
        made.filterMap Exchange.revoked? = ps.filterMap fun p => ids.find? p.id := by
  cases h with
  | all taken hids =>
    refine Or.inr ⟨rfl, ?_, ?_⟩
    · intro p hp
      obtain ⟨g, hg, rfl⟩ := List.mem_map.1 hp
      rw [hids g hg]
      rfl
    · rw [filterMap_revoked?_revocation, List.filterMap_map, ← List.filterMap_eq_map]
      exact List.filterMap_congr fun g hg => (hids g hg).symm
  | unknown taken p rest hids hp =>
    exact Or.inl ⟨p, List.mem_append_right _ (List.mem_cons_self ..), hp, rfl⟩
  | refused taken p rest id f =>
    cases hok _ (List.mem_append_right _ (List.mem_singleton_self _))

theorem Grants.revokes_nothing (h : Grants drive item ps made granted r) :
    made.filterMap Exchange.revoked? = [] := by
  cases h with
  | all => exact filterMap_revoked?_grant granted
  | refused | nameless =>
    rw [List.filterMap_append, filterMap_revoked?_grant]
    rfl

theorem Grants.granted_eq (h : Grants drive item ps made granted r) :
    granted = ps.zip (made.filterMap Exchange.granted?) := by
  have hzip : (granted.map Prod.fst).zip (granted.map Prod.snd) = granted :=
    List.zip_map' .. |>.trans (List.map_id' granted)
  cases h with
  | all => rw [filterMap_granted?_grant, hzip]
  | refused _ p rest | nameless _ p rest =>
    -- the permissions from the last call on have got no ids
    rw [List.filterMap_append, filterMap_granted?_grant, List.zip_append (by simp), hzip]
    exact (List.append_nil granted).symm

theorem Grants.ne_noNewPermissionId (h : Grants drive item ps made granted r) (id : String) :
    r ≠ .error (.noNewPermissionId id) := by
  cases h <;> rintro ⟨⟩

theorem filter_isSome_invitation? (ps : List Permission) :
    (ps.filter fun p => p.invitation?.isSome) = ps.filter fun p => p.IsGrantable := by
  refine List.filter_congr fun p _ => ?_
  rw [Permission.invitation?_eq]
  by_cases hp : p.IsGrantable <;> simp [hp]

end Calls

/-! ## The folder whose permissions are shared -/

/-- The permissions found above an item are those of the nearest folder with its own.  Where the
metadata of a folder is missing, no permission is known to be shared. -/
theorem nearestFolder?_takeWhile (known : Table String Metadata) (folders : List BackupPath) :
    match nearestCustom known folders with
    | .ok m => ((nearestFolder? known (folders.takeWhile BackupPath.isBelowRoot)).map
        fun f => f.2.permissions).getD [] = m.permissions
    | .error f => nearestFolder? known (folders.takeWhile BackupPath.isBelowRoot) = none ∧
        ∀ id, f ≠ .noNewPermissionId id := by
  induction folders with
  | nil => rfl
  | cons folder outer ih =>
    by_cases hbelow : folder.isBelowRoot
    · rw [List.takeWhile_cons_of_pos hbelow, nearestFolder?, nearestCustom_of_isBelowRoot hbelow]
      cases known.find? folder.text with
      | none => exact ⟨rfl, by rintro _ ⟨⟩⟩
      | some m =>
        dsimp only
        by_cases hcustom : m.sharing = .custom
        · rw [if_pos hcustom, if_pos hcustom]
          rfl
        · rw [if_neg hcustom, if_neg hcustom]
          exact ih
    · rw [List.takeWhile_cons_of_neg hbelow]
      rcases nearestCustom_of_not_isBelowRoot hbelow known outer with hend | ⟨e, hend⟩ <;>
        rw [hend]
      · rfl
      · exact ⟨rfl, by rintro _ ⟨⟩⟩

/-! ## Whole visits -/

/-- What is made of the calls of a visit: the ids afterwards, and, if no call fails, either a
missing permission that has no new id, or the ids by which all of them are taken back. -/
structure Plan.Makes (ids : Table String String) (missing added : List Permission)
    (made : List Exchange) (r : Except Fault Unit × Table String String) : Prop where
  recorded : r.2 = recordGrants ids
    ((added.filter fun p => p.invitation?.isSome).zip (made.filterMap Exchange.granted?))
  revoked : (∀ x ∈ made, x.failed = false) →
    (∃ p ∈ missing, ids.find? p.id = none ∧ r.1 = .error (.noNewPermissionId p.id)) ∨
    (∀ id, r.1 ≠ .error (.noNewPermissionId id)) ∧ (∀ p ∈ missing, (ids.find? p.id).isSome) ∧
      made.filterMap Exchange.revoked? = missing.filterMap fun p => ids.find? p.id

/-- A visit that makes no calls for want of missing permissions. -/
theorem Plan.Makes.nothing {ids : Table String String} {added : List Permission}
    {result : Except Fault Unit} (h : ∀ id, result ≠ .error (.noNewPermissionId id)) :
    Plan.Makes ids [] added [] (result, ids) where
  recorded := by simp [recordGrants]
  revoked _ := Or.inr ⟨h, by simp, rfl⟩

theorem Plan.update_made (plan : Plan σ) (drive item : String) (ids : Table String String)
    (change : Permission.Difference) (s : Session σ) :
    ∃ made, (plan.updater.update drive item change ids s).2.trace = s.trace ++ made ∧
      (plan.updater.update drive item change ids s).2.registry = s.registry ∧
      Plan.Makes ids change.removed change.added made
        (plan.updater.update drive item change ids s).1 := by
  obtain ⟨made, r, t, hrun, hmade, htaken⟩ :=
    plan.updater.revokeAll_takesBack drive item ids change.removed s
  rw [Updater.update_run, hrun]
  rcases r with f | ⟨⟩
  · refine ⟨made, plan.logs_trace.eq_append hmade, hmade.registry,
      by rw [htaken.grants_nothing]; simp [recordGrants], fun hok => ?_⟩
    rcases htaken.revoked hok with ⟨p, hp, hnone, hfault⟩ | ⟨hdone, -⟩
    · exact Or.inl ⟨p, hp, hnone, hfault⟩
    · cases hdone
  · obtain ⟨made', granted, r, v, hrun', hmade', hgranted⟩ :=
      plan.updater.grantAll_grants drive item ids change.added t
    have hall := hmade.append hmade'
    dsimp only
    rw [hrun']
    refine ⟨made ++ made', plan.logs_trace.eq_append hall, hall.registry, ?_, fun hok => ?_⟩
    · rw [List.filterMap_append, htaken.grants_nothing, List.nil_append, filter_isSome_invitation?,
        ← hgranted.granted_eq]
    · rcases htaken.revoked fun x hx => hok x (List.mem_append_left _ hx) with
        ⟨p, -, -, hfault⟩ | ⟨-, hknown, hrevoked⟩
      · cases hfault
      · refine Or.inr ⟨hgranted.ne_noNewPermissionId, hknown, ?_⟩
        rw [List.filterMap_append, hgranted.revokes_nothing, List.append_nil, hrevoked]

theorem Plan.restore_made (plan : Plan σ) (drive item : String) (path : BackupPath)
    (current : Metadata) (known : Table String Metadata) (ids : Table String String)
    (s : Session σ) :
    let above := ((nearestFolder? known path.foldersAbove).map fun f => f.2.permissions).getD []
    ∃ made, (plan.updater.restore drive item path current known ids s).2.trace =
        s.trace ++ made ∧
      (plan.updater.restore drive item path current known ids s).2.registry = s.registry ∧
      Plan.Makes ids
        (if current.sharing = .inherited then [] else Permission.without above current.permissions)
        (Permission.without current.permissions above) made
        (plan.updater.restore drive item path current known ids s).1 := by
  intro above
  unfold Updater.restore
  split
  · exact ⟨[], (List.append_nil _).symm, rfl, .nothing (by rintro _ ⟨⟩)⟩
  unfold inheritedMetadata
  split
  · -- a path without elements has no folders above it
    rename_i hempty
    have habove : above = [] := by
      have hnone : path.foldersAbove = [] := by
        simp [BackupPath.foldersAbove, BackupPath.above, List.isEmpty_iff.1 hempty,
          BackupPath.properBeginnings]
      simp only [above, hnone, nearestFolder?]
      rfl
    rw [habove]
    exact ⟨[], (List.append_nil _).symm, rfl, .nothing (by rintro _ ⟨⟩)⟩
  · have hnearest := nearestFolder?_takeWhile known path.above
    cases hcustom : nearestCustom known path.above with
    | error f =>
      rw [hcustom] at hnearest
      obtain ⟨hnone, hfault⟩ := hnearest
      have habove : above = [] := by
        simp only [above, BackupPath.foldersAbove, hnone]
        rfl
      rw [habove]
      refine ⟨[], (List.append_nil _).symm, rfl, .nothing fun id hsame => hfault id ?_⟩
      exact Except.error.inj hsame
    | ok m =>
      rw [hcustom] at hnearest
      have habove : above = m.permissions := hnearest
      rw [habove]
      exact plan.update_made drive item ids
        (Permission.difference m.permissions current.permissions) s

/-- The calls of a visit are those the change of permissions tells. -/
theorem Plan.visit_made (plan : Plan σ) (v : Visit σ) :
    (plan.visit v).2.trace = v.start.trace ++ plan.exchanges v ∧
      Plan.Makes v.start.registry.permissionIds (plan.change v).missing
        (Permission.without v.current.permissions (((nearestFolder?
          v.start.registry.metadata v.path.foldersAbove).map fun f => f.2.permissions).getD []))
        (plan.exchanges v) ((plan.visit v).1, (plan.visit v).2.registry.permissionIds) := by
  have hvisit : plan.visit v = _ := Plan.restorePermissions_run v.path v.current
  obtain ⟨made, hmade, -, hmakes⟩ := plan.restore_made v.drive v.item v.path v.current
    v.start.registry.metadata v.start.registry.permissionIds v.start
  have htrace : (plan.visit v).2.trace = v.start.trace ++ made := by
    rw [hvisit]
    exact hmade
  have hexchanges : plan.exchanges v = made := by
    rw [Plan.exchanges, htrace, List.drop_left]
  rw [hexchanges, hvisit]
  exact ⟨hmade, hmakes⟩

/-- A visit makes no calls but those that concern permissions. -/
theorem Plan.isPermission_of_mem_exchanges (plan : Plan σ) (v : Visit σ) {x : Exchange}
    (hx : x ∈ plan.exchanges v) : x.call.isPermission := by
  have hkeep : Upkeep plan (fun e => e.isPermission) (fun t : Session σ =>
      ∃ made, t.trace = v.start.trace ++ made ∧ ∀ x ∈ made, x.call.isPermission) Going := by
    refine Upkeep.of_keep (fun e t he ht => ?_) fun _ _ => Fault.not_isCancelled_of_isPlain
    obtain ⟨made, hmade, hpermission⟩ := ht
    cases e with
    | call c =>
      have hc : c.isPermission := by rwa [Effect.isPermission_call] at he
      refine ⟨made ++ [⟨c, (plan.ask c t).1⟩], ?_, ?_⟩
      · change t.trace ++ [⟨c, (plan.ask c t).1⟩] = _
        rw [hmade, List.append_assoc]
      · intro x hx
        rcases List.mem_append.1 hx with hx | hx
        · exact hpermission x hx
        · rw [List.mem_singleton.1 hx]
          exact hc
    | permissionIds _ => exact ⟨made, hmade, hpermission⟩
    | metadata _ _ | keys _ _ | folder _ _ | container _ _ | tally _ | note _ | stop
    | countCollection => cases he
  have hvisit : Restoring.Keeps _ (plan.restorePermissions v.drive v.item v.path v.current)
      Going :=
    hkeep.restorePermissions_going (fun _ he => he) v.drive v.item v.path v.current
  obtain ⟨made, hmade, hpermission⟩ := hvisit.snd ⟨[], (List.append_nil _).symm, by simp⟩
  refine hpermission x ?_
  rwa [Plan.exchanges, Plan.visit, hmade, List.drop_left] at hx

/-! ## Whole runs -/

theorem newIds_eq (changes : List PermissionChange) :
    newIds changes = recordGrants .empty (changes.flatMap PermissionChange.granted) := by
  rw [newIds, Table.ofList, List.foldl_map]
  rfl

/-- When a visit starts, the new ids that are known are those of the grants before it. -/
theorem Plan.Leads.permissionIds {s t : Session σ} {vs : List (Visit σ)} (h : plan.Leads s vs t)
    {earlier later : List (Visit σ)} {v : Visit σ} (hvs : vs = earlier ++ v :: later) :
    v.start.registry.permissionIds = recordGrants s.registry.permissionIds
      ((earlier.map plan.change).flatMap PermissionChange.granted) := by
  induction h generalizing earlier with
  | done _ => simp at hvs
  | @visit s _ w vs hstart _ ih =>
    cases earlier with
    | nil =>
      obtain ⟨rfl, -⟩ := List.cons.inj hvs
      exact hstart.permissionIds
    | cons w' earlier =>
      -- the first visit records its grants, the next ones start from there
      obtain ⟨rfl, hrest⟩ := List.cons.inj hvs
      have hrecorded : (plan.visit w).2.registry.permissionIds = _ :=
        (plan.visit_made w).2.recorded
      rw [ih hrest, List.map_cons, List.flatMap_cons, recordGrants_append, hrecorded,
        hstart.permissionIds]
      rfl

/-- All exchanges that concern permissions are those of the visits. -/
theorem Plan.Leads.exchanges {s t : Session σ} {vs : List (Visit σ)} (h : plan.Leads s vs t) :
    PermissionExchanges s t (vs.flatMap plan.exchanges) := by
  induction h with
  | done hst => exact hst.exchanges
  | @visit _ _ v _ hstart _ ih =>
    have hvisit : PermissionExchanges v.start (plan.visit v).2 (plan.exchanges v) := by
      refine ⟨plan.exchanges v, (plan.visit_made v).1, List.filter_eq_self.2 fun x hx => ?_⟩
      exact plan.isPermission_of_mem_exchanges v hx
    exact (hstart.exchanges.trans hvisit).trans ih

theorem mem_zip_filterMap {α β : Type} {f : α → Option β} {as : List α}
    (h : ∀ a ∈ as, (f a).isSome) {a : α} {b : β} :
    (a, b) ∈ as.zip (as.filterMap f) ↔ a ∈ as ∧ f a = some b := by
  induction as with
  | nil => simp
  | cons a' as ih =>
    obtain ⟨b', hb'⟩ := Option.isSome_iff_exists.1 (h a' (List.mem_cons_self ..))
    rw [List.filterMap_cons_some hb', List.zip_cons_cons, List.mem_cons, List.mem_cons,
      ih fun a ha => h a (List.mem_cons_of_mem _ ha)]
    constructor
    · rintro (hhead | ⟨ha, hb⟩)
      · cases hhead
        exact ⟨Or.inl rfl, hb'⟩
      · exact ⟨Or.inr ha, hb⟩
    · rintro ⟨rfl | ha, hb⟩
      · rw [hb'] at hb
        cases hb
        exact Or.inl rfl
      · exact Or.inr ⟨ha, hb⟩

theorem Plan.change_fault_iff (plan : Plan σ) (v : Visit σ) (f : Fault) :
    (plan.change v).fault = some f ↔ (plan.visit v).1 = .error f := by
  change (match (plan.visit v).1 with | .ok () => none | .error f => some f) = some f ↔ _
  rcases (plan.visit v).1 with g | ⟨⟩
  · exact ⟨fun h => congrArg _ (Option.some.inj h), fun h => congrArg _ (Except.error.inj h)⟩
  · constructor <;> rintro ⟨⟩

/-- A change takes back the right permissions just if the last grants fit, provided that none of
its calls fails. -/
theorem Plan.removesRight_change_iff (plan : Plan σ) {v : Visit σ}
    {earlier : List PermissionChange} (hids : v.start.registry.permissionIds = newIds earlier)
    (hok : ∀ x ∈ plan.exchanges v, x.failed = false) :
    (plan.change v).RemovesRight earlier ↔ (plan.change v).LastGrantFits earlier := by
  have hmakes := (plan.visit_made v).2.revoked hok
  rw [hids] at hmakes
  rcases hmakes with ⟨p, hp, hnone, hfault⟩ | ⟨hfault, hknown, hrevoked⟩
  · -- a missing permission without a new id breaks both sides
    constructor
    · intro h
      exact absurd ((plan.change_fault_iff v _).2 hfault) (h.found p.id)
    · intro h
      obtain ⟨id, hid, -⟩ := h p hp
      rw [hnone] at hid
      cases hid
  · -- each missing permission is paired with the id that is known for it
    have hpairs {p : Permission} {id : String} :
        (p, id) ∈ (plan.change v).missing.zip (plan.change v).revoked ↔
          p ∈ (plan.change v).missing ∧ (newIds earlier).find? p.id = some id := by
      rw [show (plan.change v).revoked = _ from hrevoked]
      exact mem_zip_filterMap hknown
    constructor
    · intro h p hp
      obtain ⟨id, hid⟩ := Option.isSome_iff_exists.1 (hknown p hp)
      exact ⟨id, hid, h.revoked (p, id) (hpairs.2 ⟨hp, hid⟩)⟩
    · intro h
      refine ⟨fun id hsame => hfault id ((plan.change_fault_iff v _).1 hsame), ?_, ?_⟩
      · rw [show (plan.change v).revoked = _ from hrevoked]
        exact List.length_filterMap_le ..
      · rintro ⟨p, id⟩ hr
        obtain ⟨hp, hid⟩ := hpairs.1 hr
        obtain ⟨id', hid', habove⟩ := h p hp
        rw [hid] at hid'
        cases hid'
        exact habove

/-- A run in which no call that concerns permissions fails takes back the right permissions just
if before each change the last grant under the id of every missing permission fits.  Whatever
calls it makes that concern permissions belong to one of its changes. -/
theorem Plan.removesRight_iff (plan : Plan σ) (cs : List Collection) (log : FaultLog)
    (stopped : Bool) (remote : σ)
    (hok : ∀ x ∈ (plan.run cs (Session.start plan log stopped remote)).2.trace,
      x.call.isPermission → x.failed = false) :
    let start := Session.start plan log stopped remote
    (plan.run cs start).2.trace.filter (fun x => x.call.isPermission) =
        (plan.visits (Collection.sort cs) start).flatMap plan.exchanges ∧
      (plan.EachChange cs start PermissionChange.RemovesRight ↔
        plan.EachChange cs start PermissionChange.LastGrantFits) := by
  intro start
  have hleads := plan.leads_restoreAll (Collection.sort cs) start
  obtain ⟨exchanges, htrace, hexchanges⟩ := hleads.exchanges
  have hfilter : (plan.run cs start).2.trace.filter (fun x => x.call.isPermission) =
      (plan.visits (Collection.sort cs) start).flatMap plan.exchanges := by
    rw [Plan.run_eq, conclude_trace, htrace]
    exact hexchanges
  refine ⟨hfilter, ?_⟩
  have hchange (earlier : List PermissionChange) (c : PermissionChange)
      (later : List PermissionChange) (hsplit : plan.changes cs start = earlier ++ c :: later) :
      c.RemovesRight earlier ↔ c.LastGrantFits earlier := by
    obtain ⟨vs, rest, hvs, rfl, hrest⟩ := List.map_eq_append_iff.1 hsplit
    obtain ⟨v, ws, rfl, rfl, -⟩ := List.map_eq_cons_iff.1 hrest
    refine plan.removesRight_change_iff ?_ fun x hx => ?_
    · rw [hleads.permissionIds hvs, newIds_eq]
      rfl
    · -- the exchanges of a visit are among those of the run
      have hmem : x ∈ (plan.visits (Collection.sort cs) start).flatMap plan.exchanges :=
        List.mem_flatMap.2 ⟨v, by simp [hvs], hx⟩
      rw [← hfilter] at hmem
      obtain ⟨hx, hpermission⟩ := List.mem_filter.1 hmem
      exact hok x hx hpermission
  constructor
  · intro h earlier c later hsplit
    exact (hchange earlier c later hsplit).1 (h earlier c later hsplit)
  · intro h earlier c later hsplit
    exact (hchange earlier c later hsplit).2 (h earlier c later hsplit)

end Changes

/-! ## A permission that is granted anew under the same id -/

/-- A permission of Ann, always with the same id. -/
def annMay (role : String) : Permission := { id := "1", roles := [role], entityId := "ann" }

/-- A folder on which Ann has a permission, with a file on which she has another one, and a
file on which she has none. -/
def regrantedFolder : List Collection :=
  let shared (name role : String) := ("\x7b\"filename\":\"" ++ name ++
    "\",\"permissions\":[\x7b\"id\":\"1\",\"role\":[\"" ++ role ++
    "\"],\"entityId\":\"ann\"\x7d]\x7d").toUTF8
  [.ofEntries ⟨"tenant", .onedrive, "user", .files, ["drives", "drive", "root:", "F"]⟩
    [.ok ⟨".dirmeta", shared "F" "read"⟩,
      .ok ⟨"y.meta", shared "y" "write"⟩, .ok ⟨"y.data", "".toUTF8⟩,
      .ok ⟨"z.meta", "\x7b\"filename\":\"z\"\x7d".toUTF8⟩, .ok ⟨"z.data", "".toUTF8⟩]]

/-- The path of an item in a drive. -/
def inDrive (elements : List String) : BackupPath :=
  ⟨"tenant", .onedrive, "user", .files, ["drives", "drive", "root:"] ++ elements⟩

/-- What is changed for the folder and for the file with a permission of its own. -/
def firstRegrants : List PermissionChange :=
  [{ onFolder := true
     path := inDrive ["F"]
     nearest := none
     missing := []
     revoked := []
     granted := [(annMay "read", "perm-2")]
     fault := none },
   { onFolder := false
     path := inDrive ["F", "y"]
     nearest := some (inDrive ["F"])
     missing := [annMay "read"]
     revoked := ["perm-2"]
     granted := [(annMay "write", "perm-4")]
     fault := none }]

/-- What is changed for the file without permissions: the permission of the folder should be
taken back, but this is done by the id of what was granted on the other file. -/
def lastRegrant : PermissionChange where
  onFolder := false
  path := inDrive ["F", "z"]
  nearest := some (inDrive ["F"])
  missing := [annMay "read"]
  revoked := ["perm-4"]
  granted := []
  fault := none

theorem sort_regrantedFolder : Collection.sort regrantedFolder = regrantedFolder :=
  Collection.sort_of_pairwise (by decide +kernel)

theorem changes_regrantedFolder :
    restoreShared.changes regrantedFolder (Session.start restoreShared {} false emptyDrive) =
      firstRegrants ++ [lastRegrant] := by
  rw [Plan.changes, sort_regrantedFolder]
  decide +kernel

theorem run_regrantedFolder :
    let ended := (restoreShared.run regrantedFolder
      (Session.start restoreShared {} false emptyDrive)).2
    ended.stopped = false ∧ ∀ x ∈ ended.trace, x.succeeds ∧ x.failed = false := by
  rw [Plan.run_eq, sort_regrantedFolder]
  decide +kernel

theorem hierarchical_regrantedFolder :
    restoreShared.Hierarchical regrantedFolder
      (Session.start restoreShared {} false emptyDrive) :=
  hierarchical_restoreShared (by decide +kernel) (by decide +kernel) (by decide +kernel)
    (by decide +kernel) (by decide +kernel)
    ⟨run_regrantedFolder.1, fun x hx _ => (run_regrantedFolder.2 x hx).1⟩

/-- On the folder no permission has got the id which is used last. -/
theorem not_grantedAbove_lastRegrant (p : Permission) :
    ¬ lastRegrant.GrantedAbove firstRegrants p "perm-4" := by
  have hother : ∀ e ∈ firstRegrants, e.onFolder → ∀ g ∈ e.granted, g.2 ≠ "perm-4" := by decide
  rintro ⟨folder, -, e, he, honFolder, -, g, hg, hid, -⟩
  exact hother e he honFolder g hg hid

/-- No call fails, and all folders are known, but what is taken back from the last file is the
permission that was granted on the other one. -/
theorem regrantedFolder_not_removesRight :
    restoreShared.Hierarchical regrantedFolder
        (Session.start restoreShared {} false emptyDrive) ∧
      (∀ x ∈ (restoreShared.run regrantedFolder
        (Session.start restoreShared {} false emptyDrive)).2.trace, x.failed = false) ∧
      ¬ restoreShared.EachChange regrantedFolder
        (Session.start restoreShared {} false emptyDrive) PermissionChange.RemovesRight := by
  refine ⟨hierarchical_regrantedFolder, fun x hx => (run_regrantedFolder.2 x hx).2, fun h => ?_⟩
  have hright := h firstRegrants lastRegrant [] changes_regrantedFolder
  have htaken : (annMay "read", "perm-4") ∈ lastRegrant.missing.zip lastRegrant.revoked :=
    List.mem_singleton_self _
  exact not_grantedAbove_lastRegrant _ (hright.revoked _ htaken)

/-- In this run the last grant under the id of the permission does not fit. -/
theorem regrantedFolder_misfit :
    (∀ x ∈ (restoreShared.run regrantedFolder
        (Session.start restoreShared {} false emptyDrive)).2.trace,
        x.call.isPermission → x.failed = false) ∧
      ¬ restoreShared.EachChange regrantedFolder
        (Session.start restoreShared {} false emptyDrive) PermissionChange.LastGrantFits := by
  have hok : ∀ x ∈ (restoreShared.run regrantedFolder
      (Session.start restoreShared {} false emptyDrive)).2.trace,
      x.call.isPermission → x.failed = false :=
    fun x hx _ => (run_regrantedFolder.2 x hx).2
  refine ⟨hok, fun hfits => ?_⟩
  have hall := (Plan.removesRight_iff restoreShared regrantedFolder {} false emptyDrive hok).2.2
    hfits
  have hright := hall firstRegrants lastRegrant [] changes_regrantedFolder
  exact not_grantedAbove_lastRegrant _ (hright.revoked (annMay "read", "perm-4")
    (List.mem_singleton_self _))

end TenantRestore
