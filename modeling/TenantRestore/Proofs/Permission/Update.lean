/-
# Changing permissions, call by call

Whoever answers, a change of permissions takes a course that is told by its calls and their
answers: permissions are taken back by the ids they have in the table the change starts with,
and only when that has come to its end are permissions granted.  Each of the two phases can end
early, at the first permission that can't be dealt with; these are the constructors of
`TakesBack` and of `Grants`.

The new ids are those of the grants that returned one, whatever came after them:
`Updater.update_course`.
-/
import Mathlib.Data.List.Induction
import Mathlib.Tactic.Common
import TenantRestore.Permission.Restore
import TenantRestore.Remote.Call

namespace TenantRestore

/-! ## Permissions that can be granted -/

namespace Permission

/-- A permission can be granted if it has a role besides that of an owner, belongs to no group
of a site, and names its principal. -/
def IsGrantable (p : Permission) : Prop :=
  (∃ r ∈ p.roles, r ≠ ownerRole) ∧ p.kind ≠ some .siteGroup ∧ (p.entityId ≠ "" ∨ p.email ≠ "")

instance : DecidablePred IsGrantable := fun p =>
  inferInstanceAs (Decidable ((∃ r ∈ p.roles, r ≠ ownerRole) ∧ p.kind ≠ some .siteGroup ∧
    (p.entityId ≠ "" ∨ p.email ≠ "")))

/-- The invitation a permission is granted by. -/
def invitation (p : Permission) : Invitation where
  roles := p.roles.filter fun r => r ≠ ownerRole
  recipient := if p.entityId = "" then .email p.email else .objectId p.entityId
  expiration := p.expiration

theorem recipient?_eq (p : Permission) :
    p.recipient? =
      if p.entityId ≠ "" ∨ p.email ≠ "" then some p.invitation.recipient else none := by
  by_cases hid : p.entityId = "" <;> by_cases hemail : p.email = "" <;>
    simp [recipient?, invitation, hid, hemail]

/-- The permissions that are granted are those that can be granted. -/
theorem invitation?_eq (p : Permission) :
    p.invitation? = if p.IsGrantable then some p.invitation else none := by
  by_cases hrole : ∃ r ∈ p.roles, r ≠ ownerRole
  · by_cases hkind : p.kind = some .siteGroup
    · rw [if_neg fun h => h.2.1 hkind]
      simp [invitation?, hkind]
    · have hgoes : (p.restorableRoles.isEmpty || p.kind = some .siteGroup) = false := by
        simpa [restorableRoles, hkind] using hrole
      rw [invitation?, hgoes, if_neg Bool.false_ne_true, recipient?_eq]
      by_cases hprincipal : p.entityId ≠ "" ∨ p.email ≠ ""
      · rw [if_pos hprincipal, if_pos ⟨hrole, hkind, hprincipal⟩]
        rfl
      · rw [if_neg hprincipal, if_neg fun h => hprincipal h.2.2]
        rfl
  · rw [if_neg fun h => hrole h.1]
    have hempty : p.restorableRoles.isEmpty = true := by
      simpa [restorableRoles] using hrole
    simp [invitation?, hempty]

end Permission

/-- An invitation is proper if it offers some roles, but not that of an owner, to somebody. -/
structure Invitation.Proper (i : Invitation) : Prop where
  some_role : i.roles ≠ []
  no_owner : ownerRole ∉ i.roles
  somebody : i.recipient ≠ .email "" ∧ i.recipient ≠ .objectId ""

theorem Permission.IsGrantable.proper {p : Permission} (h : p.IsGrantable) :
    p.invitation.Proper where
  some_role := by simpa [invitation] using h.1
  no_owner := by simp [invitation]
  somebody := by
    by_cases hid : p.entityId = ""
    · have hemail : p.email ≠ "" := h.2.2.resolve_left (not_not_intro hid)
      simp [invitation, hid, hemail]
    · simp [invitation, hid]

/-! ## The course of a change -/

/-- Record the new ids of some grants. -/
def recordGrants (ids : Table String String) (granted : List (Permission × String)) :
    Table String String :=
  granted.foldl (fun ids g => ids.insert g.1.id g.2) ids

theorem recordGrants_append (ids : Table String String) (gs gs' : List (Permission × String)) :
    recordGrants ids (gs ++ gs') = recordGrants (recordGrants ids gs) gs' :=
  List.foldl_append

/-- An id is found where it was recorded last, and elsewhere where it was before. -/
theorem find?_recordGrants (ids : Table String String) (granted : List (Permission × String))
    (id : String) :
    (recordGrants ids granted).find? id =
      ((granted.reverse.find? fun g => g.1.id = id).map Prod.snd).or (ids.find? id) := by
  induction granted using List.reverseRecOn with
  | nil => rfl
  | append_singleton granted g ih =>
    rw [recordGrants_append, List.reverse_append, List.reverse_singleton, List.singleton_append]
    change ((recordGrants ids granted).insert g.1.id g.2).find? id = _
    rw [Table.find?_insert]
    by_cases hid : g.1.id = id
    · rw [if_pos hid, List.find?_cons_of_pos (by simpa using hid)]
      rfl
    · rw [if_neg hid, List.find?_cons_of_neg (by simpa using hid), ih]

/-- The exchange in which a permission was taken back by an id. -/
def Exchange.revocation (drive item : String) (g : Permission × String) : Exchange :=
  ⟨.drive (.revoke drive item g.2), .ok ()⟩

/-- The exchange in which a permission was granted and got an id. -/
def Exchange.grant (drive item : String) (g : Permission × String) : Exchange :=
  ⟨.drive (.grant drive item g.1.invitation), .ok (some g.2)⟩

variable {σ : Type} {u : Updater (StateM σ)} {drive item : String} {ids : Table String String}
  {p : Permission} {ps : List Permission} {made made' : List Exchange} {s t v : σ}

/-- How permissions are taken back, with the exchanges this takes and the result. -/
inductive TakesBack (drive item : String) (ids : Table String String) :
    List Permission → List Exchange → Except Fault Unit → Prop
  /-- All are taken back by their new ids. -/
  | all (taken : List (Permission × String)) (hids : ∀ g ∈ taken, ids.find? g.1.id = some g.2) :
      TakesBack drive item ids (taken.map Prod.fst) (taken.map (.revocation drive item)) (.ok ())
  /-- After some of them comes one that has no new id. -/
  | unknown (taken : List (Permission × String)) (p : Permission) (rest : List Permission)
      (hids : ∀ g ∈ taken, ids.find? g.1.id = some g.2) (hp : ids.find? p.id = none) :
      TakesBack drive item ids (taken.map Prod.fst ++ p :: rest)
        (taken.map (.revocation drive item)) (.error (.noNewPermissionId p.id))
  /-- After some of them comes one that is not given back. -/
  | refused (taken : List (Permission × String)) (p : Permission) (rest : List Permission)
      (id : String) (f : Failure) (hids : ∀ g ∈ taken, ids.find? g.1.id = some g.2)
      (hp : ids.find? p.id = some id) :
      TakesBack drive item ids (taken.map Prod.fst ++ p :: rest)
        (taken.map (.revocation drive item) ++ [⟨.drive (.revoke drive item id), .error f⟩])
        (.error (.remote f))

/-- How permissions are granted, with the exchanges this takes, the grants that returned an id,
and the result. -/
inductive Grants (drive item : String) :
    List Permission → List Exchange → List (Permission × String) → Except Fault Unit → Prop
  /-- All are granted and get an id. -/
  | all (granted : List (Permission × String)) :
      Grants drive item (granted.map Prod.fst) (granted.map (.grant drive item)) granted (.ok ())
  /-- After some of them comes one that is refused. -/
  | refused (granted : List (Permission × String)) (p : Permission) (rest : List Permission)
      (f : Failure) :
      Grants drive item (granted.map Prod.fst ++ p :: rest)
        (granted.map (.grant drive item) ++ [⟨.drive (.grant drive item p.invitation), .error f⟩])
        granted (.error (.remote f))
  /-- After some of them comes one for which no id is returned. -/
  | nameless (granted : List (Permission × String)) (p : Permission) (rest : List Permission) :
      Grants drive item (granted.map Prod.fst ++ p :: rest)
        (granted.map (.grant drive item) ++ [⟨.drive (.grant drive item p.invitation), .ok none⟩])
        granted (.error (.noPermissionIdReturned item))

/-- How the permissions of an item are changed. -/
inductive Updates (drive item : String) (change : Permission.Difference)
    (ids : Table String String) :
    List Exchange → List (Permission × String) → Except Fault Unit → Prop
  /-- Not all removed permissions can be taken back, and none is granted. -/
  | stopped {made : List Exchange} {f : Fault}
      (hremoved : TakesBack drive item ids change.removed made (.error f)) :
      Updates drive item change ids made [] (.error f)
  /-- All removed permissions are taken back, and then those that can be granted are granted. -/
  | granting {made made' : List Exchange} {granted : List (Permission × String)}
      {r : Except Fault Unit} (hremoved : TakesBack drive item ids change.removed made (.ok ()))
      (hadded : Grants drive item (change.added.filter fun p => p.IsGrantable) made' granted r) :
      Updates drive item change ids (made ++ made') granted r

theorem TakesBack.cons {id : String} {r : Except Fault Unit} (hid : ids.find? p.id = some id)
    (h : TakesBack drive item ids ps made r) :
    TakesBack drive item ids (p :: ps) (.revocation drive item (p, id) :: made) r := by
  have hcons {taken : List (Permission × String)}
      (hids : ∀ g ∈ taken, ids.find? g.1.id = some g.2) :
      ∀ g ∈ (p, id) :: taken, ids.find? g.1.id = some g.2 := List.forall_mem_cons.2 ⟨hid, hids⟩
  cases h with
  | all taken hids => exact .all ((p, id) :: taken) (hcons hids)
  | unknown taken q rest hids hq => exact .unknown ((p, id) :: taken) q rest (hcons hids) hq
  | refused taken q rest id' f hids hq =>
    exact .refused ((p, id) :: taken) q rest id' f (hcons hids) hq

theorem Grants.cons {granted : List (Permission × String)} {r : Except Fault Unit} (id : String)
    (h : Grants drive item ps made granted r) :
    Grants drive item (p :: ps) (.grant drive item (p, id) :: made) ((p, id) :: granted) r := by
  cases h with
  | all => exact .all ((p, id) :: granted)
  | refused _ q rest f => exact .refused ((p, id) :: granted) q rest f
  | nameless _ q rest => exact .nameless ((p, id) :: granted) q rest

theorem TakesBack.not_grant {r : Except Fault Unit} (h : TakesBack drive item ids ps made r)
    {x : Exchange} (hx : x ∈ made) (d i : String) (invitation : Invitation) :
    x.call ≠ .drive (.grant d i invitation) := by
  have hrevocation {taken : List (Permission × String)}
      (hx : x ∈ taken.map (.revocation drive item)) : x.call ≠ .drive (.grant d i invitation) := by
    obtain ⟨g, -, rfl⟩ := List.mem_map.1 hx
    rintro ⟨⟩
  cases h with
  | all => exact hrevocation hx
  | unknown => exact hrevocation hx
  | refused =>
    rcases List.mem_append.1 hx with hx | hx
    · exact hrevocation hx
    · rw [List.mem_singleton.1 hx]
      rintro ⟨⟩

/-- All invitations are those of the permissions to grant. -/
theorem Grants.eq_invitation {granted : List (Permission × String)} {r : Except Fault Unit}
    (h : Grants drive item ps made granted r) {x : Exchange} (hx : x ∈ made) {d i : String}
    {invitation : Invitation} (hcall : x.call = .drive (.grant d i invitation)) :
    ∃ p ∈ ps, invitation = p.invitation := by
  have hgrant {granted : List (Permission × String)}
      (hx : x ∈ granted.map (.grant drive item)) :
      ∃ p ∈ granted.map Prod.fst, invitation = p.invitation := by
    obtain ⟨g, hg, rfl⟩ := List.mem_map.1 hx
    cases hcall
    exact ⟨g.1, List.mem_map_of_mem hg, rfl⟩
  -- the last call may have got no id
  have hlast {granted : List (Permission × String)} {p : Permission} {rest : List Permission}
      {answer : Except Failure (Option String)}
      (hx : x ∈ granted.map (.grant drive item) ++
        [⟨.drive (.grant drive item p.invitation), answer⟩]) :
      ∃ q ∈ granted.map Prod.fst ++ p :: rest, invitation = q.invitation := by
    rcases List.mem_append.1 hx with hx | hx
    · obtain ⟨q, hq, hqi⟩ := hgrant hx
      exact ⟨q, List.mem_append_left _ hq, hqi⟩
    · rw [List.mem_singleton.1 hx] at hcall
      cases hcall
      exact ⟨p, List.mem_append_right _ (List.mem_cons_self ..), rfl⟩
  cases h with
  | all => exact hgrant hx
  | refused => exact hlast hx
  | nameless => exact hlast hx

/-- However a change of permissions ends, it only sends proper invitations. -/
theorem Updates.proper {change : Permission.Difference} {granted : List (Permission × String)}
    {r : Except Fault Unit} (h : Updates drive item change ids made granted r) {x : Exchange}
    (hx : x ∈ made) {d i : String} {invitation : Invitation}
    (hcall : x.call = .drive (.grant d i invitation)) : invitation.Proper := by
  cases h with
  | stopped hremoved => exact absurd hcall (hremoved.not_grant hx d i invitation)
  | granting hremoved hadded =>
    rcases List.mem_append.1 hx with hx | hx
    · exact absurd hcall (hremoved.not_grant hx d i invitation)
    · obtain ⟨p, hp, rfl⟩ := hadded.eq_invitation hx hcall
      have hgrantable : p.IsGrantable := by simpa using (List.mem_filter.1 hp).2
      exact hgrantable.proper

/-! ## Updaters -/

namespace Updater

/-- An updater comes from a state to another one by answering some calls. -/
inductive Exchanges (u : Updater (StateM σ)) : σ → List Exchange → σ → Prop
  /-- There are no calls. -/
  | done (s : σ) : u.Exchanges s [] s
  /-- It is asked to take back a permission, and then further calls are made. -/
  | revoke {drive item id : String} {answer : Except Failure Unit} {s t v : σ}
      {made : List Exchange} (h : u.revoke drive item id s = (answer, t))
      (rest : u.Exchanges t made v) :
      u.Exchanges s (⟨.drive (.revoke drive item id), answer⟩ :: made) v
  /-- It is asked to grant a permission, and then further calls are made. -/
  | grant {drive item : String} {invitation : Invitation}
      {answer : Except Failure (Option String)} {s t v : σ} {made : List Exchange}
      (h : u.grant drive item invitation s = (answer, t)) (rest : u.Exchanges t made v) :
      u.Exchanges s (⟨.drive (.grant drive item invitation), answer⟩ :: made) v

theorem Exchanges.append (h : u.Exchanges s made t) (h' : u.Exchanges t made' v) :
    u.Exchanges s (made ++ made') v := by
  induction h with
  | done => exact h'
  | revoke hcall _ ih => exact .revoke hcall (ih h')
  | grant hcall _ ih => exact .grant hcall (ih h')

/-- An updater keeps a log of the calls it answers. -/
structure Logs (u : Updater (StateM σ)) (log : σ → List Exchange) : Prop where
  revoke : ∀ drive item id s, log (u.revoke drive item id s).2 =
    log s ++ [⟨.drive (.revoke drive item id), (u.revoke drive item id s).1⟩]
  grant : ∀ drive item invitation s, log (u.grant drive item invitation s).2 =
    log s ++ [⟨.drive (.grant drive item invitation), (u.grant drive item invitation s).1⟩]

/-- The calls by which an updater comes to a state are those its log shows. -/
theorem Logs.eq_append {log : σ → List Exchange} (hlog : u.Logs log) (h : u.Exchanges s made t) :
    log t = log s ++ made := by
  induction h with
  | done => simp
  | @revoke drive item id _ s _ _ _ hcall _ ih =>
    have hentry := hlog.revoke drive item id s
    rw [hcall] at hentry
    rw [ih, hentry, List.append_assoc]
    rfl
  | @grant drive item invitation _ s _ _ _ hcall _ ih =>
    have hentry := hlog.grant drive item invitation s
    rw [hcall] at hentry
    rw [ih, hentry, List.append_assoc]
    rfl

theorem revokeAll_cons_none (h : ids.find? p.id = none) (ps : List Permission) :
    u.revokeAll drive item ids (p :: ps) s = (.error (.noNewPermissionId p.id), s) := by
  rw [revokeAll, h]
  rfl

theorem revokeAll_cons_some {id : String} (h : ids.find? p.id = some id) (ps : List Permission) :
    u.revokeAll drive item ids (p :: ps) s =
      match u.revoke drive item id s with
      | (.error f, t) => (.error (.remote f), t)
      | (.ok (), t) => u.revokeAll drive item ids ps t := by
  rw [revokeAll, h]
  simp only [bind, StateT.bind]
  rcases u.revoke drive item id s with ⟨f | ⟨⟩, t⟩ <;> rfl

theorem grantAll_cons_none (h : ¬ p.IsGrantable) (ps : List Permission) :
    u.grantAll drive item ids (p :: ps) s = u.grantAll drive item ids ps s := by
  rw [grantAll, Permission.invitation?_eq, if_neg h]

theorem grantAll_cons_some (h : p.IsGrantable) (ps : List Permission) :
    u.grantAll drive item ids (p :: ps) s =
      match u.grant drive item p.invitation s with
      | (.error f, t) => ((.error (.remote f), ids), t)
      | (.ok none, t) => ((.error (.noPermissionIdReturned item), ids), t)
      | (.ok (some id), t) => u.grantAll drive item (ids.insert p.id id) ps t := by
  rw [grantAll, Permission.invitation?_eq, if_pos h]
  simp only [bind, StateT.bind]
  rcases u.grant drive item p.invitation s with ⟨f | _ | id, t⟩ <;> rfl

theorem update_run (change : Permission.Difference) :
    u.update drive item change ids s =
      match u.revokeAll drive item ids change.removed s with
      | (.error f, t) => ((.error f, ids), t)
      | (.ok (), t) => u.grantAll drive item ids change.added t := by
  simp only [update, bind, StateT.bind]
  rcases u.revokeAll drive item ids change.removed s with ⟨f | ⟨⟩, t⟩ <;> rfl

theorem revokeAll_takesBack (u : Updater (StateM σ)) (drive item : String)
    (ids : Table String String) (ps : List Permission) (s : σ) :
    ∃ made r t, u.revokeAll drive item ids ps s = (r, t) ∧ u.Exchanges s made t ∧
      TakesBack drive item ids ps made r := by
  induction ps generalizing s with
  | nil => exact ⟨[], .ok (), s, rfl, .done s, .all [] (by simp)⟩
  | cons p ps ih =>
    cases hid : ids.find? p.id with
    | none =>
      exact ⟨[], _, s, revokeAll_cons_none hid ps, .done s, .unknown [] p ps (by simp) hid⟩
    | some id =>
      rw [revokeAll_cons_some hid]
      rcases hcall : u.revoke drive item id s with ⟨f | ⟨⟩, t⟩
      · exact ⟨_, _, t, rfl, .revoke hcall (.done t), .refused [] p ps id f (by simp) hid⟩
      · obtain ⟨made, r, v, hrun, hmade, htakes⟩ := ih t
        exact ⟨_, r, v, hrun, .revoke hcall hmade, htakes.cons hid⟩

theorem grantAll_grants (u : Updater (StateM σ)) (drive item : String)
    (ids : Table String String) (ps : List Permission) (s : σ) :
    ∃ made granted r t,
      u.grantAll drive item ids ps s = ((r, recordGrants ids granted), t) ∧
      u.Exchanges s made t ∧
      Grants drive item (ps.filter fun p => p.IsGrantable) made granted r := by
  induction ps generalizing ids s with
  | nil => exact ⟨[], [], .ok (), s, rfl, .done s, .all []⟩
  | cons p ps ih =>
    by_cases hp : p.IsGrantable
    · rw [grantAll_cons_some hp, List.filter_cons_of_pos (by simpa using hp)]
      rcases hcall : u.grant drive item p.invitation s with ⟨f | _ | id, t⟩
      · exact ⟨_, [], _, t, rfl, .grant hcall (.done t), .refused [] p _ f⟩
      · exact ⟨_, [], _, t, rfl, .grant hcall (.done t), .nameless [] p _⟩
      · -- the id is recorded before the next permission is granted
        obtain ⟨made, granted, r, v, hrun, hmade, hgrants⟩ := ih (ids.insert p.id id) t
        exact ⟨_, (p, id) :: granted, r, v, hrun, .grant hcall hmade, hgrants.cons id⟩
    · rw [grantAll_cons_none hp, List.filter_cons_of_neg (by simpa using hp)]
      exact ih ids s

/-- A change of permissions takes its course whoever answers the calls, and however it ends,
the new ids are those of the grants that returned one. -/
theorem update_course (u : Updater (StateM σ)) (drive item : String)
    (change : Permission.Difference) (ids : Table String String) (s : σ) :
    ∃ made granted r t,
      u.update drive item change ids s = ((r, recordGrants ids granted), t) ∧
      u.Exchanges s made t ∧
      (∀ log : σ → List Exchange, u.Logs log → log t = log s ++ made) ∧
      Updates drive item change ids made granted r ∧
      (∀ x ∈ made, ∀ (d i : String) (invitation : Invitation),
        x.call = .drive (.grant d i invitation) → invitation.Proper) ∧
      ∀ id, (recordGrants ids granted).find? id =
        ((granted.reverse.find? fun g => g.1.id = id).map Prod.snd).or (ids.find? id) := by
  rw [update_run]
  obtain ⟨made, r, t, hrun, hmade, hremoved⟩ :=
    u.revokeAll_takesBack drive item ids change.removed s
  rw [hrun]
  rcases r with f | ⟨⟩
  · -- nothing is granted, and the ids stay
    have hupdates : Updates drive item change ids made [] (.error f) := .stopped hremoved
    exact ⟨made, [], .error f, t, rfl, hmade, fun log hlog => hlog.eq_append hmade, hupdates,
      fun x hx d i invitation => hupdates.proper hx, find?_recordGrants ids []⟩
  · obtain ⟨made', granted, r, v, hrun', hmade', hadded⟩ :=
      u.grantAll_grants drive item ids change.added t
    have hall : u.Exchanges s (made ++ made') v := hmade.append hmade'
    have hupdates : Updates drive item change ids (made ++ made') granted r :=
      .granting hremoved hadded
    exact ⟨made ++ made', granted, r, v, hrun', hall, fun log hlog => hlog.eq_append hall,
      hupdates, fun x hx d i invitation => hupdates.proper hx, find?_recordGrants ids granted⟩

end Updater

end TenantRestore
