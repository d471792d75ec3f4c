/-
# The permissions of the remote service as those of a backup

An entry of the remote service is granted to the first principal it has, in the order of the
kinds, and to no later one, even if the first has no id.  So what is made of a list of entries
is fixed entry by entry: `permissions_eq_iff`.

All permissions made of entries have an id and no email.  Between such permissions agreement is
an equivalence, so their differences can be treated as those of sets, up to agreement:
`RemoteGrant.permissions_form_sets`.
-/
import TenantRestore.Permission.Remote
import TenantRestore.Proofs.Permission.Agreement

namespace TenantRestore

/-! ## The first principal -/

/-- The kinds of principals in the order in which an entry is searched for them. -/
def PrincipalKind.precedence : List PrincipalKind :=
  [.user, .siteUser, .group, .siteGroup, .application, .device]

namespace PrincipalSet

/-- The principal of a kind. -/
def principal? (s : PrincipalSet) : PrincipalKind → Option Principal
  | .user => s.user
  | .siteUser => s.siteUser
  | .group => s.group
  | .siteGroup => s.siteGroup
  | .application => s.application
  | .device => s.device

/-- A principal is there under its kind, and none is there under an earlier kind. -/
def Leads (s : PrincipalSet) (kind : PrincipalKind) (principal : Principal) : Prop :=
  s.principal? kind = some principal ∧
    ∃ earlier later, PrincipalKind.precedence = earlier ++ kind :: later ∧
      ∀ k ∈ earlier, s.principal? k = none

theorem candidates_eq (s : PrincipalSet) :
    s.candidates = PrincipalKind.precedence.map fun kind => (kind, s.principal? kind) := rfl

theorem first?_eq_some_iff {s : PrincipalSet} {kind : PrincipalKind} {principal : Principal} :
    s.first? = some (kind, principal) ↔ s.Leads kind principal := by
  rw [first?, candidates_eq, List.findSome?_map, List.findSome?_eq_some_iff]
  simp only [Function.comp_apply, Option.map_eq_some_iff, Option.map_eq_none_iff, Prod.mk.injEq]
  constructor
  · rintro ⟨earlier, k, later, hkinds, ⟨p, hp, rfl, rfl⟩, hnone⟩
    exact ⟨hp, earlier, later, hkinds, hnone⟩
  · rintro ⟨hp, earlier, later, hkinds, hnone⟩
    exact ⟨earlier, kind, later, hkinds, ⟨principal, hp, rfl, rfl⟩, hnone⟩

end PrincipalSet

namespace RemoteGrant

variable {g : RemoteGrant} {gs xs ys : List RemoteGrant} {p : Permission}

/-! ## Entry by entry -/

/-- An entry is granted to a principal with an id. -/
def GrantedTo (g : RemoteGrant) (kind : PrincipalKind) (id : String) : Prop :=
  ∃ principals principal, g.grantedTo = some principals ∧ principals.Leads kind principal ∧
    principal.id = some id ∧ id ≠ ""

/-- The permission an entry stands for if it is granted to a principal. -/
def toPermission (g : RemoteGrant) (kind : PrincipalKind) (id : String) : Permission where
  id := g.id.getD ""
  roles := g.roles
  entityId := id
  kind := some kind
  expiration := g.expiration

/-- The permissions some entries stand for: one for each entry that is granted to a principal
with an id, in the order of the entries. -/
inductive StandFor : List RemoteGrant → List Permission → Prop
  /-- No entries stand for nothing. -/
  | nil : StandFor [] []
  /-- An entry that is granted to a principal with an id stands for a permission. -/
  | granted {g kind id gs ps} (h : g.GrantedTo kind id) (hrest : StandFor gs ps) :
      StandFor (g :: gs) (g.toPermission kind id :: ps)
  /-- An entry that is not stands for none. -/
  | leftOut {g gs ps} (h : ∀ kind id, ¬ g.GrantedTo kind id) (hrest : StandFor gs ps) :
      StandFor (g :: gs) ps

theorem permission?_eq_some_iff :
    g.permission? = some p ↔ ∃ kind id, g.GrantedTo kind id ∧ p = g.toPermission kind id := by
  simp only [permission?, Option.bind_eq_bind, Option.bind_eq_some_iff,
    Option.ite_none_left_eq_some, Option.some.injEq]
  constructor
  · rintro ⟨principals, hgranted, ⟨kind, principal⟩, hfirst, id, hid, hne, rfl⟩
    exact ⟨kind, id, ⟨principals, principal, hgranted, PrincipalSet.first?_eq_some_iff.1 hfirst,
      hid, hne⟩, rfl⟩
  · rintro ⟨kind, id, ⟨principals, principal, hgranted, hleads, hid, hne⟩, rfl⟩
    exact ⟨principals, hgranted, (kind, principal), PrincipalSet.first?_eq_some_iff.2 hleads, id,
      hid, hne, rfl⟩

theorem permission?_eq_none_iff : g.permission? = none ↔ ∀ kind id, ¬ g.GrantedTo kind id := by
  rw [Option.eq_none_iff_forall_ne_some]
  constructor
  · intro hnone kind id hgranted
    exact hnone _ (permission?_eq_some_iff.2 ⟨kind, id, hgranted, rfl⟩)
  · intro hnone p hp
    obtain ⟨kind, id, hgranted, -⟩ := permission?_eq_some_iff.1 hp
    exact hnone kind id hgranted

theorem standFor_permissions (gs : List RemoteGrant) : StandFor gs (permissions gs) := by
  induction gs with
  | nil => exact .nil
  | cons g gs ih =>
    rw [permissions, List.filterMap_cons]
    cases hp : g.permission? with
    | none => exact .leftOut (permission?_eq_none_iff.1 hp) ih
    | some p =>
      obtain ⟨kind, id, hgranted, rfl⟩ := permission?_eq_some_iff.1 hp
      exact .granted hgranted ih

theorem permissions_eq_iff {ps : List Permission} : permissions gs = ps ↔ StandFor gs ps := by
  constructor
  · rintro rfl
    exact standFor_permissions gs
  · intro h
    induction h with
    | nil => rfl
    | granted hgranted _ ih =>
      have hp := permission?_eq_some_iff.2 ⟨_, _, hgranted, rfl⟩
      rw [permissions, List.filterMap_cons_some hp, ← permissions, ih]
    | leftOut hnone _ ih =>
      rw [permissions, List.filterMap_cons_none (permission?_eq_none_iff.2 hnone), ← permissions,
        ih]

end RemoteGrant

/-! ## Permissions with an id and no email -/

namespace Permission

variable {a b c p q : Permission} {earlier later : List Permission}

/-- Whether a permission names its principal by its id only. -/
structure NamedById (p : Permission) : Prop where
  entityId : p.entityId ≠ ""
  email : p.email = ""

theorem NamedById.hasIdentity (h : p.NamedById) : p.hasIdentity :=
  hasIdentity_iff.2 (.inl h.entityId)

/-- The id is all that such permissions are compared by, and all of them have it. -/
theorem NamedById.agrees_trans (ha : a.NamedById) (hb : b.NamedById) (hc : c.NamedById)
    (hab : a.agrees b) (hbc : b.agrees c) : a.agrees c := by
  refine (agrees_trans_iff hab hbc).2 ⟨⟨.entityId, ha.entityId, hc.entityId⟩, ?_⟩
  refine (agrees_iff_comparable.1 hab).2.1.trans (agrees_iff_comparable.1 hbc).2.1 ?_
  rintro (_ | _) hfirst -
  · exact hb.entityId
  · exact absurd ha.email hfirst

/-- Of the earlier permissions those are left that agree with nothing that was removed. -/
theorem exists_later_of_left (hp : p ∈ earlier) (hidentity : p.hasIdentity)
    (hleft : ∀ r ∈ (difference earlier later).removed, ¬ p.agrees r) :
    ∃ q ∈ later, p.agrees q := by
  have hkept : p ∉ (difference earlier later).removed := fun hremoved =>
    hleft p hremoved (agrees_self hidentity)
  exact (mem_kept.1 (List.mem_filter.2 ⟨hp, by simpa using hkept⟩)).2

/-- What agrees with a later permission agrees with nothing that was removed, since agreement
goes on from the one to the other. -/
theorem left_of_agrees (hnamed : ∀ p ∈ earlier ++ later, p.NamedById) (hp : p ∈ earlier)
    (hq : q ∈ later) (hpq : p.agrees q) :
    ∀ r ∈ (difference earlier later).removed, ¬ p.agrees r := by
  intro r hr hpr
  obtain ⟨hr, hgone⟩ := mem_removed.1 hr
  refine hgone q hq (NamedById.agrees_trans (b := p) (hnamed r (List.mem_append_left _ hr))
    (hnamed p (List.mem_append_left _ hp)) (hnamed q (List.mem_append_right _ hq)) ?_ hpq)
  rwa [agrees_comm]

/-- What is left of the earlier permissions, with what was added, covers the later ones and is
covered by them. -/
theorem left_and_added_cover (hnamed : ∀ p ∈ earlier ++ later, p.NamedById) :
    let d := difference earlier later
    let left := earlier.filter fun p => ∀ r ∈ d.removed, ¬ p.agrees r
    (∀ k ∈ left ++ d.added, ∃ q ∈ later, k.agrees q) ∧
      ∀ q ∈ later, ∃ k ∈ left ++ d.added, q.agrees k := by
  intro d left
  have hlater : ∀ q ∈ later, q.agrees q := fun q hq =>
    agrees_self (hnamed q (List.mem_append_right _ hq)).hasIdentity
  have hleft {p : Permission} : p ∈ left ↔ p ∈ earlier ∧ ∀ r ∈ d.removed, ¬ p.agrees r := by
    simp [left]
  constructor
  · intro k hk
    rcases List.mem_append.1 hk with hk | hk
    · obtain ⟨hk, hnone⟩ := hleft.1 hk
      exact exists_later_of_left hk (hnamed k (List.mem_append_left _ hk)).hasIdentity hnone
    · have hk := (mem_added.1 hk).1
      exact ⟨k, hk, hlater k hk⟩
  · intro q hq
    by_cases hknown : ∃ p ∈ earlier, q.agrees p
    · obtain ⟨p, hp, hqp⟩ := hknown
      have hpq : p.agrees q := by rwa [agrees_comm]
      exact ⟨p, List.mem_append_left _ (hleft.2 ⟨hp, left_of_agrees hnamed hp hq hpq⟩), hqp⟩
    · have hadded := mem_added.2 ⟨hq, fun p hp hqp => hknown ⟨p, hp, hqp⟩⟩
      exact ⟨q, List.mem_append_right _ hadded, hlater q hq⟩

end Permission

namespace RemoteGrant

open Permission (difference)

variable {gs : List RemoteGrant} {p : Permission}

theorem namedById_of_mem (h : p ∈ permissions gs) : p.NamedById := by
  obtain ⟨g, -, hp⟩ := List.mem_filterMap.1 h
  obtain ⟨kind, id, ⟨-, -, -, -, -, hne⟩, rfl⟩ := permission?_eq_some_iff.1 hp
  exact ⟨hne, rfl⟩

/-- The permissions made of entries are those the entries stand for.  Agreement is an equivalence
between all permissions that are made of entries, and what is left of those of some entries by
the difference to those of others, with what was added, covers these and is covered by them. -/
theorem permissions_form_sets (gs xs ys : List RemoteGrant) :
    let d := difference (permissions xs) (permissions ys)
    let left := (permissions xs).filter fun p => ∀ r ∈ d.removed, ¬ p.agrees r
    (∀ ps, permissions gs = ps ↔ StandFor gs ps) ∧
    Equivalence (fun p q : { p : Permission // ∃ gs, p ∈ permissions gs } => p.1.agrees q.1) ∧
    (∀ k ∈ left ++ d.added, ∃ q ∈ permissions ys, k.agrees q) ∧
    ∀ q ∈ permissions ys, ∃ k ∈ left ++ d.added, q.agrees k := by
  intro d left
  have hnamed (p : { p : Permission // ∃ gs, p ∈ permissions gs }) : p.1.NamedById := by
    obtain ⟨p, gs, hp⟩ := p
    exact namedById_of_mem hp
  refine ⟨fun ps => permissions_eq_iff, ⟨?_, ?_, ?_⟩, Permission.left_and_added_cover ?_⟩
  · exact fun p => Permission.agrees_self (hnamed p).hasIdentity
  · intro p q hpq
    rwa [Permission.agrees_comm]
  · exact fun {p q r} hpq hqr => (hnamed p).agrees_trans (hnamed q) (hnamed r) hpq hqr
  · intro p hp
    rcases List.mem_append.1 hp with hp | hp
    · exact namedById_of_mem hp
    · exact namedById_of_mem hp

/-- A user without an id hides the group behind it. -/
example :
    permissions [{ grantedTo := some { user := some {}, group := some { id := "staff" } } },
      { id := "1", grantedTo := some { group := some { id := "staff" } } }] =
      [{ id := "1", entityId := "staff", kind := some .group }] := by decide

end RemoteGrant

end TenantRestore
