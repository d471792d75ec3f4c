/-
# Agreement and differences of permissions

Two permissions agree if they share an identifier, are equal in all identifiers they share, and
grant the same roles.  Agreement is symmetric, but a permission that names nobody does not even
agree with itself, and one with both an id and an email may agree with two that do not agree
with each other.  What is missing for a law of transitivity are the identifiers that the first
and the last permission have and the one between them does not: `agreement_laws`.

So the difference of two lists can't be treated as one of sets.  What holds of it nevertheless
is `difference_parts`: what was added and what was removed are apart from each other, and, if
all permissions name their principals, keeping what was not removed and adding what was added
comes to the later list.
-/
import Mathlib.Data.List.Forall2
import Mathlib.Tactic.Common
import TenantRestore.Permission.Diff

namespace TenantRestore

namespace Permission

variable {a b p q : Permission} {ps qs others : List Permission}

/-! ## Agreement -/

theorem sameRoles_iff {roles roles' : List String} :
    sameRoles roles roles' ↔ ∀ r, r ∈ roles ↔ r ∈ roles' := by
  simp only [sameRoles, Bool.and_eq_true, List.all_eq_true, List.contains_iff_mem]
  constructor
  · rintro ⟨hto, hfrom⟩ r
    exact ⟨hto r, hfrom r⟩
  · intro h
    exact ⟨fun r => (h r).1, fun r => (h r).2⟩

/-- What agreement says of ids, of emails and of roles. -/
theorem agrees_iff :
    a.agrees b ↔
      (a.entityId ≠ "" ∧ b.entityId ≠ "" ∨ a.email ≠ "" ∧ b.email ≠ "") ∧
      (a.entityId ≠ "" → b.entityId ≠ "" → a.entityId = b.entityId) ∧
      (a.email ≠ "" → b.email ≠ "" → a.email = b.email) ∧
      ∀ r, r ∈ a.roles ↔ r ∈ b.roles := by
  have hshared : sharedIdentifiers a b ≠ [] ↔
      a.entityId ≠ "" ∧ b.entityId ≠ "" ∨ a.email ≠ "" ∧ b.email ≠ "" := by
    rw [ne_eq, sharedIdentifiers, List.filter_eq_nil_iff]
    simp only [List.mem_cons, List.not_mem_nil, or_false, forall_eq_or_imp, forall_eq,
      decide_eq_true_eq]
    exact Decidable.not_and_iff_not_or_not.trans (or_congr Decidable.not_not Decidable.not_not)
  have hequal : (∀ x ∈ sharedIdentifiers a b, x.1 = x.2) ↔
      (a.entityId ≠ "" → b.entityId ≠ "" → a.entityId = b.entityId) ∧
      (a.email ≠ "" → b.email ≠ "" → a.email = b.email) := by
    simp only [sharedIdentifiers, List.mem_filter, List.mem_cons, List.not_mem_nil, or_false,
      and_imp, forall_eq_or_imp, forall_eq, decide_eq_true_eq]
  calc (a.agrees b : Prop)
      ↔ sharedIdentifiers a b ≠ [] ∧ (∀ x ∈ sharedIdentifiers a b, x.1 = x.2) ∧
          sameRoles a.roles b.roles := by simp [agrees, and_assoc]
    _ ↔ _ := by rw [hshared, hequal, sameRoles_iff, and_assoc]

theorem agrees_comm : a.agrees b = b.agrees a := by
  rw [Bool.eq_iff_iff, agrees_iff, agrees_iff]
  -- each of the four parts is symmetric
  refine and_congr ?_ (and_congr ?_ (and_congr ?_ ?_))
  · rw [and_comm, and_comm (a := a.email ≠ "")]
  · exact ⟨fun h hb ha => (h ha hb).symm, fun h ha hb => (h hb ha).symm⟩
  · exact ⟨fun h hb ha => (h ha hb).symm, fun h ha hb => (h hb ha).symm⟩
  · exact ⟨fun h r => (h r).symm, fun h r => (h r).symm⟩

theorem hasIdentity_iff : p.hasIdentity ↔ p.entityId ≠ "" ∨ p.email ≠ "" := by
  simp [hasIdentity]

/-- A permission that names its principal agrees with itself, whatever the order of its
roles. -/
theorem agrees_of_perm (h : p.hasIdentity) {roles : List String} (hroles : roles.Perm p.roles) :
    p.agrees { p with roles } := by
  refine agrees_iff.2 ⟨?_, fun _ _ => rfl, fun _ _ => rfl, fun r => hroles.mem_iff.symm⟩
  exact (hasIdentity_iff.1 h).imp (fun h => ⟨h, h⟩) fun h => ⟨h, h⟩

theorem agrees_self (h : p.hasIdentity) : p.agrees p := agrees_of_perm h (List.Perm.refl _)

/-! ## Identifiers -/

/-- What may name the principal of a permission. -/
inductive Identifier
  /-- The id of the principal. -/
  | entityId
  /-- The email of the principal. -/
  | email

/-- An identifier of a permission, empty if the permission does not have it. -/
def identifier (p : Permission) : Identifier → String
  | .entityId => p.entityId
  | .email => p.email

/-- Whether a permission has an identifier. -/
def Has (p : Permission) (i : Identifier) : Prop := p.identifier i ≠ ""

/-- Whether two permissions both have some identifier. -/
def Comparable (a b : Permission) : Prop := ∃ i, a.Has i ∧ b.Has i

/-- Whether two permissions are equal in all identifiers which both have. -/
def Concurs (a b : Permission) : Prop :=
  ∀ i, a.Has i → b.Has i → a.identifier i = b.identifier i

/-- A permission is restated with the same identifiers and the same set of roles: its id, kind
and expiration may be others, and its roles may be repeated and stand in another order. -/
structure Restates (p q : Permission) : Prop where
  entityId : q.entityId = p.entityId
  email : q.email = p.email
  roles : ∀ r, r ∈ q.roles ↔ r ∈ p.roles

theorem agrees_iff_comparable :
    a.agrees b ↔ a.Comparable b ∧ a.Concurs b ∧ ∀ r, r ∈ a.roles ↔ r ∈ b.roles := by
  have hcomparable : a.Comparable b ↔
      a.entityId ≠ "" ∧ b.entityId ≠ "" ∨ a.email ≠ "" ∧ b.email ≠ "" := by
    constructor
    · rintro ⟨_ | _, h⟩
      · exact .inl h
      · exact .inr h
    · rintro (h | h)
      · exact ⟨.entityId, h⟩
      · exact ⟨.email, h⟩
  have hconcurs : a.Concurs b ↔
      (a.entityId ≠ "" → b.entityId ≠ "" → a.entityId = b.entityId) ∧
      (a.email ≠ "" → b.email ≠ "" → a.email = b.email) := by
    constructor
    · exact fun h => ⟨h .entityId, h .email⟩
    · rintro ⟨hid, hemail⟩ (_ | _)
      · exact hid
      · exact hemail
  rw [agrees_iff, hcomparable, hconcurs, and_assoc]

theorem Restates.agrees {a' b' : Permission} (ha : a.Restates a') (hb : b.Restates b') :
    a'.agrees b' = a.agrees b := by
  rw [Bool.eq_iff_iff, agrees_iff, agrees_iff, ha.entityId, ha.email, hb.entityId, hb.email]
  simp only [ha.roles, hb.roles]

/-- The roles of three permissions go together, so only the identifiers of the first and the
last are left to compare. -/
theorem agrees_trans_iff (hab : a.agrees b) (hbc : b.agrees c) :
    a.agrees c ↔ a.Comparable c ∧ a.Concurs c := by
  obtain ⟨-, -, hroles⟩ := agrees_iff_comparable.1 hab
  obtain ⟨-, -, hroles'⟩ := agrees_iff_comparable.1 hbc
  rw [agrees_iff_comparable]
  constructor
  · rintro ⟨hcomparable, hconcurs, -⟩
    exact ⟨hcomparable, hconcurs⟩
  · rintro ⟨hcomparable, hconcurs⟩
    exact ⟨hcomparable, hconcurs, fun r => (hroles r).trans (hroles' r)⟩

/-- What the first and the last of three permissions have is compared by way of the one between
them, if that has it. -/
theorem Concurs.trans (hab : a.Concurs b) (hbc : b.Concurs c)
    (hbetween : ∀ i, a.Has i → c.Has i → b.Has i) : a.Concurs c := by
  intro i ha hc
  have hb := hbetween i ha hc
  exact (hab i ha hb).trans (hbc i hb hc)

/-- The laws of agreement.  It is symmetric, and reflexive where a permission has an identifier;
it looks at the identifiers and the set of roles only.  It is transitive just as far as the first
and the last permission can be compared and concur, and they concur if the permission between
them has all identifiers they share. -/
theorem agreement_laws (a b c : Permission) :
    a.agrees b = b.agrees a ∧
    (a.agrees a ↔ a.entityId ≠ "" ∨ a.email ≠ "") ∧
    (∀ a' b', a.Restates a' → b.Restates b' → a'.agrees b' = a.agrees b) ∧
    (a.agrees b → b.agrees c →
      (a.agrees c ↔ a.Comparable c ∧ a.Concurs c) ∧
      (a.Comparable c → (∀ i, a.Has i → c.Has i → b.Has i) → a.Concurs c ∧ a.agrees c)) := by
  refine ⟨agrees_comm, ⟨fun h => ?_, fun h => agrees_self (hasIdentity_iff.2 h)⟩,
    fun a' b' ha hb => ha.agrees hb, fun hab hbc => ⟨agrees_trans_iff hab hbc, ?_⟩⟩
  · exact (agrees_iff.1 h).1.imp And.left And.left
  · intro hcomparable hbetween
    have hconcurs := (agrees_iff_comparable.1 hab).2.1.trans (agrees_iff_comparable.1 hbc).2.1
      hbetween
    exact ⟨hconcurs, (agrees_trans_iff hab hbc).2 ⟨hcomparable, hconcurs⟩⟩

/-- A permission with an email only agrees with two whose ids differ. -/
example :
    let old : Permission := { email := "ann@b.c" }
    agrees { entityId := "ann", email := "ann@b.c" } old ∧
      agrees old { entityId := "bob", email := "ann@b.c" } ∧
      ¬ agrees { entityId := "ann", email := "ann@b.c" }
        { entityId := "bob", email := "ann@b.c" } := by decide

/-! ## Differences -/

theorem mem_without : p ∈ without ps others ↔ p ∈ ps ∧ ∀ q ∈ others, ¬ p.agrees q := by
  simp [without]

theorem without_eq_nil_iff : without ps others = [] ↔ ∀ p ∈ ps, ∃ q ∈ others, p.agrees q := by
  simp [without]

theorem without_self (h : ∀ p ∈ ps, p.hasIdentity) : without ps ps = [] :=
  without_eq_nil_iff.2 fun p hp => ⟨p, hp, agrees_self (h p hp)⟩

/-- A permission is left out for what it is and not for where it stands, so it is either left
out everywhere or nowhere. -/
theorem filter_mem_without : ps.filter (fun p => p ∈ without ps others) = without ps others := by
  conv_rhs => rw [without]
  refine List.filter_congr fun p hp => ?_
  rw [Bool.eq_iff_iff, decide_eq_true_eq, mem_without]
  simp [hp]

/-- A permission is another one with its roles in some order. -/
def Reorders (p q : Permission) : Prop :=
  ∃ roles : List String, roles.Perm p.roles ∧ q = { p with roles }

/-- A list is another one in some order, with the roles of each permission in some order. -/
def Shuffles (ps qs : List Permission) : Prop :=
  ∃ shuffled, ps.Perm shuffled ∧ List.Forall₂ Reorders shuffled qs

theorem Reorders.agrees (h : Reorders p q) (hp : p.hasIdentity) : p.agrees q := by
  obtain ⟨roles, hroles, rfl⟩ := h
  exact agrees_of_perm hp hroles

/-- Every permission agrees with what it becomes when its list is shuffled. -/
theorem Shuffles.agrees (h : Shuffles ps qs) (hps : ∀ p ∈ ps, p.hasIdentity) :
    (∀ p ∈ ps, ∃ q ∈ qs, p.agrees q) ∧ ∀ q ∈ qs, ∃ p ∈ ps, q.agrees p := by
  obtain ⟨shuffled, hperm, hreorders⟩ := h
  simp only [hperm.mem_iff] at hps ⊢
  clear hperm
  induction hreorders with
  | nil => simp
  | @cons p q shuffled qs hpq _ ih =>
    obtain ⟨hp, hps⟩ := List.forall_mem_cons.1 hps
    obtain ⟨hto, hfrom⟩ := ih hps
    have hagrees := hpq.agrees hp
    constructor
    · rintro p' (_ | ⟨_, hp'⟩)
      · exact ⟨q, List.mem_cons_self .., hagrees⟩
      · obtain ⟨q', hq', h⟩ := hto p' hp'
        exact ⟨q', List.mem_cons_of_mem _ hq', h⟩
    · rintro q' (_ | ⟨_, hq'⟩)
      · exact ⟨p, List.mem_cons_self .., agrees_comm ▸ hagrees⟩
      · obtain ⟨p', hp', h⟩ := hfrom q' hq'
        exact ⟨p', List.mem_cons_of_mem _ hp', h⟩

section Difference

variable {earlier later : List Permission}

theorem mem_added :
    p ∈ (difference earlier later).added ↔ p ∈ later ∧ ∀ q ∈ earlier, ¬ p.agrees q :=
  mem_without

theorem mem_removed :
    p ∈ (difference earlier later).removed ↔ p ∈ earlier ∧ ∀ q ∈ later, ¬ p.agrees q :=
  mem_without

/-- What was not removed agrees with something later. -/
theorem mem_kept :
    p ∈ earlier.filter (fun p => p ∉ (difference earlier later).removed) ↔
      p ∈ earlier ∧ ∃ q ∈ later, p.agrees q := by
  rw [List.mem_filter, decide_eq_true_eq, mem_removed]
  constructor
  · rintro ⟨hp, hkept⟩
    by_contra hnone
    exact hkept ⟨hp, fun q hq hpq => hnone ⟨hp, q, hq, hpq⟩⟩
  · rintro ⟨hp, q, hq, hpq⟩
    exact ⟨hp, fun hremoved => hremoved.2 q hq hpq⟩

/-- A later permission agrees with an earlier one, which is kept, or was added. -/
theorem exists_kept_or_added (hidentity : p.hasIdentity) (hp : p ∈ later) :
    ∃ k ∈ earlier.filter (fun p => p ∉ (difference earlier later).removed) ++
      (difference earlier later).added, p.agrees k := by
  by_cases hknown : ∃ q ∈ earlier, p.agrees q
  · obtain ⟨q, hq, hpq⟩ := hknown
    have hkept := mem_kept.2 ⟨hq, p, hp, agrees_comm ▸ hpq⟩
    exact ⟨q, List.mem_append_left _ hkept, hpq⟩
  · have hadded := mem_added.2 ⟨hp, fun q hq hpq => hknown ⟨q, hq, hpq⟩⟩
    exact ⟨p, List.mem_append_right _ hadded, agrees_self hidentity⟩

/-- What is kept or was added agrees with a later permission. -/
theorem exists_later (hidentity : ∀ p ∈ later, p.hasIdentity)
    (hp : p ∈ earlier.filter (fun p => p ∉ (difference earlier later).removed) ++
      (difference earlier later).added) : ∃ q ∈ later, p.agrees q := by
  rcases List.mem_append.1 hp with hkept | hadded
  · exact (mem_kept.1 hkept).2
  · have hlater := (mem_added.1 hadded).1
    exact ⟨p, hlater, agrees_self (hidentity p hlater)⟩

theorem difference_self (hidentity : ∀ p ∈ earlier, p.hasIdentity) :
    difference earlier earlier = ⟨[], []⟩ := by
  rw [difference, without_self hidentity]

/-- Nothing is added or removed by shuffling. -/
theorem Shuffles.difference (h : Shuffles earlier later)
    (hidentity : ∀ p ∈ earlier, p.hasIdentity) : difference earlier later = ⟨[], []⟩ := by
  obtain ⟨hto, hfrom⟩ := h.agrees hidentity
  rw [Permission.difference, without_eq_nil_iff.2 hto, without_eq_nil_iff.2 hfrom]

end Difference

/-- How a difference parts two lists of permissions.  What was added and what was removed keep
their order, nothing that was added agrees with an earlier permission, and taking the lists the
other way round swaps the two.  If all permissions name their principals, the later list and
what was kept of the earlier one with what was added cover each other; and nothing is added or
removed by putting permissions and roles into another order. -/
theorem difference_parts (earlier later : List Permission) :
    let d := difference earlier later
    let kept := earlier.filter fun p => p ∉ d.removed
    (d.added.Sublist later ∧ d.removed.Sublist earlier) ∧
    (∀ a ∈ d.added, (∀ r ∈ d.removed, ¬ a.agrees r) ∧ ∀ p ∈ earlier, ¬ a.agrees p) ∧
    difference later earlier = ⟨d.removed, d.added⟩ ∧
    earlier.filter (fun p => p ∈ d.removed) = d.removed ∧
    ((∀ p ∈ earlier ++ later, p.hasIdentity) →
      (∀ p ∈ later, ∃ k ∈ kept ++ d.added, p.agrees k) ∧
      (∀ k ∈ kept ++ d.added, ∃ p ∈ later, k.agrees p) ∧
      difference earlier earlier = ⟨[], []⟩ ∧
      (Shuffles earlier later → d = ⟨[], []⟩)) := by
  intro d kept
  refine ⟨⟨List.filter_sublist, List.filter_sublist⟩, fun a ha => ?_, rfl, filter_mem_without,
    fun hidentity => ?_⟩
  · have hnew := (mem_added.1 ha).2
    exact ⟨fun r hr => hnew r (mem_removed.1 hr).1, hnew⟩
  · have hearlier : ∀ p ∈ earlier, p.hasIdentity :=
      fun p hp => hidentity p (List.mem_append_left _ hp)
    have hlater : ∀ p ∈ later, p.hasIdentity :=
      fun p hp => hidentity p (List.mem_append_right _ hp)
    exact ⟨fun p hp => exists_kept_or_added (hlater p hp) hp, fun k hk => exists_later hlater hk,
      difference_self hearlier, fun hshuffles => hshuffles.difference hearlier⟩

/-- A permission with an id and an email agrees with one that has the id and with one that has
the email, so neither of them was added. -/
example :
    difference [{ entityId := "ann", email := "ann@b.c" }]
      [{ entityId := "ann" }, { email := "ann@b.c" }] = ⟨[], []⟩ := by decide

end Permission

end TenantRestore
