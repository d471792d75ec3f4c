/-
# Destinations are found once

A run finds out the id of a folder or container when it first enters a collection whose entries
go there, or further down.  From then on it uses the id: no later collection asks for it again,
folders below are looked for in it, and what is stored goes there.  What has not been found is
asked for again by the next collection that needs it.

What the destination of a collection is follows from its path and the location alone
(`Collection.GoesTo`): the folder `<location>/<folders>` of its drive, or the container of its
owner that is named by the location.

At every boundary the session tells of the attempts made so far, and the entries of the collection
the run is in go where the attempts have found its destination (`Plan.Underway`).  One step keeps
this up and says which attempts it adds (`Plan.advance_seeks`); `Plan.resolves_once` puts the steps
together.
-/
import TenantRestore.Proofs.Destinations.Steps
import TenantRestore.Proofs.Hierarchy
import TenantRestore.Proofs.Location
import TenantRestore.Store.Rehearsal

namespace TenantRestore

variable {σ : Type} {plan : Plan σ}

/-! ## Where entries go -/

/-- Where the entries of a collection go if they are restored to a location. -/
inductive Collection.GoesTo (location : String) (c : Collection) : Destination → Prop
  /-- Without a location files go to the folder of their path. -/
  | original {drive : String} {folders : List String}
      (hfiles : c.path.category = .files ∨ c.path.category = .libraries)
      (hpath : c.path.elements = "drives" :: drive :: "root:" :: folders)
      (hlocation : location = "") : GoesTo location c (.folder drive folders)
  /-- The folders of their path are found in that of the location. -/
  | located {drive : String} {folders : List String}
      (hfiles : c.path.category = .files ∨ c.path.category = .libraries)
      (hpath : c.path.elements = "drives" :: drive :: "root:" :: folders)
      (hlocation : location ≠ "") : GoesTo location c (.folder drive (location :: folders))
  /-- Items go to a container of their owner. -/
  | container {kind : ItemKind} {name : String} (hkind : c.path.category = kind.category)
      (hname : c.path.ContainerAt location name) :
      GoesTo location c (.container kind c.path.owner name)

theorem Category.handler_eq_drive_iff {category : Category} :
    category.handler = .drive ↔ category = .files ∨ category = .libraries := by
  cases category <;> simp [handler]

theorem Category.handler_eq_items_iff {category : Category} {kind : ItemKind} :
    category.handler = .items kind ↔ category = kind.category := by
  cases category <;> cases kind <;> simp [handler, ItemKind.category]

theorem Options.folderOf_of_original {o : Options} (h : o.location = "") (address : DriveAddress) :
    o.folderOf address = .folder address.drive address.folders := by
  rw [folderOf, destination, if_pos h]

theorem Options.folderOf_of_located {o : Options} (h : o.location ≠ "") (address : DriveAddress) :
    o.folderOf address = .folder address.drive (o.location :: address.folders) := by
  rw [folderOf, destination, if_neg h]

/-- This is where the program takes them. -/
theorem Options.goesTo_iff {o : Options} {c : Collection} {p : Destination} :
    c.GoesTo o.location p ↔ o.home? c = some p := by
  constructor
  · intro h
    cases h with
    | @original drive folders hfiles hpath hlocation =>
      have hdrive := BackupPath.drive_of_elements (a := ⟨drive, folders⟩) hpath
      rw [home?_of_drive (Category.handler_eq_drive_iff.2 hfiles) hdrive,
        folderOf_of_original hlocation]
    | @located drive folders hfiles hpath hlocation =>
      have hdrive := BackupPath.drive_of_elements (a := ⟨drive, folders⟩) hpath
      rw [home?_of_drive (Category.handler_eq_drive_iff.2 hfiles) hdrive,
        folderOf_of_located hlocation]
    | container hkind hname =>
      rw [home?_of_items (Category.handler_eq_items_iff.2 hkind), containerOf,
        containerAt_iff.1 hname]
  · intro hhome
    cases hhandler : c.path.category.handler with
    | items kind =>
      rw [home?_of_items hhandler] at hhome
      cases hhome
      exact .container (Category.handler_eq_items_iff.1 hhandler) (containerAt_iff.2 rfl)
    | drive =>
      have hfiles := Category.handler_eq_drive_iff.1 hhandler
      cases hdrive : c.path.drive with
      | error e =>
        rw [home?_of_error hhandler hdrive] at hhome
        cases hhome
      | ok address =>
        rw [home?_of_drive hhandler hdrive] at hhome
        cases hhome
        have hpath := BackupPath.elements_of_drive hdrive
        by_cases hlocation : o.location = ""
        · rw [folderOf_of_original hlocation]
          exact .original hfiles hpath hlocation
        · rw [folderOf_of_located hlocation]
          exact .located hfiles hpath hlocation

/-! ## The calls of a turn -/

/-- Whether a call concerns the files or items that are in a folder or container. -/
def Call.isInside : Call → Bool
  | .drive c => c.isFile
  | .items _ (.container _ _) => false
  | .items _ _ => true
  | .receipt _ => false

/-- Whether a call concerns what is in a destination of some id. -/
def Call.isIn (id : String) : Destination → Call → Bool
  | .folder d _, .drive c => c.isFileIn d id
  | .container kind _ _, .items k c => k = kind ∧ c.isItemIn id
  | _, _ => false

/-- All calls made since an earlier session have a property. -/
structure Session.Calls (s : Session σ) (P : Call → Prop) (t : Session σ) : Prop where
  grows : s.trace <+: t.trace
  holds : ∀ x ∈ s.since t, P x.call

namespace Session.Calls

variable {s t : Session σ} {P : Call → Prop}

theorem refl (s : Session σ) : s.Calls P s :=
  ⟨List.prefix_refl _, by simp [Session.since]⟩

theorem perform (h : s.Calls P t) {e : Effect} (he : ∀ c, e = .call c → P c) :
    s.Calls P (plan.perform e t) := by
  cases e with
  | call c =>
    refine ⟨h.grows.trans (List.prefix_append ..), fun x hx => ?_⟩
    have htrace : (plan.perform (.call c) t).trace = t.trace ++ [⟨c, (plan.ask c t).1⟩] := rfl
    rw [Session.since, htrace, List.drop_append_of_le_length h.grows.length_le] at hx
    rcases List.mem_append.1 hx with hx | hx
    · exact h.holds x hx
    · rw [List.mem_singleton.1 hx]
      exact he c rfl
  | metadata _ _ | permissionIds _ | keys _ _ | folder _ _ | container _ _ | tally _ | note _
  | stop | countCollection => exact ⟨h.grows, h.holds⟩

theorem upkeep (s : Session σ) (P : Call → Prop) :
    Upkeep plan (fun e => ∀ c, e = .call c → P c) (s.Calls P) Going :=
  Upkeep.of_keep (fun _ _ he ht => ht.perform he) fun _ _ => Fault.not_isCancelled_of_isPlain

theorem restorePermissions (hP : ∀ c, c.isInside = false → P c) (drive item : String)
    (path : BackupPath) (current : Metadata) :
    Restoring.Keeps (s.Calls P) (plan.restorePermissions drive item path current) Going := by
  refine (Session.Calls.upkeep s P).restorePermissions_going ?_ drive item path current
  rintro _ he c rfl
  refine hP c ?_
  rcases c with c | _ | _ <;> first | cases he | skip
  cases c <;> first | rfl | cases he

end Session.Calls

theorem Call.not_isInside_of_isToward {c : Call} {h : Handler}
    (hc : (Effect.call c).isToward h) : c.isInside = false := by
  cases h with
  | drive =>
    rcases c with c | _ | _ <;> first | cases hc | skip
    cases c <;> first | rfl | cases hc
  | items kind =>
    rcases c with _ | ⟨_, c⟩ | _ <;> first | cases hc | skip
    cases c <;> first | rfl | cases hc

theorem Call.isIn_of_isInto {c : Call} {entrance : Entrance} {p : Destination} {id : String}
    (h : entrance.LeadsTo p id) (hc : (Effect.call c).isInto entrance) (hinside : c.isInside) :
    c.isIn id p := by
  cases h with
  | folder address names =>
    rcases c with c | _ | _ <;> first | cases hinside | skip
    · simp only [Effect.isInto, Effect.isAccount, Effect.isMetadata, Bool.or_false] at hc
      exact hc
    · cases hc
  | container kind owner name =>
    rcases c with _ | ⟨k, c⟩ | _ <;> first | cases hinside | skip
    · cases hc
    · simp only [Effect.isInto, Effect.isAccount, Bool.or_false] at hc
      exact hc

/-- Entering a collection makes no calls about what is in its folder or container. -/
theorem Plan.enter_calls (plan : Plan σ) (c : Collection) (s : Session σ) :
    s.Calls (fun c => c.isInside = false) ((plan.enter c).run s).2 := by
  have hkeeps : Restoring.Keeps (s.Calls fun c => c.isInside = false) (plan.enter c) Going := by
    refine (Session.Calls.upkeep s _).enter (tolerates_going fun _ _ h => by cases h) ?_
      fun _ _ drive id m =>
        Session.Calls.restorePermissions (fun _ hc => hc) drive id c.path m
    rintro _ he call rfl
    exact Call.not_isInside_of_isToward he
  exact hkeeps.snd (.refl s)

/-- Taking an entry makes no calls about what is elsewhere than where it goes. -/
theorem Plan.take_calls (plan : Plan σ) (c : Collection) {entrance : Entrance} {p : Destination}
    {id : String} (h : entrance.LeadsTo p id) (e : Entry) (s : Session σ) :
    s.Calls (fun c => c.isInside → c.isIn id p) ((plan.take c entrance e).run s).2 := by
  have hkeeps : Restoring.Keeps (s.Calls fun c => c.isInside → c.isIn id p)
      (plan.take c entrance e) Going := by
    refine (Session.Calls.upkeep s _).take (tolerates_going fun _ _ h => by cases h) ?_
      (fun _ _ drive item path m => Session.Calls.restorePermissions ?_ drive item path m) e
    · rintro _ he call rfl
      exact Call.isIn_of_isInto h he
    · intro call hcall hinside
      rw [hcall] at hinside
      cases hinside
  exact hkeeps.snd (.refl s)

/-! ## The attempts of a turn -/

/-- What a run has found when it is at a boundary: the session tells of the attempts so far, and
the entries of the collection the run is in go where they have found its destination. -/
structure Plan.Underway (plan : Plan σ) (b : Boundary σ) (as : List Attempt) : Prop where
  tells : b.session.Tells as
  arrived : ∀ p, b.current = some p → plan.Arrived as p.collection p.entrance

/-- The attempts a run adds on its way from a boundary to the next. -/
structure Plan.Seeks (plan : Plan σ) (b : Boundary σ) (as more : List Attempt) : Prop where
  /-- When a collection is entered, what has not been found yet of the way to its destination is
  attempted in turn, if there is a handler and the metadata of its folder can be read. -/
  entering : ∀ c p, b.turn? = some (.entering c) → plan.isReady c b.session.registry.metadata →
    c.GoesTo plan.options.location p → InTurn (unfound as p.way) more
  /-- Nothing is attempted otherwise. -/
  otherwise : (∀ c p, b.turn? = some (.entering c) →
    plan.isReady c b.session.registry.metadata → ¬ c.GoesTo plan.options.location p) → more = []
  /-- What is stored is stored where the destination of its collection has been found. -/
  inside : ∀ x ∈ b.session.since (plan.advance b).session, x.call.isInside →
    ∃ c entrance e p id, b.turn? = some (.taking c entrance e) ∧
      c.GoesTo plan.options.location p ∧ idOf as p = some id ∧ x.call.isIn id p

section Turns

variable {b : Boundary σ} {as : List Attempt} {s t : Session σ} {P : Call → Prop}

/-- Neither counting nor noting a fault finds anything or is a call. -/
theorem Session.Tells.afterCollection (plan : Plan σ) (r : Except Fault Unit) (h : t.Tells as) :
    (plan.afterCollection (r, t)).Tells as :=
  Plan.afterCollection_keeps (I := fun t => t.Tells as) (fun _ ht => ht.perform rfl)
    (fun _ _ ht => ht.perform rfl) (r, t) h

theorem Session.Tells.afterEntry (plan : Plan σ) {x : Except Fault Unit × Session σ}
    (h : x.2.Tells as) : (plan.afterEntry x).Tells as :=
  Plan.afterEntry_keeps (I := fun t => t.Tells as) (fun _ _ ht => ht.perform rfl) x h

theorem Session.Calls.afterCollection (plan : Plan σ) (r : Except Fault Unit)
    (h : s.Calls P t) : s.Calls P (plan.afterCollection (r, t)) :=
  Plan.afterCollection_keeps (I := s.Calls P) (fun _ ht => ht.perform (by rintro _ ⟨⟩))
    (fun _ _ ht => ht.perform (by rintro _ ⟨⟩)) (r, t) h

theorem Session.Calls.afterEntry (plan : Plan σ) {x : Except Fault Unit × Session σ}
    (h : s.Calls P x.2) : s.Calls P (plan.afterEntry x) :=
  Plan.afterEntry_keeps (I := s.Calls P) (fun _ _ ht => ht.perform (by rintro _ ⟨⟩)) x h

/-- What is to be found for a collection is on the way to where its entries go. -/
theorem Plan.wants_of_goesTo {c : Collection} {known : Table String Metadata} {p : Destination}
    (hready : plan.isReady c known) (hp : c.GoesTo plan.options.location p) :
    plan.wants c known = p.way := by
  rw [Plan.wants, if_pos hready, Options.goesTo_iff.1 hp]
  rfl

/-- There is nothing to be found for a collection whose entries go nowhere. -/
theorem Plan.wants_eq_nil {c : Collection} {known : Table String Metadata}
    (h : ∀ p, plan.isReady c known → ¬ c.GoesTo plan.options.location p) :
    plan.wants c known = [] := by
  unfold Plan.wants
  split
  · rename_i hready
    rcases hhome : plan.options.home? c with _ | p
    · rfl
    · exact absurd (Options.goesTo_iff.2 hhome) (h p hready)
  · rfl

/-- When a collection is entered, what it wants and has not been found yet is attempted in turn. -/
theorem Plan.Seeks.of_entering {c : Collection} {more : List Attempt}
    (hturn : b.turn? = some (.entering c))
    (hinTurn : InTurn (unfound as (plan.wants c b.session.registry.metadata)) more)
    (hcalls : b.session.Calls (fun c => c.isInside = false) (plan.advance b).session) :
    plan.Seeks b as more where
  entering c' p hc' hready hp := by
    rw [hturn] at hc'
    cases hc'
    rwa [Plan.wants_of_goesTo hready hp] at hinTurn
  otherwise hnone := by
    rw [Plan.wants_eq_nil fun p => hnone c p hturn] at hinTurn
    cases hinTurn
    rfl
  inside x hx hinside := by
    rw [hcalls.holds x hx] at hinside
    cases hinside

/-- A collection is entered. -/
theorem Plan.begin_seeks {c : Collection} {later : List Collection} (hb : plan.Underway b as)
    (hturn : b.turn? = some (.entering c))
    (hadvance : plan.advance b = plan.begin c later b.session) :
    ∃ more, plan.Underway (plan.advance b) (as ++ more) ∧ plan.Seeks b as more := by
  obtain ⟨more, hentered⟩ := plan.enter_searches c hb.tells
  have hcalls := plan.enter_calls c b.session
  have hseeks := Plan.Seeks.of_entering hturn hentered.searched.inTurn
  rcases hrun : (plan.enter c).run b.session with ⟨f | entrance, t⟩ <;>
    rw [hrun] at hentered hcalls
  · have hbegin : plan.advance b = ⟨plan.afterCollection (.error f, t), none, later⟩ := by
      rw [hadvance, Plan.begin, hrun]
    rw [hbegin] at hseeks ⊢
    have htells : t.Tells (as ++ more) := hentered.searched.tells
    have hcalls : b.session.Calls (fun c => c.isInside = false) t := hcalls
    exact ⟨more, ⟨htells.afterCollection plan (.error f), by rintro _ ⟨⟩⟩,
      hseeks (hcalls.afterCollection plan (.error f))⟩
  · have hbegin : plan.advance b = ⟨t, some ⟨c, entrance, c.entries⟩, later⟩ := by
      rw [hadvance, Plan.begin, hrun]
    rw [hbegin] at hseeks ⊢
    refine ⟨more, ⟨hentered.searched.tells, ?_⟩, hseeks hcalls⟩
    rintro _ ⟨⟩
    exact hentered.arrived entrance rfl

/-- Where no collection is entered, nothing is attempted. -/
theorem Plan.Seeks.nothing {turn : Turn} (hturn : b.turn? = some turn)
    (hother : ∀ c, turn ≠ .entering c)
    (hinside : ∀ x ∈ b.session.since (plan.advance b).session, x.call.isInside →
      ∃ c entrance e p id, turn = .taking c entrance e ∧
        c.GoesTo plan.options.location p ∧ idOf as p = some id ∧ x.call.isIn id p) :
    plan.Seeks b as [] where
  entering c _ hc := by
    rw [hturn] at hc
    exact absurd (Option.some.inj hc) (hother c)
  otherwise _ := rfl
  inside x hx hcall := by
    obtain ⟨c, entrance, e, p, id, rfl, hrest⟩ := hinside x hx hcall
    exact ⟨c, entrance, e, p, id, hturn, hrest⟩

/-- A collection is left, or a fault is noted. -/
theorem Plan.aside_seeks {turn : Turn} {next : Boundary σ} (hturn : b.turn? = some turn)
    (hother : ∀ c, turn ≠ .entering c) (hadvance : plan.advance b = next)
    (htells : next.session.Tells as)
    (hcalls : b.session.Calls (fun c => c.isInside = false) next.session)
    (harrived : ∀ p, next.current = some p → plan.Arrived as p.collection p.entrance) :
    plan.Underway (plan.advance b) as ∧ plan.Seeks b as [] := by
  refine ⟨?_, .nothing hturn hother fun x hx hinside => ?_⟩
  · rw [hadvance]
    exact ⟨htells, harrived⟩
  · rw [hadvance] at hx
    rw [hcalls.holds x hx] at hinside
    cases hinside

/-- An entry is taken. -/
theorem Plan.take_seeks {c : Collection} {entrance : Entrance} {e : Entry}
    {rest : List (Except Failure Entry)} (hs : b.session.Tells as)
    (harrived : plan.Arrived as c entrance) (hturn : b.turn? = some (.taking c entrance e))
    (hadvance : plan.advance b = ⟨plan.afterEntry ((plan.take c entrance e).run b.session),
      some ⟨c, entrance, rest⟩, b.later⟩) :
    plan.Underway (plan.advance b) as ∧ plan.Seeks b as [] := by
  obtain ⟨p, id, hhome, hid, hleads⟩ := harrived
  have htells := (plan.take_tells c entrance e hs).afterEntry plan
  have hcalls := (plan.take_calls c hleads e b.session).afterEntry plan
  refine ⟨?_, .nothing hturn (by rintro _ ⟨⟩) fun x hx hinside => ?_⟩
  · rw [hadvance]
    refine ⟨htells, ?_⟩
    rintro _ ⟨⟩
    exact ⟨p, id, hhome, hid, hleads⟩
  · rw [hadvance] at hx
    exact ⟨c, entrance, e, p, id, rfl, Options.goesTo_iff.2 hhome, hid, hcalls.holds x hx hinside⟩

theorem Plan.pass_seeks {p : Passage} (hb : plan.Underway b as) (hcurrent : b.current = some p)
    (hturn : b.turn? = some p.turn) (hadvance : plan.advance b = plan.pass p b.later b.session) :
    plan.Underway (plan.advance b) as ∧ plan.Seeks b as [] := by
  obtain ⟨c, entrance, rest⟩ := p
  have harrived := hb.arrived _ hcurrent
  have hnocalls := Session.Calls.refl (P := fun c => c.isInside = false) b.session
  rcases rest with _ | ⟨f | e, rest⟩
  · refine Plan.aside_seeks hturn (by rintro _ ⟨⟩) hadvance ?_ ?_ (by rintro _ ⟨⟩)
    · dsimp only [Plan.pass]
      split
      · exact (hb.tells.perform rfl).perform rfl
      · exact hb.tells.perform rfl
    · dsimp only [Plan.pass]
      split
      · exact (hnocalls.perform (by rintro _ ⟨⟩)).perform (by rintro _ ⟨⟩)
      · exact hnocalls.perform (by rintro _ ⟨⟩)
  · refine Plan.aside_seeks hturn (by rintro _ ⟨⟩) hadvance ?_ ?_ ?_ <;> dsimp only [Plan.pass]
    · exact hb.tells.perform rfl
    · exact hnocalls.perform (by rintro _ ⟨⟩)
    · rintro _ ⟨⟩
      exact harrived
  · exact Plan.take_seeks hb.tells harrived hturn hadvance

/-- On its way from a boundary to the next a run adds the attempts of its turn. -/
theorem Plan.advance_seeks (hb : plan.Underway b as) :
    ∃ more, plan.Underway (plan.advance b) (as ++ more) ∧ plan.Seeks b as more := by
  rcases plan.advance_cases b with ⟨p, hgoes, hcurrent, hadvance⟩ |
    ⟨c, later, hgoes, hcurrent, hlater, hadvance⟩ | ⟨hover, hadvance⟩
  · have hturn : b.turn? = some p.turn := by
      rw [Boundary.turn?, if_pos hgoes, hcurrent]
    obtain ⟨hunderway, hseeks⟩ := Plan.pass_seeks hb hcurrent hturn hadvance
    exact ⟨[], by rwa [List.append_nil], hseeks⟩
  · have hturn : b.turn? = some (.entering c) := by
      rw [Boundary.turn?, if_pos hgoes, hcurrent, hlater]
    exact Plan.begin_seeks hb hturn hadvance
  · have hturn := Boundary.turn?_eq_none.2 hover
    refine ⟨[], by rwa [List.append_nil, hadvance], ?_, fun _ => rfl, ?_⟩
    · rw [hturn]
      rintro _ _ ⟨⟩
    · rw [hadvance]
      simp [Session.since]

end Turns

/-! ## Calls that name their destination -/

/-- The destination whose id a call has told, if the call names it: a folder on the way is told
by its parent only. -/
def Exchange.named? : Exchange → Option Destination
  | ⟨.drive (.rootFolder drive), .ok _⟩ => some (.folder drive [])
  | ⟨.items kind (.container owner name), .ok _⟩ => some (.container kind owner name)
  | _ => none

theorem Exchange.finds_of_named {x : Exchange} {p : Destination} (h : x.named? = some p) :
    x.call.finds := by
  unfold named? at h
  split at h
  · rfl
  · rfl
  · cases h

/-- The destinations named in the calls of an attempt are not more than its own, if it is found. -/
theorem Attempt.Proper.named_sublist {known : Destination → Option String} {a : Attempt}
    (h : a.Proper known) :
    (a.exchanges.filterMap Exchange.named?).Sublist
      (([a].filter (·.id?.isSome)).map destination) := by
  cases h with
  | root drive r | container kind owner name r =>
    rcases r with f | container
    · exact List.Sublist.refl _
    · exact List.Sublist.refl _
  | found _ _ | lost _ _ | created _ _ => exact List.nil_sublist _

theorem Orderly.exists_proper {as : List Attempt} (h : Orderly as) {a : Attempt} (ha : a ∈ as) :
    ∃ known, a.Proper known := by
  obtain ⟨before, after, rfl⟩ := List.mem_iff_append.1 ha
  exact ⟨_, (h before a after rfl).2⟩

theorem named_sublist {as : List Attempt} (h : ∀ a ∈ as, ∃ known, a.Proper known) :
    ((as.flatMap Attempt.exchanges).filterMap Exchange.named?).Sublist
      ((as.filter (·.id?.isSome)).map Attempt.destination) := by
  induction as with
  | nil => exact List.Sublist.refl _
  | cons a as ih =>
    obtain ⟨known, ha⟩ := h a (List.mem_cons_self ..)
    have ih := ih fun b hb => h b (List.mem_cons_of_mem _ hb)
    rw [List.flatMap_cons, List.filterMap_append, ← List.singleton_append, List.filter_append,
      List.map_append]
    exact ha.named_sublist.append ih

/-- A session that tells of attempts has asked for no root folder and no container with success
twice. -/
theorem Session.Tells.named_nodup {s : Session σ} {as : List Attempt} (h : s.Tells as) :
    (s.trace.filterMap Exchange.named?).Nodup := by
  have hfilter : s.trace.filterMap Exchange.named? =
      (s.trace.filter (·.call.finds)).filterMap Exchange.named? := by
    rw [List.filterMap_filter]
    refine List.filterMap_congr fun x _ => ?_
    rcases hx : x.named? with _ | p
    · rw [ite_self]
    · rw [if_pos (Exchange.finds_of_named hx)]
  rw [hfilter, h.calls]
  exact (named_sublist fun _ => h.orderly.exists_proper).nodup h.orderly.nodup

/-! ## Runs -/

/-- A run finds every destination once, and what is stored goes to where its destination has been
found; `attempts` are those made up to each boundary. -/
structure Plan.ResolvesOnce (plan : Plan σ) (cs : List Collection) (start : Session σ)
    (attempts : ℕ → List Attempt) : Prop where
  /-- The calls made to find out an id are those of the attempts. -/
  calls : ∀ n, (plan.boundary cs start n).session.trace.filter (·.call.finds) =
    (attempts n).flatMap Attempt.exchanges
  /-- Every attempt is made for a destination that has not been found yet, in the folder that has
  been found for the names but the last. -/
  orderly : ∀ n, Orderly (attempts n)
  /-- So no destination is found twice. -/
  once : ∀ n, (((attempts n).filter (·.id?.isSome)).map Attempt.destination).Nodup
  /-- At the start nothing has been attempted. -/
  first : attempts 0 = []
  /-- From each boundary to the next, what has not been found yet is attempted if it is needed, and
  what is stored goes to where its destination has been found. -/
  turns : ∀ n, ∃ more, attempts (n + 1) = attempts n ++ more ∧
    plan.Seeks (plan.boundary cs start n) (attempts n) more
  /-- All calls of the run have been made at some boundary. -/
  ends : ∃ n, (plan.run cs start).2.trace = (plan.boundary cs start n).session.trace
  /-- In the whole run no root folder and no container is asked for with success twice. -/
  named : ((plan.run cs start).2.trace.filterMap Exchange.named?).Nodup

/-- In every run folders and containers are found once and used from then on, whatever comes back
from the calls. -/
theorem Plan.resolves_once (plan : Plan σ) (cs : List Collection) (log : FaultLog)
    (stopped : Bool) (remote : σ) :
    ∃ attempts, plan.ResolvesOnce cs (Session.start plan log stopped remote) attempts := by
  set start := Session.start plan log stopped remote
  have hstep : ∀ n as, plan.Underway (plan.boundary cs start n) as → ∃ more,
      plan.Underway (plan.boundary cs start (n + 1)) (as ++ more) ∧
        plan.Seeks (plan.boundary cs start n) as more := by
    intro n as hn
    rw [Plan.boundary_succ]
    exact Plan.advance_seeks hn
  -- what each turn adds is chosen once, so that the attempts up to a boundary are those up to the
  -- one before with what its turn adds
  choose! more hmore using hstep
  let attempts : ℕ → List Attempt := Nat.rec [] fun n as => as ++ more n as
  have hunderway : ∀ n, plan.Underway (plan.boundary cs start n) (attempts n) := by
    intro n
    induction n with
    | zero => exact ⟨.start plan log stopped remote, by rintro _ ⟨⟩⟩
    | succ n ih => exact (hmore n _ ih).1
  obtain ⟨last, hlast⟩ := plan.exists_over cs start
  have hends : (plan.run cs start).2.trace = (plan.boundary cs start last).session.trace := by
    rw [Plan.run_eq_close hlast, conclude_trace, Plan.trace_close]
  exact ⟨attempts, {
    calls := fun n => (hunderway n).tells.calls
    orderly := fun n => (hunderway n).tells.orderly
    once := fun n => (hunderway n).tells.orderly.nodup
    first := rfl
    turns := fun n => ⟨_, rfl, (hmore n _ (hunderway n)).2⟩
    ends := ⟨last, hends⟩
    named := by
      rw [hends]
      exact (hunderway last).tells.named_nodup }⟩

/-! ## A folder that can't be created at once -/

/-- A drive that fails to create the third folder, and contacts that fail to give a container at
first. -/
def unsteady : Rehearsal where
  drive := some { drive := "drive" }
  items := .ofList [(.contact, {})]
  disturbances :=
    let fails (verb : Verb) (n : Nat) : Disturbance :=
      ⟨verb, some n, false, some (.because "try again"), false⟩
    [fails .createFolder 3, fails .container 1]

/-- Restore the first version of a backup to a location. -/
def archiving : Plan Rehearsal where
  options := { location := "Archive" }
  version := 0
  remote := unsteady.remote

/-- Two folders of contacts, and a folder of a drive with one in it. -/
def nestedCollections : List Collection :=
  let contacts (name : String) : BackupPath := ⟨"tenant", .exchange, "user", .contacts, [name]⟩
  let files (folders : List String) : BackupPath :=
    ⟨"tenant", .onedrive, "user", .files, ["drives", "drive", "root:"] ++ folders⟩
  [.ofEntries (contacts "Friends") [.ok ⟨"ann", "\x7b\"kind\":\"contact\"\x7d".toUTF8⟩],
    .ofEntries (contacts "People") [.ok ⟨"bob", "\x7b\"kind\":\"contact\"\x7d".toUTF8⟩],
    .ofEntries (files ["a", "b"]) [.ok ⟨"b.txt", "b".toUTF8⟩],
    .ofEntries (files ["a", "b", "c"]) [.ok ⟨"c.txt", "c".toUTF8⟩]]

/-- What has failed is asked for once more, in the folder that has been found before, and nothing
else is: the files and contacts of the collections that got through are below the location. -/
theorem resolvesOnce_nestedCollections :
    let start := Session.start archiving {} false unsteady
    let t := (archiving.run nestedCollections start).2
    (∃ attempts, archiving.ResolvesOnce nestedCollections start attempts) ∧
      (∀ c, nestedCollections[3]? = some c →
        c.GoesTo "Archive" (.folder "drive" ["Archive", "a", "b", "c"])) ∧
      (t.remote.drive.map DriveStore.changes = some [.createdFolder "root" "Archive",
        .createdFolder "folder-1" "a", .createdFolder "folder-2" "b",
        .createdFolder "folder-3" "c", .uploaded "folder-4" "c.txt"] ∧
      (t.remote.items.entries.map fun e => e.2.items.map (·.container)) = [["container-1"]] ∧
      [Verb.rootFolder, .findFolder, .createFolder, .container].map t.remote.calls.find? =
        [some 1, some 5, some 5, some 2]) := by
  intro start t
  have hsort : Collection.sort nestedCollections = nestedCollections :=
    Collection.sort_of_pairwise (by decide +kernel)
  refine ⟨archiving.resolves_once nestedCollections {} false unsteady, ?_, ?_⟩
  · rintro c ⟨⟩
    exact .located (.inl rfl) rfl (by decide)
  · simp only [t, start, Plan.run_eq, hsort]
    decide +kernel

end TenantRestore
