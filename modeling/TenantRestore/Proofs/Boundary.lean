/-
# From boundary to boundary

A run looks at whether it has been stopped or has failed only between two entries, and between
two collections.  This file cuts a run there.  At a boundary the run is in a session, it may
have entered a collection whose remaining entries are still to come, and there are collections
it has not reached yet.  `Plan.advance` goes to the next boundary: it enters the next
collection, takes the next entry, or leaves a collection without entries.  Where the run does
not go on, it stays.

The loops of the run are nested and end early in several ways; the steps from boundary to
boundary form one sequence, `Plan.boundary`, which ends the same way: `Plan.run_eq_close`.  So
what holds at every boundary is shown by one induction on their number.
-/
import Mathlib.Logic.Function.Iterate
import TenantRestore.Proofs.Course

namespace TenantRestore

variable {σ : Type} {plan : Plan σ}

/-! ## Entering a collection and taking its entries -/

/-- Where the entries of a collection go. -/
inductive Entrance
  /-- To a folder of a drive, which is the destination of an address. -/
  | drive (address : DriveAddress) (folder : String)
  /-- To a container for items of a kind. -/
  | items (kind : ItemKind) (container : String)

/-- Who answers the calls about the entries that go somewhere. -/
def Entrance.handler : Entrance → Handler
  | drive _ _ => .drive
  | items kind _ => .items kind

/-- Find out where the entries of a collection go. -/
def Plan.enter (plan : Plan σ) (c : Collection) : Restoring σ Entrance :=
  let handler := c.path.category.handler
  if plan.remote.serves handler then
    match handler with
    | .drive => do
      let entered ← plan.enterFolder c
      return .drive entered.1 entered.2
    | .items kind => do
      let container ← plan.containerFor kind c.path
      return .items kind container
  else throw (.noHandler c.path.category)

/-- Restore an entry of a collection that has been entered. -/
def Plan.take (plan : Plan σ) (c : Collection) : Entrance → Entry → Restoring σ Unit
  | .drive address folder => plan.restoreDriveEntry c address folder
  | .items kind container => plan.restoreItem kind c container

theorem Plan.enter_noHandler {c : Collection}
    (h : plan.remote.serves c.path.category.handler = false) (s : Session σ) :
    (plan.enter c).run s = (.error (.noHandler c.path.category), s) := by
  unfold Plan.enter
  simp only [h]
  rfl

theorem Plan.enter_drive {c : Collection} (hhandler : c.path.category.handler = .drive)
    (hserves : plan.remote.serves .drive) (s : Session σ) :
    (plan.enter c).run s =
      match (plan.enterFolder c).run s with
      | (.ok entered, t) => (.ok (.drive entered.1 entered.2), t)
      | (.error f, t) => (.error f, t) := by
  unfold Plan.enter
  simp only [hhandler, hserves, ↓reduceIte, Restoring.run_bind, Restoring.run_pure]
  rcases (plan.enterFolder c).run s with ⟨f | entered, t⟩ <;> rfl

theorem Plan.enter_items {c : Collection} {kind : ItemKind}
    (hhandler : c.path.category.handler = .items kind)
    (hserves : plan.remote.serves (.items kind)) (s : Session σ) :
    (plan.enter c).run s =
      match (plan.containerFor kind c.path).run s with
      | (.ok container, t) => (.ok (.items kind container), t)
      | (.error f, t) => (.error f, t) := by
  unfold Plan.enter
  simp only [hhandler, hserves, ↓reduceIte, Restoring.run_bind, Restoring.run_pure]
  rcases (plan.containerFor kind c.path).run s with ⟨f | container, t⟩ <;> rfl

/-- A collection is restored by entering it and taking its entries. -/
theorem Plan.restoreCollection_run (c : Collection) (s : Session σ) :
    (plan.restoreCollection c).run s =
      match (plan.enter c).run s with
      | (.ok entrance, t) => (plan.forEachEntry c (plan.take c entrance)).run t
      | (.error f, t) => (.error f, t) := by
  cases hserves : plan.remote.serves c.path.category.handler with
  | false =>
    rw [Plan.restoreCollection_noHandler hserves, Plan.enter_noHandler hserves]
  | true =>
    cases hhandler : c.path.category.handler with
    | drive =>
      rw [hhandler] at hserves
      rw [Plan.restoreCollection_eq_restoreDrive hhandler hserves,
        Plan.enter_drive hhandler hserves]
      rcases hrun : (plan.enterFolder c).run s with ⟨f | entered, t⟩
      · exact Restoring.run_bind_error hrun _
      · exact Plan.restoreDrive_run hrun
    | items kind =>
      rw [hhandler] at hserves
      rw [Plan.restoreCollection_eq_restoreItems hhandler hserves,
        Plan.enter_items hhandler hserves]
      rcases hrun : (plan.containerFor kind c.path).run s with ⟨f | container, t⟩
      · exact Restoring.run_bind_error hrun _
      · exact Restoring.run_bind_ok hrun _

/-- Whether an effect is that of noting a fault. -/
def Effect.isNote : Effect → Bool
  | note _ => true
  | _ => false

/-- Whether an effect is that of remembering the metadata of a folder. -/
def Effect.isMetadata : Effect → Bool
  | metadata _ _ => true
  | _ => false

theorem Effect.isOf_of_isPermission {e : Effect} (h : e.isPermission) :
    e.isOf .drive ∧ e.isNote = false :=
  ⟨isOf_drive (by simp [h]), by cases e <;> first | rfl | cases h⟩

/-- The effects of entering a collection, other than those of restoring permissions. -/
def Effect.isToward (e : Effect) : Handler → Bool
  | .drive => e.isFolder || e.isMetadata
  | .items kind => e.isContainer kind

/-- They are effects of the handler, and notes are not among them. -/
theorem Effect.isOf_of_isToward {h : Handler} {e : Effect} (he : e.isToward h) :
    e.isOf h ∧ e.isNote = false := by
  cases h with
  | drive =>
    rcases e with (_ | _ | _) | _ | _ | _ | _ | _ | _ | _ | _ | _ <;>
      first | exact ⟨rfl, rfl⟩ | cases he
  | items kind =>
    have hitem : e.isItem kind := isItem_of_isContainer he
    exact ⟨isOf_items (Or.inl hitem), by cases e <;> first | rfl | cases hitem⟩

/-- The effects of taking an entry, other than those of restoring permissions. -/
def Effect.isInto (e : Effect) : Entrance → Bool
  | .drive address id => e.isFileIn address.drive id || e.isAccount || e.isMetadata
  | .items kind id => e.isItemIn kind id || e.isAccount

/-- They are effects of the handler, and notes are not among them. -/
theorem Effect.isOf_of_isInto {entrance : Entrance} {e : Effect} (h : e.isInto entrance) :
    e.isOf entrance.handler ∧ e.isNote = false := by
  cases entrance with
  | drive address folder =>
    simp only [isInto, Bool.or_eq_true] at h
    rcases h with (h | h) | h
    · have hfile := isFile_of_in h
      exact ⟨isOf_drive (by simp [hfile]), by cases e <;> first | rfl | cases hfile⟩
    · exact ⟨isOf_drive (by simp [h]), by cases e <;> first | rfl | cases h⟩
    · cases e <;> first | exact ⟨rfl, rfl⟩ | cases h
  | items kind container =>
    simp only [isInto, Bool.or_eq_true] at h
    rcases h with h | h
    · have hitem := isItem_of_in h
      exact ⟨isOf_items (Or.inl hitem), by cases e <;> first | rfl | cases hitem⟩
    · exact ⟨isOf_items (Or.inr h), by cases e <;> first | rfl | cases h⟩

namespace Upkeep

variable {A : Effect → Prop} {I : Session σ → Prop} {E : Fault → Session σ → Prop}

/-- Entering a collection has no effects but those of finding where its entries go, and those of
restoring permissions. -/
theorem enter (h : Upkeep plan A I E) (hE : Tolerates A E) {c : Collection}
    (hA : ∀ e, e.isToward c.path.category.handler → A e)
    (hpermissions : c.path.category.handler = .drive → plan.options.restorePermissions →
      ∀ drive id m, Restoring.Keeps I (plan.restorePermissions drive id c.path m) E) :
    Restoring.Keeps I (plan.enter c) E := by
  unfold Plan.enter
  dsimp only
  split
  · split
    · rename_i hhandler
      rw [hhandler] at hA
      have hentered : Restoring.Keeps I (plan.enterFolder c) E :=
        h.enterFolder hE (fun e he => hA e (by simp [Effect.isToward, he])) (fun _ => hA _ rfl)
          (hpermissions hhandler)
      exact hentered.bind fun _ => Restoring.Keeps.pure
    · rename_i kind hhandler
      rw [hhandler] at hA
      have hcontainer : Restoring.Keeps I (plan.containerFor kind c.path) E :=
        h.containerFor (fun _ _ => hA _ (by simp [Effect.isToward, Effect.isContainer]))
          (fun _ _ _ => hA _ (by simp [Effect.isToward, Effect.isContainer])) c.path
      exact hcontainer.bind fun _ => Restoring.Keeps.pure
  · exact Restoring.Keeps.throw fun s _ => hE.plain _ s rfl

/-- Taking an entry has no effects but those on what is where it goes, and those of restoring
permissions. -/
theorem take (h : Upkeep plan A I E) (hE : Tolerates A E) {entrance : Entrance}
    (hA : ∀ e, e.isInto entrance → A e) {c : Collection}
    (hpermissions : entrance.handler = .drive → plan.options.restorePermissions →
      ∀ drive id path m, Restoring.Keeps I (plan.restorePermissions drive id path m) E)
    (e : Entry) : Restoring.Keeps I (plan.take c entrance e) E := by
  cases entrance with
  | drive address folder =>
    refine h.restoreDriveEntry hE (fun file _ => ?_) fun path m _ =>
      hA _ (by simp [Effect.isInto, Effect.isMetadata])
    exact h.restoreFile hE (fun e he => hA e (by simp [Effect.isInto, he]))
      (h.uploadFileIn hE (fun e he => hA e (by simp [Effect.isInto, he])) _)
      fun hwanted id path _ => hpermissions rfl hwanted _ id path _
  | items kind container =>
    refine h.restoreItem hE (fun _ _ => hA _ ?_) (fun e he => hA e (by simp [Effect.isInto, he]))
      fun item => h.createItemIn hE (fun e he => hA e (by simp [Effect.isInto, he])) item
    simp [Effect.isInto, Effect.isItemIn, ItemCall.isItemIn]

/-- Any fault but that of being stopped may end the restoring of permissions. -/
theorem enter_going (h : Upkeep plan A I Going)
    (hE : Tolerates A (Going : Fault → Session σ → Prop)) {c : Collection}
    (hA : ∀ e, e.isOf c.path.category.handler → e.isNote = false → A e) :
    Restoring.Keeps I (plan.enter c) Going := by
  have htoward : ∀ e, e.isToward c.path.category.handler → A e :=
    fun e he => hA e (Effect.isOf_of_isToward he).1 (Effect.isOf_of_isToward he).2
  refine h.enter hE htoward fun hhandler _ drive id m => ?_
  rw [hhandler] at hA
  exact h.restorePermissions_going
    (fun e he => hA e (Effect.isOf_of_isPermission he).1 (Effect.isOf_of_isPermission he).2)
    drive id c.path m

theorem take_going (h : Upkeep plan A I Going)
    (hE : Tolerates A (Going : Fault → Session σ → Prop)) {entrance : Entrance}
    (hA : ∀ e, e.isOf entrance.handler → e.isNote = false → A e) (c : Collection) (e : Entry) :
    Restoring.Keeps I (plan.take c entrance e) Going := by
  have hinto : ∀ e, e.isInto entrance → A e :=
    fun e he => hA e (Effect.isOf_of_isInto he).1 (Effect.isOf_of_isInto he).2
  refine h.take hE hinto (fun hhandler _ drive id path m => ?_) e
  rw [hhandler] at hA
  exact h.restorePermissions_going
    (fun e he => hA e (Effect.isOf_of_isPermission he).1 (Effect.isOf_of_isPermission he).2)
    drive id path m

end Upkeep

/-- Taking an entry does not end in the fault of being stopped. -/
theorem Plan.not_isCancelled_of_take {c : Collection} {entrance : Entrance} {e : Entry}
    {s t : Session σ} {f : Fault} (h : (plan.take c entrance e).run s = (.error f, t)) :
    f.isCancelled = false := by
  have htrivial : Upkeep plan (fun _ => True) (fun _ => True) Going :=
    Upkeep.of_keep (fun _ _ _ _ => trivial) fun _ _ => Fault.not_isCancelled_of_isPlain
  have hkeeps : Restoring.Keeps (fun _ => True) (plan.take c entrance e) Going :=
    htrivial.take_going (tolerates_going fun _ => trivial) (fun _ _ _ => trivial) c e
  exact (hkeeps.error h trivial).2

/-! ## Boundaries -/

/-- A collection that has been entered, with the entries still to come. -/
structure Passage where
  /-- The collection. -/
  collection : Collection
  /-- Where its entries go. -/
  entrance : Entrance
  /-- What comes of its entries from now on. -/
  rest : List (Except Failure Entry)

/-- A point of a run between two entries or two collections. -/
structure Boundary (σ : Type) where
  /-- The session the run is in. -/
  session : Session σ
  /-- The collection the run is in, if it has entered one. -/
  current : Option Passage
  /-- The collections it has not reached yet. -/
  later : List Collection

/-- Enter a collection; if that fails, it is over. -/
def Plan.begin (plan : Plan σ) (c : Collection) (later : List Collection) (s : Session σ) :
    Boundary σ :=
  match (plan.enter c).run s with
  | (.ok entrance, t) => ⟨t, some ⟨c, entrance, c.entries⟩, later⟩
  | (.error f, t) => ⟨plan.afterCollection (.error f, t), none, later⟩

/-- Take the next entry of a collection, or leave it if there is none. -/
def Plan.pass (plan : Plan σ) (p : Passage) (later : List Collection) (s : Session σ) :
    Boundary σ :=
  match p.rest with
  | [] =>
    let s := if p.collection.driesUp then plan.perform .stop s else s
    ⟨plan.perform .countCollection s, none, later⟩
  | .error f :: rest =>
    ⟨plan.perform (.note (.readingFailed p.collection.path.text f)) s, some { p with rest }, later⟩
  | .ok e :: rest =>
    ⟨plan.afterEntry ((plan.take p.collection p.entrance e).run s), some { p with rest }, later⟩

/-- Go to the next boundary, if the run goes on. -/
def Plan.advance (plan : Plan σ) (b : Boundary σ) : Boundary σ :=
  if b.session.goesOn then
    match b.current, b.later with
    | some p, later => plan.pass p later b.session
    | none, c :: later => plan.begin c later b.session
    | none, [] => b
  else b

/-- The boundary a run of some collections reaches by a number of steps. -/
def Plan.boundary (plan : Plan σ) (cs : List Collection) (start : Session σ) (n : Nat) :
    Boundary σ :=
  plan.advance^[n] ⟨start, none, Collection.sort cs⟩

/-- Whether a boundary is the last one. -/
def Boundary.over (b : Boundary σ) : Prop :=
  b.session.goesOn = false ∨ b.current = none ∧ b.later = []

/-- The session in which a run ends at a boundary; a collection it is in counts as handled. -/
def Plan.close (plan : Plan σ) (b : Boundary σ) : Session σ :=
  match b.current with
  | none => b.session
  | some _ => plan.perform .countCollection b.session

/-- Closing a run only counts. -/
theorem Plan.close_eq (plan : Plan σ) (b : Boundary σ) :
    plan.close b = { b.session with progress := (plan.close b).progress } := by
  unfold Plan.close
  split <;> rfl

@[simp] theorem Plan.stopped_close (plan : Plan σ) (b : Boundary σ) :
    (plan.close b).stopped = b.session.stopped := by rw [Plan.close_eq]

@[simp] theorem Plan.faults_close (plan : Plan σ) (b : Boundary σ) :
    (plan.close b).faults = b.session.faults := by rw [Plan.close_eq]

@[simp] theorem Plan.trace_close (plan : Plan σ) (b : Boundary σ) :
    (plan.close b).trace = b.session.trace := by rw [Plan.close_eq]

@[simp] theorem Plan.registry_close (plan : Plan σ) (b : Boundary σ) :
    (plan.close b).registry = b.session.registry := by rw [Plan.close_eq]

@[simp] theorem Plan.remote_close (plan : Plan σ) (b : Boundary σ) :
    (plan.close b).remote = b.session.remote := by rw [Plan.close_eq]

@[simp] theorem Plan.boundary_zero (plan : Plan σ) (cs : List Collection) (start : Session σ) :
    plan.boundary cs start 0 = ⟨start, none, Collection.sort cs⟩ := rfl

theorem Plan.boundary_succ (plan : Plan σ) (cs : List Collection) (start : Session σ) (n : Nat) :
    plan.boundary cs start (n + 1) = plan.advance (plan.boundary cs start n) :=
  Function.iterate_succ_apply' ..

/-- From a boundary a run either goes on to the next entry, or to the next collection, or it
stays. -/
theorem Plan.advance_cases (plan : Plan σ) (b : Boundary σ) :
    (∃ p, b.session.goesOn ∧ b.current = some p ∧
      plan.advance b = plan.pass p b.later b.session) ∨
    (∃ c later, b.session.goesOn ∧ b.current = none ∧ b.later = c :: later ∧
      plan.advance b = plan.begin c later b.session) ∨
    (b.over ∧ plan.advance b = b) := by
  obtain ⟨s, current, later⟩ := b
  cases hgoes : s.goesOn with
  | false => exact Or.inr (Or.inr ⟨Or.inl hgoes, by simp [Plan.advance, hgoes]⟩)
  | true =>
    cases current with
    | some p => exact Or.inl ⟨p, rfl, rfl, by simp [Plan.advance, hgoes]⟩
    | none =>
      cases later with
      | cons c later =>
        exact Or.inr (Or.inl ⟨c, later, rfl, rfl, rfl, by simp [Plan.advance, hgoes]⟩)
      | nil => exact Or.inr (Or.inr ⟨Or.inr ⟨rfl, rfl⟩, by simp [Plan.advance, hgoes]⟩)

theorem Plan.advance_of_over {b : Boundary σ} (h : b.over) : plan.advance b = b := by
  rcases plan.advance_cases b with ⟨p, hgoes, hcurrent, -⟩ |
    ⟨c, later, hgoes, hcurrent, hlater, -⟩ | ⟨-, hstay⟩
  · rcases h with h | h
    · rw [h] at hgoes
      cases hgoes
    · rw [h.1] at hcurrent
      cases hcurrent
  · rcases h with h | h
    · rw [h] at hgoes
      cases hgoes
    · rw [h.2] at hlater
      cases hlater
  · exact hstay

/-! ## A run goes from boundary to boundary -/

/-- The session in which a run ends that has come to a boundary. -/
def Plan.finish (plan : Plan σ) (b : Boundary σ) : Session σ :=
  let s := match b.current with
    | none => b.session
    | some p => plan.afterCollection ((plan.forEach p.collection.path.text p.collection.driesUp
        (plan.take p.collection p.entrance) p.rest).run b.session)
  (plan.restoreAll b.later s).2

theorem Plan.restoreAll_cons_snd {s : Session σ} (h : s.goesOn) (c : Collection)
    (later : List Collection) :
    (plan.restoreAll (c :: later) s).2 =
      (plan.restoreAll later (plan.afterCollection ((plan.restoreCollection c).run s))).2 := by
  have happend := plan.restoreAll_append [c] later s
  rw [Plan.restoreAll_singleton h] at happend
  exact congrArg Prod.snd happend

theorem Plan.finish_begin {s : Session σ} (h : s.goesOn) (c : Collection)
    (later : List Collection) :
    plan.finish (plan.begin c later s) = plan.finish ⟨s, none, c :: later⟩ := by
  have hcollection := plan.restoreCollection_run c s
  have hend := plan.restoreAll_cons_snd h c later
  unfold Plan.begin
  rcases hrun : (plan.enter c).run s with ⟨f | entrance, t⟩ <;> rw [hrun] at hcollection
  · rw [hcollection] at hend
    exact hend.symm
  · rw [hcollection] at hend
    exact hend.symm

theorem Plan.finish_pass {s : Session σ} (h : s.goesOn) (p : Passage) (later : List Collection) :
    plan.finish (plan.pass p later s) = plan.finish ⟨s, some p, later⟩ := by
  obtain ⟨c, entrance, rest⟩ := p
  rcases rest with _ | ⟨f | e, rest⟩
  · cases hdry : c.driesUp with
    | false =>
      simp only [Plan.finish, Plan.pass, hdry, Plan.forEach_nil h]
      rfl
    | true =>
      have hrun : (plan.forEach c.path.text true (plan.take c entrance) []).run s =
          (.error .cancelled, plan.perform .stop s) :=
        Restoring.run_bind_ok (another_run_of_goesOn h) _
      simp only [Plan.finish, Plan.pass, hdry, hrun]
      rfl
  · simp only [Plan.finish, Plan.pass, Plan.forEach_error h]
  · simp only [Plan.finish, Plan.pass, Plan.forEach_ok h]
    rcases hrun : (plan.take c entrance e).run s with ⟨f | ⟨⟩, t⟩
    · have hgoing := Plan.not_isCancelled_of_take hrun
      simp only [Plan.afterEntry, hgoing, Bool.false_eq_true, ↓reduceIte]
    · rfl

/-- However far it has come, a run ends in the same session. -/
theorem Plan.finish_advance (plan : Plan σ) (b : Boundary σ) :
    plan.finish (plan.advance b) = plan.finish b := by
  obtain ⟨s, current, later⟩ := b
  rcases plan.advance_cases ⟨s, current, later⟩ with ⟨p, hgoes, hcurrent, heq⟩ |
    ⟨c, later', hgoes, hcurrent, hlater, heq⟩ | ⟨-, hstay⟩
  · dsimp only at hgoes hcurrent heq
    subst hcurrent
    rw [heq, Plan.finish_pass hgoes]
  · dsimp only at hgoes hcurrent hlater heq
    subst hcurrent hlater
    rw [heq, Plan.finish_begin hgoes]
  · rw [hstay]

theorem Plan.finish_boundary (plan : Plan σ) (cs : List Collection) (start : Session σ) (n : Nat) :
    plan.finish (plan.boundary cs start n) = (plan.restoreAll (Collection.sort cs) start).2 := by
  induction n with
  | zero => rfl
  | succ n ih => rw [Plan.boundary_succ, Plan.finish_advance, ih]

/-- At its last boundary a run is closed. -/
theorem Plan.finish_of_over {b : Boundary σ} (h : b.over) : plan.finish b = plan.close b := by
  obtain ⟨s, current, later⟩ := b
  rcases h with hstays | ⟨hcurrent, hlater⟩
  · dsimp only at hstays
    cases current with
    | none =>
      simp only [Plan.finish, Plan.close]
      rw [Plan.restoreAll_of_not_goesOn hstays]
    | some p =>
      have hlast : plan.afterCollection ((plan.forEach p.collection.path.text p.collection.driesUp
          (plan.take p.collection p.entrance) p.rest).run s) =
          plan.perform .countCollection s := by
        rcases s.failed_or_stopped_or_goesOn with hfailed | ⟨hstopped, hfailed⟩ | hgoes
        · rw [Plan.forEach_of_failed hfailed]
          rfl
        · rw [Plan.forEach_of_stopped hstopped hfailed]
          rfl
        · rw [hstays] at hgoes
          cases hgoes
      have hend : (plan.perform .countCollection s).goesOn = false := hstays
      simp only [Plan.finish, Plan.close, hlast]
      rw [Plan.restoreAll_of_not_goesOn hend]
  · dsimp only at hcurrent hlater
    subst hcurrent hlater
    rfl

/-- The entries and collections that are left to a run. -/
def Boundary.work (b : Boundary σ) : Nat :=
  (b.current.elim 0 fun p => p.rest.length + 1) +
    b.later.foldr (fun c work => c.entries.length + 2 + work) 0

theorem Boundary.work_begin (c : Collection) (later : List Collection) (s : Session σ) :
    (plan.begin c later s).work < Boundary.work (σ := σ) ⟨s, none, c :: later⟩ := by
  unfold Plan.begin
  split
  · simp [Boundary.work]
  · simp [Boundary.work]

theorem Boundary.work_pass (p : Passage) (later : List Collection) (s : Session σ) :
    (plan.pass p later s).work < Boundary.work (σ := σ) ⟨s, some p, later⟩ := by
  obtain ⟨c, entrance, rest⟩ := p
  rcases rest with _ | ⟨f | e, rest⟩ <;> simp [Plan.pass, Boundary.work]

theorem Boundary.work_advance (plan : Plan σ) {b : Boundary σ} (h : ¬ b.over) :
    (plan.advance b).work < b.work := by
  obtain ⟨s, current, later⟩ := b
  rcases plan.advance_cases ⟨s, current, later⟩ with ⟨p, -, hcurrent, heq⟩ |
    ⟨c, later', -, hcurrent, hlater, heq⟩ | ⟨hover, -⟩
  · dsimp only at hcurrent heq
    subst hcurrent
    rw [heq]
    exact Boundary.work_pass p later s
  · dsimp only at hcurrent hlater heq
    subst hcurrent hlater
    rw [heq]
    exact Boundary.work_begin c later' s
  · exact absurd hover h

/-- After the last boundary nothing changes any more. -/
theorem Plan.boundary_of_over {cs : List Collection} {start : Session σ} {n : Nat}
    (h : (plan.boundary cs start n).over) {m : Nat} (hm : n ≤ m) :
    plan.boundary cs start m = plan.boundary cs start n := by
  induction hm with
  | refl => rfl
  | step _ ih =>
    rw [Plan.boundary_succ, ih, Plan.advance_of_over h]

/-- After as many steps as there is work to do, a run has come to its last boundary. -/
theorem Plan.over_of_work_le {cs : List Collection} {start : Session σ} {n : Nat}
    (h : (plan.boundary cs start 0).work ≤ n) : (plan.boundary cs start n).over := by
  by_contra hnot
  have hbefore : ∀ m ≤ n, ¬ (plan.boundary cs start m).over := by
    intro m hm hover
    rw [Plan.boundary_of_over hover hm] at hnot
    exact hnot hover
  -- until then every step leaves less work
  have hwork : ∀ m ≤ n + 1, (plan.boundary cs start m).work + m ≤
      (plan.boundary cs start 0).work := by
    intro m hm
    induction m with
    | zero => exact Nat.le_refl _
    | succ m ih =>
      have hless := Boundary.work_advance plan (hbefore m (by omega))
      rw [← Plan.boundary_succ] at hless
      have hm := ih (by omega)
      omega
  have hlate := hwork (n + 1) (Nat.le_refl _)
  omega

/-- Every run comes to its last boundary. -/
theorem Plan.exists_over (plan : Plan σ) (cs : List Collection) (start : Session σ) :
    ∃ n, (plan.boundary cs start n).over :=
  ⟨_, Plan.over_of_work_le (Nat.le_refl _)⟩

theorem Plan.restoreAll_eq_close {cs : List Collection} {start : Session σ} {n : Nat}
    (h : (plan.boundary cs start n).over) :
    (plan.restoreAll (Collection.sort cs) start).2 = plan.close (plan.boundary cs start n) := by
  rw [← Plan.finish_boundary plan cs start n, Plan.finish_of_over h]

/-- A run ends as it is closed at its last boundary. -/
theorem Plan.run_eq_close {cs : List Collection} {start : Session σ} {n : Nat}
    (h : (plan.boundary cs start n).over) :
    plan.run cs start = conclude (plan.close (plan.boundary cs start n)) := by
  rw [Plan.run_eq, Plan.restoreAll_eq_close h]

/-! ## What is kept from boundary to boundary -/

namespace Upkeep

variable {A : Effect → Prop} {I : Session σ → Prop}

theorem begin (h : Upkeep plan A I Going) (hE : Tolerates A (Going : Fault → Session σ → Prop))
    (hA : ∀ e : Effect, e.isNote = false → A e) (c : Collection) (later : List Collection)
    {s : Session σ} (hs : I s) : I (plan.begin c later s).session := by
  have hkeeps : Restoring.Keeps I (plan.enter c) Going :=
    h.enter_going hE fun e _ he => hA e he
  have henter := hkeeps s hs
  unfold Plan.begin
  rcases hrun : (plan.enter c).run s with ⟨f | entrance, t⟩ <;> rw [hrun] at henter
  · have hcount := h.keep .countCollection t (hA _ rfl) henter.1
    dsimp only [Plan.afterCollection]
    split
    · exact hcount
    · exact h.keep (.note f) _ (hE.note f t henter.2) hcount
  · exact henter

theorem pass (h : Upkeep plan A I Going) (hE : Tolerates A (Going : Fault → Session σ → Prop))
    (hA : ∀ e : Effect, e.isNote = false → A e) (p : Passage) (later : List Collection)
    {s : Session σ} (hs : I s) : I (plan.pass p later s).session := by
  obtain ⟨c, entrance, rest⟩ := p
  rcases rest with _ | ⟨f | e, rest⟩
  · dsimp only [Plan.pass]
    split
    · exact h.keep .countCollection _ (hA _ rfl) (h.keep .stop s (hA _ rfl) hs)
    · exact h.keep .countCollection s (hA _ rfl) hs
  · exact h.keep (.note _) s (hE.note_plain _ rfl) hs
  · have hkeeps : Restoring.Keeps I (plan.take c entrance e) Going :=
      h.take_going hE (fun e _ he => hA e he) c e
    have htake := hkeeps s hs
    dsimp only [Plan.pass]
    rcases hrun : (plan.take c entrance e).run s with ⟨f | ⟨⟩, t⟩ <;> rw [hrun] at htake
    · dsimp only [Plan.afterEntry]
      split
      · exact htake.1
      · exact h.keep (.note f) t (hE.note f t htake.2) htake.1
    · exact htake

/-- What all effects keep, but perhaps that of noting that the restore has been stopped, is kept
on the way to the next boundary. -/
theorem advance (h : Upkeep plan A I Going) (hE : Tolerates A (Going : Fault → Session σ → Prop))
    (hA : ∀ e : Effect, e.isNote = false → A e) {b : Boundary σ} (hb : I b.session) :
    I (plan.advance b).session := by
  rcases plan.advance_cases b with ⟨p, -, -, heq⟩ | ⟨c, later, -, -, -, heq⟩ | ⟨-, heq⟩
  · rw [heq]
    exact h.pass hE hA p b.later hb
  · rw [heq]
    exact h.begin hE hA c later hb
  · rw [heq]
    exact hb

theorem boundary (h : Upkeep plan A I Going) (hE : Tolerates A (Going : Fault → Session σ → Prop))
    (hA : ∀ e : Effect, e.isNote = false → A e) (cs : List Collection) {start : Session σ}
    (hstart : I start) (n : Nat) : I (plan.boundary cs start n).session := by
  induction n with
  | zero => exact hstart
  | succ n ih =>
    rw [Plan.boundary_succ]
    exact h.advance hE hA ih

end Upkeep

section Keeps

variable {I : Session σ → Prop} (hkeep : ∀ e s, I s → I (plan.perform e s))
include hkeep

/-- What all effects keep is kept on the way to the next boundary. -/
theorem Plan.advance_keeps {b : Boundary σ} (hb : I b.session) : I (plan.advance b).session := by
  have h : Upkeep plan (fun _ => True) I Going :=
    Upkeep.of_keep (fun e s _ => hkeep e s) fun _ _ => Fault.not_isCancelled_of_isPlain
  exact h.advance (tolerates_going fun _ => trivial) (fun _ _ => trivial) hb

/-- What all effects keep holds at every boundary. -/
theorem Plan.boundary_keeps (cs : List Collection) {start : Session σ} (hstart : I start)
    (n : Nat) : I (plan.boundary cs start n).session := by
  induction n with
  | zero => exact hstart
  | succ n ih =>
    rw [Plan.boundary_succ]
    exact Plan.advance_keeps hkeep ih

end Keeps

/-- A boundary comes before all later ones. -/
theorem Plan.before_boundary (plan : Plan σ) (cs : List Collection) (start : Session σ)
    {m n : Nat} (h : m ≤ n) :
    (plan.boundary cs start m).session.Before (plan.boundary cs start n).session := by
  induction h with
  | refl => exact .refl _
  | step _ ih =>
    rw [Plan.boundary_succ]
    exact Plan.advance_keeps (I := Session.Before (plan.boundary cs start m).session)
      (fun e s hs => hs.trans (plan.before_perform e s)) ih

theorem Plan.before_close (plan : Plan σ) (b : Boundary σ) :
    b.session.Before (plan.close b) := by
  unfold Plan.close
  split
  · exact .refl _
  · exact plan.before_perform .countCollection b.session

/-- A boundary comes before the end of the run. -/
theorem Plan.boundary_before_end (plan : Plan σ) (cs : List Collection) (start : Session σ)
    (n : Nat) :
    (plan.boundary cs start n).session.Before (plan.restoreAll (Collection.sort cs) start).2 := by
  obtain ⟨last, hlast⟩ := plan.exists_over cs start
  have hover : (plan.boundary cs start (max n last)).over := by
    rw [Plan.boundary_of_over hlast (Nat.le_max_right ..)]
    exact hlast
  rw [Plan.restoreAll_eq_close hover]
  exact (plan.before_boundary cs start (Nat.le_max_left ..)).trans (plan.before_close _)

/-- The calls up to a boundary are the first ones of the run. -/
theorem Plan.trace_boundary (plan : Plan σ) (cs : List Collection) (start : Session σ) (n : Nat) :
    (plan.boundary cs start n).session.trace <+: (plan.run cs start).2.trace := by
  rw [Plan.run_eq, conclude_trace]
  exact (plan.boundary_before_end cs start n).trace

/-! ## The collection a run is in -/

/-- The collections of a run are those it has handled, the one it is in, and those it has not
reached yet. -/
theorem Plan.mem_of_boundary (plan : Plan σ) (cs : List Collection) (start : Session σ) (n : Nat) :
    (∀ c ∈ (plan.boundary cs start n).later, c ∈ cs) ∧
      ∀ p, (plan.boundary cs start n).current = some p → p.collection ∈ cs := by
  induction n with
  | zero => exact ⟨fun c hc => List.mem_mergeSort.1 hc, by simp⟩
  | succ n ih =>
    obtain ⟨hlater, hcurrent⟩ := ih
    rw [Plan.boundary_succ]
    rcases plan.advance_cases (plan.boundary cs start n) with ⟨p, -, hp, heq⟩ |
      ⟨c, later, -, -, hc, heq⟩ | ⟨-, heq⟩ <;> rw [heq]
    · obtain ⟨c, entrance, rest⟩ := p
      have hmem := hcurrent _ hp
      rcases rest with _ | ⟨f | e, rest⟩
      · exact ⟨hlater, by simp [Plan.pass]⟩
      · refine ⟨hlater, ?_⟩
        rintro _ ⟨⟩
        exact hmem
      · refine ⟨hlater, ?_⟩
        rintro _ ⟨⟩
        exact hmem
    · rw [hc] at hlater
      have htail : ∀ c' ∈ later, c' ∈ cs := fun c' hc' => hlater c' (List.mem_cons_of_mem _ hc')
      unfold Plan.begin
      split
      · refine ⟨htail, ?_⟩
        rintro _ ⟨⟩
        exact hlater c (List.mem_cons_self ..)
      · exact ⟨htail, by simp⟩
    · exact ⟨hlater, hcurrent⟩

/-! ## Runs that are not interrupted -/

namespace Plan.Uninterrupted

variable {cs : List Collection} {start : Session σ}

theorem patient_boundary (h : plan.Uninterrupted cs start) (n : Nat) :
    (plan.boundary cs start n).session.faults.Patient :=
  Plan.boundary_keeps (I := fun s : Session σ => s.faults.Patient) h.keeps_patient cs h.patient n

/-- A run that is not interrupted goes on at every boundary. -/
theorem goesOn_boundary (h : plan.Uninterrupted cs start) (n : Nat) :
    (plan.boundary cs start n).session.goesOn :=
  h.goesOn_of_before (plan.boundary_before_end cs start n) (h.patient_boundary n)

/-- At its last boundary a run that is not interrupted has left all collections. -/
theorem exhausted (h : plan.Uninterrupted cs start) {n : Nat}
    (hn : (plan.boundary cs start n).over) :
    (plan.boundary cs start n).current = none ∧ (plan.boundary cs start n).later = [] := by
  rcases hn with hstays | hdone
  · rw [h.goesOn_boundary n] at hstays
    cases hstays
  · exact hdone

/-- A run that is not interrupted ends in the session of its last boundary. -/
theorem run_eq (h : plan.Uninterrupted cs start) {n : Nat}
    (hn : (plan.boundary cs start n).over) :
    plan.run cs start = (.ok (), (plan.boundary cs start n).session) := by
  have hclose : plan.close (plan.boundary cs start n) = (plan.boundary cs start n).session := by
    simp only [Plan.close, (h.exhausted hn).1]
  have hgoes := Session.goesOn_iff.1 (h.goesOn_boundary n)
  have hfailure := (h.patient_boundary n).not_failed
  rw [Plan.run_eq_close hn, hclose]
  simp [conclude, hgoes.1, FaultLog.takeFailure, hfailure]

end Plan.Uninterrupted

end TenantRestore
