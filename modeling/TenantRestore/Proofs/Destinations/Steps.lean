/-
# How destinations are found

A session tells of the attempts made so far: the calls in it that are made to find out ids are
those of the attempts, and the ids it has learnt are the ones they have found (`Session.Tells`).
Only steps that find destinations add attempts.  What they have in common is that a destination is
asked for unless its id is known (`resolve`): a container is found in this way, and so is every
folder on the way down to another one.  `Restoring.Finds` says which destinations a step looks for
in turn.

A folder whose id is known has been found after those on the way to it, so that none of them is
attempted again either.  This is where it is needed that the attempts are orderly.
-/
import TenantRestore.Proofs.Destinations.Attempts
import TenantRestore.Proofs.Turns

namespace TenantRestore

variable {σ : Type} {plan : Plan σ}

/-! ## Sessions and the attempts so far -/

/-- Whether a call is made to find out the id of a destination. -/
def Call.finds : Call → Bool
  | .drive c => c.isFolder
  | .items _ (.container _ _) => true
  | _ => false

/-- The effects of finding out the id of a destination. -/
def Effect.finds : Effect → Bool
  | call c => c.finds
  | folder _ _ => true
  | container _ _ => true
  | _ => false

theorem ItemKind.category_injective : Function.Injective ItemKind.category := by
  intro kind kind' h
  cases kind <;> cases kind' <;> first | rfl | cases h

namespace Registry

/-- The id that has been learnt for a destination. -/
def idOf? (r : Registry) : Destination → Option String
  | .folder drive names => r.folders.find? (drive, names)
  | .container kind owner name => r.containers.find? (kind.category, owner, name)

/-- Learn the id of a destination. -/
def remember (r : Registry) (id : String) : Destination → Registry
  | .folder drive names => { r with folders := r.folders.insert (drive, names) id }
  | .container kind owner name =>
    { r with containers := r.containers.insert (kind.category, owner, name) id }

theorem idOf?_remember (r : Registry) (id : String) (p q : Destination) :
    (r.remember id p).idOf? q = if p = q then some id else r.idOf? q := by
  cases p <;> cases q <;> simp [idOf?, remember, ItemKind.category_injective.eq_iff]

end Registry

/-- A session contains the calls of some attempts and has learnt what they have found. -/
structure Session.Tells (s : Session σ) (as : List Attempt) : Prop where
  orderly : Orderly as
  calls : s.trace.filter (·.call.finds) = as.flatMap Attempt.exchanges
  known : ∀ p, s.registry.idOf? p = idOf as p

/-- An attempt consists of calls that are made to find out an id. -/
theorem Attempt.Proper.finds {known : Destination → Option String} {a : Attempt}
    (h : a.Proper known) : ∀ x ∈ a.exchanges, x.call.finds := by
  cases h with
  | root _ _ | found _ _ | lost _ _ | created _ _ | container _ _ _ _ =>
    simp [Call.finds, DriveCall.isFolder]

namespace Session.Tells

variable {s t : Session σ} {as : List Attempt} {a : Attempt}

theorem start (plan : Plan σ) (log : FaultLog) (stopped : Bool) (remote : σ) :
    (Session.start plan log stopped remote).Tells [] where
  orderly := .nil
  calls := rfl
  known p := by cases p <;> rfl

/-- Other effects add nothing. -/
theorem perform (h : s.Tells as) {e : Effect} (he : e.finds = false) :
    (plan.perform e s).Tells as := by
  refine ⟨h.orderly, ?_, fun p => ?_⟩
  · rw [← h.calls]
    cases e with
    | call c =>
      change (s.trace ++ [_]).filter _ = _
      rw [List.filter_append, List.filter_cons_of_neg (by simpa [Effect.finds] using he)]
      simp
    | metadata _ _ | permissionIds _ | keys _ _ | folder _ _ | container _ _ | tally _ | note _
    | stop | countCollection => rfl
  · rw [← h.known p]
    cases e with
    | folder _ _ | container _ _ => cases he
    | call _ | metadata _ _ | permissionIds _ | keys _ _ | tally _ | note _ | stop
    | countCollection => cases p <;> rfl

/-- Steps without effects of finding destinations add nothing. -/
theorem upkeep : Upkeep plan (fun e => e.finds = false) (fun s => s.Tells as) Going :=
  Upkeep.of_keep (fun _ _ he hs => hs.perform he) fun _ _ => Fault.not_isCancelled_of_isPlain

/-- An attempt has been made, and its id has been learnt if one has been found. -/
theorem concat (h : s.Tells as) (hnew : idOf as a.destination = none) (ha : a.Proper (idOf as))
    (htrace : t.trace = s.trace ++ a.exchanges)
    (hknown : ∀ p, t.registry.idOf? p =
      (s.registry.idOf? p).or (if a.destination = p then a.id? else none)) :
    t.Tells (as ++ [a]) where
  orderly := h.orderly.concat hnew ha
  calls := by
    rw [htrace, List.filter_append, h.calls, List.filter_eq_self.2 ha.finds, List.flatMap_append,
      List.flatMap_singleton]
  known p := by rw [hknown, h.known, idOf_concat]

/-- An attempt has been made in vain. -/
theorem failed (h : s.Tells as) (hnew : idOf as a.destination = none) (ha : a.Proper (idOf as))
    (hid : a.id? = none) (htrace : t.trace = s.trace ++ a.exchanges)
    (hregistry : t.registry = s.registry) : t.Tells (as ++ [a]) := by
  refine h.concat hnew ha htrace fun p => ?_
  rw [hregistry, hid, ite_self, Option.or_none]

/-- An id has been found and learnt. -/
theorem found (h : s.Tells as) (hnew : idOf as a.destination = none) (ha : a.Proper (idOf as))
    {id : String} (hid : a.id? = some id) (htrace : t.trace = s.trace ++ a.exchanges)
    (hregistry : t.registry = s.registry.remember id a.destination) : t.Tells (as ++ [a]) := by
  refine h.concat hnew ha htrace fun p => ?_
  rw [hregistry, Registry.idOf?_remember, hid]
  split
  · rename_i hp
    rw [← hp, h.known, hnew, Option.none_or]
  · rw [Option.or_none]

end Session.Tells

/-! ## Finding one destination -/

/-- The calls of an attempt have been made, and its id has come out. -/
structure Attempt.Made (a : Attempt) (s : Session σ) (x : Except Fault String × Session σ) :
    Prop where
  trace : x.2.trace = s.trace ++ a.exchanges
  registry : x.2.registry = s.registry
  result : a.id? = x.1.toOption

/-- A step is a proper attempt to find a destination, whatever comes back from its calls. -/
def Restoring.Attempts (x : Restoring σ String) (as : List Attempt) (p : Destination) : Prop :=
  ∀ s, ∃ a : Attempt, a.destination = p ∧ a.Proper (idOf as) ∧ a.Made s (x.run s)

/-- Find out the id of a destination, unless it is known. -/
def resolve (p : Destination) (ask : Restoring σ String) : Restoring σ String := do
  match (← get).registry.idOf? p with
  | some id => return id
  | none =>
    let id ← ask
    Restoring.always (learn fun r => r.remember id p)
    return id

theorem resolve_run (p : Destination) (ask : Restoring σ String) (s : Session σ) :
    (resolve p ask).run s =
      match s.registry.idOf? p with
      | some id => (.ok id, s)
      | none =>
        match ask.run s with
        | (.ok id, t) => (.ok id, { t with registry := t.registry.remember id p })
        | (.error f, t) => (.error f, t) := by
  unfold resolve
  rw [Restoring.run_bind_ok (Restoring.run_get s)]
  rcases s.registry.idOf? p with _ | id
  · rcases hrun : ask.run s with ⟨f | id, t⟩
    · exact Restoring.run_bind_error hrun _
    · exact Restoring.run_bind_ok hrun _
  · rfl

theorem Plan.rootFolder_eq_resolve (plan : Plan σ) (drive : String) :
    plan.rootFolder drive = resolve (.folder drive []) (do
      let root ← Restoring.need (plan.askDrive (.rootFolder drive))
      return root.id) := by
  unfold Plan.rootFolder resolve
  simp only [bind_assoc, pure_bind]
  rfl

theorem Plan.containerFor_eq_resolve (plan : Plan σ) (kind : ItemKind) (path : BackupPath) :
    plan.containerFor kind path =
      resolve (.container kind path.owner (plan.options.containerName path)) (do
        let container ← Restoring.need
          (plan.askItems kind (.container path.owner (plan.options.containerName path)))
        return container.id) := by
  unfold Plan.containerFor resolve
  simp only [bind_assoc, pure_bind]
  rfl

theorem Plan.descend_cons (plan : Plan σ) (drive : String) (place : List String)
    (parent name : String) (names : List String) :
    plan.descend drive place parent (name :: names) = (do
      let id ← resolve (.folder drive (place ++ [name])) (plan.subfolder drive parent name)
      plan.descend drive (place ++ [name]) id names) := by
  rw [Plan.descend, resolve]
  simp only [bind_assoc]
  congr 1
  funext s
  dsimp only [Registry.idOf?]
  rcases s.registry.folders.find? (drive, place ++ [name]) with _ | id
  · simp only [bind_assoc, pure_bind]
    rfl
  · simp only [pure_bind]

section Attempts

variable {as : List Attempt}

/-- What comes back from a call that is needed, and what is left behind. -/
theorem Plan.need_run (plan : Plan σ) (c : Call) (s : Session σ) :
    ∃ (r : Except Failure c.Answer) (t : Session σ),
      (Restoring.need (plan.ask c)).run s = (r.mapError .remote, t) ∧
        t.trace = s.trace ++ [⟨c, r⟩] ∧ t.registry = s.registry :=
  ⟨_, _, Restoring.run_need (plan.ask c) s, rfl, rfl⟩

/-- A single call is an attempt. -/
theorem Plan.need_attempts {c : Call} {f : c.Answer → String} {p : Destination}
    (h : ∀ r, Attempt.Proper (idOf as) ⟨p, [⟨c, r⟩], r.toOption.map f⟩) :
    Restoring.Attempts (σ := σ) (do
      let answer ← Restoring.need (plan.ask c)
      return f answer) as p := by
  intro s
  obtain ⟨r, t, hneed, htrace, hregistry⟩ := plan.need_run c s
  refine ⟨_, rfl, h r, ?_⟩
  rcases r with f | answer
  · rw [Restoring.run_bind_error hneed]
    exact ⟨htrace, hregistry, rfl⟩
  · rw [Restoring.run_bind_ok hneed]
    exact ⟨htrace, hregistry, rfl⟩

theorem Plan.root_attempts (drive : String) :
    Restoring.Attempts (do
      let root ← Restoring.need (plan.askDrive (.rootFolder drive))
      return root.id) as (.folder drive []) :=
  Plan.need_attempts (c := .drive (.rootFolder drive)) (f := Container.id) (.root drive)

theorem Plan.container_attempts (kind : ItemKind) (owner name : String) :
    Restoring.Attempts (do
      let container ← Restoring.need (plan.askItems kind (.container owner name))
      return container.id) as (.container kind owner name) :=
  Plan.need_attempts (c := .items kind (.container owner name)) (f := Container.id)
    (.container kind owner name)

/-- Looking for a folder, and creating it if it is missing, is an attempt. -/
theorem Plan.subfolder_attempts {drive parent : String} {place : List String}
    (hparent : idOf as (.folder drive place) = some parent) (name : String) :
    (plan.subfolder drive parent name).Attempts as (.folder drive (place ++ [name])) := by
  intro s
  obtain ⟨r, t, hfind, htrace, hregistry⟩ :=
    plan.need_run (.drive (.findFolder drive parent name)) s
  rcases r with f | _ | folder
  · have hrun : (plan.subfolder drive parent name).run s = (.error (.remote f), t) :=
      Restoring.run_bind_error hfind _
    rw [hrun]
    exact ⟨_, rfl, .lost hparent f, htrace, hregistry, rfl⟩
  · -- a folder that is missing takes a second call
    obtain ⟨r, u, hcreate, htrace', hregistry'⟩ :=
      plan.need_run (.drive (.createFolder drive parent name)) t
    rw [htrace, List.append_assoc] at htrace'
    rw [hregistry] at hregistry'
    refine ⟨_, rfl, .created hparent r, ?_⟩
    rcases r with f | folder
    · have hrun : (plan.subfolder drive parent name).run s = (.error (.remote f), u) :=
        (Restoring.run_bind_ok hfind _).trans (Restoring.run_bind_error hcreate _)
      rw [hrun]
      exact ⟨htrace', hregistry', rfl⟩
    · have hrun : (plan.subfolder drive parent name).run s = (.ok (Container.id folder), u) :=
        (Restoring.run_bind_ok hfind _).trans (Restoring.run_bind_ok hcreate _)
      rw [hrun]
      exact ⟨htrace', hregistry', rfl⟩
  · have hrun : (plan.subfolder drive parent name).run s = (.ok (Container.id folder), t) :=
      Restoring.run_bind_ok hfind _
    rw [hrun]
    exact ⟨_, rfl, .found hparent folder, htrace, hregistry, rfl⟩

end Attempts

/-! ## Finding destinations in turn -/

/-- Destinations have been attempted in turn, as far as they had not been found. -/
structure Session.Searched (t : Session σ) (as : List Attempt) (ps : List Destination)
    (more : List Attempt) : Prop where
  tells : t.Tells (as ++ more)
  inTurn : InTurn (unfound as ps) more

/-- A step finds out the id of a destination by looking for some in turn. -/
def Restoring.Finds (x : Restoring σ String) (as : List Attempt) (ps : List Destination)
    (p : Destination) : Prop :=
  Restoring.Ensures (fun s => s.Tells as) x
    (fun id t => ∃ more, t.Searched as ps more ∧ idOf (as ++ more) p = some id)
    fun _ t => ∃ more, t.Searched as ps more

namespace Session.Searched

variable {t : Session σ} {as more : List Attempt} {a : Attempt} {ps : List Destination}
  {p : Destination} {id : String}

/-- There was nothing to look for. -/
theorem nil (h : t.Tells as) (hps : unfound as ps = []) : t.Searched as ps [] where
  tells := by rwa [List.append_nil]
  inTurn := by
    rw [hps]
    exact .nil

theorem skip (hid : idOf as p = some id) (h : t.Searched as ps more) :
    t.Searched as (p :: ps) more where
  tells := h.tells
  inTurn := by
    rw [unfound_cons_of_some hid]
    exact h.inTurn

theorem cons (hnew : idOf as a.destination = none) (hid : a.id? = some id)
    (hps : a.destination ∉ ps) (h : t.Searched (as ++ [a]) ps more) :
    t.Searched as (a.destination :: ps) (a :: more) where
  tells := by
    rw [List.append_cons]
    exact h.tells
  inTurn := by
    rw [unfound_cons_of_none hnew, ← unfound_concat hps]
    exact .found (Option.isSome_of_eq_some hid) h.inTurn

theorem failed (hnew : idOf as a.destination = none) (hid : a.id? = none)
    (h : t.Tells (as ++ [a])) : t.Searched as (a.destination :: ps) [a] where
  tells := h
  inTurn := by
    rw [unfound_cons_of_none hnew]
    exact .failed hid

end Session.Searched

section Finds

variable {as : List Attempt} {ask : Restoring σ String} {ps : List Destination}
  {p q : Destination}

theorem Restoring.Finds.pure {id : String} (h : idOf as p = some id) :
    Restoring.Finds (σ := σ) (Pure.pure id) as [] p :=
  fun _ hs => ⟨[], .nil hs rfl, by rwa [List.append_nil]⟩

/-- The id of the first destination is known, or an attempt is made to find it.  Then it goes on
with the others, unless that fails. -/
theorem Restoring.Attempts.resolve_bind {f : String → Restoring σ String} (hask : ask.Attempts as p)
    (hps : p ∉ ps) (hf : ∀ as' id, idOf as' p = some id → (f id).Finds as' ps q) :
    (resolve p ask >>= f).Finds as (p :: ps) q := by
  intro s hs
  have hresolve := resolve_run p ask s
  rw [hs.known p] at hresolve
  rcases hid : idOf as p with _ | id <;> rw [hid] at hresolve
  · -- an attempt is made, and the others are looked for only if it succeeds
    obtain ⟨a, rfl, hproper, hmade⟩ := hask s
    rcases hrun : ask.run s with ⟨f | id, t⟩ <;> rw [hrun] at hresolve hmade
    · rw [Restoring.run_bind_error hresolve]
      exact ⟨[a], .failed hid hmade.result
        (hs.failed hid hproper hmade.result hmade.trace hmade.registry)⟩
    · rw [Restoring.run_bind_ok hresolve]
      have hfound : idOf (as ++ [a]) a.destination = some id :=
        (idOf_concat_self hid).trans hmade.result
      refine (hf (as ++ [a]) id hfound).mono (fun _ hs => hs) ?_ ?_ _
        (hs.found hid hproper hmade.result hmade.trace (by rw [hmade.registry]))
      · rintro id' t ⟨more, hsearched, hfound⟩
        refine ⟨a :: more, hsearched.cons hid hmade.result hps, ?_⟩
        rwa [List.append_cons]
      · rintro _ t ⟨more, hsearched⟩
        exact ⟨a :: more, hsearched.cons hid hmade.result hps⟩
  · -- the id is known, so that no call is made for it
    rw [Restoring.run_bind_ok hresolve]
    refine (hf as id hid).mono (fun _ hs => hs) ?_ ?_ s hs
    · rintro id' t ⟨more, hsearched, hfound⟩
      exact ⟨more, hsearched.skip hid, hfound⟩
    · rintro _ t ⟨more, hsearched⟩
      exact ⟨more, hsearched.skip hid⟩

variable {plan : Plan σ}

/-- Going down from a folder whose id is known. -/
theorem Plan.descend_finds {drive parent : String} {place : List String}
    (hparent : idOf as (.folder drive place) = some parent) (names : List String) :
    (plan.descend drive place parent names).Finds as (foldersBelow drive place names)
      (.folder drive (place ++ names)) := by
  induction names generalizing place parent as with
  | nil =>
    rw [List.append_nil]
    exact .pure hparent
  | cons name names ih =>
    rw [Plan.descend_cons, List.append_cons place name names, foldersBelow]
    have hsubfolder : (plan.subfolder drive parent name).Attempts as _ :=
      Plan.subfolder_attempts hparent name
    have hnot := not_mem_foldersBelow drive (place ++ [name]) names
    exact hsubfolder.resolve_bind hnot fun as' id hid => ih hid

/-- The folder which is the destination of an address. -/
def Options.folderOf (o : Options) (address : DriveAddress) : Destination :=
  .folder address.drive (o.destination address)

/-- The container for the items of a collection. -/
def Options.containerOf (o : Options) (kind : ItemKind) (path : BackupPath) : Destination :=
  .container kind path.owner (o.containerName path)

theorem Plan.destinationFolder_finds (address : DriveAddress) :
    (plan.destinationFolder address).Finds as (plan.options.folderOf address).way
      (plan.options.folderOf address) := by
  refine Restoring.Ensures.get_bind fun s hs => ?_
  have hknown := hs.known (plan.options.folderOf address)
  split
  · -- the folder is known, hence also all those around it
    rename_i id hid
    have hfound : idOf as (plan.options.folderOf address) = some id := hknown.symm.trans hid
    have hnothing := hs.orderly.unfound_way (Option.isSome_of_eq_some hfound)
    exact ⟨[], .nil hs hnothing, by rwa [List.append_nil]⟩
  · rw [Plan.rootFolder_eq_resolve]
    have hnot := not_mem_foldersBelow address.drive [] (plan.options.destination address)
    exact (Plan.root_attempts address.drive).resolve_bind hnot
      (fun as' id hid => Plan.descend_finds hid _) s hs

theorem Plan.containerFor_finds (kind : ItemKind) (path : BackupPath) :
    (plan.containerFor kind path).Finds as (plan.options.containerOf kind path).way
      (plan.options.containerOf kind path) := by
  rw [Plan.containerFor_eq_resolve, ← bind_pure (resolve _ _)]
  exact (Plan.container_attempts kind path.owner _).resolve_bind List.not_mem_nil
    fun as' id hid => .pure hid

end Finds

/-! ## Entering a collection and taking its entries -/

/-- Where the entries of a collection go. -/
def Options.home? (o : Options) (c : Collection) : Option Destination :=
  match c.path.category.handler with
  | .drive => c.path.drive.toOption.map o.folderOf
  | .items kind => some (o.containerOf kind c.path)

theorem Options.home?_of_items {o : Options} {c : Collection} {kind : ItemKind}
    (hhandler : c.path.category.handler = .items kind) :
    o.home? c = some (o.containerOf kind c.path) := by
  rw [home?, hhandler]

theorem Options.home?_of_drive {o : Options} {c : Collection} {address : DriveAddress}
    (hhandler : c.path.category.handler = .drive) (hdrive : c.path.drive = .ok address) :
    o.home? c = some (o.folderOf address) := by
  rw [home?, hhandler, hdrive]
  rfl

theorem Options.home?_of_error {o : Options} {c : Collection} {e : PathError}
    (hhandler : c.path.category.handler = .drive) (hdrive : c.path.drive = .error e) :
    o.home? c = none := by
  rw [home?, hhandler, hdrive]
  rfl

/-- Whether a collection gets as far as having its destination looked for: there is a handler, and
the metadata of its folder, if it has one, can be read. -/
def Plan.isReady (plan : Plan σ) (c : Collection) (known : Table String Metadata) : Bool :=
  plan.remote.serves c.path.category.handler &&
    match c.path.category.handler, c.path.drive with
    | .drive, .ok address => (plan.folderMetadata c address known).isOk
    | _, _ => true

/-- The destinations to be found when a collection is entered. -/
def Plan.wants (plan : Plan σ) (c : Collection) (known : Table String Metadata) :
    List Destination :=
  if plan.isReady c known then (plan.options.home? c).elim [] Destination.way else []

/-- The entries of a collection go to a destination of some id. -/
inductive Entrance.LeadsTo : Entrance → Destination → String → Prop
  /-- They go to a folder. -/
  | folder (address : DriveAddress) (names : List String) (id : String) :
    LeadsTo (.drive address id) (.folder address.drive names) id
  /-- They go to a container. -/
  | container (kind : ItemKind) (owner name id : String) :
    LeadsTo (.items kind id) (.container kind owner name) id

/-- The entries of a collection go where its destination has been found. -/
def Plan.Arrived (plan : Plan σ) (as : List Attempt) (c : Collection) (entrance : Entrance) :
    Prop :=
  ∃ p id, plan.options.home? c = some p ∧ idOf as p = some id ∧ entrance.LeadsTo p id

section Entering

variable {plan : Plan σ} {as : List Attempt} {s : Session σ}

theorem Effect.not_finds_of_isPermission {e : Effect} (h : e.isPermission) : e.finds = false := by
  rcases e with (c | _ | _) | _ | _ | _ | _ | _ | _ | _ | _ | _ <;> first | rfl | cases h | skip
  cases c <;> first | rfl | cases h

theorem Effect.not_finds_of_isInto {entrance : Entrance} {e : Effect} (h : e.isInto entrance) :
    e.finds = false := by
  cases entrance with
  | drive address folder =>
    rcases e with (c | _ | _) | _ | _ | _ | _ | _ | _ | _ | _ | _ <;> first | rfl | cases h | skip
    cases c <;> first | rfl | cases h
  | items kind container =>
    rcases e with (_ | ⟨_, c⟩ | _) | _ | _ | _ | _ | _ | _ | _ | _ | _ <;>
      first | rfl | cases h | skip
    -- of the calls about items only that for a container looks for a destination
    cases c <;> first | rfl | simp [isInto, isItemIn, isAccount, ItemCall.isItemIn] at h

theorem Session.Tells.restorePermissions (drive item : String) (path : BackupPath)
    (current : Metadata) :
    Restoring.Keeps (fun s => s.Tells as) (plan.restorePermissions drive item path current)
      Going :=
  Session.Tells.upkeep.restorePermissions_going (fun _ => Effect.not_finds_of_isPermission) drive
    item path current

theorem Session.Tells.settleFolder (h : s.Tells as) (path : BackupPath) (address : DriveAddress)
    (folder : String) (m : Metadata) : (plan.settleFolder path address folder m s).Tells as :=
  Plan.settleFolder_keeps (I := fun s => s.Tells as)
    (Session.Tells.restorePermissions address.drive folder path m) (fun _ _ ht => ht.perform rfl) h

/-- How entering a collection ends: the destinations on the way to where its entries go have been
looked for, and unless it fails the last one has been found. -/
structure Plan.Entered (plan : Plan σ) (c : Collection) (s : Session σ) (as : List Attempt)
    (x : Except Fault Entrance × Session σ) (more : List Attempt) : Prop where
  searched : x.2.Searched as (plan.wants c s.registry.metadata) more
  arrived : ∀ entrance, x.1 = .ok entrance → plan.Arrived (as ++ more) c entrance

section Kinds

variable {c : Collection}

/-- There is nothing to look for if the collection fails before. -/
theorem Plan.Entered.nothing (hs : s.Tells as) (hwants : plan.wants c s.registry.metadata = [])
    (f : Fault) : plan.Entered c s as (.error f, s) [] where
  searched := by
    rw [hwants]
    exact .nil hs rfl
  arrived := by rintro _ ⟨⟩

theorem Plan.enter_items_searches {kind : ItemKind}
    (hhandler : c.path.category.handler = .items kind)
    (hserves : plan.remote.serves (.items kind)) (hs : s.Tells as) :
    ∃ more, plan.Entered c s as ((plan.enter c).run s) more := by
  have hhome := Options.home?_of_items (o := plan.options) hhandler
  have hwants : plan.wants c s.registry.metadata =
      (plan.options.containerOf kind c.path).way := by
    simp [Plan.wants, Plan.isReady, hserves, hhandler, hhome]
  have hfinds := plan.containerFor_finds kind c.path s hs
  rw [Plan.enter_items hhandler hserves]
  rcases hrun : (plan.containerFor kind c.path).run s with ⟨f | container, t⟩ <;>
    rw [hrun] at hfinds
  · obtain ⟨more, hsearched⟩ := hfinds
    exact ⟨more, hwants ▸ hsearched, by rintro _ ⟨⟩⟩
  · obtain ⟨more, hsearched, hid⟩ := hfinds
    refine ⟨more, hwants ▸ hsearched, ?_⟩
    rintro _ ⟨⟩
    exact ⟨_, container, hhome, hid, .container ..⟩

theorem Plan.enter_drive_searches (hhandler : c.path.category.handler = .drive)
    (hserves : plan.remote.serves .drive) (hs : s.Tells as) :
    ∃ more, plan.Entered c s as ((plan.enter c).run s) more := by
  rw [Plan.enter_drive hhandler hserves]
  cases hdrive : c.path.drive with
  | error e =>
    have hhome := Options.home?_of_error (o := plan.options) hhandler hdrive
    rw [Plan.enterFolder_error plan hdrive]
    exact ⟨[], .nothing hs (by simp [Plan.wants, hhome]) _⟩
  | ok address =>
    have hhome := Options.home?_of_drive (o := plan.options) hhandler hdrive
    have hready : plan.isReady c s.registry.metadata =
        (plan.folderMetadata c address s.registry.metadata).isOk := by
      simp [Plan.isReady, hserves, hhandler, hdrive]
    rw [Plan.enterFolder_run plan hdrive]
    rcases hmetadata : plan.folderMetadata c address s.registry.metadata with f | m <;>
      rw [hmetadata] at hready
    · have hwants : plan.wants c s.registry.metadata = [] := by
        rw [Plan.wants, hready]
        rfl
      exact ⟨[], .nothing hs hwants f⟩
    · have hwants : plan.wants c s.registry.metadata =
          (plan.options.folderOf address).way := by
        rw [Plan.wants, hready, hhome]
        rfl
      have hfinds := plan.destinationFolder_finds address s hs
      dsimp only
      rcases hrun : (plan.destinationFolder address).run s with ⟨f | folder, t⟩ <;>
        rw [hrun] at hfinds
      · obtain ⟨more, hsearched⟩ := hfinds
        exact ⟨more, hwants ▸ hsearched, by rintro _ ⟨⟩⟩
      · obtain ⟨more, hsearched, hid⟩ := hfinds
        have hleft : (plan.perform (.metadata c.path.text m)
            (plan.settleFolder c.path address folder m t)).Tells (as ++ more) :=
          (hsearched.tells.settleFolder c.path address folder m).perform rfl
        refine ⟨more, ⟨hleft, hwants ▸ hsearched.inTurn⟩, ?_⟩
        rintro _ ⟨⟩
        exact ⟨_, folder, hhome, hid, .folder ..⟩

/-- Entering a collection looks for the destinations on the way to where its entries go. -/
theorem Plan.enter_searches (plan : Plan σ) (c : Collection) (hs : s.Tells as) :
    ∃ more, plan.Entered c s as ((plan.enter c).run s) more := by
  cases hserves : plan.remote.serves c.path.category.handler with
  | false =>
    rw [Plan.enter_noHandler hserves]
    exact ⟨[], .nothing hs (by simp [Plan.wants, Plan.isReady, hserves]) _⟩
  | true =>
    cases hhandler : c.path.category.handler with
    | items kind => exact Plan.enter_items_searches hhandler (hhandler ▸ hserves) hs
    | drive => exact Plan.enter_drive_searches hhandler (hhandler ▸ hserves) hs

end Kinds

/-- Taking an entry looks for no destinations. -/
theorem Plan.take_tells (plan : Plan σ) (c : Collection) (entrance : Entrance) (e : Entry)
    (hs : s.Tells as) : ((plan.take c entrance e).run s).2.Tells as := by
  have hkeeps : Restoring.Keeps (fun s => s.Tells as) (plan.take c entrance e) Going :=
    Session.Tells.upkeep.take (tolerates_going fun _ => rfl)
      (fun _ => Effect.not_finds_of_isInto)
      (fun _ _ drive id path m => Session.Tells.restorePermissions drive id path m) e
  exact hkeeps.snd hs

end Entering

end TenantRestore
