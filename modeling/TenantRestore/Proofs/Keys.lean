/-
# The keys of containers

A restore asks for the keys of a container once and keeps them up to date by itself from then
on.  What it has to know of them can be read off its trace: the keys that were listed, with
every item that was created since.

This file shows that the restore knows just that whenever it is about to take an entry or a
collection.  Only while it stores an item is there a moment when the trace is ahead.
-/
import Mathlib.Data.List.Induction
import TenantRestore.Proofs.Boundary

namespace TenantRestore

variable {σ : Type} {plan : Plan σ}

/-! ## What the trace tells -/

/-- What is known of the keys of a container after an exchange. -/
def Exchange.keysAfter (container : String) (known : Option Keys) : Exchange → Option Keys
  | ⟨.drive (.listKeys _ folder), .ok keys⟩ => if folder = container then some keys else known
  | ⟨.drive (.upload _ folder name _ _), .ok id⟩ =>
    if folder = container then known.map (·.insert name id) else known
  | ⟨.items _ (.listKeys place), .ok keys⟩ => if place = container then some keys else known
  | ⟨.items _ (.create place item), .ok id⟩ =>
    if place = container then known.map (·.insert item.key id) else known
  | _ => known

/-- The keys of a container as a trace tells them: those listed last, with every item that was
created since; nothing is known before they are listed. -/
def keysOf (container : String) (trace : List Exchange) : Option Keys :=
  trace.foldl (Exchange.keysAfter container) none

/-- The container whose keys a call asks for, or in which it creates an item. -/
def Call.container? : Call → Option String
  | .drive (.listKeys _ folder) | .drive (.upload _ folder _ _ _) => some folder
  | .items _ (.listKeys container) | .items _ (.create container _) => some container
  | _ => none

theorem keysAfter_of_ne {x : Exchange} {container : String}
    (h : x.call.container? ≠ some container) (known : Option Keys) :
    x.keysAfter container known = known := by
  unfold Exchange.keysAfter
  split <;> first | rfl | exact if_neg fun hsame => h (congrArg some hsame)

@[simp] theorem keysOf_append_singleton (container : String) (trace : List Exchange)
    (x : Exchange) :
    keysOf container (trace ++ [x]) = x.keysAfter container (keysOf container trace) := by
  simp [keysOf, List.foldl_append]

/-- Keys that are known stay known. -/
theorem keysAfter_eq_none {container : String} {known : Option Keys} {x : Exchange}
    (h : x.keysAfter container known = none) :
    known = none ∧ x.keysAfter container none = none := by
  cases known with
  | none => exact ⟨rfl, h⟩
  | some keys =>
    unfold Exchange.keysAfter at h
    split at h
    · split at h <;> cases h
    · split at h <;> cases h
    · split at h <;> cases h
    · split at h <;> cases h
    · cases h

/-- What is not known from all exchanges is not known from some of them. -/
theorem keysOf_filter_eq_none {container : String} {trace : List Exchange}
    (h : keysOf container trace = none) (p : Exchange → Bool) :
    keysOf container (trace.filter p) = none := by
  induction trace using List.reverseRecOn with
  | nil => rfl
  | append_singleton trace x ih =>
    rw [keysOf_append_singleton] at h
    obtain ⟨htrace, hx⟩ := keysAfter_eq_none h
    rw [List.filter_append, List.filter_cons, List.filter_nil]
    split
    · rw [keysOf_append_singleton, ih htrace]
      exact hx
    · rw [List.append_nil]
      exact ih htrace

/-- Exchanges that do not concern the keys of a container can be left out. -/
theorem keysOf_filter {container : String} {trace : List Exchange} {p : Exchange → Bool}
    (h : ∀ x ∈ trace, p x = false → x.call.container? ≠ some container) :
    keysOf container (trace.filter p) = keysOf container trace := by
  induction trace using List.reverseRecOn with
  | nil => rfl
  | append_singleton trace x ih =>
    have ih := ih fun y hy => h y (List.mem_append_left _ hy)
    rw [List.filter_append, List.filter_cons, List.filter_nil, keysOf_append_singleton]
    split
    · rw [keysOf_append_singleton, ih]
    · rename_i hx
      have hkeys := h x (by simp) (by simpa using hx)
      rw [keysAfter_of_ne hkeys, List.append_nil, ih]

/-! ## What the restore knows -/

/-- The restore knows the keys of every container as its trace tells them. -/
def Session.KeysFollow (s : Session σ) : Prop :=
  ∀ container, s.registry.keys.find? container = keysOf container s.trace

/-- The restore has some keys of a container in hand, as its trace tells them, and knows those
of all other containers. -/
def Session.KeysPending (container : String) (keys : Keys) (s : Session σ) : Prop :=
  ∀ place, keysOf place s.trace =
    if container = place then some keys else s.registry.keys.find? place

theorem Session.KeysFollow.pending {s : Session σ} {container : String} {keys : Keys}
    (h : s.KeysFollow) (hkeys : s.registry.keys.find? container = some keys) :
    s.KeysPending container keys := by
  intro place
  rw [← h place]
  split
  · rename_i hplace
    rw [← hplace, hkeys]
  · rfl

/-- Remembering the keys in hand makes all of them known. -/
theorem Session.KeysPending.follow {s : Session σ} {container : String} {keys : Keys}
    (h : s.KeysPending container keys) :
    ({ s with registry.keys := s.registry.keys.insert container keys } : Session σ).KeysFollow := by
  intro place
  change (s.registry.keys.insert container keys).find? place = keysOf place s.trace
  rw [Table.find?_insert, h place]

theorem Plan.keysOf_ask {c : Call} {s : Session σ} {r : Except Failure c.Answer}
    (hr : (plan.ask c s).1 = r) (place : String) :
    keysOf place (plan.ask c s).2.trace =
      (⟨c, r⟩ : Exchange).keysAfter place (keysOf place s.trace) := by
  rw [← hr]
  exact keysOf_append_singleton place s.trace _

/-- The keys in hand are not touched by a call that does not concern keys. -/
theorem Session.KeysPending.ask {s : Session σ} {container : String} {keys : Keys}
    (h : s.KeysPending container keys) {c : Call} (hc : c.container? = none) :
    (plan.ask c s).2.KeysPending container keys := by
  intro place
  rw [Plan.keysOf_ask rfl, keysAfter_of_ne (by simp [hc])]
  exact h place

/-- Whether an effect neither concerns the keys of containers nor what is known of them. -/
def Effect.leavesKeys : Effect → Bool
  | call c => c.container?.isNone
  | keys _ _ => false
  | _ => true

theorem Session.KeysFollow.perform {s : Session σ} {e : Effect} (h : s.KeysFollow)
    (he : e.leavesKeys) : (plan.perform e s).KeysFollow := by
  cases e with
  | call c =>
    intro place
    have hc : c.container? = none := by simpa [Effect.leavesKeys] using he
    change s.registry.keys.find? place = keysOf place (plan.ask c s).2.trace
    rw [Plan.keysOf_ask rfl, keysAfter_of_ne (by simp [hc])]
    exact h place
  | keys _ _ => cases he
  | metadata _ _ | permissionIds _ | folder _ _ | container _ _ | tally _ | note _ | stop
  | countCollection => exact h

theorem upkeep_keysFollow :
    Upkeep plan (fun e => e.leavesKeys) Session.KeysFollow Going :=
  Upkeep.of_keep (fun _ _ he h => h.perform he) fun _ _ => Fault.not_isCancelled_of_isPlain

theorem tolerates_leavesKeys :
    Tolerates (fun e => e.leavesKeys) (Going : Fault → Session σ → Prop) :=
  tolerates_going fun _ => rfl

theorem Effect.leavesKeys_of {e : Effect} (h : e.isFolder ∨ e.isPermission ∨ e.isAccount) :
    e.leavesKeys := by
  rcases e with (c | _ | _) | _ | _ | _ | _ | _ | _ | _ | _ | _
  · cases c <;>
      simp [isFolder, isPermission, isAccount, leavesKeys, DriveCall.isFolder,
        DriveCall.isPermission, Call.container?] at h ⊢
  all_goals simp [isFolder, isPermission, isAccount, leavesKeys, Call.container?] at h ⊢

/-! ## Storing an item -/

/-- A step lists the keys of a container. -/
structure Lists (container : String) (ask : Steps σ (Except Failure Keys)) : Prop where
  registry : ∀ s, (ask s).2.registry = s.registry
  ok : ∀ s keys, (ask s).1 = .ok keys → ∀ place,
    keysOf place (ask s).2.trace =
      if container = place then some keys else keysOf place s.trace
  error : ∀ s f, (ask s).1 = .error f → ∀ place,
    keysOf place (ask s).2.trace = keysOf place s.trace

/-- A step creates an item under a key of a container. -/
structure Creates (container key : String) (create : Steps σ (Except Failure String)) :
    Prop where
  ok : ∀ s keys id, (create s).1 = .ok id → s.KeysPending container keys →
    (create s).2.KeysPending container (keys.insert key id)
  error : ∀ s keys f, (create s).1 = .error f → s.KeysPending container keys →
    (create s).2.KeysPending container keys

theorem Plan.lists_drive (plan : Plan σ) (drive folder : String) :
    Lists folder (plan.askDrive (.listKeys drive folder)) where
  registry _ := rfl
  ok _ _ hr := Plan.keysOf_ask hr
  error _ _ hr := Plan.keysOf_ask hr

theorem Plan.lists_items (plan : Plan σ) (kind : ItemKind) (container : String) :
    Lists container (plan.askItems kind (.listKeys container)) where
  registry _ := rfl
  ok _ _ hr := Plan.keysOf_ask hr
  error _ _ hr := Plan.keysOf_ask hr

/-- A call that creates an item under a key brings the keys in hand up to date. -/
theorem Session.KeysPending.create {s t : Session σ} {container key id : String} {keys : Keys}
    (h : s.KeysPending container keys) (hregistry : t.registry = s.registry)
    (htrace : ∀ place, keysOf place t.trace =
      if container = place then (keysOf place s.trace).map (·.insert key id)
      else keysOf place s.trace) : t.KeysPending container (keys.insert key id) := by
  intro place
  rw [htrace place, h place, hregistry]
  split <;> rfl

theorem Plan.creates_drive (plan : Plan σ) (drive folder name : String) (data : ByteArray)
    (policy : CollisionPolicy) :
    Creates folder name (plan.askDrive (.upload drive folder name data policy)) where
  ok _ _ _ hr h := h.create rfl (Plan.keysOf_ask hr)
  error _ _ _ hr h := fun place => (Plan.keysOf_ask hr place).trans (h place)

theorem Plan.creates_items (plan : Plan σ) (kind : ItemKind) (container : String) (item : Item) :
    Creates container item.key (plan.askItems kind (.create container item)) where
  ok _ _ _ hr h := h.create rfl (Plan.keysOf_ask hr)
  error _ _ _ hr h := fun place => (Plan.keysOf_ask hr place).trans (h place)

/-- Asking for the keys of a container once makes them known. -/
theorem knownKeys_follow {container : String} {ask : Steps σ (Except Failure Keys)}
    (hask : Lists container ask) :
    Restoring.Ensures Session.KeysFollow (knownKeys container ask)
      (fun keys t => t.KeysFollow ∧ t.registry.keys.find? container = some keys)
      fun _ t => t.KeysFollow := by
  refine Restoring.Ensures.get_bind fun s hs => ?_
  split
  · rename_i keys hkeys
    exact ⟨hs, hkeys⟩
  · -- nothing is known yet, and what is listed now is all there is to know
    rw [Restoring.run_bind, Restoring.run_need]
    rcases hr : (ask s).1 with f | keys
    · intro place
      rw [hask.registry, hask.error s f hr]
      exact hs place
    · have hpending : (ask s).2.KeysPending container keys := by
        intro place
        rw [hask.ok s keys hr, hask.registry, hs place]
      refine ⟨hpending.follow, ?_⟩
      change ((ask s).2.registry.keys.insert container keys).find? container = some keys
      simp

/-- Settling an item leaves the keys afterwards in hand. -/
theorem settle_pending {policy : CollisionPolicy} {container key : String} {keys : Keys}
    {create : Steps σ (Except Failure String)} {delete : String → Steps σ (Except Failure Unit)}
    (hcreate : Creates container key create)
    (hdelete : ∀ old keys, Steps.Ensures (·.KeysPending container keys) (delete old)
      fun _ t => t.KeysPending container keys) :
    Steps.Ensures (·.KeysPending container keys) (policy.settle key keys create delete)
      fun r t => t.KeysPending container r.2 := by
  unfold CollisionPolicy.settle
  split
  · exact fun s hs => hs
  have hcreate : Steps.Ensures (·.KeysPending container keys) create fun r t =>
      (∀ id, r = .ok id → t.KeysPending container (keys.insert key id)) ∧
        ∀ f, r = .error f → t.KeysPending container keys :=
    fun s hs => ⟨fun id hr => hcreate.ok s keys id hr hs, fun f hr => hcreate.error s keys f hr hs⟩
  refine Steps.Ensures.bind hcreate ?_
  rintro (f | new)
  · exact fun s hs => hs.2 f rfl
  -- deleting the replaced item leaves its key, which is that of the new one
  refine Steps.Ensures.of_imp (P := (·.KeysPending container (keys.insert key new))) ?_
    fun s hs => hs.1 new rfl
  dsimp only
  split
  · refine Steps.Ensures.bind (hdelete _ _) ?_
    rintro (f | ⟨⟩) <;> exact fun s hs => hs
  · exact fun s hs => hs

/-- Placing an item brings what is known up to date. -/
theorem Plan.place_follow (plan : Plan σ) {container key : String} (keys : Keys)
    {create : Steps σ (Except Failure String)} {delete : String → Steps σ (Except Failure Unit)}
    (hcreate : Creates container key create)
    (hdelete : ∀ old keys, Steps.Ensures (·.KeysPending container keys) (delete old)
      fun _ t => t.KeysPending container keys) :
    Steps.Ensures (fun s => s.KeysFollow ∧ s.registry.keys.find? container = some keys)
      (plan.place container key keys create delete) fun _ t => t.KeysFollow := by
  rintro s ⟨hs, hkeys⟩
  exact (settle_pending hcreate hdelete s (hs.pending hkeys)).follow

theorem Plan.uploadFile_follow (plan : Plan σ) (drive folder : String) (file : DriveFile) :
    Restoring.Ensures Session.KeysFollow (plan.uploadFile drive folder file)
      (fun _ t => t.KeysFollow) fun _ t => t.KeysFollow := by
  refine Restoring.Ensures.bind (knownKeys_follow (plan.lists_drive drive folder)) fun keys => ?_
  refine Restoring.Ensures.bind (Restoring.Ensures.always (plan.place_follow keys
    (plan.creates_drive drive folder file.name file.data plan.options.onCollision)
    fun _ _ _ h => h.ask rfl)) ?_
  rintro (fault | id)
  · intro s hs
    dsimp only
    split
    · exact hs
    · exact hs
  · intro s hs
    dsimp only
    split
    · -- renaming the file that replaced another one concerns no keys
      have hrename : (plan.ask (.drive (.rename drive id file.name)) s).2.KeysFollow :=
        Session.KeysFollow.perform (e := .call (.drive (.rename drive id file.name))) hs rfl
      rw [Restoring.run_bind, Restoring.run_always]
      dsimp only
      split
      · exact hrename
      · exact hrename
    · exact hs

theorem Plan.createItem_follow (plan : Plan σ) (kind : ItemKind) (container : String)
    (item : Item) :
    Restoring.Ensures Session.KeysFollow (plan.createItem kind container item)
      (fun _ t => t.KeysFollow) fun _ t => t.KeysFollow := by
  refine Restoring.Ensures.bind (knownKeys_follow (plan.lists_items kind container)) fun keys => ?_
  refine Restoring.Ensures.bind (Restoring.Ensures.always (plan.place_follow keys
    (plan.creates_items kind container item) fun _ _ _ h => h.ask rfl)) ?_
  rintro (fault | id)
  · intro s hs
    dsimp only
    split
    · exact hs
    · exact hs
  · exact fun s hs => hs

/-! ## Whole steps -/

/-- Whatever a step ensures besides, its faults are of a kind if all its faults are. -/
theorem Restoring.Keeps.of_ensures {α : Type} {I : Session σ → Prop} {x : Restoring σ α}
    (hx : Restoring.Ensures I x (fun _ t => I t) fun _ t => I t)
    (hfault : Restoring.Keeps (fun _ => True) x Going) : Restoring.Keeps I x Going := by
  intro s hs
  have hend := hx s hs
  have hgoing := hfault s trivial
  rcases hr : x.run s with ⟨_ | _, t⟩ <;> rw [hr] at hend hgoing
  · exact ⟨hend, hgoing.2⟩
  · exact hend

theorem upkeep_trivial : Upkeep plan (fun _ => True) (fun _ => True) Going :=
  Upkeep.of_keep (fun _ _ _ _ => trivial) fun _ _ => Fault.not_isCancelled_of_isPlain

theorem Plan.uploadFile_keysFollow (plan : Plan σ) (drive folder : String) (file : DriveFile) :
    Restoring.Keeps Session.KeysFollow (plan.uploadFile drive folder file) Going :=
  .of_ensures (plan.uploadFile_follow drive folder file)
    (upkeep_trivial.uploadFile (tolerates_going fun _ => trivial) (fun _ _ => trivial) _ _ _)

theorem Plan.createItem_keysFollow (plan : Plan σ) (kind : ItemKind) (container : String)
    (item : Item) :
    Restoring.Keeps Session.KeysFollow (plan.createItem kind container item) Going :=
  .of_ensures (plan.createItem_follow kind container item)
    (upkeep_trivial.createItem (tolerates_going fun _ => trivial) (fun _ _ => trivial) _ _)

theorem Plan.restorePermissions_keysFollow (plan : Plan σ) (drive item : String)
    (path : BackupPath) (current : Metadata) :
    Restoring.Keeps Session.KeysFollow (plan.restorePermissions drive item path current) Going :=
  upkeep_keysFollow.restorePermissions_going (fun _ he => Effect.leavesKeys_of (by simp [he]))
    drive item path current

theorem Plan.restoreDriveEntry_keysFollow (plan : Plan σ) (c : Collection)
    (address : DriveAddress) (folder : String) (entry : Entry) :
    Restoring.Keeps Session.KeysFollow (plan.restoreDriveEntry c address folder entry) Going := by
  refine upkeep_keysFollow.restoreDriveEntry tolerates_leavesKeys (fun file _ => ?_)
    fun _ _ _ => rfl
  exact upkeep_keysFollow.restoreFile tolerates_leavesKeys
    (fun _ he => Effect.leavesKeys_of (by simp [he]))
    (plan.uploadFile_keysFollow address.drive folder file)
    fun _ id path _ => plan.restorePermissions_keysFollow address.drive id path file.metadata

theorem Plan.enterFolder_keysFollow (plan : Plan σ) (c : Collection) :
    Restoring.Keeps Session.KeysFollow (plan.enterFolder c) Going :=
  upkeep_keysFollow.enterFolder tolerates_leavesKeys
    (fun _ he => Effect.leavesKeys_of (by simp [he])) (fun _ => rfl)
    fun _ drive id m => plan.restorePermissions_keysFollow drive id c.path m

theorem Plan.containerFor_keysFollow (plan : Plan σ) (kind : ItemKind) (path : BackupPath) :
    Restoring.Keeps Session.KeysFollow (plan.containerFor kind path) Going :=
  upkeep_keysFollow.containerFor (fun _ _ => rfl) (fun _ _ _ => rfl) path

theorem Plan.restoreItem_keysFollow (plan : Plan σ) (kind : ItemKind) (c : Collection)
    (container : String) (entry : Entry) :
    Restoring.Keeps Session.KeysFollow (plan.restoreItem kind c container entry) Going :=
  upkeep_keysFollow.restoreItem tolerates_leavesKeys (fun _ _ => rfl)
    (fun _ he => Effect.leavesKeys_of (by simp [he]))
    fun item => plan.createItem_keysFollow kind container item

/-- Between entries the keys are known as the trace tells them. -/
theorem Plan.forEach_keysFollow (plan : Plan σ) {act : Entry → Restoring σ Unit}
    (hact : ∀ e, Restoring.Keeps Session.KeysFollow (act e) Going) (path : String)
    (driesUp : Bool) (es : List (Except Failure Entry)) :
    Restoring.Keeps Session.KeysFollow (plan.forEach path driesUp act es) (Stopping Going) :=
  Plan.forEach_keeps (fun _ _ h => h.perform rfl) (fun _ h => h.perform rfl) hact

/-- Between collections the keys are known as the trace tells them. -/
theorem Plan.restoreAll_keysFollow (plan : Plan σ) (cs : List Collection) :
    Steps.Keeps Session.KeysFollow (plan.restoreAll cs) fun _ _ => True := by
  refine upkeep_keysFollow.restoreAll tolerates_leavesKeys rfl fun c _ => ?_
  refine Upkeep.restoreCollection tolerates_leavesKeys (fun _ => ?_) fun kind _ => ?_
  · exact upkeep_keysFollow.restoreDrive tolerates_leavesKeys rfl (plan.enterFolder_keysFollow c)
      fun address folder entry _ => plan.restoreDriveEntry_keysFollow c address folder entry
  · exact upkeep_keysFollow.restoreItems tolerates_leavesKeys rfl
      (plan.containerFor_keysFollow kind c.path)
      fun container entry _ => plan.restoreItem_keysFollow kind c container entry

/-! ## From boundary to boundary -/

theorem Effect.leavesKeys_of_isToward {h : Handler} {e : Effect} (he : e.isToward h) :
    e.leavesKeys := by
  cases h with
  | drive =>
    simp only [isToward, Bool.or_eq_true] at he
    rcases he with he | he
    · exact leavesKeys_of (.inl he)
    · cases e <;> first | rfl | cases he
  | items kind =>
    rcases e with (_ | ⟨_, c⟩ | _) | _ | _ | _ | _ | _ | _ | _ | _ | _
    case call.items => cases c <;> first | rfl | cases he
    all_goals first | rfl | cases he

theorem Plan.enter_keysFollow (plan : Plan σ) (c : Collection) :
    Restoring.Keeps Session.KeysFollow (plan.enter c) Going :=
  upkeep_keysFollow.enter tolerates_leavesKeys (fun _ => Effect.leavesKeys_of_isToward)
    fun _ _ drive id m => plan.restorePermissions_keysFollow drive id c.path m

theorem Plan.take_keysFollow (plan : Plan σ) (c : Collection) (entrance : Entrance) (e : Entry) :
    Restoring.Keeps Session.KeysFollow (plan.take c entrance e) Going := by
  cases entrance with
  | drive address folder => exact plan.restoreDriveEntry_keysFollow c address folder e
  | items kind container => exact plan.restoreItem_keysFollow kind c container e

/-- At every boundary the keys are known as the trace tells them. -/
theorem Plan.boundary_keysFollow (plan : Plan σ) (cs : List Collection) {start : Session σ}
    (hstart : start.KeysFollow) (n : Nat) : (plan.boundary cs start n).session.KeysFollow := by
  induction n with
  | zero => exact hstart
  | succ n ih =>
    rw [Plan.boundary_succ]
    rcases plan.advance_cases (plan.boundary cs start n) with ⟨p, -, -, heq⟩ |
      ⟨c, later, -, -, -, heq⟩ | ⟨-, heq⟩ <;> rw [heq]
    · obtain ⟨c, entrance, rest⟩ := p
      rcases rest with _ | ⟨f | e, rest⟩ <;> dsimp only [Plan.pass]
      · split <;> exact ih
      · exact ih.perform (e := .note _) rfl
      · exact Plan.afterEntry_keeps (fun f t ht => ht.perform (e := .note f) rfl) _
          ((plan.take_keysFollow c entrance e).snd ih)
    · have hentered := (plan.enter_keysFollow c).snd ih
      unfold Plan.begin
      rcases hrun : (plan.enter c).run (plan.boundary cs start n).session with ⟨f | entrance, t⟩ <;>
        rw [hrun] at hentered
      · exact Plan.afterCollection_keeps (fun _ ht => ht.perform (e := .countCollection) rfl)
          (fun f t ht => ht.perform (e := .note f) rfl) (.error f, t) hentered
      · exact hentered
    · exact ih

theorem Session.keysFollow_start (plan : Plan σ) (faults : FaultLog) (stopped : Bool)
    (remote : σ) : (Session.start plan faults stopped remote).KeysFollow :=
  fun _ => rfl

end TenantRestore
