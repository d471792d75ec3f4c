/-
# What a restore sees of a drive

A restore works on a drive in memory; someone beside the drive takes the receipts, sees every
call and may stop the restore during any of them.  What matters between the two is the drive
itself, the folders and keys the restore has come to know of it, and the calls so far: this is a
`DriveView`.  Most of what a restore does to its session leaves the view as it is.

A view changes in few ways, each of which is named here: on the way to the folder of a collection
(`DriveView.Toward`), by listing the keys of a folder, by storing a file (`DriveView.Files`), and
by restoring the permissions of one item (`DriveView.Shares`).  Every step of a restore of drive
collections is shown to change the view in these ways only, and to end as it should.
-/
import Mathlib.Logic.Relation
import TenantRestore.Proofs.Boundary
import TenantRestore.Proofs.Drive.Store
import TenantRestore.Proofs.Handlers

namespace TenantRestore

variable {ρ : Type}

/-- A drive in memory, beside someone who sees all calls, answers those that are not about drives,
and may stop the restore. -/
def DriveStore.beside (desk : Remote ρ) : Remote (DriveStore × ρ) where
  serves h := decide (h = .drive) || desk.serves h
  respond
    | .drive c, s =>
      let (answer, store) := s.1.respond c
      let (response, r) := desk.respond (.drive c) s.2
      (⟨answer, response.stops⟩, (store, r))
    | .items kind c, s =>
      let (response, r) := desk.respond (.items kind c) s.2
      (response, (s.1, r))
    | .receipt receipt, s =>
      let (response, r) := desk.respond (.receipt receipt) s.2
      (response, (s.1, r))

/-- Nobody who answers anything. -/
def Remote.nobody : Remote Unit where
  serves _ := false
  respond _ s := (⟨.error (.because "nobody answers"), false⟩, s)

/-! ## Views -/

/-- What a restore sees of a drive. -/
structure DriveView where
  /-- The drive. -/
  store : DriveStore
  /-- The ids of the folders the restore knows. -/
  folders : Table (String × List String) String
  /-- The keys of the files it knows. -/
  keys : Table String Keys
  /-- The metadata of the folders it has come through. -/
  metadata : Table String Metadata
  /-- The calls so far, with what came back. -/
  trace : List Exchange

/-- What a restore sees of the drive. -/
def Session.view (s : Session (DriveStore × ρ)) : DriveView :=
  ⟨s.remote.1, s.registry.folders, s.registry.keys, s.registry.metadata, s.trace⟩

namespace DriveView

/-- The view after a call that concerns the drive. -/
def asked (V : DriveView) (c : DriveCall) : DriveView :=
  { V with
    store := (V.store.respond c).2
    trace := V.trace ++ [⟨.drive c, (V.store.respond c).1⟩] }

/-- The view after another exchange. -/
def heard (V : DriveView) (x : Exchange) : DriveView := { V with trace := V.trace ++ [x] }

/-- The view after the id of a folder has been learnt. -/
def knowing (V : DriveView) (place : String × List String) (id : String) : DriveView :=
  { V with folders := V.folders.insert place id }

/-- The view after the keys of a folder have been learnt. -/
def keeping (V : DriveView) (folder : String) (ks : Keys) : DriveView :=
  { V with keys := V.keys.insert folder ks }

/-- The view after the metadata of a folder has been learnt. -/
def remembering (V : DriveView) (path : String) (m : Metadata) : DriveView :=
  { V with metadata := V.metadata.insert path m }

/-- The id of the folder at a place of the drive, if the restore knows it. -/
def folder? (V : DriveView) (place : List String) : Option String :=
  V.folders.find? (V.store.drive, place)

end DriveView

/-- Whether a call may change the folders and files of a drive. -/
def Call.changes : Call → Bool
  | .drive (.createFolder _ _ _) | .drive (.upload _ _ _ _ _) | .drive (.delete _ _)
  | .drive (.rename _ _ _) => true
  | _ => false

/-! ### The answers of the drive -/

namespace DriveStore

@[simp] theorem respond_rootFolder (s : DriveStore) :
    s.respond (.rootFolder s.drive) = (.ok ⟨rootId, rootId, none⟩, s) :=
  if_pos rfl

@[simp] theorem respond_findFolder (s : DriveStore) (parent name : String) :
    s.respond (.findFolder s.drive parent name) = (.ok (s.findFolder parent name), s) :=
  if_pos rfl

@[simp] theorem respond_createFolder (s : DriveStore) (parent name : String) :
    s.respond (.createFolder s.drive parent name) = s.createFolder parent name :=
  if_pos rfl

@[simp] theorem respond_listKeys (s : DriveStore) (folder : String) :
    s.respond (.listKeys s.drive folder) = (.ok (s.keys folder), s) :=
  if_pos rfl

@[simp] theorem respond_upload (s : DriveStore) (folder name : String) (data : ByteArray)
    (policy : CollisionPolicy) :
    s.respond (.upload s.drive folder name data policy) = s.upload folder name data policy :=
  if_pos rfl

@[simp] theorem respond_delete (s : DriveStore) (item : String) :
    s.respond (.delete s.drive item) = s.delete item :=
  if_pos rfl

@[simp] theorem respond_rename (s : DriveStore) (item name : String) :
    s.respond (.rename s.drive item name) = s.rename item name :=
  if_pos rfl

@[simp] theorem respond_grant (s : DriveStore) (item : String) (invitation : Invitation) :
    s.respond (.grant s.drive item invitation) = s.grant item invitation :=
  if_pos rfl

@[simp] theorem respond_revoke (s : DriveStore) (item permission : String) :
    s.respond (.revoke s.drive item permission) = (.ok (), s.revoke item permission) :=
  if_pos rfl

/-- The root of another drive is not found. -/
theorem respond_rootFolder_of_ne {s : DriveStore} {drive : String} (h : drive ≠ s.drive) :
    ∃ f, s.respond (.rootFolder drive) = (.error f, s) := by
  refine ⟨.because ("drive `" ++ drive ++ "` not found"), ?_⟩
  simp [respond, respond.onDrive, h]

@[simp] theorem drive_createFolder (s : DriveStore) (parent name : String) :
    (s.createFolder parent name).2.drive = s.drive := by
  unfold createFolder
  split <;> rfl

@[simp] theorem drive_upload (s : DriveStore) (folder name : String) (data : ByteArray)
    (policy : CollisionPolicy) : (s.upload folder name data policy).2.drive = s.drive := by
  unfold upload
  split <;> rfl

@[simp] theorem drive_delete (s : DriveStore) (item : String) :
    (s.delete item).2.drive = s.drive := by
  unfold delete
  split
  · rfl
  · split <;> rfl

@[simp] theorem drive_rename (s : DriveStore) (item name : String) :
    (s.rename item name).2.drive = s.drive := by
  unfold rename
  split
  · rfl
  · split <;> rfl

@[simp] theorem drive_grant (s : DriveStore) (item : String) (invitation : Invitation) :
    (s.grant item invitation).2.drive = s.drive := by
  unfold grant
  split <;> rfl

/-- No call changes which drive it is. -/
@[simp] theorem drive_respond (s : DriveStore) (c : DriveCall) :
    (s.respond c).2.drive = s.drive :=
  respond_keeps (I := fun t => t.drive = s.drive) rfl (drive_createFolder s) (drive_upload s)
    (drive_delete s) (drive_rename s) (drive_grant s) (fun _ _ => rfl) c

end DriveStore

/-! ### Calls and other effects -/

section Effects

variable {plan : Plan (DriveStore × ρ)} {desk : Remote ρ}
  (hremote : plan.remote = DriveStore.beside desk)
include hremote

/-- A call that concerns drives is answered by the drive. -/
theorem Plan.ask_view (c : DriveCall) (s : Session (DriveStore × ρ)) :
    (plan.ask (.drive c) s).1 = (s.view.store.respond c).1 ∧
      (plan.ask (.drive c) s).2.view = s.view.asked c := by
  unfold Plan.ask
  rw [hremote]
  exact ⟨rfl, rfl⟩

/-- Any other call leaves the drive alone. -/
theorem Plan.ask_view_other {c : Call} (h : c.handler? ≠ some .drive)
    (s : Session (DriveStore × ρ)) :
    (plan.ask c s).2.view = s.view.heard ⟨c, (plan.ask c s).1⟩ := by
  cases c with
  | drive c => exact absurd rfl h
  | items kind c =>
    unfold Plan.ask
    rw [hremote]
    rfl
  | receipt r =>
    unfold Plan.ask
    rw [hremote]
    rfl

/-- What a drive keeps while it answers calls is kept by every effect of a restore. -/
theorem Plan.store_perform {I : DriveStore → Prop} (hkeep : ∀ s c, I s → I (s.respond c).2)
    (e : Effect) {s : Session (DriveStore × ρ)} (h : I s.view.store) :
    I (plan.perform e s).view.store := by
  cases e with
  | call c =>
    change I (plan.ask c s).2.view.store
    cases c with
    | drive c =>
      rw [(Plan.ask_view hremote c s).2]
      exact hkeep _ c h
    | items kind c => rwa [Plan.ask_view_other hremote (by simp [Call.handler?])]
    | receipt r => rwa [Plan.ask_view_other hremote (by simp [Call.handler?])]
  | _ => exact h

end Effects

/-! ## How a view changes -/

namespace DriveView

@[simp] theorem drive_asked (V : DriveView) (c : DriveCall) :
    (V.asked c).store.drive = V.store.drive := by
  simp [asked]

@[simp] theorem store_heard (V : DriveView) (x : Exchange) : (V.heard x).store = V.store := rfl

@[simp] theorem store_knowing (V : DriveView) (place : String × List String) (id : String) :
    (V.knowing place id).store = V.store := rfl

@[simp] theorem store_keeping (V : DriveView) (folder : String) (ks : Keys) :
    (V.keeping folder ks).store = V.store := rfl

@[simp] theorem store_remembering (V : DriveView) (path : String) (m : Metadata) :
    (V.remembering path m).store = V.store := rfl

theorem trace_asked {V : DriveView} {c : DriveCall} {r : Except Failure c.Answer}
    (h : (V.store.respond c).1 = r) : (V.asked c).trace = V.trace ++ [⟨.drive c, r⟩] := by
  rw [← h]
  rfl

section Asked

variable {V : DriveView} {drive : String} (hdrive : drive = V.store.drive)
include hdrive

theorem store_asked_createFolder (parent name : String) :
    (V.asked (.createFolder drive parent name)).store = (V.store.createFolder parent name).2 := by
  subst hdrive
  simp [asked]

theorem store_asked_upload (folder name : String) (data : ByteArray) (policy : CollisionPolicy) :
    (V.asked (.upload drive folder name data policy)).store =
      (V.store.upload folder name data policy).2 := by
  subst hdrive
  simp [asked]

theorem store_asked_delete (item : String) :
    (V.asked (.delete drive item)).store = (V.store.delete item).2 := by
  subst hdrive
  simp [asked]

theorem store_asked_rename (item name : String) :
    (V.asked (.rename drive item name)).store = (V.store.rename item name).2 := by
  subst hdrive
  simp [asked]

end Asked

section Calls

variable {V : DriveView} {parent folder name : String} {data : ByteArray}
  {policy : CollisionPolicy}

/-- A folder is created in a folder that is there. -/
theorem store_created (h : (V.store.node? parent).isSome) (name : String) :
    (V.asked (.createFolder V.store.drive parent name)).store =
      (V.store.addNode "folder" parent name none).noting (.createdFolder parent name) := by
  rw [store_asked_createFolder rfl, DriveStore.createFolder_of_some h]

theorem mem_created (hnumbered : V.store.Numbered) (h : (V.store.node? parent).isSome)
    (name : String) {n : Node} :
    n ∈ (V.asked (.createFolder V.store.drive parent name)).store.nodes ↔
      n = ⟨V.store.newId "folder", name, some parent, none⟩ ∨ n ∈ V.store.nodes := by
  rw [store_created h name]
  exact hnumbered.mem_addNode

theorem trace_created (h : (V.store.node? parent).isSome) (name : String) :
    (V.asked (.createFolder V.store.drive parent name)).trace =
      V.trace ++ [⟨.drive (.createFolder V.store.drive parent name),
        .ok ⟨V.store.newId "folder", name, some parent⟩⟩] :=
  trace_asked (by
    rw [DriveStore.respond_createFolder, DriveStore.createFolder_of_some h]
    rfl)

/-- In a folder that is gone none is created. -/
theorem store_orphaned (h : V.store.node? parent = none) (name : String) :
    (V.asked (.createFolder V.store.drive parent name)).store = V.store := by
  rw [store_asked_createFolder rfl, DriveStore.createFolder_of_none h]

/-- A file that is refused leaves the drive alone. -/
theorem store_refused {f : Failure} (h : (V.store.upload folder name data policy).1 = .error f) :
    (V.asked (.upload V.store.drive folder name data policy)).store = V.store := by
  rw [store_asked_upload rfl, DriveStore.upload_of_error h]

theorem trace_uploaded {r : Except Failure String}
    (h : (V.store.upload folder name data policy).1 = r) :
    (V.asked (.upload V.store.drive folder name data policy)).trace =
      V.trace ++ [⟨.drive (.upload V.store.drive folder name data policy), r⟩] :=
  trace_asked (by
    rw [DriveStore.respond_upload]
    exact h)

end Calls

/-- The view after a call that leaves the drive alone. -/
theorem asked_of_snd_eq {V : DriveView} {c : DriveCall} (h : (V.store.respond c).2 = V.store) :
    V.asked c = V.heard ⟨.drive c, (V.store.respond c).1⟩ := by
  unfold asked heard
  rw [h]

/-- A step on the way to the folder that is reached from the root by some names. -/
inductive Toward (names : List String) (V : DriveView) : DriveView → Prop
  /-- A call that changes neither folders nor files. -/
  | look {x : Exchange} (hcall : x.call.changes = false) : Toward names V (V.heard x)
  /-- The root is learnt. -/
  | root (hnew : V.folder? [] = none) : Toward names V (V.knowing (V.store.drive, []) rootId)
  /-- A folder is there already. -/
  | found {place : List String} {name parent id : String} (hplace : place ++ [name] <+: names)
      (hparent : V.folder? place = some parent) (hnew : V.folder? (place ++ [name]) = none)
      (hfind : V.store.findFolder parent name = some ⟨id, name, some parent⟩) :
      Toward names V (V.knowing (V.store.drive, place ++ [name]) id)
  /-- A folder is created. -/
  | created {place : List String} {name parent : String} (hplace : place ++ [name] <+: names)
      (hparent : V.folder? place = some parent) (hnew : V.folder? (place ++ [name]) = none)
      (hfind : V.store.findFolder parent name = none)
      (hnode : (V.store.node? parent).isSome) :
      Toward names V ((V.asked (.createFolder V.store.drive parent name)).knowing
        (V.store.drive, place ++ [name]) (V.store.newId "folder"))
  /-- A folder can't be created, because the folder it would be in is gone. -/
  | orphaned {place : List String} {name parent : String} (hparent : V.folder? place = some parent)
      (hnode : V.store.node? parent = none) :
      Toward names V (V.asked (.createFolder V.store.drive parent name))

/-- The way to the folder that is reached from the root by some names. -/
abbrev Way (names : List String) : DriveView → DriveView → Prop :=
  Relation.ReflTransGen (Toward names)

/-- A known folder is gone from the drive. -/
def Stranded (V : DriveView) : Prop :=
  ∃ place parent, V.folder? place = some parent ∧ V.store.node? parent = none

/-- The view once the keys of a folder are known. -/
def listed (V : DriveView) (folder : String) : DriveView :=
  if (V.keys.find? folder).isSome then V
  else (V.asked (.listKeys V.store.drive folder)).keeping folder (V.store.keys folder)

/-- Storing a file in a folder whose keys are known, with the result of it. -/
inductive Files (policy : CollisionPolicy) (folder : String) (file : DriveFile) (V : DriveView) :
    Except Fault (String × Bool) → DriveView → Prop
  /-- Another file of its name is kept. -/
  | kept {ks : Keys} (hks : V.keys.find? folder = some ks) (hskip : policy = .skip)
      (hname : ks.contains file.name) :
      Files policy folder file V (.error (.itemAlreadyExists file.name)) (V.keeping folder ks)
  /-- The upload fails. -/
  | refused {ks : Keys} {f : Failure} (hks : V.keys.find? folder = some ks)
      (hname : ¬ (ks.contains file.name ∧ policy = .skip))
      (hupload : (V.store.upload folder file.name file.data policy).1 = .error f) :
      Files policy folder file V (.error (.remote f))
        ((V.asked (.upload V.store.drive folder file.name file.data policy)).keeping folder ks)
  /-- The file is added. -/
  | added {ks : Keys} {new : String} (hks : V.keys.find? folder = some ks)
      (hname : ¬ (ks.contains file.name ∧ policy = .skip))
      (hupload : (V.store.upload folder file.name file.data policy).1 = .ok new)
      (hfree : policy = .replace → ks.find? file.name = none) :
      Files policy folder file V (.ok (new, false))
        ((V.asked (.upload V.store.drive folder file.name file.data policy)).keeping folder
          (ks.insert file.name new))
  /-- The file takes the place of another one. -/
  | replaced {ks : Keys} {new old : String} (hks : V.keys.find? folder = some ks)
      (hreplace : policy = .replace) (hold : ks.find? file.name = some old)
      (hupload : (V.store.upload folder file.name file.data policy).1 = .ok new)
      (hdelete : ((V.store.upload folder file.name file.data policy).2.delete old).1 = .ok ()) :
      Files policy folder file V (.ok (new, true))
        ((((V.asked (.upload V.store.drive folder file.name file.data policy)).asked
          (.delete V.store.drive old)).keeping folder (ks.insert file.name new)).asked
          (.rename V.store.drive new file.name))
  /-- The file is added, but the one it replaces stays. -/
  | stays {ks : Keys} {new old : String} {f : Failure} (hks : V.keys.find? folder = some ks)
      (hreplace : policy = .replace) (hold : ks.find? file.name = some old)
      (hupload : (V.store.upload folder file.name file.data policy).1 = .ok new)
      (hdelete : ((V.store.upload folder file.name file.data policy).2.delete old).1 =
        .error f) :
      Files policy folder file V (.ok (new, true))
        (((V.asked (.upload V.store.drive folder file.name file.data policy)).asked
          (.delete V.store.drive old)).keeping folder (ks.insert file.name new))

/-- Restoring the permissions of an item, and handing out receipts. -/
structure Shares (item : String) (V W : DriveView) : Prop where
  drive : W.store.drive = V.store.drive
  nodes : W.store.nodes = V.store.nodes
  keepsAll : W.store.keepsAll = V.store.keepsAll
  count : V.store.count ≤ W.store.count
  grants : ∀ id, id ≠ item → W.store.grantsOn id = V.store.grantsOn id
  folders : W.folders = V.folders
  keys : W.keys = V.keys
  metadata : W.metadata = V.metadata
  trace : ∃ xs, W.trace = V.trace ++ xs ∧ ∀ x ∈ xs, x.call.changes = false

theorem Shares.refl (item : String) (V : DriveView) : V.Shares item V :=
  ⟨rfl, rfl, rfl, Nat.le_refl _, fun _ _ => rfl, rfl, rfl, rfl, [], by simp, by simp⟩

theorem Shares.trans {item : String} {U V W : DriveView} (h : U.Shares item V)
    (h' : V.Shares item W) : U.Shares item W where
  drive := h'.drive.trans h.drive
  nodes := h'.nodes.trans h.nodes
  keepsAll := h'.keepsAll.trans h.keepsAll
  count := h.count.trans h'.count
  grants id hid := (h'.grants id hid).trans (h.grants id hid)
  folders := h'.folders.trans h.folders
  keys := h'.keys.trans h.keys
  metadata := h'.metadata.trans h.metadata
  trace := by
    obtain ⟨xs, hxs, hx⟩ := h.trace
    obtain ⟨ys, hys, hy⟩ := h'.trace
    refine ⟨xs ++ ys, by rw [hys, hxs, List.append_assoc], ?_⟩
    intro x hmem
    rcases List.mem_append.1 hmem with hmem | hmem
    · exact hx x hmem
    · exact hy x hmem

theorem Shares.heard {item : String} {V : DriveView} {x : Exchange}
    (hx : x.call.changes = false) : V.Shares item (V.heard x) :=
  ⟨rfl, rfl, rfl, Nat.le_refl _, fun _ _ => rfl, rfl, rfl, rfl, [x], rfl, by simpa using hx⟩

end DriveView

/-- Granting permissions on an item only concerns that item. -/
theorem DriveStore.grantsOn_grant (s : DriveStore) {item id : String} (h : id ≠ item)
    (invitation : Invitation) : (s.grant item invitation).2.grantsOn id = s.grantsOn id := by
  unfold grant
  split
  · rfl
  · simp [grantsOn, noting, Ne.symm h]

/-- So does taking them back. -/
theorem DriveStore.grantsOn_revoke (s : DriveStore) {item id : String} (h : id ≠ item)
    (permission : String) : (s.revoke item permission).grantsOn id = s.grantsOn id := by
  unfold revoke grantsOn noting
  cases s.grants.find? item with
  | none => rfl
  | some gs => simp [Ne.symm h]

namespace DriveView

theorem Shares.grant (V : DriveView) (item : String) (invitation : Invitation) :
    V.Shares item (V.asked (.grant V.store.drive item invitation)) := by
  have hstore : (V.asked (.grant V.store.drive item invitation)).store =
      (V.store.grant item invitation).2 := by
    simp only [asked, DriveStore.respond_grant]
  refine ⟨?_, ?_, ?_, ?_, ?_, rfl, rfl, rfl, [_], rfl, by simp [Call.changes]⟩
  · rw [hstore, DriveStore.drive_grant]
  · rw [hstore]
    unfold DriveStore.grant
    split <;> rfl
  · rw [hstore]
    unfold DriveStore.grant
    split <;> rfl
  · rw [hstore]
    unfold DriveStore.grant
    split
    · exact Nat.le_refl _
    · exact Nat.le_succ _
  · intro id hid
    rw [hstore, DriveStore.grantsOn_grant _ hid]

theorem Shares.revoke (V : DriveView) (item permission : String) :
    V.Shares item (V.asked (.revoke V.store.drive item permission)) := by
  have hstore : (V.asked (.revoke V.store.drive item permission)).store =
      V.store.revoke item permission := by
    simp only [asked, DriveStore.respond_revoke]
  refine ⟨?_, ?_, ?_, ?_, ?_, rfl, rfl, rfl, [_], rfl, by simp [Call.changes]⟩
  · rw [hstore]
    rfl
  · rw [hstore]
    rfl
  · rw [hstore]
    rfl
  · rw [hstore]
    exact Nat.le_refl _
  · intro id hid
    rw [hstore, DriveStore.grantsOn_revoke _ hid]

end DriveView

end TenantRestore
