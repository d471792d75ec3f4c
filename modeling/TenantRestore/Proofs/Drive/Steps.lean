/-
# The steps of a restore, as seen from the drive

Every step on the way of a drive collection and its entries changes the view of the drive in the
ways named in `TenantRestore.Proofs.Drive.View`: finding the destination folder is a way to it,
uploading a file lists the keys of its folder and stores it, and permissions are shared on one
item at a time.

The two steps between boundaries are put together of these: `DriveView.Enters` says how a collection
is entered, and `DriveView.Takes` how one of its entries is taken, each with its result.
-/
import TenantRestore.Proofs.Drive.View
import TenantRestore.Proofs.Settle

namespace TenantRestore

variable {ρ : Type} {plan : Plan (DriveStore × ρ)} {desk : Remote ρ}

namespace DriveView

/-- The folders a restore knows are on the drive it sees. -/
def Home (V : DriveView) : Prop :=
  ∀ place id, V.folders.find? place = some id → place.1 = V.store.drive

theorem Toward.drive {names : List String} {V W : DriveView} (h : V.Toward names W) :
    W.store.drive = V.store.drive := by
  cases h <;> simp

theorem Way.drive {names : List String} {V W : DriveView} (h : V.Way names W) :
    W.store.drive = V.store.drive := by
  induction h with
  | refl => rfl
  | tail _ hstep ih => exact hstep.drive.trans ih

/-- Listing the keys of a folder leaves the drive alone. -/
theorem store_listed (V : DriveView) (folder : String) : (V.listed folder).store = V.store := by
  unfold listed
  split
  · rfl
  · rw [store_keeping, asked_of_snd_eq (by rw [DriveStore.respond_listKeys]), store_heard]

@[simp] theorem drive_listed (V : DriveView) (folder : String) :
    (V.listed folder).store.drive = V.store.drive := by rw [store_listed]

theorem Files.drive {policy : CollisionPolicy} {folder : String} {file : DriveFile}
    {V W : DriveView} {r : Except Fault (String × Bool)} (h : V.Files policy folder file r W) :
    W.store.drive = V.store.drive := by
  cases h <;> simp

/-- Only under the policy to replace a file takes the place of another one. -/
theorem Files.replaces {policy : CollisionPolicy} {folder id : String} {file : DriveFile}
    {V W : DriveView} (h : V.Files policy folder file (.ok (id, true)) W) : policy = .replace := by
  cases h <;> assumption

theorem folder?_knowing (V : DriveView) (place place' : List String) (id : String) :
    (V.knowing (V.store.drive, place) id).folder? place' =
      if place = place' then some id else V.folder? place' := by
  simp [folder?, knowing]

end DriveView

/-! ## Entering collections and taking their entries -/

/-- How an entry of a collection is taken that goes to a folder of the drive. -/
inductive DriveView.Takes {σ : Type} (plan : Plan σ) (c : Collection) (folder : String) (e : Entry)
    (V : DriveView) : Except Fault Unit → DriveView → Prop
  /-- The entry can't be read. -/
  | unread {f : Fault} (hentry : plan.recognise c e = .error f) :
      Takes plan c folder e V (.error f) V
  /-- There is nothing to do. -/
  | nothing (hentry : plan.recognise c e = .ok .nothing) : Takes plan c folder e V (.ok ()) V
  /-- It is the metadata of a folder. -/
  | metadata {path : BackupPath} {m : Metadata}
      (hentry : plan.recognise c e = .ok (.folderMetadata path m)) :
      Takes plan c folder e V (.ok ()) (V.remembering path.text m)
  /-- It is a file that is not stored. -/
  | failed {file : DriveFile} {f : Fault} {W : DriveView}
      (hentry : plan.recognise c e = .ok (.file file))
      (hfiles : (V.listed folder).Files plan.options.onCollision folder file (.error f) W) :
      Takes plan c folder e V (.error f) W
  /-- It is a file that is stored, and its permissions may be restored. -/
  | stored {file : DriveFile} {id : String} {updated : Bool} {r : Except Fault Unit}
      {W X : DriveView} (hentry : plan.recognise c e = .ok (.file file))
      (hfiles : (V.listed folder).Files plan.options.onCollision folder file (.ok (id, updated)) W)
      (hshares : W.Shares id X) :
      Takes plan c folder e V r X

/-- How a collection is entered. -/
inductive DriveView.Enters {σ : Type} (plan : Plan σ) (c : Collection) (V : DriveView) :
    Except Fault Entrance → DriveView → Prop
  /-- Nobody handles it. -/
  | unserved (h : c.path.category.handler ≠ .drive) :
      Enters plan c V (.error (.noHandler c.path.category)) V
  /-- Its path is not one of a drive. -/
  | unplaced {e : PathError} (hhandler : c.path.category.handler = .drive)
      (hpath : c.path.drive = .error e) : Enters plan c V (.error (.path e)) V
  /-- Its metadata can't be read. -/
  | unread {address : DriveAddress} {f : Fault} (hhandler : c.path.category.handler = .drive)
      (hpath : c.path.drive = .ok address)
      (hmetadata : plan.folderMetadata c address V.metadata = .error f) :
      Enters plan c V (.error f) V
  /-- It is of another drive. -/
  | elsewhere {address : DriveAddress} {m : Metadata} {f : Fault} {x : Exchange}
      (hhandler : c.path.category.handler = .drive)
      (hpath : c.path.drive = .ok address)
      (hmetadata : plan.folderMetadata c address V.metadata = .ok m)
      (hdrive : address.drive ≠ V.store.drive) (hcall : x.call.changes = false) :
      Enters plan c V (.error f) (V.heard x)
  /-- A folder on the way is gone. -/
  | lost {address : DriveAddress} {m : Metadata} {f : Fault} {W : DriveView}
      (hhandler : c.path.category.handler = .drive)
      (hpath : c.path.drive = .ok address)
      (hmetadata : plan.folderMetadata c address V.metadata = .ok m)
      (hdrive : address.drive = V.store.drive)
      (hway : V.Way (plan.options.destination address) W) (hlost : W.Stranded) :
      Enters plan c V (.error f) W
  /-- Its folder is found or created, and its permissions may be restored. -/
  | entered {address : DriveAddress} {m : Metadata} {folder : String} {W X : DriveView}
      (hhandler : c.path.category.handler = .drive)
      (hpath : c.path.drive = .ok address)
      (hmetadata : plan.folderMetadata c address V.metadata = .ok m)
      (hdrive : address.drive = V.store.drive)
      (hway : V.Way (plan.options.destination address) W)
      (hfolder : W.folder? (plan.options.destination address) = some folder)
      (hshares : W.Shares folder X) :
      Enters plan c V (.ok (.drive address folder)) (X.remembering c.path.text m)

section Steps

variable (hremote : plan.remote = DriveStore.beside desk) {V : DriveView}
include hremote

/-! ## Folders -/

theorem Plan.need_view (c : DriveCall) :
    Restoring.Ensures (fun s => s.view = V) (Restoring.need (plan.askDrive c))
      (fun a t => (V.store.respond c).1 = .ok a ∧ t.view = V.asked c)
      fun f t => (∃ e, (V.store.respond c).1 = .error e ∧ f = .remote e) ∧ t.view = V.asked c := by
  rintro s rfl
  obtain ⟨hanswer, hview⟩ := Plan.ask_view hremote c s
  have hrun : (Restoring.need (plan.askDrive c)).run s =
      ((s.view.store.respond c).1.mapError .remote, (plan.ask (.drive c) s).2) := by
    rw [Restoring.run_need]
    exact congrArg (fun r : Except Failure c.Answer => (r.mapError Fault.remote, _)) hanswer
  rw [hrun]
  cases (s.view.store.respond c).1 with
  | ok a => exact ⟨rfl, hview⟩
  | error e => exact ⟨⟨e, rfl, rfl⟩, hview⟩

/-- The root of the drive is always found. -/
theorem Plan.rootFolder_view (names : List String) :
    Restoring.Ensures (fun s => s.view = V) (plan.rootFolder V.store.drive)
      (fun id t => V.Way names t.view ∧ t.view.folder? [] = some id) fun _ _ => False := by
  refine Restoring.Ensures.get_bind fun s hs => ?_
  have hknown : s.registry.folders.find? (V.store.drive, []) = V.folder? [] := by rw [← hs]; rfl
  rw [hknown]
  cases hfind : V.folder? [] with
  | some id =>
    refine ⟨?_, ?_⟩
    · rw [hs]
    · rw [hs, hfind]
  | none =>
    refine Restoring.Ensures.bind (P := fun s => s.view = V) (Q := fun (root : Container) t =>
      root.id = rootId ∧ ∃ x, x.call.changes = false ∧ t.view = V.heard x) ?_ (fun root => ?_) s hs
    · refine (Plan.need_view hremote (.rootFolder V.store.drive)).mono (fun _ h => h) ?_ ?_
      · rintro root t ⟨hanswer, hview⟩
        rw [DriveStore.respond_rootFolder] at hanswer
        cases hanswer
        rw [DriveView.asked_of_snd_eq (by rw [DriveStore.respond_rootFolder])] at hview
        exact ⟨rfl, _, rfl, hview⟩
      · rintro f t ⟨⟨e, hanswer, -⟩, -⟩
        rw [DriveStore.respond_rootFolder] at hanswer
        cases hanswer
    · rintro t ⟨hroot, x, hx, hview⟩
      have hend : (plan.perform (.folder (V.store.drive, []) root.id) t).view =
          (V.heard x).knowing (V.store.drive, []) rootId := by
        rw [← hview, ← hroot]
        rfl
      have hway : V.Way names ((V.heard x).knowing (V.store.drive, []) rootId) :=
        (Relation.ReflTransGen.single (.look hx)).tail (.root hfind)
      rw [← hend] at hway
      refine ⟨hway, ?_⟩
      change (plan.perform (.folder (V.store.drive, []) root.id) t).view.folder? [] = some root.id
      rw [hend, hroot]
      exact (DriveView.folder?_knowing (V.heard x) [] [] rootId).trans (if_pos rfl)

/-- A folder that is needed is found, or it is created if the folder it is to be in is there. -/
theorem Plan.subfolder_view (parent name : String) :
    Restoring.Ensures (fun s => s.view = V) (plan.subfolder V.store.drive parent name)
      (fun id t => ∃ x, x.call.changes = false ∧
        (V.store.findFolder parent name = some ⟨id, name, some parent⟩ ∧ t.view = V.heard x ∨
          V.store.findFolder parent name = none ∧ (V.store.node? parent).isSome ∧
          id = V.store.newId "folder" ∧
          t.view = (V.heard x).asked (.createFolder V.store.drive parent name)))
      fun _ t => ∃ x, x.call.changes = false ∧ V.store.node? parent = none ∧
        t.view = (V.heard x).asked (.createFolder V.store.drive parent name) := by
  have hfind : Restoring.Ensures (fun s => s.view = V)
      (Restoring.need (plan.askDrive (.findFolder V.store.drive parent name)))
      (fun found t => V.store.findFolder parent name = found ∧
        ∃ x, x.call.changes = false ∧ t.view = V.heard x) fun _ _ => False := by
    refine (Plan.need_view hremote (.findFolder V.store.drive parent name)).mono
      (fun _ h => h) ?_ ?_
    · rintro found t ⟨hanswer, hview⟩
      rw [DriveStore.respond_findFolder] at hanswer
      cases hanswer
      rw [DriveView.asked_of_snd_eq (by rw [DriveStore.respond_findFolder])] at hview
      exact ⟨rfl, _, rfl, hview⟩
    · rintro f t ⟨⟨e, hanswer, -⟩, -⟩
      rw [DriveStore.respond_findFolder] at hanswer
      cases hanswer
  refine Restoring.Ensures.bind (hfind.mono (fun _ h => h) (fun _ _ h => h) fun _ _ h => h.elim)
    fun found => ?_
  rintro t ⟨hfound, x, hx, hview⟩
  cases found with
  | some folder =>
    obtain ⟨n, -, -, rfl⟩ := DriveStore.findFolder_eq_some.1 hfound
    exact ⟨x, hx, Or.inl ⟨hfound, hview⟩⟩
  | none =>
    have hcreate := Plan.need_view (V := V.heard x) hremote
      (.createFolder V.store.drive parent name)
    refine Restoring.Ensures.bind (hcreate.mono (fun _ h => h) (fun _ _ h => h) ?_) ?_ t hview
    · rintro f u ⟨⟨e, hanswer, -⟩, hu⟩
      refine ⟨x, hx, ?_, hu⟩
      change (V.store.respond (.createFolder V.store.drive parent name)).1 = .error e at hanswer
      rw [DriveStore.respond_createFolder, DriveStore.createFolder] at hanswer
      split at hanswer
      · rename_i hnode
        exact Option.isNone_iff_eq_none.1 hnode
      · cases hanswer
    · rintro folder u ⟨hanswer, hu⟩
      change (V.store.respond (.createFolder V.store.drive parent name)).1 = .ok folder at hanswer
      rw [DriveStore.respond_createFolder, DriveStore.createFolder] at hanswer
      split at hanswer
      · cases hanswer
      · rename_i hnode
        cases hanswer
        refine ⟨x, hx, Or.inr ⟨hfound, ?_, rfl, hu⟩⟩
        simpa [Option.isSome_iff_ne_none] using hnode

/-- Going down from a folder to the destination either arrives there or finds that a folder on
the way is gone. -/
theorem Plan.descend_view {place rest names : List String} (hplace : place ++ rest = names)
    (parent : String) :
    Restoring.Ensures (fun s => V.Way names s.view ∧ s.view.folder? place = some parent)
      (plan.descend V.store.drive place parent rest)
      (fun id t => V.Way names t.view ∧ t.view.folder? names = some id)
      fun _ t => V.Way names t.view ∧ t.view.Stranded := by
  induction rest generalizing place parent with
  | nil =>
    rintro s ⟨hway, hparent⟩
    rw [List.append_nil] at hplace
    exact ⟨hway, hplace ▸ hparent⟩
  | cons name rest ih =>
    have hinner : place ++ [name] ++ rest = names := by
      rw [← hplace, List.append_assoc, List.singleton_append]
    have hprefix : place ++ [name] <+: names := ⟨rest, hinner⟩
    refine Restoring.Ensures.get_bind fun s hs => ?_
    obtain ⟨hway, hparent⟩ := hs
    have hknown : s.registry.folders.find? (V.store.drive, place ++ [name]) =
        s.view.folder? (place ++ [name]) := by
      rw [← hway.drive]
      rfl
    rw [hknown]
    cases hfind : s.view.folder? (place ++ [name]) with
    | some id => exact ih hinner id s ⟨hway, hfind⟩
    | none =>
      have hstep := Plan.subfolder_view (V := s.view) hremote parent name
      rw [hway.drive] at hstep
      refine Restoring.Ensures.bind (hstep.mono (fun _ h => h) (fun _ _ h => h) ?_)
        (fun id => ?_) s rfl
      · rintro _ t ⟨x, hx, hnode, hview⟩
        have horphan : (s.view.heard x).Toward names
            ((s.view.heard x).asked (.createFolder V.store.drive parent name)) := by
          rw [← hway.drive]
          exact .orphaned hparent hnode
        have hend : V.Way names t.view := by
          rw [hview]
          exact (hway.tail (.look hx)).tail horphan
        refine ⟨hend, place, parent, ?_, ?_⟩
        · rw [hview]
          change s.view.folders.find? (_, place) = some parent
          rw [← hview, hend.drive, ← hway.drive]
          exact hparent
        · have hstay : ((s.view.heard x).asked
              (.createFolder V.store.drive parent name)).store = s.view.store := by
            rw [← hway.drive]
            simp [DriveView.asked, DriveView.heard, DriveStore.createFolder, hnode]
          rw [hview, hstay]
          exact hnode
      · rintro t ⟨x, hx, hcase⟩
        -- the folder is known now, whether it has been found or created
        have hstep : (s.view.heard x).Toward names
            (t.view.knowing (V.store.drive, place ++ [name]) id) := by
          rcases hcase with ⟨hfound, hview⟩ | ⟨hfound, hnode, hid, hview⟩
          · rw [hview, ← hway.drive]
            exact .found hprefix hparent hfind hfound
          · rw [hview, hid, ← hway.drive]
            exact .created hprefix hparent hfind hfound hnode
        have hend : V.Way names (t.view.knowing (V.store.drive, place ++ [name]) id) :=
          (hway.tail (.look hx)).tail hstep
        refine ih hinner id (plan.perform (.folder (V.store.drive, place ++ [name]) id) t)
          ⟨hend, ?_⟩
        have hdrive : t.view.store.drive = V.store.drive := hend.drive
        change (t.view.knowing (V.store.drive, place ++ [name]) id).folder? (place ++ [name]) =
          some id
        rw [← hdrive, DriveView.folder?_knowing, if_pos rfl]

/-- The destination folder of an address on the drive is found, unless a folder on the way to it
is gone. -/
theorem Plan.destinationFolder_view {address : DriveAddress}
    (hdrive : address.drive = V.store.drive) :
    Restoring.Ensures (fun s => s.view = V) (plan.destinationFolder address)
      (fun id t => V.Way (plan.options.destination address) t.view ∧
        t.view.folder? (plan.options.destination address) = some id)
      fun _ t => V.Way (plan.options.destination address) t.view ∧ t.view.Stranded := by
  refine Restoring.Ensures.get_bind fun s hs => ?_
  have hknown : s.registry.folders.find? (V.store.drive, plan.options.destination address) =
      V.folder? (plan.options.destination address) := by
    rw [← hs]
    rfl
  rw [hdrive, hknown]
  cases hfind : V.folder? (plan.options.destination address) with
  | some id =>
    refine ⟨?_, ?_⟩
    · rw [hs]
    · rw [hs, hfind]
  | none =>
    have hroot := Plan.rootFolder_view (V := V) hremote (plan.options.destination address)
    exact Restoring.Ensures.bind (hroot.mono (fun _ h => h) (fun _ _ h => h) fun _ _ h => h.elim)
      (fun root => Plan.descend_view hremote (List.nil_append _) root) s hs

/-- On another drive there is nothing. -/
theorem Plan.destinationFolder_elsewhere {address : DriveAddress} (hhome : V.Home)
    (hdrive : address.drive ≠ V.store.drive) :
    Restoring.Ensures (fun s => s.view = V) (plan.destinationFolder address)
      (fun _ _ => False) fun _ t => ∃ x, x.call.changes = false ∧ t.view = V.heard x := by
  have hunknown (place : List String) : V.folders.find? (address.drive, place) = none := by
    cases hfind : V.folders.find? (address.drive, place) with
    | none => rfl
    | some id => exact absurd (hhome _ _ hfind) hdrive
  refine Restoring.Ensures.get_bind fun s hs => ?_
  have hregistry : s.registry.folders = V.folders := by rw [← hs]; rfl
  rw [hregistry, hunknown]
  refine Restoring.Ensures.bind (P := fun s => s.view = V) (Q := fun _ _ => False) ?_
    (fun _ _ h => h.elim) s hs
  refine Restoring.Ensures.get_bind fun s hs => ?_
  have hregistry : s.registry.folders = V.folders := by rw [← hs]; rfl
  rw [hregistry, hunknown]
  refine Restoring.Ensures.bind (P := fun s => s.view = V) (Q := fun _ _ => False) ?_
    (fun _ _ h => h.elim) s hs
  obtain ⟨f, hfail⟩ := DriveStore.respond_rootFolder_of_ne hdrive
  refine (Plan.need_view hremote (.rootFolder address.drive)).mono (fun _ h => h) ?_ ?_
  · rintro root t ⟨hanswer, -⟩
    rw [hfail] at hanswer
    cases hanswer
  · rintro f t ⟨-, hview⟩
    rw [DriveView.asked_of_snd_eq (by rw [hfail])] at hview
    exact ⟨_, rfl, hview⟩

/-! ## Files -/

theorem Plan.askDrive_eq (c : DriveCall) (s : Session (DriveStore × ρ)) :
    plan.askDrive c s = ((s.view.store.respond c).1, plan.perform (.call (.drive c)) s) :=
  Prod.ext (Plan.ask_view hremote c s).1 rfl

theorem Plan.view_call (c : DriveCall) (s : Session (DriveStore × ρ)) :
    (plan.perform (.call (.drive c)) s).view = s.view.asked c :=
  (Plan.ask_view hremote c s).2

theorem Plan.knownKeys_view (folder : String) (s : Session (DriveStore × ρ)) :
    ∃ ks t, (knownKeys folder (plan.askDrive (.listKeys s.view.store.drive folder))).run s =
        (.ok ks, t) ∧
      t.view = s.view.listed folder ∧ (s.view.listed folder).keys.find? folder = some ks ∧
      t.faults = s.faults := by
  unfold knownKeys DriveView.listed
  rw [Restoring.run_bind_ok (Restoring.run_get s)]
  have hknown : s.registry.keys.find? folder = s.view.keys.find? folder := rfl
  rw [hknown]
  cases hfind : s.view.keys.find? folder with
  | some ks => exact ⟨ks, s, rfl, rfl, hfind, rfl⟩
  | none =>
    have hask := Plan.askDrive_eq hremote (.listKeys s.view.store.drive folder) s
    have hneed : (Restoring.need (plan.askDrive (.listKeys s.view.store.drive folder))).run s =
        (.ok (s.view.store.keys folder),
          plan.perform (.call (.drive (.listKeys s.view.store.drive folder))) s) := by
      rw [Restoring.run_need, hask, DriveStore.respond_listKeys]
      rfl
    refine ⟨_, plan.perform (.keys folder (s.view.store.keys folder)) _,
      Restoring.run_bind_ok hneed _, ?_, ?_, rfl⟩
    · have hview := Plan.view_call hremote (.listKeys s.view.store.drive folder) s
      exact congrArg (DriveView.keeping · folder (s.view.store.keys folder)) hview
    · simp [DriveView.keeping]

/-- Upload a file, and delete the one it replaces. -/
def Plan.placeFile {σ : Type} (plan : Plan σ) (drive folder : String) (file : DriveFile)
    (keys : Keys) : Steps σ (Except Fault String) :=
  plan.place folder file.name keys
    (plan.askDrive (.upload drive folder file.name file.data plan.options.onCollision))
    fun old => plan.askDrive (.delete drive old)

/-- Store a file in a folder of known keys. -/
def Plan.storeFile {σ : Type} (plan : Plan σ) (drive folder : String) (file : DriveFile)
    (keys : Keys) : Restoring σ (String × Bool) := do
  let replaces := plan.options.onCollision = .replace ∧ keys.contains file.name
  match ← Restoring.always (plan.placeFile drive folder file keys) with
  | .ok id =>
    if replaces then
      match ← Restoring.always (plan.askDrive (.rename drive id file.name)) with
      | .ok () => pure ()
      | .error f => Restoring.always (plan.note (.remote f))
    return (id, replaces)
  | .error fault =>
    match fault.createdItem? with
    | none => throw fault
    | some id =>
      Restoring.always (plan.note fault)
      return (id, replaces)

omit hremote in
/-- A file is uploaded once the keys of its folder are known. -/
theorem Plan.uploadFile_eq {σ : Type} (plan : Plan σ) (drive folder : String) (file : DriveFile) :
    plan.uploadFile drive folder file =
      knownKeys folder (plan.askDrive (.listKeys drive folder)) >>=
        plan.storeFile drive folder file := rfl

section StoreFile

variable (folder : String) (file : DriveFile) {s : Session (DriveStore × ρ)} {ks : Keys}

/-- The session after the upload of a file. -/
abbrev Plan.uploading (plan : Plan (DriveStore × ρ)) (folder : String) (file : DriveFile)
    (s : Session (DriveStore × ρ)) : Session (DriveStore × ρ) :=
  plan.perform (.call (.drive (.upload s.view.store.drive folder file.name file.data
    plan.options.onCollision))) s

theorem Plan.askDrive_upload {r : Except Failure String}
    (h : (s.view.store.upload folder file.name file.data plan.options.onCollision).1 = r) :
    plan.askDrive (.upload s.view.store.drive folder file.name file.data
      plan.options.onCollision) s = (r, plan.uploading folder file s) := by
  rw [Plan.askDrive_eq hremote, DriveStore.respond_upload, h]
  rfl

theorem Plan.view_uploading : (plan.uploading folder file s).view =
    s.view.asked (.upload s.view.store.drive folder file.name file.data
      plan.options.onCollision) :=
  Plan.view_call hremote ..

theorem Plan.askDrive_delete {old : String} {r : Except Failure Unit}
    (h : ((s.view.store.upload folder file.name file.data plan.options.onCollision).2.delete
      old).1 = r) :
    plan.askDrive (.delete s.view.store.drive old) (plan.uploading folder file s) =
      (r, plan.perform (.call (.drive (.delete s.view.store.drive old)))
        (plan.uploading folder file s)) := by
  have hstore : (plan.uploading folder file s).view.store =
      (s.view.store.upload folder file.name file.data plan.options.onCollision).2 := by
    rw [Plan.view_uploading hremote, DriveView.store_asked_upload rfl]
  have hdrive : s.view.store.drive = (plan.uploading folder file s).view.store.drive := by
    rw [hstore, DriveStore.drive_upload]
  have hask := Plan.askDrive_eq hremote (.delete s.view.store.drive old)
    (plan.uploading folder file s)
  rw [hdrive, DriveStore.respond_delete, ← hdrive, hstore, h] at hask
  exact hask

omit hremote in
theorem Plan.storeFile_kept (h : ks.contains file.name ∧ plan.options.onCollision = .skip) :
    (plan.storeFile s.view.store.drive folder file ks).run s =
      (.error (.itemAlreadyExists file.name), plan.perform (.keys folder ks) s) :=
  Restoring.run_always_bind (plan.place_eq folder (settle_kept h)) _

theorem Plan.storeFile_refused {f : Failure}
    (hname : ¬ (ks.contains file.name ∧ plan.options.onCollision = .skip))
    (hupload : (s.view.store.upload folder file.name file.data plan.options.onCollision).1 =
      .error f) :
    (plan.storeFile s.view.store.drive folder file ks).run s =
      (.error (.remote f), plan.perform (.keys folder ks) (plan.uploading folder file s)) :=
  Restoring.run_always_bind (plan.place_eq folder
    (settle_refused hname (Plan.askDrive_upload hremote folder file hupload))) _

theorem Plan.storeFile_added {new : String}
    (hname : ¬ (ks.contains file.name ∧ plan.options.onCollision = .skip))
    (hupload : (s.view.store.upload folder file.name file.data plan.options.onCollision).1 =
      .ok new)
    (hfree : plan.options.onCollision = .replace → ks.find? file.name = none) :
    (plan.storeFile s.view.store.drive folder file ks).run s =
      (.ok (new, false), plan.perform (.keys folder (ks.insert file.name new))
        (plan.uploading folder file s)) := by
  have hnot : ¬ (plan.options.onCollision = .replace ∧ ks.contains file.name) := by
    rintro ⟨hreplace, hcontains⟩
    simp [Table.contains, hfree hreplace] at hcontains
  have hplace : plan.placeFile s.view.store.drive folder file ks s = (.ok new, _) :=
    plan.place_eq folder
      (settle_added hname (Plan.askDrive_upload hremote folder file hupload) hfree)
  unfold Plan.storeFile
  rw [Restoring.run_always_bind hplace]
  simp only [hnot]
  rfl

theorem Plan.storeFile_stays {new old : String} {f : Failure}
    (hreplace : plan.options.onCollision = .replace) (hold : ks.find? file.name = some old)
    (hupload : (s.view.store.upload folder file.name file.data plan.options.onCollision).1 =
      .ok new)
    (hdelete : ((s.view.store.upload folder file.name file.data
      plan.options.onCollision).2.delete old).1 = .error f) :
    (plan.storeFile s.view.store.drive folder file ks).run s =
      (.ok (new, true), plan.perform (.note (.deletingReplacedItemFailed new old f))
        (plan.perform (.keys folder (ks.insert file.name new))
          (plan.perform (.call (.drive (.delete s.view.store.drive old)))
            (plan.uploading folder file s)))) := by
  have hboth : plan.options.onCollision = .replace ∧ ks.contains file.name :=
    ⟨hreplace, by simp [Table.contains, hold]⟩
  have hplace : plan.placeFile s.view.store.drive folder file ks s =
      (.error (.deletingReplacedItemFailed new old f), _) :=
    plan.place_eq folder (settle_stays hreplace hold
      (Plan.askDrive_upload hremote folder file hupload)
      (Plan.askDrive_delete hremote folder file hdelete))
  unfold Plan.storeFile
  rw [Restoring.run_always_bind hplace]
  simp only [hboth]
  rfl

/-- If the file that is replaced is gone, the new one gets its name; whether that fails is noted. -/
theorem Plan.storeFile_replaced {new old : String}
    (hreplace : plan.options.onCollision = .replace) (hold : ks.find? file.name = some old)
    (hupload : (s.view.store.upload folder file.name file.data plan.options.onCollision).1 =
      .ok new)
    (hdelete : ((s.view.store.upload folder file.name file.data
      plan.options.onCollision).2.delete old).1 = .ok ()) :
    ∃ t, (plan.storeFile s.view.store.drive folder file ks).run s = (.ok (new, true), t) ∧
      t.view = (plan.perform (.call (.drive (.rename s.view.store.drive new file.name)))
        (plan.perform (.keys folder (ks.insert file.name new))
          (plan.perform (.call (.drive (.delete s.view.store.drive old)))
            (plan.uploading folder file s)))).view := by
  have hboth : plan.options.onCollision = .replace ∧ ks.contains file.name :=
    ⟨hreplace, by simp [Table.contains, hold]⟩
  have hplace : plan.placeFile s.view.store.drive folder file ks s = (.ok new, _) :=
    plan.place_eq folder (settle_replaced hreplace hold
      (Plan.askDrive_upload hremote folder file hupload)
      (Plan.askDrive_delete hremote folder file hdelete))
  unfold Plan.storeFile
  rw [Restoring.run_always_bind hplace]
  simp only [hboth]
  generalize plan.perform (.keys folder (ks.insert file.name new)) _ = u
  have hrename := Plan.askDrive_eq hremote (.rename s.view.store.drive new file.name) u
  cases hlast : (u.view.store.respond (.rename s.view.store.drive new file.name)).1 with
  | ok done =>
    rw [hlast] at hrename
    exact ⟨_, Restoring.run_always_bind hrename _, rfl⟩
  | error f =>
    rw [hlast] at hrename
    exact ⟨_, Restoring.run_always_bind hrename _, rfl⟩

/-- Storing a file in a folder of known keys. -/
theorem Plan.storeFile_view (hks : s.view.keys.find? folder = some ks) :
    ∃ r t, (plan.storeFile s.view.store.drive folder file ks).run s = (r, t) ∧
      s.view.Files plan.options.onCollision folder file r t.view ∧
      ((∀ id, r ≠ .ok (id, true)) → t.faults = s.faults) := by
  have hview := Plan.view_uploading hremote folder file (s := s)
  by_cases hskip : ks.contains file.name ∧ plan.options.onCollision = .skip
  · exact ⟨_, _, Plan.storeFile_kept folder file hskip, .kept hks hskip.2 hskip.1, fun _ => rfl⟩
  cases hupload : (s.view.store.upload folder file.name file.data plan.options.onCollision).1 with
  | error f =>
    have hend := DriveView.Files.refused hks hskip hupload
    rw [← hview] at hend
    exact ⟨_, _, Plan.storeFile_refused hremote folder file hskip hupload, hend, fun _ => rfl⟩
  | ok new =>
    by_cases hfree : plan.options.onCollision = .replace → ks.find? file.name = none
    · have hend := DriveView.Files.added hks hskip hupload hfree
      rw [← hview] at hend
      exact ⟨_, _, Plan.storeFile_added hremote folder file hskip hupload hfree, hend, fun _ => rfl⟩
    · obtain ⟨hreplace, hkey⟩ := Classical.not_imp.1 hfree
      obtain ⟨old, hold⟩ := Option.ne_none_iff_exists'.1 hkey
      have hdeleted := Plan.view_call hremote (.delete s.view.store.drive old)
        (plan.uploading folder file s)
      rw [hview] at hdeleted
      cases hdelete : ((s.view.store.upload folder file.name file.data
          plan.options.onCollision).2.delete old).1 with
      | error f =>
        have hend := DriveView.Files.stays hks hreplace hold hupload hdelete
        rw [← hdeleted] at hend
        exact ⟨_, _, Plan.storeFile_stays hremote folder file hreplace hold hupload hdelete, hend,
          fun h => absurd rfl (h new)⟩
      | ok done =>
        obtain ⟨t, hrun, ht⟩ :=
          Plan.storeFile_replaced hremote folder file hreplace hold hupload hdelete
        have hend := DriveView.Files.replaced hks hreplace hold hupload hdelete
        refine ⟨_, t, hrun, ?_, fun h => absurd rfl (h new)⟩
        rw [ht, Plan.view_call hremote]
        rw [← hdeleted] at hend
        exact hend

end StoreFile

/-- Uploading a file stores it in its folder. -/
theorem Plan.uploadFile_view (folder : String) (file : DriveFile)
    (s : Session (DriveStore × ρ)) :
    ∃ r t, (plan.uploadFile s.view.store.drive folder file).run s = (r, t) ∧
      (s.view.listed folder).Files plan.options.onCollision folder file r t.view ∧
      ((∀ id, r ≠ .ok (id, true)) → t.faults = s.faults) := by
  obtain ⟨ks, u, hkeys, hview, hks, hfaults⟩ := Plan.knownKeys_view hremote folder s
  rw [← hview] at hks
  obtain ⟨r, t, hrun, hfiles, hquiet⟩ := Plan.storeFile_view hremote folder file hks
  have hdrive : u.view.store.drive = s.view.store.drive := by
    rw [hview, DriveView.drive_listed]
  refine ⟨r, t, ?_, hview ▸ hfiles, fun h => (hquiet h).trans hfaults⟩
  rw [Plan.uploadFile_eq, Restoring.run_bind_ok hkeys, ← hdrive, hrun]

/-! ## Permissions and accounts -/

/-- Restoring the permissions of an item shares that item, and notes no faults. -/
theorem Plan.restorePermissions_view (item : String) (path : BackupPath) (m : Metadata)
    (s : Session (DriveStore × ρ)) :
    s.view.Shares item ((plan.restorePermissions s.view.store.drive item path m).run s).2.view ∧
      ((plan.restorePermissions s.view.store.drive item path m).run s).2.faults = s.faults := by
  have hkeep : Upkeep plan (fun e => e.isPermissionOn s.view.store.drive item)
      (fun t => s.view.Shares item t.view ∧ t.faults = s.faults) fun _ _ => True := by
    refine Upkeep.of_keep ?_ fun _ _ _ => trivial
    rintro e t he ⟨hshares, hfaults⟩
    refine ⟨?_, ?_⟩
    · cases e with
      | call c =>
        cases c with
        | drive c =>
          rw [Plan.view_call hremote]
          cases c with
          | grant d i invitation =>
            simp only [Effect.isPermissionOn, decide_eq_true_eq] at he
            obtain ⟨rfl, rfl⟩ := he
            rw [← hshares.drive]
            exact hshares.trans (DriveView.Shares.grant _ i invitation)
          | revoke d i permission =>
            simp only [Effect.isPermissionOn, decide_eq_true_eq] at he
            obtain ⟨rfl, rfl⟩ := he
            rw [← hshares.drive]
            exact hshares.trans (DriveView.Shares.revoke _ i permission)
          | rootFolder _ | findFolder _ _ _ | createFolder _ _ _ | listKeys _ _
          | upload _ _ _ _ _ | delete _ _ | rename _ _ _ => cases he
        | items kind c => cases he
        | receipt r => cases he
      | permissionIds ids => exact hshares
      | metadata _ _ | keys _ _ | folder _ _ | container _ _ | tally _ | note _ | stop
      | countCollection => cases he
    · rw [← hfaults]
      cases e with
      | note _ => cases he
      | call _ | permissionIds _ | metadata _ _ | keys _ _ | folder _ _ | container _ _
      | tally _ | stop | countCollection => rfl
  have hrestore : Restoring.Keeps _ (plan.restorePermissions s.view.store.drive item path m) _ :=
    hkeep.restorePermissionsOn (fun e he => he) (fun _ _ _ _ => trivial)
      (fun _ _ _ _ _ _ => trivial) m
  exact hrestore.snd ⟨.refl _ _, rfl⟩

/-- Handing out a receipt changes nothing but what has been heard. -/
theorem Plan.credit_view (r : Receipt) (s : Session (DriveStore × ρ)) (item : String) :
    s.view.Shares item (plan.credit r s).view ∧ (plan.credit r s).faults = s.faults := by
  refine ⟨?_, rfl⟩
  let counted := plan.perform (.tally fun t => t.succeed r.size) s
  have hview := Plan.ask_view_other hremote (c := .receipt r) (by simp [Call.handler?]) counted
  have hshares : s.view.Shares item
      (s.view.heard ⟨.receipt r, (plan.ask (.receipt r) counted).1⟩) := .heard rfl
  exact hview ▸ hshares

/-! ## Taking an entry -/

/-- An entry of a collection is taken whose entries go to a folder of the drive. -/
theorem Plan.take_view (c : Collection) {address : DriveAddress} (folder : String) (e : Entry)
    {s : Session (DriveStore × ρ)} (hdrive : address.drive = s.view.store.drive) :
    ∃ r t, (plan.take c (.drive address folder) e).run s = (r, t) ∧
      s.view.Takes plan c folder e r t.view ∧
      (plan.options.onCollision ≠ .replace → t.faults = s.faults) := by
  change ∃ r t, (plan.restoreDriveEntry c address folder e).run s = (r, t) ∧ _
  rcases hentry : plan.recognise c e with f | ⟨file⟩ | ⟨path, m⟩ | _
  · refine ⟨_, s, ?_, .unread hentry, fun _ => rfl⟩
    unfold Plan.restoreDriveEntry
    rw [hentry]
    rfl
  · rw [Plan.restoreDriveEntry_run hentry, Plan.restoreFile_run, hdrive]
    obtain ⟨r, t, hrun, hfiles, hfaults⟩ := Plan.uploadFile_view hremote folder file
      (plan.perform (.tally Tally.see) s)
    have hrun' : (plan.uploadFile s.view.store.drive folder file).run
        (plan.perform (.tally Tally.see) s) = (r, t) := hrun
    rw [hrun']
    have hview : (plan.perform (.tally Tally.see) s).view = s.view := rfl
    rw [hview] at hfiles
    have hquiet : plan.options.onCollision ≠ .replace → t.faults = s.faults := by
      intro hpolicy
      refine hfaults ?_
      rintro id rfl
      exact hpolicy hfiles.replaces
    cases r with
    | error f => exact ⟨_, t, rfl, .failed hentry hfiles, hquiet⟩
    | ok q =>
      obtain ⟨id, updated⟩ := q
      obtain ⟨hshares, haccount⟩ : t.view.Shares id (plan.account c address file updated t).view ∧
          (plan.account c address file updated t).faults = t.faults :=
        Plan.credit_view hremote (plan.receiptOf c address file updated) t id
      dsimp only
      split
      · cases hpath : c.path.ofFile file with
        | error f =>
          exact ⟨_, _, rfl, .stored hentry hfiles hshares, fun h => haccount.trans (hquiet h)⟩
        | ok path =>
          obtain ⟨hmore, hsilent⟩ := Plan.restorePermissions_view hremote id path file.metadata
            (plan.account c address file updated t)
          have hhome : (plan.account c address file updated t).view.store.drive =
              s.view.store.drive := by
            rw [hshares.drive, hfiles.drive, DriveView.drive_listed]
          rw [hhome] at hmore hsilent
          exact ⟨_, _, rfl, .stored hentry hfiles (hshares.trans hmore),
            fun h => hsilent.trans (haccount.trans (hquiet h))⟩
      · exact ⟨_, _, rfl, .stored hentry hfiles hshares, fun h => haccount.trans (hquiet h)⟩
  · refine ⟨_, plan.perform (.metadata path.text m) s, ?_, .metadata hentry, fun _ => rfl⟩
    unfold Plan.restoreDriveEntry
    rw [hentry]
    rfl
  · refine ⟨_, s, ?_, .nothing hentry, fun _ => rfl⟩
    unfold Plan.restoreDriveEntry
    rw [hentry]
    rfl

/-! ## Entering a collection -/

theorem Plan.settleFolder_view (path : BackupPath) {address : DriveAddress}
    {s : Session (DriveStore × ρ)} (hdrive : address.drive = s.view.store.drive) (folder : String)
    (m : Metadata) : s.view.Shares folder (plan.settleFolder path address folder m s).view := by
  unfold Plan.settleFolder
  split
  · obtain ⟨hshares, -⟩ := Plan.restorePermissions_view hremote folder path m s
    rw [← hdrive] at hshares
    rcases hrun : (plan.restorePermissions address.drive folder path m).run s with ⟨f | ⟨⟩, t⟩ <;>
      rw [hrun] at hshares <;> exact hshares
  · exact .refl _ _

/-- A collection is entered whose calls, if any, the drive answers. -/
theorem Plan.enter_view {c : Collection} {s : Session (DriveStore × ρ)} (hhome : s.view.Home)
    (hc : plan.remote.serves c.path.category.handler → c.path.category.handler = .drive) :
    ∃ r t, (plan.enter c).run s = (r, t) ∧ s.view.Enters plan c r t.view := by
  cases hserves : plan.remote.serves c.path.category.handler with
  | false =>
    refine ⟨_, s, Plan.enter_noHandler hserves s, .unserved ?_⟩
    intro hhandler
    rw [hhandler, hremote] at hserves
    simp [DriveStore.beside] at hserves
  | true =>
    have hhandler := hc hserves
    rw [hhandler] at hserves
    rw [Plan.enter_drive hhandler hserves]
    cases hpath : c.path.drive with
    | error e =>
      rw [Plan.enterFolder_error plan hpath]
      exact ⟨_, s, rfl, .unplaced hhandler hpath⟩
    | ok address =>
      rw [Plan.enterFolder_run plan hpath]
      cases hmetadata : plan.folderMetadata c address s.registry.metadata with
      | error f => exact ⟨_, s, rfl, .unread hhandler hpath hmetadata⟩
      | ok m =>
        by_cases hdrive : address.drive = s.view.store.drive
        · have hfolder := Plan.destinationFolder_view hremote hdrive s rfl
          rcases hrun : (plan.destinationFolder address).run s with ⟨f | folder, t⟩ <;>
            rw [hrun] at hfolder <;> obtain ⟨hway, hend⟩ := hfolder
          · exact ⟨_, t, rfl, .lost hhandler hpath hmetadata hdrive hway hend⟩
          · have hshares := Plan.settleFolder_view hremote c.path (hdrive.trans hway.drive.symm)
              folder m
            exact ⟨_, _, rfl, .entered hhandler hpath hmetadata hdrive hway hend hshares⟩
        · have hfolder := Plan.destinationFolder_elsewhere hremote hhome hdrive s rfl
          rcases hrun : (plan.destinationFolder address).run s with ⟨f | folder, t⟩ <;>
            rw [hrun] at hfolder
          · obtain ⟨x, hx, hview⟩ := hfolder
            refine ⟨_, t, rfl, ?_⟩
            rw [hview]
            exact .elsewhere hhandler hpath hmetadata hdrive hx
          · exact hfolder.elim

end Steps

end TenantRestore
