/-
# Permissions without metadata

The first backups have no metadata, so there are no permissions to restore.  Yet a restore that
is asked to restore them compares every folder it enters with the folder above, as if both had
empty metadata.  That goes well as long as the folder above has been entered before; otherwise
the fault that its metadata is missing is noted.  So asking for the permissions of such a backup
changes nothing just if every folder follows the one it lies in: `Plan.run_withPermissions_iff`.

Two facts carry the proof.  A run knows empty metadata for exactly the folders it has entered,
which is `Plan.metadata_boundary`, and without the permissions it never misses any.
-/
import TenantRestore.Proofs.Accounts
import TenantRestore.Proofs.Content
import TenantRestore.Proofs.Permission.Baseline

namespace TenantRestore

variable {σ : Type} {plan : Plan σ}

/-! ## The folders a run enters -/

/-- The folder of a drive that is entered at a turn. -/
def Plan.entered? (plan : Plan σ) (s : Session σ) : Turn → Option BackupPath
  | .entering c =>
    match ((plan.enter c).run s).1 with
    | .ok (.drive _ _) => some c.path
    | _ => none
  | _ => none

/-- The folders of drives that are entered in a course, in their order. -/
def Plan.entered (plan : Plan σ) (course : List (Session σ × Turn)) : List BackupPath :=
  course.filterMap fun step => plan.entered? step.1 step.2

/-- Every folder comes after the one it lies in, unless that is the root of its drive. -/
def FollowsParents (folders : List BackupPath) : Prop :=
  ∀ before p, before ++ [p] <+: folders →
    ∀ parent ∈ p.foldersAbove.head?, parent.text ∈ before.map BackupPath.text

theorem followsParents_nil : FollowsParents [] := by
  intro before p h
  simp at h

theorem followsParents_concat {folders : List BackupPath} {p : BackupPath} :
    FollowsParents (folders ++ [p]) ↔ FollowsParents folders ∧
      ∀ parent ∈ p.foldersAbove.head?, parent.text ∈ folders.map BackupPath.text := by
  constructor
  · intro h
    refine ⟨fun before q hq => h before q (hq.trans (List.prefix_append ..)), ?_⟩
    exact h folders p (List.prefix_refl _)
  · rintro ⟨h, hp⟩ before q hq
    rcases List.prefix_concat_iff.1 hq with heq | hq
    · obtain ⟨rfl, hlast⟩ := List.append_inj' heq rfl
      cases hlast
      exact hp
    · exact h before q hq

/-! ## What is known without metadata -/

/-- All that is known of folders is that they have no metadata. -/
def Table.Bare (known : Table String Metadata) : Prop := ∀ p m, known.find? p = some m → m = {}

/-- The folder a path lies in, if it is below the root of its drive and nothing is known of it. -/
def missedParent? (known : Table String Metadata) (p : BackupPath) : Option BackupPath :=
  p.foldersAbove.head?.bind fun parent => if known.contains parent.text then none else some parent

/-- Above the root of a drive there are no folders. -/
theorem BackupPath.foldersAbove_root {p : BackupPath} {address : DriveAddress}
    (h : p.drive = .ok address) (hroot : address.isRoot) : p.foldersAbove = [] := by
  have hnil : address.folders = [] := by simpa [DriveAddress.isRoot] using hroot
  simp [foldersAbove, above, elements_of_drive h, hnil, properBeginnings, isBelowRoot,
    BackupPath.drive]

/-- Where no folder has metadata, what is looked for above a path is empty or missing. -/
theorem inheritedMetadata_of_bare {known : Table String Metadata} (hbare : known.Bare)
    {p : BackupPath} {address : DriveAddress} (hdrive : p.drive = .ok address)
    (hroot : address.isRoot = false) :
    inheritedMetadata known p =
      match missedParent? known p with
      | none => .ok {}
      | some parent => .error (.missingParentMetadata parent.text) := by
  have hne : address.folders ≠ [] := by simpa [DriveAddress.isRoot] using hroot
  obtain ⟨root, rest, habove, hup⟩ := BackupPath.above_of_drive hdrive hne
  rw [inheritedMetadata, if_neg (by simp [BackupPath.elements_of_drive hdrive]), habove,
    missedParent?]
  rcases hfolders : p.foldersAbove with _ | ⟨parent, outer⟩
  · simp [nearestCustom, hup, DriveAddress.isRoot]
  · -- the folder the path lies in is looked at first
    have hbelow : parent.isBelowRoot :=
      (BackupPath.mem_foldersAbove (hfolders ▸ List.mem_cons_self ..)).2
    rw [List.cons_append, nearestCustom_of_isBelowRoot hbelow]
    cases hfind : known.find? parent.text with
    | none => simp [Table.contains, hfind]
    | some m =>
      obtain rfl := hbare _ m hfind
      simp [Table.contains, hfind]

theorem missedParent?_eq_none {known : Table String Metadata} {p : BackupPath} :
    missedParent? known p = none ↔ ∀ parent ∈ p.foldersAbove.head?, known.contains parent.text := by
  unfold missedParent?
  cases p.foldersAbove.head? <;> simp

/-- Restoring empty permissions makes no calls. -/
theorem Plan.restorePermissions_of_bare {s : Session σ} (hbare : s.registry.metadata.Bare)
    (drive item : String) {p : BackupPath} {address : DriveAddress}
    (hdrive : p.drive = .ok address) (hroot : address.isRoot = false) :
    (plan.restorePermissions drive item p {}).run s =
      match missedParent? s.registry.metadata p with
      | none => (.ok (), s)
      | some parent => (.error (.missingParentMetadata parent.text), s) := by
  rw [Plan.restorePermissions_run, Updater.restore,
    inheritedMetadata_of_bare hbare hdrive hroot]
  cases missedParent? s.registry.metadata p with
  | none => rfl
  | some parent => rfl

theorem Plan.settleFolder_of_bare (hwanted : plan.options.restorePermissions) {s : Session σ}
    (hbare : s.registry.metadata.Bare) (folder : String) {p : BackupPath} {address : DriveAddress}
    (hdrive : p.drive = .ok address) :
    plan.settleFolder p address folder {} s =
      match missedParent? s.registry.metadata p with
      | none => s
      | some parent => plan.perform (.note (.missingParentMetadata parent.text)) s := by
  unfold settleFolder
  cases hroot : address.isRoot with
  | true =>
    simp [missedParent?, BackupPath.foldersAbove_root hdrive hroot]
  | false =>
    rw [restorePermissions_of_bare hbare _ _ hdrive hroot]
    simp only [hwanted, Bool.not_false, Bool.and_self, ↓reduceIte]
    cases missedParent? s.registry.metadata p <;> rfl

/-! ## Turns of a restore of such a backup -/

theorem Plan.descend_withPermissions (plan : Plan σ) (wanted : Bool) (drive : String)
    (place : List String) (parent : String) (names : List String) :
    (plan.withPermissions wanted).descend drive place parent names =
      plan.descend drive place parent names := by
  induction names generalizing place parent with
  | nil => rfl
  | cons name names ih =>
    simp only [Plan.descend, ih]
    rfl

/-- A folder is found no matter whether its permissions are wanted. -/
theorem Plan.destinationFolder_withPermissions (plan : Plan σ) (wanted : Bool)
    (address : DriveAddress) :
    (plan.withPermissions wanted).destinationFolder address = plan.destinationFolder address := by
  simp only [Plan.destinationFolder, plan.descend_withPermissions wanted]
  rfl

section Version

variable (hversion : plan.version.hasMetaFiles = false)
include hversion

/-- Every entry is a file without metadata. -/
theorem Plan.recognise_of_not_hasMetaFiles (c : Collection) (e : Entry) :
    plan.recognise c e = .ok (.file ⟨e.name, e.name, {}, e.data⟩) := by
  simp [Plan.recognise, hversion]

theorem Plan.folderMetadata_of_not_hasMetaFiles (c : Collection) (address : DriveAddress)
    (known : Table String Metadata) : plan.folderMetadata c address known = .ok {} := by
  simp [Plan.folderMetadata, hversion]

/-- Entries are restored without looking at permissions. -/
theorem Plan.take_withPermissions (c : Collection) (entrance : Entrance) (e : Entry)
    (s : Session σ) :
    ((plan.withPermissions true).take c entrance e).run s =
      ((plan.withPermissions false).take c entrance e).run s := by
  cases entrance with
  | items kind container => rfl
  | drive address folder =>
    have hfile (wanted : Bool) := (plan.withPermissions wanted).recognise_of_not_hasMetaFiles
      hversion c e
    have hskip (wanted : Bool) : ((plan.withPermissions wanted).options.restorePermissions &&
        (plan.withPermissions wanted).version.hasMetaFiles) = false := by
      simp [Plan.withPermissions, hversion]
    simp only [Plan.take, Plan.restoreDriveEntry_run (hfile true),
      Plan.restoreDriveEntry_run (hfile false), Plan.restoreFile_run, hskip]
    rfl

/-- Taking an entry changes nothing of what is known about folders. -/
theorem Plan.metadata_take (c : Collection) (entrance : Entrance) (e : Entry) (s : Session σ) :
    ((plan.take c entrance e).run s).2.registry.metadata = s.registry.metadata := by
  cases entrance with
  | drive address folder =>
    rw [Plan.take, Plan.restoreDriveEntry_run (plan.recognise_of_not_hasMetaFiles hversion c e)]
    exact plan.restoreFile_metadata c address folder _ s
  | items kind container =>
    refine (Plan.restoreItem_keeps (I := fun t => t.registry.metadata = s.registry.metadata)
      (fun e t he ht => ?_) c container e).snd rfl
    cases e with
    | metadata p m => cases kind <;> cases he
    | call _ | permissionIds _ | keys _ _ | folder _ _ | container _ _ | tally _ | note _
    | stop | countCollection => exact ht

/-- Entering a folder tells that it has no metadata. -/
theorem Plan.metadata_enter (c : Collection) (s : Session σ) :
    ((plan.enter c).run s).2.registry.metadata =
      match plan.entered? s (.entering c) with
      | none => s.registry.metadata
      | some p => s.registry.metadata.insert p.text {} := by
  simp only [Plan.entered?]
  cases hserves : plan.remote.serves c.path.category.handler with
  | false => rw [Plan.enter_noHandler hserves]
  | true =>
    cases hhandler : c.path.category.handler with
    | items kind =>
      rw [hhandler] at hserves
      have hkeeps := (plan.containerFor_keeps
        (I := fun t => t.registry.metadata = s.registry.metadata)
        (fun e t (he : e.isOf (.items kind)) ht => ?_) c.path).snd rfl
      · rw [Plan.enter_items hhandler hserves]
        rcases hrun : (plan.containerFor kind c.path).run s with ⟨f | container, t⟩ <;>
          rw [hrun] at hkeeps <;> exact hkeeps
      · cases e with
        | metadata p m => cases kind <;> cases he
        | call _ | permissionIds _ | keys _ _ | folder _ _ | container _ _ | tally _ | note _
        | stop | countCollection => exact ht
    | drive =>
      rw [hhandler] at hserves
      rw [Plan.enter_drive hhandler hserves]
      cases hdrive : c.path.drive with
      | error e => rw [Plan.enterFolder_error plan hdrive]
      | ok address =>
        have haside := (plan.destinationFolder_aside address s).metadata
        rw [Plan.enterFolder_run plan hdrive,
          plan.folderMetadata_of_not_hasMetaFiles hversion]
        rcases hrun : (plan.destinationFolder address).run s with ⟨f | folder, t⟩ <;>
          rw [hrun] at haside
        · exact haside
        · dsimp only at haside
          simp [Plan.perform, Plan.settleFolder_metadata, haside]

/-- Entering a folder with permissions differs from entering it without them only where the
folder it lies in is missed. -/
theorem Plan.enter_withPermissions (c : Collection) {s : Session σ}
    (hbare : s.registry.metadata.Bare) :
    ((plan.withPermissions true).enter c).run s =
      let r := ((plan.withPermissions false).enter c).run s
      match ((plan.withPermissions false).entered? s (.entering c)).bind
        (missedParent? s.registry.metadata) with
      | none => r
      | some parent => (r.1, plan.perform (.note (.missingParentMetadata parent.text)) r.2) := by
  simp only [Plan.entered?]
  cases hserves : plan.remote.serves c.path.category.handler with
  | false =>
    have hserves' (wanted : Bool) :
      (plan.withPermissions wanted).remote.serves c.path.category.handler = false := hserves
    simp only [Plan.enter_noHandler (hserves' true), Plan.enter_noHandler (hserves' false)]
    rfl
  | true =>
    cases hhandler : c.path.category.handler with
    | items kind =>
      rw [hhandler] at hserves
      have hserves' (wanted : Bool) :
        (plan.withPermissions wanted).remote.serves (.items kind) = true := hserves
      have hcontainer : ((plan.withPermissions true).containerFor kind c.path).run s =
        ((plan.withPermissions false).containerFor kind c.path).run s := rfl
      simp only [Plan.enter_items hhandler (hserves' true),
        Plan.enter_items hhandler (hserves' false), hcontainer]
      rcases ((plan.withPermissions false).containerFor kind c.path).run s with
        ⟨f | container, t⟩ <;> rfl
    | drive =>
      rw [hhandler] at hserves
      have hserves' (wanted : Bool) :
        (plan.withPermissions wanted).remote.serves .drive = true := hserves
      simp only [Plan.enter_drive hhandler (hserves' true),
        Plan.enter_drive hhandler (hserves' false)]
      cases hdrive : c.path.drive with
      | error e =>
        simp only [Plan.enterFolder_error _ hdrive]
        rfl
      | ok address =>
        have hempty (wanted : Bool) := (plan.withPermissions
          wanted).folderMetadata_of_not_hasMetaFiles hversion c address s.registry.metadata
        have haside := (plan.destinationFolder_aside address s).metadata
        simp only [Plan.enterFolder_run _ hdrive, hempty, Plan.destinationFolder_withPermissions]
        rcases hrun : (plan.destinationFolder address).run s with ⟨f | folder, t⟩ <;>
          rw [hrun] at haside
        · rfl
        · dsimp only at haside
          have hsettled := (plan.withPermissions true).settleFolder_of_bare rfl
            (s := t) (haside ▸ hbare) folder hdrive
          have hunsettled :
              (plan.withPermissions false).settleFolder c.path address folder {} t = t := rfl
          simp only [hsettled, hunsettled, haside, Option.bind_some]
          cases missedParent? s.registry.metadata c.path <;> rfl

end Version

/-! ## From boundary to boundary -/

variable {cs : List Collection} {start : Session σ}

/-- The folder a run enters at a boundary. -/
def Plan.enteredAt (plan : Plan σ) (b : Boundary σ) : Option BackupPath :=
  b.turn?.bind (plan.entered? b.session)

theorem Plan.entered_courseUntil_succ (plan : Plan σ) (cs : List Collection) (start : Session σ)
    (n : Nat) :
    plan.entered (plan.courseUntil cs start (n + 1)) =
      plan.entered (plan.courseUntil cs start n) ++
        (plan.enteredAt (plan.boundary cs start n)).toList := by
  rw [Plan.courseUntil_succ, Plan.entered, List.filterMap_append, ← Plan.entered, enteredAt]
  cases (plan.boundary cs start n).turn? with
  | none => rfl
  | some turn =>
    cases hentered : plan.entered? (plan.boundary cs start n).session turn <;> simp [hentered]

theorem Plan.enteredAt_of_current {b : Boundary σ} {p : Passage} (h : b.current = some p) :
    plan.enteredAt b = none := by
  obtain ⟨c, entrance, rest⟩ := p
  unfold enteredAt Boundary.turn?
  rw [h]
  rcases rest with _ | ⟨f | e, rest⟩ <;> split <;> rfl

theorem Plan.enteredAt_of_later {b : Boundary σ} {c : Collection} {later : List Collection}
    (hgoes : b.session.goesOn) (hcurrent : b.current = none) (hlater : b.later = c :: later) :
    plan.enteredAt b = plan.entered? b.session (.entering c) := by
  rw [enteredAt, Boundary.turn?, if_pos hgoes, hcurrent, hlater]
  rfl

theorem Plan.enteredAt_of_over {b : Boundary σ} (h : b.over) : plan.enteredAt b = none := by
  rw [enteredAt, Boundary.turn?_eq_none.2 h]
  rfl

section Version

variable (hversion : plan.version.hasMetaFiles = false)
include hversion

theorem Plan.metadata_pass (p : Passage) (later : List Collection) (s : Session σ) :
    (plan.pass p later s).session.registry.metadata = s.registry.metadata := by
  obtain ⟨c, entrance, rest⟩ := p
  rcases rest with _ | ⟨f | e, rest⟩
  · simp only [Plan.pass]
    split <;> rfl
  · rfl
  · have htake := plan.metadata_take hversion c entrance e s
    dsimp only [Plan.pass]
    rcases hrun : (plan.take c entrance e).run s with ⟨f | ⟨⟩, t⟩ <;> rw [hrun] at htake
    · dsimp only [Plan.afterEntry]
      split <;> exact htake
    · exact htake

omit hversion in
theorem Plan.metadata_begin (c : Collection) (later : List Collection) (s : Session σ) :
    (plan.begin c later s).session.registry.metadata =
      ((plan.enter c).run s).2.registry.metadata := by
  unfold Plan.begin
  rcases (plan.enter c).run s with ⟨f | entrance, t⟩
  · exact plan.metadata_afterCollection (.error f, t)
  · rfl

/-- What a run learns of folders on its way to the next boundary. -/
theorem Plan.metadata_advance (b : Boundary σ) :
    (plan.advance b).session.registry.metadata =
      match plan.enteredAt b with
      | none => b.session.registry.metadata
      | some p => b.session.registry.metadata.insert p.text {} := by
  rcases plan.advance_cases b with ⟨p, -, hcurrent, heq⟩ |
    ⟨c, later, hgoes, hcurrent, hlater, heq⟩ | ⟨hover, heq⟩ <;> rw [heq]
  · rw [Plan.enteredAt_of_current hcurrent, plan.metadata_pass hversion]
  · rw [Plan.enteredAt_of_later hgoes hcurrent hlater, Plan.metadata_begin,
      plan.metadata_enter hversion]
  · rw [Plan.enteredAt_of_over hover]

/-- A run knows empty metadata for the folders it has entered, and nothing else of folders. -/
theorem Plan.metadata_boundary (hstart : start.registry.metadata = .empty) (n : Nat) (q : String) :
    (plan.boundary cs start n).session.registry.metadata.find? q =
      if q ∈ (plan.entered (plan.courseUntil cs start n)).map BackupPath.text then some {}
      else none := by
  induction n with
  | zero => simp [hstart, Plan.courseUntil, Plan.entered]
  | succ n ih =>
    rw [Plan.boundary_succ, plan.metadata_advance hversion, plan.entered_courseUntil_succ]
    cases plan.enteredAt (plan.boundary cs start n) with
    | none => simpa using ih
    | some p =>
      rw [Table.find?_insert, ih]
      by_cases hq : p.text = q
      · simp [hq]
      · have hq' : q ≠ p.text := fun h => hq h.symm
        simp [hq, hq']

theorem Plan.bare_boundary (hstart : start.registry.metadata = .empty) (n : Nat) :
    (plan.boundary cs start n).session.registry.metadata.Bare := by
  intro q m hm
  rw [plan.metadata_boundary hversion hstart] at hm
  split at hm
  · exact (Option.some.inj hm).symm
  · cases hm

/-- The folder a run enters at a boundary misses the one it lies in unless that has been entered
before. -/
theorem Plan.missedParent?_boundary (hstart : start.registry.metadata = .empty) (n : Nat)
    (p : BackupPath) :
    missedParent? (plan.boundary cs start n).session.registry.metadata p = none ↔
      ∀ parent ∈ p.foldersAbove.head?,
        parent.text ∈ (plan.entered (plan.courseUntil cs start n)).map BackupPath.text := by
  rw [missedParent?_eq_none]
  refine forall_congr' fun parent => imp_congr_right fun _ => ?_
  rw [Table.contains, plan.metadata_boundary hversion hstart]
  split <;> simp [*]

end Version

/-! ## What is missed -/

/-- How many faults of a log are that a folder was not restored before what lies in it. -/
def FaultLog.missed (l : FaultLog) : Nat := l.faults.countP Fault.isMissingPrecondition

theorem FaultLog.missed_foldl (plan : Plan σ) (log : FaultLog) (fs : List Fault) :
    (fs.foldl plan.record log).missed = fs.countP Fault.isMissingPrecondition + log.missed := by
  rw [missed, (faults_foldl_perm plan log fs).countP_eq, List.countP_append, missed]

theorem Fault.not_isMissingPrecondition_of_isPlain {f : Fault} (h : f.isPlain) :
    f.isMissingPrecondition = false := by
  cases f <;> first | rfl | cases h

theorem isPlain_of_mem_mishaps {xs : List Exchange} {f : Fault} (h : f ∈ mishaps xs) :
    f.isPlain := by
  unfold mishaps at h
  cases hnew : (creations xs).head? with
  | none => simp [hnew] at h
  | some new =>
    rw [hnew] at h
    obtain ⟨x, -, hx⟩ := List.mem_filterMap.1 h
    unfold Exchange.mishap? at hx
    split at hx <;> cases hx <;> rfl

theorem mem_faultOf {α : Type} {r : Except Fault α} {f : Fault} : f ∈ faultOf r ↔ r = .error f := by
  cases r with
  | ok a => simp [faultOf]
  | error g => simp [faultOf, eq_comm]

theorem Plan.sharingFaults_of_unwanted (h : plan.options.restorePermissions = false)
    (c : Collection) (s : Session σ) : plan.sharingFaults c s = [] := by
  have hsettled (path : BackupPath) (address : DriveAddress) (folder : String) (m : Metadata)
      (t : Session σ) : plan.settlingFaults path address folder m t = [] := by
    simp [settlingFaults, h]
  unfold sharingFaults
  split
  · split
    · rfl
    · split
      · exact hsettled ..
      · rfl
  · rfl

/-- Without the permissions every fault is one that can end any step. -/
theorem Plan.isPlain_of_arising (h : plan.options.restorePermissions = false) {s : Session σ}
    {turn : Turn} {f : Fault} (hf : f ∈ plan.arising s turn) : f.isPlain := by
  have hupkeep : Upkeep plan (fun _ => True) (fun _ => True) fun f _ => f.isPlain :=
    Upkeep.of_keep (fun _ _ _ _ => trivial) fun _ _ h => h
  have htolerates : Tolerates (fun _ => True)
      (fun f _ => f.isPlain : Fault → Session σ → Prop) :=
    ⟨fun _ _ h => h, fun _ _ => Fault.not_isCancelled_of_isPlain, fun _ _ _ => trivial,
      fun _ _ => trivial⟩
  have hunwanted {P : Prop} : plan.options.restorePermissions → P := fun hwanted => by
    rw [h] at hwanted
    cases hwanted
  cases turn with
  | entering c =>
    have henter : Restoring.Keeps (fun _ => True) (plan.enter c) fun f _ => f.isPlain :=
      hupkeep.enter htolerates (fun _ _ => trivial) fun _ => hunwanted
    rw [arising, plan.sharingFaults_of_unwanted h, List.nil_append, mem_faultOf] at hf
    exact (henter.error (Prod.ext hf rfl) trivial).2
  | unread c f' =>
    obtain rfl := List.mem_singleton.1 hf
    rfl
  | taking c entrance e =>
    have htake : Restoring.Keeps (fun _ => True) (plan.take c entrance e) fun f _ => f.isPlain :=
      hupkeep.take htolerates (fun _ _ => trivial) (fun _ => hunwanted) e
    rw [arising, List.mem_append] at hf
    rcases hf with hf | hf
    · exact isPlain_of_mem_mishaps hf
    · exact (htake.error (Prod.ext (mem_faultOf.1 hf) rfl) trivial).2
  | leaving c => cases hf

/-- Without the permissions no folder is missed. -/
theorem Plan.missed_boundary (h : plan.options.restorePermissions = false) (cs : List Collection)
    (start : Session σ) (n : Nat) :
    (plan.boundary cs start n).session.faults.missed = start.faults.missed := by
  obtain ⟨l, hcourse, hadds⟩ := plan.boundary_adds cs start n
  have hplain :
      (plan.arisen (plan.courseUntil cs start n)).countP Fault.isMissingPrecondition = 0 := by
    refine List.countP_eq_zero.2 fun f hf => ?_
    obtain ⟨step, -, hf⟩ := List.mem_flatMap.1 hf
    simp [Fault.not_isMissingPrecondition_of_isPlain (plan.isPlain_of_arising h hf)]
  rw [← plan.faults_close, hadds.faults, FaultLog.missed_foldl, hcourse.faults_eq, hplain,
    Nat.zero_add]

theorem Plan.missed_note (plan : Plan σ) (f : Fault) (s : Session σ) :
    (plan.perform (.note f) s).faults.missed =
      [f].countP Fault.isMissingPrecondition + s.faults.missed :=
  FaultLog.missed_foldl plan s.faults [f]

/-- What has been missed stays in the log. -/
theorem Plan.missed_le_boundary (plan : Plan σ) (cs : List Collection) (start : Session σ)
    {m n : Nat} (h : m ≤ n) :
    (plan.boundary cs start m).session.faults.missed ≤
      (plan.boundary cs start n).session.faults.missed := by
  induction h with
  | refl => exact Nat.le_refl _
  | step _ ih =>
    rw [Plan.boundary_succ]
    refine Plan.advance_keeps (I := fun t : Session σ => _ ≤ t.faults.missed) (fun e s hs => ?_) ih
    cases e with
    | note f =>
      rw [Plan.missed_note]
      omega
    | call _ | metadata _ _ | permissionIds _ | keys _ _ | folder _ _ | container _ _ | tally _
    | stop | countCollection => exact hs

/-! ## Runs -/

/-- From the way a run ends the session before can be told. -/
theorem conclude_injective {s t : Session σ} (h : conclude s = conclude t) : s = t := by
  have hstopped : s.stopped = t.stopped := by
    rw [← conclude_stopped s, h, conclude_stopped]
  cases hs : s.stopped with
  | true =>
    rw [conclude_of_stopped hs, conclude_of_stopped (hstopped ▸ hs)] at h
    exact (Prod.ext_iff.1 h).2
  | false =>
    rw [conclude_of_not_stopped hs, conclude_of_not_stopped (hstopped ▸ hs)] at h
    obtain ⟨hended, hleft⟩ := Prod.ext_iff.1 h
    obtain ⟨registry, progress, ⟨failure, recovered, warnings, failFast, announces⟩, _, trace,
      remote⟩ := s
    obtain ⟨registry', progress', ⟨failure', recovered', warnings', failFast', announces'⟩, _,
      trace', remote'⟩ := t
    cases failure <;> cases failure' <;> cases hended <;> cases hleft <;> rfl

section Version

variable (hversion : plan.version.hasMetaFiles = false)
include hversion

/-- On the way to the next boundary a run with permissions differs from one without them only by
the fault that a folder is missed. -/
theorem Plan.advance_withPermissions {b : Boundary σ} (hbare : b.session.registry.metadata.Bare) :
    (plan.withPermissions true).advance b =
      let next := (plan.withPermissions false).advance b
      match ((plan.withPermissions false).enteredAt b).bind
        (missedParent? b.session.registry.metadata) with
      | none => next
      | some parent => { next with
          session := plan.perform (.note (.missingParentMetadata parent.text)) next.session } := by
  obtain ⟨s, current, later⟩ := b
  cases hgoes : s.goesOn with
  | false =>
    have hover : Boundary.over ⟨s, current, later⟩ := Or.inl hgoes
    rw [Plan.advance_of_over hover, Plan.advance_of_over hover, Plan.enteredAt_of_over hover]
    rfl
  | true =>
    rcases current with _ | p
    · rcases later with _ | ⟨c, later⟩
      · simp [Plan.advance, hgoes, Plan.enteredAt, Boundary.turn?]
      · rw [Plan.enteredAt_of_later hgoes rfl rfl]
        have henter := plan.enter_withPermissions hversion c hbare
        simp only [Plan.advance, hgoes, Plan.begin, henter, Plan.entered?]
        -- only a folder that is entered can miss another one
        rcases ((plan.withPermissions false).enter c).run s with ⟨f | ⟨address, folder⟩ | _, t⟩
        · rfl
        · dsimp only [Option.bind_some]
          cases missedParent? s.registry.metadata c.path <;> rfl
        · rfl
    · rw [Plan.enteredAt_of_current rfl]
      obtain ⟨c, entrance, rest⟩ := p
      simp only [Plan.advance, hgoes, Plan.pass, plan.take_withPermissions hversion]
      rcases rest with _ | ⟨f | e, rest⟩
      · rfl
      · rfl
      · rcases ((plan.withPermissions false).take c entrance e).run s with ⟨f | ⟨⟩, t⟩ <;> rfl

variable {cs : List Collection} {start : Session σ} (hstart : start.registry.metadata = .empty)
include hstart

/-- As long as every folder follows the one it lies in, the permissions change nothing. -/
theorem Plan.boundary_withPermissions {n : Nat}
    (h : FollowsParents ((plan.withPermissions false).entered
      ((plan.withPermissions false).courseUntil cs start n))) :
    (plan.withPermissions true).boundary cs start n =
      (plan.withPermissions false).boundary cs start n := by
  induction n with
  | zero => rw [Plan.boundary_zero, Plan.boundary_zero]
  | succ n ih =>
    rw [Plan.entered_courseUntil_succ] at h
    rw [Plan.boundary_succ, Plan.boundary_succ]
    cases hentered : (plan.withPermissions false).enteredAt
        ((plan.withPermissions false).boundary cs start n) with
    | none =>
      rw [hentered] at h
      rw [ih (by simpa using h), Plan.advance_withPermissions hversion
        ((plan.withPermissions false).bare_boundary hversion hstart n), hentered]
      rfl
    | some p =>
      rw [hentered] at h
      obtain ⟨hbefore, hparent⟩ := followsParents_concat.1 h
      have hknown := ((plan.withPermissions false).missedParent?_boundary hversion
        hstart n p).2 hparent
      rw [ih hbefore, Plan.advance_withPermissions hversion
        ((plan.withPermissions false).bare_boundary hversion hstart n), hentered,
        Option.bind_some, hknown]

/-- If no folder is missed with the permissions, every folder follows the one it lies in. -/
theorem Plan.followsParents_of_missed
    (h : ∀ n, ((plan.withPermissions true).boundary cs start n).session.faults.missed =
      start.faults.missed) (n : Nat) :
    FollowsParents ((plan.withPermissions false).entered
      ((plan.withPermissions false).courseUntil cs start n)) := by
  induction n with
  | zero => exact followsParents_nil
  | succ n ih =>
    rw [Plan.entered_courseUntil_succ]
    cases hentered : (plan.withPermissions false).enteredAt
        ((plan.withPermissions false).boundary cs start n) with
    | none => simpa using ih
    | some p =>
      refine followsParents_concat.2 ⟨ih, ?_⟩
      refine ((plan.withPermissions false).missedParent?_boundary hversion
        hstart n p).1 ?_
      by_contra hmissed
      obtain ⟨parent, hparent⟩ := Option.ne_none_iff_exists'.1 hmissed
      -- the fault that the folder is missed would be in the log at the next boundary
      have hnext := h (n + 1)
      rw [Plan.boundary_succ, Plan.boundary_withPermissions hversion hstart ih,
        Plan.advance_withPermissions hversion
          ((plan.withPermissions false).bare_boundary hversion hstart n), hentered,
        Option.bind_some, hparent] at hnext
      have hwithout := (plan.withPermissions false).missed_boundary rfl cs start (n + 1)
      rw [Plan.boundary_succ] at hwithout
      dsimp only at hnext
      rw [Plan.missed_note, hwithout] at hnext
      simp [Fault.isMissingPrecondition] at hnext

end Version

/-- At a version without metadata, asking for the permissions changes nothing just if every folder
that is entered follows the one it lies in.  Nothing includes the result, the calls with what comes
back from them, the faults, the counts and all that has been learnt. -/
theorem Plan.run_withPermissions_iff (plan : Plan σ) (hversion : plan.version.hasMetaFiles = false)
    (cs : List Collection) (log : FaultLog) (stopped : Bool) (state : σ) :
    let start := Session.start plan log stopped state
    let without := plan.withPermissions false
    (plan.withPermissions true).run cs start = without.run cs start ↔
      FollowsParents (without.entered (without.course cs start)) := by
  intro start without
  -- both runs have come to their last boundary after as many steps as there is work to do
  have hempty : start.registry.metadata = .empty := rfl
  generalize hlast : (without.boundary cs start 0).work = last
  have hover : ((plan.withPermissions true).boundary cs start last).over := by
    refine Plan.over_of_work_le (Nat.le_of_eq ?_)
    rw [← hlast, Plan.boundary_zero, Plan.boundary_zero]
  have hover' : (without.boundary cs start last).over :=
    Plan.over_of_work_le (Nat.le_of_eq hlast)
  rw [Plan.run_eq_close hover, Plan.run_eq_close hover', Plan.course, hlast]
  constructor
  · intro h
    refine Plan.followsParents_of_missed hversion hempty (fun n => ?_) last
    have hend : ((plan.withPermissions true).boundary cs start last).session.faults.missed =
        start.faults.missed := by
      rw [← Plan.faults_close (plan.withPermissions true), conclude_injective h,
        Plan.faults_close, Plan.missed_boundary rfl]
    refine Nat.le_antisymm ?_ (Plan.missed_le_boundary _ cs start (Nat.zero_le n))
    rw [← hend, ← Plan.boundary_of_over hover (Nat.le_max_right n last)]
    exact Plan.missed_le_boundary _ cs start (Nat.le_max_left ..)
  · intro h
    rw [Plan.boundary_withPermissions hversion hempty h]
    rfl

/-- Restore a backup of the first version. -/
def restoreOldDrive : Plan Rehearsal where
  options := {}
  version := 0
  remote := emptyDrive.remote

/-- A folder follows the one it lies in, so the permissions change nothing. -/
theorem nestedFolders_withPermissions :
    let start := Session.start restoreOldDrive {} false emptyDrive
    let without := restoreOldDrive.withPermissions false
    restoreOldDrive.version.hasMetaFiles = false ∧
      FollowsParents (without.entered (without.course nestedFolders start)) ∧
      (restoreOldDrive.withPermissions true).run nestedFolders start =
        without.run nestedFolders start := by
  intro start without
  have hsort : Collection.sort nestedFolders = nestedFolders :=
    Collection.sort_of_pairwise (by decide +kernel)
  have hentered : without.entered (without.course nestedFolders start) =
      ([] ++ [nestedFolders[0].path]) ++ [nestedFolders[1].path] := by
    simp only [Plan.course, Plan.courseUntil, Plan.boundary, hsort]
    decide +kernel
  have hfollows : FollowsParents (without.entered (without.course nestedFolders start)) := by
    rw [hentered, followsParents_concat, followsParents_concat]
    refine ⟨⟨followsParents_nil, ?_⟩, ?_⟩ <;> decide +kernel
  exact ⟨rfl, hfollows,
    (restoreOldDrive.run_withPermissions_iff rfl nestedFolders {} false emptyDrive).2 hfollows⟩

/-- A folder without the one it lies in, with one file. -/
def innerFolder : List Collection :=
  [.ofEntries ⟨"t", .onedrive, "user", .files, ["drives", "drive", "root:", "a", "b"]⟩
    [.ok ⟨"x.txt", "abc".toUTF8⟩]]

/-- With the permissions the folder above is missed, which is no fault without them. -/
theorem innerFolder_withPermissions_ne :
    let start := Session.start restoreOldDrive {} false emptyDrive
    (restoreOldDrive.withPermissions true).run innerFolder start ≠
      (restoreOldDrive.withPermissions false).run innerFolder start := by
  intro start h
  have hsort : Collection.sort innerFolder = innerFolder :=
    Collection.sort_of_pairwise (by decide +kernel)
  have hmissed : ((restoreOldDrive.withPermissions true).run innerFolder start).2.faults.recovered =
      [.missingParentMetadata "t/onedrive/user/files/drives/drive/root:/a"] := by
    rw [Plan.run_eq, hsort]
    decide +kernel
  have hnone : ((restoreOldDrive.withPermissions false).run innerFolder start).2.faults.recovered =
      [] := by
    rw [Plan.run_eq, hsort]
    decide +kernel
  rw [h, hnone] at hmissed
  cases hmissed

end TenantRestore
