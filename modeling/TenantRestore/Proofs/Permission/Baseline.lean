/-
# Permissions follow the stored hierarchy

Since version 4 every folder has its metadata in its own collection.  If the folders above a
collection have collections, too, and all of them are entered, then the permissions an item is
compared with are those that are stored for the nearest folder above it with permissions of its
own: `Plan.permissionCalls_follow_hierarchy`.

What carries the proof is that after some collections of a run the known metadata of their
folders is the stored one.  It is recorded when a folder is entered, by a path no other
collection has, and never changed.
-/
import TenantRestore.Proofs.Hierarchy
import TenantRestore.Proofs.Permission.Calls
import TenantRestore.Store.Rehearsal

namespace TenantRestore

variable {σ : Type} {plan : Plan σ} {cs pre post : List Collection} {c : Collection}
  {start : Session σ}

/-! ## What is stored -/

/-- The metadata of a folder that is stored in its collection. -/
def Plan.dirMetadata (plan : Plan σ) (c : Collection) : Except Fault Metadata :=
  fetchMetadata c (plan.version.dirMetaName (c.path.last?.getD ""))

/-- The metadata that some collections have stored for a folder. -/
def Plan.stored? (plan : Plan σ) (cs : List Collection) (folder : BackupPath) : Option Metadata :=
  (cs.find? fun c => c.path = folder).bind fun c => (plan.dirMetadata c).toOption

/-- The permissions stored for the nearest folder above a path, and below the root, that has
permissions of its own; none if there is no such folder. -/
def Plan.baseline (plan : Plan σ) (cs : List Collection) (path : BackupPath) : List Permission :=
  (nearestOwn (plan.stored? cs) path.foldersAbove).permissions

/-- Whether a call looks for a folder or creates one. -/
def Call.isFolder : Call → Bool
  | .drive c => c.isFolder
  | _ => false

/-- A run over drive collections, at version 4 or later, that restores permissions, neither
fails fast nor is stopped, and finds its folders: the paths are distinct, the folders above
each of them have collections, and the metadata of all folders can be read. -/
structure Plan.Hierarchical (plan : Plan σ) (cs : List Collection) (start : Session σ) : Prop
    extends plan.Uninterrupted cs start where
  version : plan.version.keepsOwnDirMeta
  wanted : plan.options.restorePermissions
  serves : plan.remote.serves .drive
  parsed : ∀ c ∈ cs, ∃ text, BackupPath.parse text = .ok c.path
  drives : ∀ c ∈ cs, c.path.category.handler = .drive ∧ ∃ address, c.path.drive = .ok address
  distinct : (cs.map (·.path)).Nodup
  closed : ∀ c ∈ cs, ∀ folder ∈ c.path.foldersAbove, ∃ c' ∈ cs, c'.path = folder
  readable : ∀ c ∈ cs, c.path.isBelowRoot → ∃ m, plan.dirMetadata c = .ok m
  found : ∀ x ∈ (plan.run cs start).2.trace, x.call.isFolder → x.succeeds

theorem Plan.folderMetadata_root {address : DriveAddress} (hroot : address.isRoot)
    (known : Table String Metadata) : plan.folderMetadata c address known = .ok {} := by
  have hnil : address.folders = [] := by simpa [DriveAddress.isRoot] using hroot
  simp [Plan.folderMetadata, hnil]

theorem Plan.stored?_of_mem (hdistinct : (cs.map (·.path)).Nodup) (hc : c ∈ cs) :
    plan.stored? cs c.path = (plan.dirMetadata c).toOption := by
  have hfind : cs.find? (fun c' => c'.path = c.path) = some c := by
    induction cs with
    | nil => cases hc
    | cons c' cs ih =>
      rw [List.map_cons, List.nodup_cons] at hdistinct
      rcases List.mem_cons.1 hc with rfl | hc
      · simp
      · have hne : c'.path ≠ c.path := fun heq =>
          hdistinct.1 (heq ▸ List.mem_map_of_mem hc)
        rw [List.find?_cons_of_neg (by simpa using hne)]
        exact ih hdistinct.2 hc
  simp [stored?, hfind]

theorem Plan.metadata_afterCollection (plan : Plan σ) (r : Except Fault Unit × Session σ) :
    (plan.afterCollection r).registry.metadata = r.2.registry.metadata :=
  Plan.afterCollection_keeps (I := fun t => t.registry.metadata = r.2.registry.metadata)
    (fun _ ht => ht) (fun _ _ ht => ht) r rfl

/-- If the folder for an address is not found, a call that concerns folders has failed. -/
theorem Plan.failed_of_destinationFolder {address : DriveAddress} {s t : Session σ} {f : Fault}
    (h : (plan.destinationFolder address).run s = (.error f, t)) :
    ∃ x ∈ t.trace, x.call.isFolder ∧ x.succeeds = false := by
  have hcalls : Upkeep plan (fun e => e.isFolder) (fun _ => True)
      fun _ t => ∃ x ∈ t.trace, x.call.isFolder ∧ x.succeeds = false := by
    refine ⟨fun _ _ _ _ => trivial, fun call s f hcall _ hf => ?_⟩
    refine ⟨⟨call, .error f⟩, ?_, ?_, Exchange.succeeds_error call f⟩
    · rw [Plan.trace_ask (Prod.ext hf rfl : plan.ask call s = (.error f, (plan.ask call s).2))]
      exact List.mem_append_right _ (List.mem_singleton_self _)
    · cases call <;> exact hcall
  exact ((hcalls.destinationFolder (fun _ he => he) address).error h trivial).2

/-- If no call that concerns folders fails, then the folder of a collection is entered as soon as
its metadata is found. -/
theorem Plan.Uninterrupted.entered_of_found (h : plan.Uninterrupted cs start)
    (hfound : ∀ x ∈ (plan.run cs start).2.trace, x.call.isFolder → x.succeeds)
    (hsort : Collection.sort cs = pre ++ c :: post)
    (hcollection : plan.restoreCollection c = plan.restoreDrive c) {address : DriveAddress}
    (hdrive : c.path.drive = .ok address) {m : Metadata}
    (hm : plan.folderMetadata c address (plan.restoreAll pre start).2.registry.metadata = .ok m) :
    ∃ folder t, (plan.destinationFolder address).run (plan.restoreAll pre start).2 =
        (.ok folder, t) ∧
      (plan.enterFolder c).run (plan.restoreAll pre start).2 =
        (.ok (address, folder), plan.perform (.metadata c.path.text m)
          (plan.settleFolder c.path address folder m t)) := by
  have hend := h.before_end_of_collection hsort
  rw [hcollection] at hend
  generalize (plan.restoreAll pre start).2 = s at hend hm ⊢
  have henter := plan.enterFolder_run hdrive s
  rw [hm] at henter
  rcases hfolder : (plan.destinationFolder address).run s with ⟨f | folder, t⟩
  · -- the call that failed would be in the trace of the run
    rw [hfolder] at henter
    have hrun : (plan.restoreDrive c).run s = (.error f, t) := Restoring.run_bind_error henter _
    rw [hrun] at hend
    obtain ⟨x, hx, hcall, hfails⟩ := Plan.failed_of_destinationFolder hfolder
    have hsucceeds := hfound x ?_ hcall
    · rw [hfails] at hsucceeds
      cases hsucceeds
    · rw [Plan.run_eq, conclude_trace]
      exact hend.trace.subset hx
  · rw [hfolder] at henter
    exact ⟨folder, t, rfl, henter⟩

/-- Settling the permissions of a folder changes nothing of what is known about folders. -/
theorem Plan.settleFolder_metadata (plan : Plan σ) (path : BackupPath) (address : DriveAddress)
    (folder : String) (m : Metadata) (s : Session σ) :
    (plan.settleFolder path address folder m s).registry.metadata = s.registry.metadata := by
  have hkeep : Upkeep plan (fun e => e.isPermission)
      (fun t => t.registry.metadata = s.registry.metadata) Going := by
    refine Upkeep.of_keep (fun e t he ht => ?_) fun _ _ => Fault.not_isCancelled_of_isPlain
    cases e with
    | metadata p m => cases he
    | call _ | permissionIds _ | keys _ _ | folder _ _ | container _ _ | tally _ | note _
    | stop | countCollection => exact ht
  exact Plan.settleFolder_keeps
    (hkeep.restorePermissions_going (fun _ he => he) address.drive folder path m)
    (fun _ _ ht => ht) rfl

/-- Restoring a file changes nothing of what is known about folders. -/
theorem Plan.restoreFile_metadata (plan : Plan σ) (c : Collection) (address : DriveAddress)
    (folder : String) (file : DriveFile) (s : Session σ) :
    ((plan.restoreFile c address folder file).run s).2.registry.metadata = s.registry.metadata := by
  have h : Upkeep plan (fun e => ∀ p m, e ≠ .metadata p m)
      (fun t => t.registry.metadata = s.registry.metadata) Going := by
    refine Upkeep.of_keep (fun e t he ht => ?_) fun _ _ => Fault.not_isCancelled_of_isPlain
    cases e with
    | metadata p m => exact absurd rfl (he p m)
    | call _ | permissionIds _ | keys _ _ | folder _ _ | container _ _ | tally _ | note _
    | stop | countCollection => exact ht
  have hE : Tolerates (fun e => ∀ p m, e ≠ .metadata p m)
      (Going : Fault → Session σ → Prop) := tolerates_going fun _ => nofun
  have hfile : Restoring.Keeps (fun t => t.registry.metadata = s.registry.metadata)
      (plan.restoreFile c address folder file) Going := by
    refine h.restoreFile hE ?_ (h.uploadFile hE ?_ _ _ _) fun _ id path _ =>
      h.restorePermissions_going ?_ _ _ _ _
    all_goals
      rintro _ he p m rfl
      cases he
  exact hfile.snd rfl

/-- Since version 4 entries change nothing of what is known about folders. -/
theorem Plan.driveEntries_metadata (hversion : plan.version.keepsOwnDirMeta) (c : Collection)
    (address : DriveAddress) (folder path : String) (driesUp : Bool)
    (es : List (Except Failure Entry)) (s : Session σ) :
    ((plan.forEach path driesUp (plan.restoreDriveEntry c address folder) es).run
      s).2.registry.metadata = s.registry.metadata := by
  refine (Plan.driveEntries_keeps (I := fun t : Session σ =>
    t.registry.metadata = s.registry.metadata) (fun e t he ht => ?_)
    c address folder path driesUp es).snd rfl
  cases e with
  | metadata p m =>
    rw [he.2 p m rfl] at hversion
    cases hversion
  | call _ | permissionIds _ | keys _ _ | folder _ _ | container _ _ | tally _ | note _
  | stop | countCollection => exact ht

/-! ## What a run knows -/

namespace Plan.Hierarchical

theorem hasMetaFiles (h : plan.Hierarchical cs start) : plan.version.hasMetaFiles := by
  have hversion := h.version
  simp only [FormatVersion.keepsOwnDirMeta, FormatVersion.hasMetaFiles, decide_eq_true_eq]
    at hversion ⊢
  exact Nat.le_trans (by decide) hversion

theorem folderMetadata_below (h : plan.Hierarchical cs start) {address : DriveAddress}
    (hdrive : c.path.drive = .ok address) (hroot : address.isRoot = false)
    (known : Table String Metadata) :
    plan.folderMetadata c address known = plan.dirMetadata c := by
  have hsome : address.folders.getLast?.isSome :=
    List.getLast?_isSome.2 (by simpa [DriveAddress.isRoot] using hroot)
  obtain ⟨name, hname⟩ := Option.isSome_iff_exists.1 hsome
  have hlast : c.path.last? = some name := by
    rw [BackupPath.last?, BackupPath.elements_of_drive hdrive, List.getLast?_append, hname]
    rfl
  simp [Plan.folderMetadata, Plan.dirMetadata, hlast, hname, h.wanted, h.hasMetaFiles, h.version]

theorem wellFormed (h : plan.Hierarchical cs start) (hc : c ∈ cs) : c.path.WellFormed :=
  (h.parsed c hc).elim fun _ => BackupPath.wellFormed_of_parse

theorem restoreCollection_eq (h : plan.Hierarchical cs start) (hc : c ∈ cs) :
    plan.restoreCollection c = plan.restoreDrive c :=
  Plan.restoreCollection_eq_restoreDrive (h.drives c hc).1 h.serves

/-- The folder of every collection is entered. -/
theorem entered (h : plan.Hierarchical cs start) (hsort : Collection.sort cs = pre ++ c :: post) :
    ∃ address m folder t, c.path.drive = .ok address ∧
      plan.folderMetadata c address (plan.restoreAll pre start).2.registry.metadata = .ok m ∧
      (plan.destinationFolder address).run (plan.restoreAll pre start).2 = (.ok folder, t) ∧
      (plan.enterFolder c).run (plan.restoreAll pre start).2 =
        (.ok (address, folder), plan.perform (.metadata c.path.text m)
          (plan.settleFolder c.path address folder m t)) := by
  have hc := Collection.mem_of_sort hsort
  obtain ⟨address, hdrive⟩ := (h.drives c hc).2
  obtain ⟨m, hm⟩ : ∃ m, plan.folderMetadata c address
      (plan.restoreAll pre start).2.registry.metadata = .ok m := by
    cases hroot : address.isRoot with
    | true => exact ⟨{}, Plan.folderMetadata_root hroot _⟩
    | false =>
      rw [h.folderMetadata_below hdrive hroot]
      exact h.readable c hc (BackupPath.isBelowRoot_iff.2 ⟨address, hdrive, hroot⟩)
  obtain ⟨folder, t, hfolder, henter⟩ := h.toUninterrupted.entered_of_found h.found hsort
    (h.restoreCollection_eq hc) hdrive hm
  exact ⟨address, m, folder, t, hdrive, hm, hfolder, henter⟩

/-- Once the folder of a collection has been entered, nothing of what is known about folders
changes until the next collection. -/
theorem metadata_of_entered (h : plan.Hierarchical cs start)
    (hsort : Collection.sort cs = pre ++ c :: post) {entered : DriveAddress × String}
    {t : Session σ}
    (henter : (plan.enterFolder c).run (plan.restoreAll pre start).2 = (.ok entered, t)) :
    (plan.restoreAll (pre ++ [c]) start).2.registry.metadata = t.registry.metadata := by
  rw [Plan.restoreAll_append, Plan.restoreAll_singleton (h.goesOn hsort),
    h.restoreCollection_eq (Collection.mem_of_sort hsort), Plan.restoreDrive_run henter,
    Plan.metadata_afterCollection]
  exact Plan.driveEntries_metadata h.version c entered.1 entered.2 c.path.text c.driesUp c.entries t

/-- A collection adds its metadata to what is known. -/
theorem metadata_after (h : plan.Hierarchical cs start)
    (hsort : Collection.sort cs = pre ++ c :: post) :
    ∃ address m, c.path.drive = .ok address ∧
      plan.folderMetadata c address (plan.restoreAll pre start).2.registry.metadata = .ok m ∧
      (plan.restoreAll (pre ++ [c]) start).2.registry.metadata =
        (plan.restoreAll pre start).2.registry.metadata.insert c.path.text m := by
  obtain ⟨address, m, folder, t, hdrive, hm, hfolder, henter⟩ := h.entered hsort
  refine ⟨address, m, hdrive, hm, ?_⟩
  have haside := plan.destinationFolder_aside address (plan.restoreAll pre start).2
  rw [hfolder] at haside
  rw [h.metadata_of_entered hsort henter, ← haside.metadata,
    ← plan.settleFolder_metadata c.path address folder m t]
  rfl

/-- After some collections of the run their stored metadata is known. -/
theorem known (h : plan.Hierarchical cs start) (hsort : Collection.sort cs = pre ++ post)
    (hc : c ∈ pre) (hbelow : c.path.isBelowRoot) {m : Metadata} (hm : plan.dirMetadata c = .ok m) :
    (plan.restoreAll pre start).2.registry.metadata.find? c.path.text = some m := by
  induction pre using List.reverseRecOn generalizing post with
  | nil => cases hc
  | append_singleton pre c' ih =>
    rw [List.append_assoc] at hsort
    obtain ⟨address, m', hdrive, hm', hafter⟩ := h.metadata_after hsort
    rw [hafter, Table.find?_insert]
    rcases List.mem_append.1 hc with hc | hc
    · -- another collection has another path, so its metadata does not replace this one
      have hne : c'.path.text ≠ c.path.text := by
        intro htext
        have hpath := BackupPath.text_injective (h.wellFormed (Collection.mem_of_sort hsort))
          (h.wellFormed (Collection.mem_sort.1 (by simp [hsort, hc]))) htext
        have hdistinct : ((Collection.sort cs).map (·.path)).Nodup :=
          ((List.mergeSort_perm cs _).map _).nodup_iff.2 h.distinct
        rw [hsort, List.map_append, List.nodup_append] at hdistinct
        exact hdistinct.2.2 _ (List.mem_map_of_mem hc) c'.path (by simp) hpath.symm
      rw [if_neg hne]
      exact ih hsort hc
    · obtain rfl := List.mem_singleton.1 hc
      obtain ⟨b, hb, hroot⟩ := BackupPath.isBelowRoot_iff.1 hbelow
      rw [hdrive] at hb
      cases hb
      rw [h.folderMetadata_below hdrive hroot, hm] at hm'
      rw [if_pos rfl, Except.ok.inj hm']

/-- If the folders above a path have collections that come first in a run, then the metadata
found above the path is the stored one. -/
theorem inherited (h : plan.Hierarchical cs start) (hsort : Collection.sort cs = pre ++ post)
    {x : BackupPath} {drive : String} {folders : List String}
    (hx : x.drive = .ok ⟨drive, folders⟩) (hne : folders ≠ [])
    (habove : ∀ f ∈ x.foldersAbove, ∃ c ∈ pre, c.path = f) :
    inheritedMetadata (plan.restoreAll pre start).2.registry.metadata x =
      .ok (nearestOwn (plan.stored? cs) x.foldersAbove) := by
  refine inheritedMetadata_eq hx hne fun f hf => ?_
  have hbelow := (BackupPath.mem_foldersAbove hf).2
  obtain ⟨c, hc, rfl⟩ := habove f hf
  have hmem : c ∈ cs := Collection.mem_sort.1 (by simp [hsort, hc])
  obtain ⟨m, hm⟩ := h.readable c hmem hbelow
  refine ⟨m, h.known hsort hc hbelow hm, ?_⟩
  rw [Plan.stored?_of_mem h.distinct hmem, hm]
  rfl

/-- The folders above a collection have collections that come before it. -/
theorem above_before (h : plan.Hierarchical cs start)
    (hsort : Collection.sort cs = pre ++ c :: post) {f : BackupPath}
    (hf : f ∈ c.path.foldersAbove) : ∃ c' ∈ pre, c'.path = f := by
  obtain ⟨c', hc', rfl⟩ := h.closed c (Collection.mem_of_sort hsort) f hf
  obtain ⟨pre', post', hsort'⟩ := List.append_of_mem (Collection.mem_sort.2 hc')
  obtain ⟨mid, rfl⟩ := Collection.sort_before hsort' hsort (BackupPath.mem_foldersAbove hf).1
  exact ⟨c', by simp, rfl⟩

end Plan.Hierarchical

/-! ## The calls of a run -/

/-- On the way from one session to another the permissions of an item at a path are changed by
the planned calls, compared with what is stored for the folders above it. -/
def Plan.FollowsHierarchy (plan : Plan σ) (cs : List Collection) (s t : Session σ)
    (drive item : String) (path : BackupPath) (m : Metadata) : Prop :=
  ∃ made, PermissionExchanges s t made ∧
    Attempted (plannedCalls s.registry.permissionIds drive item (plan.baseline cs path) m) made

/-- Entering a folder makes the calls its stored metadata asks for. -/
theorem Plan.Hierarchical.follows_folder (h : plan.Hierarchical cs start)
    (hsort : Collection.sort cs = pre ++ c :: post) :
    let s := (plan.restoreAll pre start).2
    ∃ address folder t, (plan.enterFolder c).run s = (.ok (address, folder), t) ∧
      c.path.drive = .ok address ∧
      if address.isRoot then PermissionExchanges s t []
      else ∃ m, plan.dirMetadata c = .ok m ∧
        plan.FollowsHierarchy cs s t address.drive folder c.path m := by
  obtain ⟨address, m, folder, t, hdrive, hm, hfolder, henter⟩ := h.entered hsort
  have haside := plan.destinationFolder_aside address (plan.restoreAll pre start).2
  rw [hfolder] at haside
  refine ⟨address, folder, _, henter, hdrive, ?_⟩
  split
  · rename_i hroot
    have hsettled : plan.settleFolder c.path address folder m t = t := by
      simp [Plan.settleFolder, hroot]
    rw [hsettled]
    exact haside.exchanges
  · rename_i hroot
    rw [Bool.not_eq_true] at hroot
    rw [h.folderMetadata_below hdrive hroot] at hm
    have hne : address.folders ≠ [] := by simpa [DriveAddress.isRoot] using hroot
    have hinherited := h.inherited hsort hdrive hne fun f hf => h.above_before hsort hf
    rw [← haside.metadata] at hinherited
    obtain ⟨made, hmade, -, hend⟩ := plan.settleFolder_attempted folder m h.wanted hroot hinherited
    rw [haside.permissionIds] at hend
    exact ⟨m, hm, made, haside.exchanges.trans hmade, hend⟩

/-- Restoring a file makes the calls its stored metadata asks for, if it has been uploaded. -/
theorem Plan.Hierarchical.follows_file (h : plan.Hierarchical cs start)
    (hsort : Collection.sort cs = pre ++ c :: post) {address : DriveAddress} (folder : String)
    {file : DriveFile} {x : BackupPath} {u : Session σ} (hdrive : c.path.drive = .ok address)
    (hpath : c.path.ofFile file = .ok x)
    (hknown : u.registry.metadata = (plan.restoreAll (pre ++ [c]) start).2.registry.metadata) :
    let w := ((plan.restoreFile c address folder file).run u).2
    match ((plan.uploadFile address.drive folder file).run (plan.perform (.tally Tally.see) u)).1
      with
    | .ok (id, _) => plan.FollowsHierarchy cs u w address.drive id x file.metadata
    | .error _ => PermissionExchanges u w [] := by
  obtain ⟨name, hx⟩ := BackupPath.ofFile_drive hpath hdrive
  have hsort' : Collection.sort cs = (pre ++ [c]) ++ post := by
    rw [hsort, List.append_assoc]
    rfl
  have habove : ∀ f ∈ x.foldersAbove, ∃ c' ∈ pre ++ [c], c'.path = f := by
    intro f hf
    rw [BackupPath.foldersAbove, BackupPath.above_of_ofFile hpath] at hf
    cases hbelow : c.path.isBelowRoot with
    | false =>
      -- the file lies in the root, above which there are no folders
      rw [List.takeWhile_cons_of_neg (by simp [hbelow])] at hf
      cases hf
    | true =>
      rw [List.takeWhile_cons_of_pos hbelow] at hf
      rcases List.mem_cons.1 hf with rfl | hf
      · exact ⟨c, by simp, rfl⟩
      · obtain ⟨c', hc', hpath'⟩ := h.above_before hsort hf
        exact ⟨c', List.mem_append_left _ hc', hpath'⟩
  have hinherited := h.inherited hsort' hx (by simp) habove
  rw [← hknown] at hinherited
  obtain ⟨made, hmade, hend⟩ :=
    plan.restoreFile_attempted address folder h.wanted h.hasMetaFiles hpath hinherited
  generalize ((plan.uploadFile address.drive folder file).run
    (plan.perform (.tally Tally.see) u)).1 = r at hend ⊢
  rcases r with f | ⟨id, updated⟩
  · rw [show made = [] from hend] at hmade
    exact hmade
  · exact ⟨made, hmade, hend⟩

theorem stem?_eq_some_iff {text ending stem : String} :
    stem? text ending = some stem ↔ text = stem ++ ending := by
  unfold stem?
  constructor
  · intro h
    split at h
    · rename_i hends
      obtain ⟨before, hbefore⟩ := List.isSuffixOf_iff_suffix.1 hends
      rw [← Option.some.inj h, ← String.toList_inj, String.toList_append, String.toList_ofList,
        ← hbefore]
      simp
    · cases h
  · rintro rfl
    rw [if_pos (List.isSuffixOf_iff_suffix.2 (by simp))]
    simp

theorem isElement_of_stem {name stem : String} (h : stem? name dataSuffix = some stem)
    (hname : pathSeparator ∉ name.toList) : isElement name := by
  refine BackupPath.isElement_iff.2 ⟨?_, hname⟩
  rw [stem?_eq_some_iff.1 h]
  simp [dataSuffix]

/-- A file has a metadata file of its own, and a path by the name of its entry if by no other. -/
theorem Plan.Hierarchical.file_stored (h : plan.Hierarchical cs start) {e : Entry}
    {file : DriveFile} (hfile : plan.recognise c e = .ok (.file file))
    (hname : pathSeparator ∉ e.name.toList) :
    (∃ stem, stem? e.name dataSuffix = some stem ∧
      fetchMetadata c (stem ++ metaSuffix) = .ok file.metadata) ∧
    ∃ x, c.path.ofFile file = .ok x := by
  have hmeta := h.hasMetaFiles
  unfold Plan.recognise Plan.fileMetadata at hfile
  simp only [hmeta, h.wanted, h.version, Bool.not_true, Bool.false_and, Bool.false_eq_true,
    ↓reduceIte] at hfile
  split at hfile
  · cases hfile
  · split at hfile
    · cases hfile
    · split at hfile
      · cases hfile
      · rename_i stem hstem
        split at hfile
        · cases hfile
        · rename_i m hm
          cases hfile
          refine ⟨⟨stem, hstem, hm⟩, ?_⟩
          have helement : isElement e.name := isElement_of_stem hstem hname
          unfold BackupPath.ofFile
          split
          · exact ⟨_, rfl⟩
          · simp [BackupPath.append, helement]

/-- Between the entries of a collection the run goes on, and knows what it knows when the
collection is done. -/
theorem Plan.Hierarchical.between_entries (h : plan.Hierarchical cs start)
    (hsort : Collection.sort cs = pre ++ c :: post) {address : DriveAddress} {folder : String}
    {t : Session σ}
    (henter : (plan.enterFolder c).run (plan.restoreAll pre start).2 =
      (.ok (address, folder), t)) {es es' : List (Except Failure Entry)}
    (hentries : c.entries = es ++ es') :
    let u := ((plan.forEach c.path.text false (plan.restoreDriveEntry c address folder) es).run t).2
    u.goesOn ∧
      u.registry.metadata = (plan.restoreAll (pre ++ [c]) start).2.registry.metadata := by
  refine ⟨?_, ?_⟩
  · have hdrive := h.restoreCollection_eq (Collection.mem_of_sort hsort)
    exact h.goesOn_driveEntries hsort hdrive henter hentries
  · rw [h.metadata_of_entered hsort henter]
    exact Plan.driveEntries_metadata h.version c address folder _ _ es t

/-- An entry that is no file restores nothing. -/
theorem Plan.Hierarchical.restoreDriveEntry_other (h : plan.Hierarchical cs start) {e : Entry}
    (he : ∀ file, plan.recognise c e ≠ .ok (.file file)) (address : DriveAddress)
    (folder : String) (u : Session σ) :
    ((plan.restoreDriveEntry c address folder e).run u).2 = u := by
  unfold Plan.restoreDriveEntry
  rcases hentry : plan.recognise c e with f | ⟨file⟩ | ⟨path, m⟩ | _
  · rfl
  · exact absurd hentry (he file)
  · have hversion := Plan.keepsOwnDirMeta_of_recognise hentry
    rw [h.version] at hversion
    cases hversion
  · rfl

/-- While a collection is restored after some others, permission calls follow the stored
hierarchy.  The folder is entered with the calls its stored metadata asks for, the root of the
drive without any.  A file that is uploaded, from an entry whose name could be part of a path,
is restored with the calls its stored metadata asks for.  Nothing else makes permission
calls. -/
def Plan.CallsFollowHierarchy (plan : Plan σ) (cs : List Collection) (start : Session σ)
    (pre : List Collection) (c : Collection) : Prop :=
  let s := (plan.restoreAll pre start).2
  s.goesOn ∧ ∃ address folder t,
    (plan.enterFolder c).run s = (.ok (address, folder), t) ∧
    (if address.isRoot then PermissionExchanges s t []
      else ∃ m, plan.dirMetadata c = .ok m ∧
        plan.FollowsHierarchy cs s t address.drive folder c.path m) ∧
    ∀ before e after, c.entries = before ++ .ok e :: after →
      let act := plan.restoreDriveEntry c address folder
      let u := ((plan.forEach c.path.text false act before).run t).2
      let w := ((act e).run u).2
      u.goesOn ∧
      (∀ file, plan.recognise c e = .ok (.file file) → pathSeparator ∉ e.name.toList →
        ∃ x, c.path.ofFile file = .ok x ∧
        (∃ stem, stem? e.name dataSuffix = some stem ∧
          fetchMetadata c (stem ++ metaSuffix) = .ok file.metadata) ∧
        match ((plan.uploadFile address.drive folder file).run
          (plan.perform (.tally Tally.see) u)).1 with
        | .ok (id, _) => plan.FollowsHierarchy cs u w address.drive id x file.metadata
        | .error _ => PermissionExchanges u w []) ∧
      ((∀ file, plan.recognise c e ≠ .ok (.file file)) → PermissionExchanges u w [])

/-- The permission calls of a run follow the stored hierarchy at every collection. -/
theorem Plan.permissionCalls_follow_hierarchy (plan : Plan σ) {cs : List Collection}
    {log : FaultLog} {stopped : Bool} {remote : σ}
    (h : plan.Hierarchical cs (Session.start plan log stopped remote))
    {pre post : List Collection} {c : Collection}
    (hsort : Collection.sort cs = pre ++ c :: post) :
    plan.CallsFollowHierarchy cs (Session.start plan log stopped remote) pre c := by
  have hgoes := h.goesOn hsort
  obtain ⟨address, folder, t, henter, hdrive, hfolder⟩ := h.follows_folder hsort
  refine ⟨hgoes, address, folder, t, henter, hfolder, fun before e after hentries => ?_⟩
  intro act u w
  obtain ⟨hgoes', hknown⟩ := h.between_entries hsort henter hentries
  refine ⟨hgoes', fun file hfile hname => ?_, fun hfile => ?_⟩
  · obtain ⟨hstored, x, hx⟩ := h.file_stored hfile hname
    refine ⟨x, hx, hstored, ?_⟩
    have hcalls := h.follows_file hsort folder hdrive hx hknown
    rw [show w = _ from congrArg Prod.snd (Plan.restoreDriveEntry_run hfile u)]
    exact hcalls
  · rw [show w = u from h.restoreDriveEntry_other hfile address folder u]
    exact .refl u

/-- A folder that is shared with Ann, and a folder in it that is shared with Bob instead. -/
def sharedFolders : List Collection :=
  [(["outer"], "ann"), (["outer", "inner"], "bob")].map fun (folders, user) =>
    .ofEntries ⟨"tenant", .onedrive, "user", .files, ["drives", "drive", "root:"] ++ folders⟩
      [.ok ⟨".dirmeta",
        ("\x7b\"permissions\":[\x7b\"id\":\"1\",\"role\":[\"read\"],\"entityId\":\"" ++ user ++
          "\"\x7d]\x7d").toUTF8⟩]

/-- A drive without any files. -/
def emptyDrive : Rehearsal := { drive := some { drive := "drive" } }

/-- Restore folders with their permissions. -/
def restoreShared : Plan Rehearsal where
  options := { restorePermissions := true }
  version := FormatVersion.current
  remote := emptyDrive.remote

theorem sort_sharedFolders : Collection.sort sharedFolders = sharedFolders :=
  Collection.sort_of_pairwise (by decide +kernel)

/-- A restore of folders with their permissions is hierarchical if the folders fit together. -/
theorem hierarchical_restoreShared
    (hparse : ∀ c ∈ cs, BackupPath.parse c.path.text = .ok c.path)
    (hdrive : ∀ c ∈ cs, c.path.category.handler = .drive ∧
      c.path.drive = .ok ⟨"drive", c.path.elements.drop 3⟩)
    (hdistinct : (cs.map (·.path)).Nodup)
    (hclosed : ∀ c ∈ cs, ∀ folder ∈ c.path.foldersAbove, ∃ c' ∈ cs, c'.path = folder)
    (hread : ∀ c ∈ cs, (restoreShared.dirMetadata c).toOption.isSome)
    (hend : let ended := (restoreShared.run cs (Session.start restoreShared {} false emptyDrive)).2
      ended.stopped = false ∧ ∀ x ∈ ended.trace, x.call.isFolder → x.succeeds) :
    restoreShared.Hierarchical cs (Session.start restoreShared {} false emptyDrive) where
  version := rfl
  wanted := rfl
  serves := rfl
  not_failFast := rfl
  patient := ⟨rfl, rfl⟩
  parsed c hc := ⟨_, hparse c hc⟩
  drives c hc := ⟨(hdrive c hc).1, _, (hdrive c hc).2⟩
  distinct := hdistinct
  closed := hclosed
  readable c hc _ := by
    have hsome := hread c hc
    rcases hm : restoreShared.dirMetadata c with f | m
    · rw [hm] at hsome
      cases hsome
    · exact ⟨m, rfl⟩
  not_stopped := hend.1
  found := hend.2

theorem hierarchical_sharedFolders :
    restoreShared.Hierarchical sharedFolders
      (Session.start restoreShared {} false emptyDrive) := by
  refine hierarchical_restoreShared (by decide +kernel) (by decide +kernel) (by decide +kernel)
    (by decide +kernel) (by decide +kernel) ?_
  rw [Plan.run_eq, sort_sharedFolders]
  decide +kernel

/-- The calls for the inner folder follow what is stored for both folders: the permission of Ann
is taken back there by the id it got for the outer folder, and Bob gets one. -/
theorem permissionCalls_sharedFolders :
    let start := Session.start restoreShared {} false emptyDrive
    restoreShared.Hierarchical sharedFolders start ∧
      (∃ outer inner, Collection.sort sharedFolders = [outer, inner] ∧
        restoreShared.CallsFollowHierarchy sharedFolders start [outer] inner) ∧
      (restoreShared.run sharedFolders start).2.remote.drive.map DriveStore.changes =
        some [.createdFolder "root" "outer",
          .granted "folder-1" ⟨["read"], .objectId "ann", none⟩,
          .createdFolder "folder-1" "inner",
          .revoked "folder-3" "perm-2",
          .granted "folder-3" ⟨["read"], .objectId "bob", none⟩] := by
  intro start
  refine ⟨hierarchical_sharedFolders, ⟨_, _, sort_sharedFolders,
    Plan.permissionCalls_follow_hierarchy restoreShared hierarchical_sharedFolders
      sort_sharedFolders⟩, ?_⟩
  rw [Plan.run_eq, sort_sharedFolders]
  decide +kernel

end TenantRestore
