/-
# Metadata stored in the folder above

Before version 4 a folder has its metadata in the collection of the folder it lies in, as an
entry named after it.  A folder without such an entry takes over the metadata of the nearest
folder above it that has one: `Plan.usesLegacyMetadata`.

A run looks the metadata up in what it knows by then, which comes partly from such entries and
partly from the folders it has entered.  What carries the proof is `KnowsLegacy`: of a folder
that has been entered a run knows the metadata it is to use, of any other one what has been
stored so far.  The collections of the folders above a folder are restored before it is entered,
so nothing that matters for it is stored later.
-/
import TenantRestore.Proofs.Permission.Agreement
import TenantRestore.Proofs.Permission.Baseline

namespace TenantRestore

variable {σ : Type} {plan : Plan σ} {cs pre post : List Collection} {c : Collection}
  {start : Session σ}

/-! ## What is stored for a folder -/

/-- The metadata of the folder `name` in an entry of the folder it lies in, if it can be read. -/
def Entry.dirMetadata? (e : Entry) (name : String) : Option Metadata :=
  if e.name = name ++ dirMetaSuffix then (Metadata.ofData e.data).toOption else none

/-- The metadata of the folder `name` that comes last among some entries of the folder it lies
in. -/
def lastDirMetadata? (es : List (Except Failure Entry)) (name : String) : Option Metadata :=
  (es.filterMap fun r => r.toOption.bind (·.dirMetadata? name)).getLast?

/-- The entries of all collections of a directory. -/
def entriesAt (cs : List Collection) (dir : BackupPath) : List (Except Failure Entry) :=
  (cs.filter fun c => c.path = dir).flatMap (·.entries)

/-- The metadata some collections have stored for a folder, in the folder it lies in. -/
def legacyStored? (cs : List Collection) (folder : BackupPath) : Option Metadata :=
  match folder.dir, folder.last? with
  | .ok dir, some name => lastDirMetadata? (entriesAt cs dir) name
  | _, _ => none

/-- What is stored for the nearest of a folder and those above it, below the root; empty if there
is nothing. -/
def nearestStored (stored : BackupPath → Option Metadata) (folder : BackupPath) : Metadata :=
  ((folder :: folder.foldersAbove).findSome? stored).getD {}

/-- The metadata a folder has according to some collections. -/
def legacyMetadata (cs : List Collection) (folder : BackupPath) : Metadata :=
  nearestStored (legacyStored? cs) folder

/-! ### Entries -/

theorem lastDirMetadata?_append (es es' : List (Except Failure Entry)) (name : String) :
    lastDirMetadata? (es ++ es') name =
      (lastDirMetadata? es' name).or (lastDirMetadata? es name) := by
  rw [lastDirMetadata?, List.filterMap_append, List.getLast?_append]
  rfl

theorem Entry.dirMetadata?_eq_some_iff {e : Entry} {name : String} {m : Metadata} :
    e.dirMetadata? name = some m ↔
      stem? e.name dirMetaSuffix = some name ∧ Metadata.ofData e.data = .ok m := by
  rw [stem?_eq_some_iff, dirMetadata?]
  split
  · rename_i hname
    cases hm : Metadata.ofData e.data <;> simp [hname, Except.toOption]
  · rename_i hname
    simp [hname]

theorem entriesAt_append (cs cs' : List Collection) (dir : BackupPath) :
    entriesAt (cs ++ cs') dir = entriesAt cs dir ++ entriesAt cs' dir := by
  simp [entriesAt]

theorem entriesAt_singleton (c : Collection) (dir : BackupPath) :
    entriesAt [c] dir = if c.path = dir then c.entries else [] := by
  by_cases h : c.path = dir <;> simp [entriesAt, h]

theorem entriesAt_eq_nil {dir : BackupPath} (h : ∀ c ∈ cs, c.path ≠ dir) :
    entriesAt cs dir = [] := by
  rw [entriesAt, List.filter_eq_nil_iff.2 (by simpa using h)]
  rfl

/-- Sorting collections leaves those of one directory in their order. -/
theorem entriesAt_sort (cs : List Collection) (dir : BackupPath) :
    entriesAt (Collection.sort cs) dir = entriesAt cs dir := by
  rw [entriesAt, Collection.sort_filter_path, entriesAt]

/-! ### Folders and the directories they lie in -/

namespace BackupPath

theorem dir_of_append {dir p : BackupPath} {name : String} (h : dir.append name = .ok p) :
    p.dir = .ok dir ∧ p.last? = some name := by
  unfold append at h
  split at h
  · cases h
    simp [BackupPath.dir, last?]
  · cases h

/-- A folder of a drive lies in a directory of the drive. -/
theorem exists_append {p : BackupPath} (hp : p.WellFormed) (hbelow : p.isBelowRoot) :
    ∃ (dir : BackupPath) (name : String) (address : DriveAddress),
      dir.append name = .ok p ∧ dir.drive = .ok address := by
  obtain ⟨⟨drive, folders⟩, hdrive, hroot⟩ := isBelowRoot_iff.1 hbelow
  have hes := elements_of_drive hdrive
  cases folders using List.reverseRecOn with
  | nil => cases hroot
  | append_singleton folders name _ =>
    have hname : isElement name := hp.elements name (by simp [hes])
    refine ⟨{ p with elements := [drivesElement, drive, rootElement] ++ folders }, name,
      ⟨drive, folders⟩, ?_, drive_of_elements rfl⟩
    rw [append, if_pos hname, List.append_assoc, ← hes]

end BackupPath

theorem legacyStored?_of_append {dir p : BackupPath} {name : String}
    (h : dir.append name = .ok p) (cs : List Collection) :
    legacyStored? cs p = lastDirMetadata? (entriesAt cs dir) name := by
  obtain ⟨hdir, hlast⟩ := BackupPath.dir_of_append h
  rw [legacyStored?, hdir, hlast]

theorem legacyStored?_nil (p : BackupPath) : legacyStored? [] p = none := by
  unfold legacyStored?
  split <;> rfl

/-- A collection of the directory a folder lies in may store its metadata anew. -/
theorem legacyStored?_concat {dir p : BackupPath} {name : String} (h : dir.append name = .ok p)
    (cs : List Collection) (c : Collection) :
    legacyStored? (cs ++ [c]) p =
      if c.path = dir then (lastDirMetadata? c.entries name).or (legacyStored? cs p)
      else legacyStored? cs p := by
  rw [legacyStored?_of_append h, legacyStored?_of_append h, entriesAt_append, entriesAt_singleton]
  split
  · rw [lastDirMetadata?_append]
  · rw [List.append_nil]

/-- Once all collections of the directory a folder lies in have come, nothing more is stored for
the folder. -/
theorem legacyStored?_of_sort (hsort : Collection.sort cs = pre ++ post) {dir p : BackupPath}
    {name : String} (h : dir.append name = .ok p) (hpost : ∀ c ∈ post, c.path ≠ dir) :
    legacyStored? pre p = legacyStored? cs p := by
  rw [legacyStored?_of_append h, legacyStored?_of_append h, ← entriesAt_sort cs, hsort,
    entriesAt_append, entriesAt_eq_nil hpost, List.append_nil]

/-! ## Looking for what is stored -/

theorem nearestStored_of_some {stored : BackupPath → Option Metadata} {p : BackupPath}
    {m : Metadata} (h : stored p = some m) : nearestStored stored p = m := by
  simp [nearestStored, h]

/-- A folder without metadata of its own has that of the folder it lies in. -/
theorem nearestStored_of_none {stored : BackupPath → Option Metadata} {p dir : BackupPath}
    {drive : String} {folders : List String} (habove : p.above = dir :: dir.above)
    (hdir : dir.drive = .ok ⟨drive, folders⟩) (h : stored p = none) :
    nearestStored stored p = if folders = [] then {} else nearestStored stored dir := by
  rw [nearestStored, BackupPath.foldersAbove_of_concat habove hdir, List.findSome?_cons, h]
  by_cases hfolders : folders = [] <;> simp [hfolders, nearestStored]

/-- What is known about folders comes from what is stored for them: for the root of a drive
nothing but empty metadata, for any other folder what is stored for it or what it takes over. -/
structure Table.Draws (known : Table String Metadata) (stored : BackupPath → Option Metadata)
    (p : BackupPath) : Prop where
  root : ∀ f ∈ p.above, ∀ a, f.drive = .ok a → a.isRoot →
    ∀ m, known.find? f.text = some m → m = {}
  folders : ∀ f ∈ p :: p.foldersAbove, known.find? f.text = stored f ∨
    known.find? f.text = some (nearestStored stored f)

namespace Table.Draws

variable {known : Table String Metadata} {stored : BackupPath → Option Metadata}
  {p dir : BackupPath} {drive : String} {folders : List String}

theorem outer (h : known.Draws stored p) (habove : p.above = dir :: dir.above)
    (hdir : dir.drive = .ok ⟨drive, folders⟩) (hne : folders ≠ []) : known.Draws stored dir where
  root f hf := h.root f (habove ▸ List.mem_cons_of_mem _ hf)
  folders f hf := by
    refine h.folders f (List.mem_cons_of_mem _ ?_)
    rwa [BackupPath.foldersAbove_of_concat habove hdir, if_neg hne]

/-- What is known about a folder is what it has according to what is stored. -/
theorem eq_of_some (h : known.Draws stored p) {m : Metadata}
    (hm : known.find? p.text = some m) : m = nearestStored stored p := by
  rcases h.folders p (List.mem_cons_self ..) with heq | heq <;> rw [hm] at heq
  · exact (nearestStored_of_some heq.symm).symm
  · exact Option.some.inj heq

/-- The search for metadata finds what is stored for the nearest folder. -/
theorem firstKnown_eq (h : known.Draws stored p) (hp : p.drive = .ok ⟨drive, folders⟩)
    (hne : folders ≠ []) : firstKnown known (p :: p.above) = .ok (nearestStored stored p) := by
  induction folders using List.reverseRecOn generalizing p with
  | nil => exact absurd rfl hne
  | append_singleton folders name ih =>
    obtain ⟨dir, habove, hdir⟩ := BackupPath.above_of_drive_concat hp
    have hroot : DriveAddress.isRoot ⟨drive, folders ++ [name]⟩ = false := by
      simp [DriveAddress.isRoot]
    rw [firstKnown]
    cases hfind : known.find? p.text with
    | some m => rw [h.eq_of_some hfind]
    | none =>
      have hstored : stored p = none := by
        rcases h.folders p (List.mem_cons_self ..) with heq | heq <;> rw [hfind] at heq
        · exact heq.symm
        · cases heq
      simp only [hp, hroot, Bool.false_eq_true, ↓reduceIte]
      rw [nearestStored_of_none habove hdir hstored, habove]
      split
      · -- the root is the last folder that is looked up
        rename_i hnil
        rw [firstKnown]
        cases hfind : known.find? dir.text with
        | some m =>
          rw [h.root dir (by simp [habove]) _ hdir (by simp [DriveAddress.isRoot, hnil]) m hfind]
        | none => simp [hdir, DriveAddress.isRoot, hnil]
      · rename_i hfolders
        exact ih (h.outer habove hdir hfolders) hdir hfolders

/-- A folder without metadata of its own has the permissions it is compared with, unless the
folder it lies in is not known. -/
theorem eq_of_inheritedMetadata (h : known.Draws stored p)
    (hp : p.drive = .ok ⟨drive, folders⟩) (hne : folders ≠ []) (hown : stored p = none)
    (hcustom : (nearestStored stored p).sharing = .custom) {m : Metadata}
    (hm : inheritedMetadata known p = .ok m) : m = nearestStored stored p := by
  cases folders using List.reverseRecOn with
  | nil => exact absurd rfl hne
  | append_singleton folders name _ =>
    obtain ⟨dir, habove, hdir⟩ := BackupPath.above_of_drive_concat hp
    have hes : p.elements ≠ [] := by simp [BackupPath.elements_of_drive hp]
    rw [inheritedMetadata, if_neg (by simpa using hes), habove, nearestCustom] at hm
    rw [nearestStored_of_none habove hdir hown] at hcustom ⊢
    by_cases hfolders : folders = []
    · simp only [hdir, DriveAddress.isRoot, hfolders, List.isEmpty_nil, ↓reduceIte] at hm ⊢
      exact (Except.ok.inj hm).symm
    · simp only [hdir, DriveAddress.isRoot, hfolders, List.isEmpty_iff, ↓reduceIte] at hm hcustom ⊢
      cases hfind : known.find? dir.text with
      | none =>
        rw [hfind] at hm
        cases hm
      | some m' =>
        obtain rfl := (h.outer habove hdir hfolders).eq_of_some hfind
        rw [hfind] at hm
        simp only [hcustom, ↓reduceIte] at hm
        exact (Except.ok.inj hm).symm

end Table.Draws

/-! ## Permissions a folder shares with those above it -/

/-- Nothing is planned for an item whose permissions are those of the folder above it. -/
theorem plannedCalls_of_same {m above : Metadata} (hidentity : ∀ p ∈ m.permissions, p.hasIdentity)
    (habove : m.sharing = .custom → above = m) (ids : Table String String) (drive item : String) :
    plannedCalls ids drive item above.permissions m = [] := by
  unfold plannedCalls
  cases hsharing : m.sharing with
  | inherited => rfl
  | custom =>
    rw [habove hsharing, Permission.unmatched_eq_without, Permission.without_self hidentity]
    rfl

/-! ## What a run knows -/

/-- A run over drive collections, at a version that stores the metadata of a folder in the folder
above it, that restores permissions, neither fails fast nor is stopped, and finds its folders. -/
structure Plan.Legacy (plan : Plan σ) (cs : List Collection) (start : Session σ) : Prop
    extends plan.Uninterrupted cs start where
  metaFiles : plan.version.hasMetaFiles
  aboveFolder : plan.version.keepsOwnDirMeta = false
  wanted : plan.options.restorePermissions
  serves : plan.remote.serves .drive
  parsed : ∀ c ∈ cs, ∃ text, BackupPath.parse text = .ok c.path
  drives : ∀ c ∈ cs, c.path.category.handler = .drive
  found : ∀ x ∈ (plan.run cs start).2.trace, x.call.isFolder → x.succeeds

/-- What is known about folders after some of the collections that are restored: of the root of a
drive nothing but empty metadata, of a folder that has been entered the metadata it is to use,
and of any other one what has been stored for it so far. -/
structure Table.KnowsLegacy (known : Table String Metadata) (cs pre : List Collection) :
    Prop where
  root : ∀ q : BackupPath, q.WellFormed → ∀ a, q.drive = .ok a → a.isRoot →
    ∀ m, known.find? q.text = some m → m = {}
  folder : ∀ q : BackupPath, q.WellFormed → q.isBelowRoot → known.find? q.text =
    if q ∈ pre.map (·.path) then some (legacyMetadata cs q) else legacyStored? pre q

/-- The metadata of a folder in an entry of a collection. -/
def Plan.metadataFor? (plan : Plan σ) (c : Collection) (q : BackupPath) (e : Entry) :
    Option Metadata :=
  match plan.recognise c e with
  | .ok (.folderMetadata p m) => if p = q then some m else none
  | _ => none

/-- An entry changes nothing of what is known about folders, unless it is the metadata of one. -/
theorem Plan.restoreDriveEntry_metadata (plan : Plan σ) (c : Collection) (address : DriveAddress)
    (folder : String) (e : Entry) (u : Session σ) :
    ((plan.restoreDriveEntry c address folder e).run u).2.registry.metadata =
      match plan.recognise c e with
      | .ok (.folderMetadata p m) => u.registry.metadata.insert p.text m
      | _ => u.registry.metadata := by
  unfold Plan.restoreDriveEntry
  rcases plan.recognise c e with f | ⟨file⟩ | ⟨p, m⟩ | _
  · rfl
  · exact plan.restoreFile_metadata c address folder file u
  · rfl
  · rfl

/-- What is found under a text in what is known after some entries. -/
theorem Plan.find?_forEach {path q : String} {act : Entry → Restoring σ Unit} {t : Session σ}
    {stored : Entry → Option Metadata}
    (hkeeps : ∀ e, Restoring.Keeps (fun _ => True) (act e) Going)
    (hact : ∀ e u, ((act e).run u).2.registry.metadata.find? q =
      (stored e).or (u.registry.metadata.find? q)) {es : List (Except Failure Entry)}
    (hgoes : ∀ es', es' <+: es → ((plan.forEach path false act es').run t).2.goesOn) :
    ((plan.forEach path false act es).run t).2.registry.metadata.find? q =
      (es.filterMap fun r => r.toOption.bind stored).getLast?.or
        (t.registry.metadata.find? q) := by
  induction es using List.reverseRecOn with
  | nil =>
    rw [Plan.forEach_nil_snd]
    rfl
  | append_singleton es r ih =>
    have ih := ih fun es' hes' => hgoes es' (hes'.trans (List.prefix_append ..))
    have hmid := hgoes es (List.prefix_append ..)
    rw [Plan.forEach_append_of_goesOn hkeeps hmid]
    cases r with
    | error f =>
      rw [Plan.forEach_error hmid, Plan.forEach_nil_snd]
      simpa using! ih
    | ok e =>
      have hafter : ∀ r : Except Fault Unit × Session σ,
          (plan.afterEntry r).registry.metadata = r.2.registry.metadata := fun r =>
        Plan.afterEntry_keeps (I := fun t => t.registry.metadata = r.2.registry.metadata)
          (fun _ _ ht => ht) r rfl
      rw [Plan.forEach_singleton hmid, hafter, hact, ih, List.filterMap_append,
        List.getLast?_append, ← Option.or_assoc]
      congr 1
      cases hstored : stored e <;> simp [hstored, Except.toOption]

namespace Plan.Legacy

theorem wellFormed (h : plan.Legacy cs start) (hc : c ∈ cs) : c.path.WellFormed :=
  (h.parsed c hc).elim fun _ => BackupPath.wellFormed_of_parse

theorem restoreCollection_eq (h : plan.Legacy cs start) (hc : c ∈ cs) :
    plan.restoreCollection c = plan.restoreDrive c :=
  Plan.restoreCollection_eq_restoreDrive (h.drives c hc) h.serves

/-- An entry is the metadata of a folder by its name and its content. -/
theorem recognise_eq_iff (h : plan.Legacy cs start) {e : Entry} {q : BackupPath} {m : Metadata} :
    plan.recognise c e = .ok (.folderMetadata q m) ↔
      ∃ name, e.dirMetadata? name = some m ∧ c.path.append name = .ok q := by
  unfold Plan.recognise
  simp only [h.metaFiles, h.aboveFolder, h.wanted, Bool.not_true, Bool.not_false, Bool.and_self,
    Bool.false_eq_true, ↓reduceIte, Entry.dirMetadata?_eq_some_iff]
  cases hname : stem? e.name dirMetaSuffix with
  | some name =>
    cases hm : Metadata.ofData e.data with
    | error p => simp
    | ok m' =>
      cases hq : c.path.append name with
      | error f => simp [hq]
      | ok q' => simp [hq, and_comm]
  | none =>
    -- whatever else the entry may be, it is not the metadata of a folder
    simp only [reduceCtorEq, false_and, exists_false, iff_false]
    split
    · exact nofun
    · split
      · exact nofun
      · split <;> exact nofun

/-- An entry stores metadata for the folder it is named after. -/
theorem metadataFor?_of_append (h : plan.Legacy cs start) {q : BackupPath} {name : String}
    (happend : c.path.append name = .ok q) (e : Entry) :
    plan.metadataFor? c q e = e.dirMetadata? name := by
  refine Option.ext fun m => ?_
  have hiff : plan.metadataFor? c q e = some m ↔
      plan.recognise c e = .ok (.folderMetadata q m) := by
    unfold Plan.metadataFor?
    split <;> simp_all
  rw [hiff, h.recognise_eq_iff]
  constructor
  · rintro ⟨name', hm, happend'⟩
    have hlast := (BackupPath.dir_of_append happend).2
    rw [(BackupPath.dir_of_append happend').2] at hlast
    exact Option.some.inj hlast ▸ hm
  · exact fun hm => ⟨name, hm, happend⟩

/-- An entry stores nothing for a folder that does not lie in the one of its collection. -/
theorem metadataFor?_of_not_append (h : plan.Legacy cs start) {q : BackupPath}
    (happend : ∀ name, c.path.append name ≠ .ok q) (e : Entry) :
    plan.metadataFor? c q e = none := by
  unfold Plan.metadataFor?
  split
  · rename_i p m hentry
    obtain ⟨name, -, hp⟩ := h.recognise_eq_iff.1 hentry
    rw [if_neg]
    rintro rfl
    exact happend name hp
  · rfl

theorem nothing_stored (h : plan.Legacy cs start) {q : BackupPath}
    (happend : ∀ name, c.path.append name ≠ .ok q) (es : List (Except Failure Entry)) :
    (es.filterMap fun r => r.toOption.bind (plan.metadataFor? c q)) = [] := by
  refine List.filterMap_eq_nil_iff.2 fun r _ => ?_
  cases r.toOption <;> simp [h.metadataFor?_of_not_append happend]

/-- What is known of a folder after an entry is what the entry stores for it, or else what has
been known before. -/
theorem find?_driveEntry (h : plan.Legacy cs start) (hc : c ∈ cs) {q : BackupPath}
    (hq : q.WellFormed) (address : DriveAddress) (folder : String) (e : Entry) (u : Session σ) :
    ((plan.restoreDriveEntry c address folder e).run u).2.registry.metadata.find? q.text =
      (plan.metadataFor? c q e).or (u.registry.metadata.find? q.text) := by
  rw [plan.restoreDriveEntry_metadata]
  unfold Plan.metadataFor?
  split
  · rename_i p m hentry
    obtain ⟨name, -, hp⟩ := h.recognise_eq_iff.1 hentry
    have htext : p.text = q.text ↔ p = q :=
      ⟨BackupPath.text_injective ((h.wellFormed hc).append hp) hq, congrArg _⟩
    rw [Table.find?_insert]
    by_cases hpq : p = q <;> simp [htext, hpq]
  · simp

/-- After some entries of a collection is known what they store, or else what has been known when
its folder had been entered. -/
theorem find?_entries (h : plan.Legacy cs start) (hsort : Collection.sort cs = pre ++ c :: post)
    {q : BackupPath} (hq : q.WellFormed) {address : DriveAddress} {folder : String} {t : Session σ}
    (henter : (plan.enterFolder c).run (plan.restoreAll pre start).2 =
      (.ok (address, folder), t)) {es : List (Except Failure Entry)} (hes : es <+: c.entries) :
    ((plan.forEach c.path.text false (plan.restoreDriveEntry c address folder) es).run
        t).2.registry.metadata.find? q.text =
      (es.filterMap fun r => r.toOption.bind (plan.metadataFor? c q)).getLast?.or
        (t.registry.metadata.find? q.text) := by
  have hc := Collection.mem_of_sort hsort
  refine Plan.find?_forEach ?_ (h.find?_driveEntry hc hq address folder) fun es' hes' => ?_
  · exact fun e => Plan.restoreDriveEntry_keeps (fun _ _ _ _ => trivial) c address folder e
  · obtain ⟨rest, hentries⟩ := hes'.trans hes
    exact h.goesOn_driveEntries hsort (h.restoreCollection_eq hc) henter hentries.symm

/-- What is known after a collection is what is known after its entries. -/
theorem metadata_after (h : plan.Legacy cs start) (hsort : Collection.sort cs = pre ++ c :: post)
    {address : DriveAddress} {folder : String} {t : Session σ}
    (henter : (plan.enterFolder c).run (plan.restoreAll pre start).2 =
      (.ok (address, folder), t)) :
    (plan.restoreAll (pre ++ [c]) start).2.registry.metadata =
      ((plan.forEach c.path.text false (plan.restoreDriveEntry c address folder) c.entries).run
        t).2.registry.metadata := by
  obtain ⟨stopped, hdry⟩ := plan.forEach_driesUp c.path.text c.driesUp
    (plan.restoreDriveEntry c address folder) c.entries t
  rw [Plan.restoreAll_append, Plan.restoreAll_singleton (h.goesOn hsort),
    h.restoreCollection_eq (Collection.mem_of_sort hsort), Plan.restoreDrive_run henter,
    Plan.metadata_afterCollection, Plan.forEachEntry, hdry]

/-- A collection at a path that is none of a drive changes nothing of what is known. -/
theorem metadata_after_error (h : plan.Legacy cs start)
    (hsort : Collection.sort cs = pre ++ c :: post) {f : PathError}
    (hdrive : c.path.drive = .error f) :
    (plan.restoreAll (pre ++ [c]) start).2.registry.metadata =
      (plan.restoreAll pre start).2.registry.metadata := by
  have hrun := Restoring.run_bind_error
    (plan.enterFolder_error hdrive (plan.restoreAll pre start).2)
    fun entered => plan.forEachEntry c (plan.restoreDriveEntry c entered.1 entered.2)
  rw [Plan.restoreAll_append, Plan.restoreAll_singleton (h.goesOn hsort),
    h.restoreCollection_eq (Collection.mem_of_sort hsort), Plan.metadata_afterCollection,
    show (plan.restoreDrive c).run _ = _ from hrun]

/-- No collection of a folder above the next one is still to come. -/
theorem ne_of_mem_above (hsort : Collection.sort cs = pre ++ c :: post) {folder : BackupPath}
    (hfolder : folder ∈ c.path.above) : ∀ c' ∈ c :: post, c'.path ≠ folder := by
  have hsorted := Collection.pairwise_sort cs
  rw [hsort, List.pairwise_append] at hsorted
  have hprecedes : ∀ c' ∈ c :: post, c.path.precedes c'.path := by
    intro c' hc'
    rcases List.mem_cons.1 hc' with rfl | hc'
    · exact BackupPath.precedes_refl c'.path
    · exact (List.pairwise_cons.1 hsorted.2.1).1 c' hc'
  rintro c' hc' rfl
  have hnot := hprecedes c' hc'
  rw [BackupPath.not_precedes_of_mem_above hfolder] at hnot
  cases hnot

/-- What lies below a collection is still to come. -/
theorem ne_of_above (hsort : Collection.sort cs = pre ++ c :: post) {p : BackupPath}
    (habove : c.path ∈ p.above) : ∀ c' ∈ pre ++ [c], c'.path ≠ p := by
  have hsorted := Collection.pairwise_sort cs
  rw [hsort, List.pairwise_append] at hsorted
  have hprecedes : ∀ c' ∈ pre ++ [c], c'.path.precedes c.path := by
    intro c' hc'
    rcases List.mem_append.1 hc' with hc' | hc'
    · exact hsorted.2.2 c' hc' c (List.mem_cons_self ..)
    · rw [List.mem_singleton.1 hc']
      exact BackupPath.precedes_refl c.path
  rintro c' hc' rfl
  have hnot := hprecedes c' hc'
  rw [BackupPath.not_precedes_of_mem_above habove] at hnot
  cases hnot

/-- What is known when a folder is entered comes from what is stored. -/
theorem draws (h : plan.Legacy cs start) (hsort : Collection.sort cs = pre ++ c :: post)
    {known : Table String Metadata} (hknows : known.KnowsLegacy cs pre)
    (hbelow : c.path.isBelowRoot) : known.Draws (legacyStored? cs) c.path := by
  have hpath := h.wellFormed (Collection.mem_of_sort hsort)
  refine ⟨fun f hf => hknows.root f (hpath.above hf), fun f hf => ?_⟩
  have hf' : f.WellFormed ∧ f.isBelowRoot ∧ ∀ dir ∈ f.above, dir ∈ c.path.above := by
    rcases List.mem_cons.1 hf with rfl | hf
    · exact ⟨hpath, hbelow, fun _ => id⟩
    · obtain ⟨habove, hbelow⟩ := BackupPath.mem_foldersAbove hf
      exact ⟨hpath.above habove, hbelow, fun _ => BackupPath.above_trans habove⟩
  obtain ⟨hwell, hbelow, habove⟩ := hf'
  rw [hknows.folder f hwell hbelow]
  split
  · exact Or.inr rfl
  · obtain ⟨dir, name, address, happend, -⟩ := BackupPath.exists_append hwell hbelow
    have hdir : dir ∈ c.path.above := habove dir (by simp [BackupPath.above_of_append happend])
    exact Or.inl (legacyStored?_of_sort hsort happend (ne_of_mem_above hsort hdir))

/-- The metadata a folder is entered with. -/
theorem folderMetadata_eq (h : plan.Legacy cs start)
    (hsort : Collection.sort cs = pre ++ c :: post) {known : Table String Metadata}
    (hknows : known.KnowsLegacy cs pre) {address : DriveAddress}
    (hdrive : c.path.drive = .ok address) :
    plan.folderMetadata c address known =
      .ok (if address.isRoot then {} else legacyMetadata cs c.path) := by
  cases hroot : address.isRoot with
  | true => exact Plan.folderMetadata_root hroot known
  | false =>
    obtain ⟨drive, folders⟩ := address
    have hne : folders ≠ [] := by simpa [DriveAddress.isRoot] using hroot
    have hbelow := BackupPath.isBelowRoot_iff.2 ⟨_, hdrive, hroot⟩
    obtain ⟨name, hname⟩ := Option.isSome_iff_exists.1 (List.getLast?_isSome.2 hne)
    have hfirst := (h.draws hsort hknows hbelow).firstKnown_eq hdrive hne
    simp [Plan.folderMetadata, h.wanted, h.metaFiles, h.aboveFolder, hname, hfirst, legacyMetadata]

/-- Every folder is entered, and its metadata is remembered. -/
theorem entered (h : plan.Legacy cs start) (hsort : Collection.sort cs = pre ++ c :: post)
    (hknows : (plan.restoreAll pre start).2.registry.metadata.KnowsLegacy cs pre)
    {address : DriveAddress} (hdrive : c.path.drive = .ok address) :
    let m := if address.isRoot then {} else legacyMetadata cs c.path
    ∃ folder t, (plan.destinationFolder address).run (plan.restoreAll pre start).2 =
        (.ok folder, t) ∧
      (plan.enterFolder c).run (plan.restoreAll pre start).2 =
        (.ok (address, folder), plan.perform (.metadata c.path.text m)
          (plan.settleFolder c.path address folder m t)) :=
  h.toUninterrupted.entered_of_found h.found hsort
    (h.restoreCollection_eq (Collection.mem_of_sort hsort)) hdrive
    (h.folderMetadata_eq hsort hknows hdrive)

/-- What is known after one more collection of a drive. -/
theorem find?_concat (h : plan.Legacy cs start) (hsort : Collection.sort cs = pre ++ c :: post)
    (hknows : (plan.restoreAll pre start).2.registry.metadata.KnowsLegacy cs pre)
    {address : DriveAddress} (hdrive : c.path.drive = .ok address) {q : BackupPath}
    (hq : q.WellFormed) :
    (plan.restoreAll (pre ++ [c]) start).2.registry.metadata.find? q.text =
      (c.entries.filterMap fun r => r.toOption.bind (plan.metadataFor? c q)).getLast?.or
        (if c.path = q then some (if address.isRoot then {} else legacyMetadata cs c.path)
          else (plan.restoreAll pre start).2.registry.metadata.find? q.text) := by
  obtain ⟨folder, t, hfolder, henter⟩ := h.entered hsort hknows hdrive
  have haside := plan.destinationFolder_aside address (plan.restoreAll pre start).2
  rw [hfolder] at haside
  have hmid (m : Metadata) : (plan.perform (.metadata c.path.text m)
      (plan.settleFolder c.path address folder m t)).registry.metadata =
      (plan.restoreAll pre start).2.registry.metadata.insert c.path.text m := by
    rw [← haside.metadata, ← plan.settleFolder_metadata c.path address folder m t]
    rfl
  have htext : c.path.text = q.text ↔ c.path = q :=
    ⟨BackupPath.text_injective (h.wellFormed (Collection.mem_of_sort hsort)) hq, congrArg _⟩
  rw [h.metadata_after hsort henter, h.find?_entries hsort hq henter (List.prefix_refl _), hmid,
    Table.find?_insert]
  simp only [htext]

/-- What a run knows about folders after some of its collections. -/
theorem knows (h : plan.Legacy cs start) (hstart : start.registry.metadata = .empty)
    (hsort : Collection.sort cs = pre ++ post) :
    (plan.restoreAll pre start).2.registry.metadata.KnowsLegacy cs pre := by
  induction pre using List.reverseRecOn generalizing post with
  | nil =>
    have hempty : (plan.restoreAll [] start).2.registry.metadata = .empty := hstart
    rw [hempty]
    refine ⟨fun _ _ _ _ _ _ hm => ?_, fun q _ _ => (legacyStored?_nil q).symm⟩
    cases hm
  | append_singleton pre c ih =>
    rw [List.append_assoc] at hsort
    have ih := ih hsort
    rcases hdrive : c.path.drive with f | address
    · -- this collection is not entered, and no folder of a drive lies in its directory
      rw [h.metadata_after_error hsort hdrive]
      refine ⟨ih.root, fun q hq hbelow => ?_⟩
      obtain ⟨dir, name, address, happend, hdir⟩ := BackupPath.exists_append hq hbelow
      have hne : c.path ≠ dir := by
        rintro rfl
        rw [hdrive] at hdir
        cases hdir
      have hne' : q ≠ c.path := by
        rintro rfl
        rw [BackupPath.drive_of_append happend hdir] at hdrive
        cases hdrive
      rw [ih.folder q hq hbelow, legacyStored?_concat happend, if_neg hne]
      simp [hne']
    · refine ⟨fun q hq a hroot ha m => ?_, fun q hq hbelow => ?_⟩
      · -- the root of a drive is not a folder in any other one
        have hnot : ∀ name, c.path.append name ≠ .ok q := by
          intro name happend
          rw [BackupPath.drive_of_append happend hdrive] at hroot
          cases hroot
          simp [DriveAddress.isRoot] at ha
        rw [h.find?_concat hsort ih hdrive hq, h.nothing_stored hnot c.entries]
        simp only [List.getLast?_nil, Option.none_or]
        split
        · rename_i heq
          rw [heq, hroot] at hdrive
          cases hdrive
          simp [ha, eq_comm]
        · exact ih.root q hq a hroot ha m
      · obtain ⟨dir, name, address', happend, hdir⟩ := BackupPath.exists_append hq hbelow
        rw [h.find?_concat hsort ih hdrive hq, legacyStored?_concat happend,
          ih.folder q hq hbelow]
        by_cases hlies : c.path = dir
        · -- the folder lies in that of the collection, so it has not been entered yet
          subst hlies
          have hlater := ne_of_above hsort (p := q) (by simp [BackupPath.above_of_append happend])
          have hnot : q ∉ (pre ++ [c]).map (·.path) := fun hmem => by
            obtain ⟨c', hc', heq⟩ := List.mem_map.1 hmem
            exact hlater c' hc' heq
          have hpre : q ∉ pre.map (·.path) := fun hmem => hnot (by simp [hmem])
          rw [if_neg hnot, if_neg hpre, if_neg (hlater c (by simp)), if_pos rfl]
          rw [show plan.metadataFor? c q = (·.dirMetadata? name) from
            funext (h.metadataFor?_of_append happend)]
          rfl
        · have hnot : ∀ name, c.path.append name ≠ .ok q := by
            intro name' happend'
            have heq := (BackupPath.dir_of_append happend').1
            rw [(BackupPath.dir_of_append happend).1] at heq
            exact hlies (Except.ok.inj heq).symm
          rw [h.nothing_stored hnot c.entries, if_neg hlies]
          by_cases hq' : c.path = q
          · subst hq'
            obtain ⟨a, ha, hroot⟩ := BackupPath.isBelowRoot_iff.1 hbelow
            rw [hdrive] at ha
            cases ha
            simp [hroot]
          · have hne : q ≠ c.path := fun heq => hq' heq.symm
            simp [hq', hne]

/-- What a folder is to use is known once its collection has been restored. -/
theorem known_of_entered (h : plan.Legacy cs start) (hstart : start.registry.metadata = .empty)
    (hsort : Collection.sort cs = pre ++ post) (hc : c ∈ pre) (hbelow : c.path.isBelowRoot) :
    (plan.restoreAll pre start).2.registry.metadata.find? c.path.text =
      some (legacyMetadata cs c.path) := by
  have hmem : c ∈ cs := Collection.mem_sort.1 (by simp [hsort, hc])
  rw [(h.knows hstart hsort).folder c.path (h.wellFormed hmem) hbelow,
    if_pos (List.mem_map_of_mem hc)]

end Plan.Legacy

/-! ## What a folder is restored with -/

/-- Without metadata to compare with no calls are made. -/
theorem Plan.settleFolder_of_missing (plan : Plan σ) {path : BackupPath} {address : DriveAddress}
    (folder : String) (m : Metadata) {f : Fault} {s : Session σ}
    (h : inheritedMetadata s.registry.metadata path = .error f) :
    PermissionExchanges s (plan.settleFolder path address folder m s) [] := by
  have htrace : ((plan.restorePermissions address.drive folder path m).run s).2.trace =
      s.trace := by
    rw [Plan.restorePermissions_run, Updater.restore, h]
    split <;> rfl
  refine ⟨[], ?_, rfl⟩
  rw [List.append_nil]
  unfold Plan.settleFolder
  split
  · rcases hrun : (plan.restorePermissions address.drive folder path m).run s with ⟨f | ⟨⟩, t⟩ <;>
      rw [hrun] at htrace <;> exact htrace
  · rfl

/-- While a collection of a folder below the root of its drive is restored after some others, the
folder is entered with the metadata that is stored for the nearest folder.  From then on it is
known under the path of the folder: between the entries of the collection, after any further
collections, and in the end.  If nothing is stored for the folder itself, and all permissions
name a principal, then none of its permissions is changed. -/
def Plan.UsesLegacyMetadata (plan : Plan σ) (cs : List Collection) (start : Session σ)
    (pre : List Collection) (c : Collection) (post : List Collection) (address : DriveAddress) :
    Prop :=
  let s := (plan.restoreAll pre start).2
  let m := legacyMetadata cs c.path
  s.goesOn ∧ ∃ folder t,
    (plan.destinationFolder address).run s = (.ok folder, t) ∧
    let u := plan.perform (.metadata c.path.text m) (plan.settleFolder c.path address folder m t)
    (plan.enterFolder c).run s = (.ok (address, folder), u) ∧
    (∀ es, es <+: c.entries →
      let act := plan.restoreDriveEntry c address folder
      ((plan.forEach c.path.text false act es).run u).2.registry.metadata.find? c.path.text =
        some m) ∧
    (∀ later, later <+: post →
      (plan.restoreAll (pre ++ c :: later) start).2.registry.metadata.find? c.path.text =
        some m) ∧
    (plan.run cs start).2.registry.metadata.find? c.path.text = some m ∧
    (legacyStored? cs c.path = none → (∀ p ∈ m.permissions, p.hasIdentity) →
      PermissionExchanges s u [])

/-- Every folder of a run is restored with the metadata that is stored for the nearest folder. -/
theorem Plan.usesLegacyMetadata (plan : Plan σ) {cs : List Collection} {log : FaultLog}
    {stopped : Bool} {remote : σ}
    (h : plan.Legacy cs (Session.start plan log stopped remote))
    {pre post : List Collection} {c : Collection}
    (hsort : Collection.sort cs = pre ++ c :: post) {address : DriveAddress}
    (hdrive : c.path.drive = .ok address) (hroot : address.isRoot = false) :
    plan.UsesLegacyMetadata cs (Session.start plan log stopped remote) pre c post address := by
  generalize hstart : Session.start plan log stopped remote = start at h ⊢
  have hempty : start.registry.metadata = .empty := by rw [← hstart]; rfl
  have hc := Collection.mem_of_sort hsort
  have hbelow := BackupPath.isBelowRoot_iff.2 ⟨address, hdrive, hroot⟩
  have hknows := h.knows hempty hsort
  obtain ⟨folder, t, hfolder, henter⟩ := h.entered hsort hknows hdrive
  simp only [hroot, Bool.false_eq_true, ↓reduceIte] at henter
  refine ⟨h.goesOn hsort, folder, t, hfolder, henter, fun es hes => ?_, fun later hlater => ?_,
    ?_, fun hown hidentity => ?_⟩
  · -- no entry of a collection is about its own folder
    have hnot : ∀ name, c.path.append name ≠ .ok c.path := by
      intro name happend
      have hdeeper := BackupPath.drive_of_append happend hdrive
      rw [hdrive] at hdeeper
      simpa using congrArg DriveAddress.folders (Except.ok.inj hdeeper)
    have hentries := h.find?_entries hsort (h.wellFormed hc) henter hes
    rw [h.nothing_stored hnot es] at hentries
    exact hentries.trans (by simp [Plan.perform])
  · obtain ⟨rest, rfl⟩ := hlater
    have hcut : Collection.sort cs = pre ++ c :: later ++ rest := by simp [hsort]
    exact h.known_of_entered hempty hcut (by simp) hbelow
  · rw [Plan.run_eq, conclude_registry, hsort]
    have hcut : Collection.sort cs = pre ++ c :: post ++ [] := by simp [hsort]
    exact h.known_of_entered hempty hcut (by simp) hbelow
  · have haside := plan.destinationFolder_aside address (plan.restoreAll pre start).2
    rw [hfolder] at haside
    refine haside.exchanges.trans (show PermissionExchanges _ _ [] from ?_)
    cases hinherited : inheritedMetadata t.registry.metadata c.path with
    | error f => exact plan.settleFolder_of_missing folder _ hinherited
    | ok above =>
      obtain ⟨made, hmade, -, hend⟩ :=
        plan.settleFolder_attempted folder (legacyMetadata cs c.path) h.wanted hroot hinherited
      -- the folder would have to be changed from the permissions it has
      have hsame : (legacyMetadata cs c.path).sharing = .custom →
          above = legacyMetadata cs c.path := fun hcustom =>
        (h.draws hsort hknows hbelow).eq_of_inheritedMetadata hdrive
          (by simpa [DriveAddress.isRoot] using hroot) hown hcustom (haside.metadata ▸ hinherited)
      rw [plannedCalls_of_same hidentity hsame] at hend
      cases hend
      exact hmade

/-- A drive whose root has the metadata of a folder that is shared with Ann, and a folder in that
one; the folder in between has no collection. -/
def gappedFolders : List Collection :=
  let shared := "\x7b\"id\":\"1\",\"role\":[\"read\"],\"entityId\":\"ann\"\x7d"
  let metadata := "\x7b\"permissions\":[" ++ shared ++ "]\x7d"
  [.ofEntries ⟨"tenant", .onedrive, "user", .files, ["drives", "drive", "root:"]⟩
      [.ok ⟨"outer.dirmeta", metadata.toUTF8⟩],
    .ofEntries ⟨"tenant", .onedrive, "user", .files, ["drives", "drive", "root:", "outer", "inner"]⟩
      []]

/-- Restore folders with their permissions from a backup of version 3. -/
def restoreGapped : Plan Rehearsal where
  options := { restorePermissions := true }
  version := 3
  remote := emptyDrive.remote

theorem sort_gappedFolders : Collection.sort gappedFolders = gappedFolders :=
  Collection.sort_of_pairwise (by decide +kernel)

theorem legacy_gappedFolders :
    restoreGapped.Legacy gappedFolders (Session.start restoreGapped {} false emptyDrive) where
  metaFiles := rfl
  aboveFolder := rfl
  wanted := rfl
  serves := rfl
  not_failFast := rfl
  patient := ⟨rfl, rfl⟩
  parsed c hc := by
    have hparsed : ∀ c ∈ gappedFolders, BackupPath.parse c.path.text = .ok c.path := by
      decide +kernel
    exact ⟨_, hparsed c hc⟩
  drives := by decide +kernel
  not_stopped := by
    rw [Plan.run_eq, sort_gappedFolders]
    decide +kernel
  found := by
    rw [Plan.run_eq, sort_gappedFolders]
    decide +kernel

/-- The inner folder takes over the permissions of the outer one, which are not changed for it. -/
theorem usesLegacyMetadata_gappedFolders :
    let start := Session.start restoreGapped {} false emptyDrive
    ∃ root inner, Collection.sort gappedFolders = [root, inner] ∧
      restoreGapped.Legacy gappedFolders start ∧
      inner.path.drive = .ok ⟨"drive", ["outer", "inner"]⟩ ∧
      legacyStored? gappedFolders inner.path = none ∧
      (legacyMetadata gappedFolders inner.path).permissions.map (·.entityId) = ["ann"] ∧
      restoreGapped.UsesLegacyMetadata gappedFolders start [root] inner []
        ⟨"drive", ["outer", "inner"]⟩ := by
  have hsort : Collection.sort gappedFolders = [gappedFolders[0]] ++ gappedFolders[1] :: [] :=
    sort_gappedFolders
  exact ⟨_, _, hsort, legacy_gappedFolders, rfl, by decide +kernel, by decide +kernel,
    restoreGapped.usesLegacyMetadata legacy_gappedFolders hsort rfl rfl⟩

end TenantRestore
