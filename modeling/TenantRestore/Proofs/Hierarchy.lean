/-
# The folders above a path of a drive

The directories above the path of a drive are some folders below the root of the drive, the
root, and three more that are no folders of the drive.  Metadata is looked for from the
nearest folder to the root, so neither search ever gets to the directories beyond it.
-/
import Mathlib.Data.List.Induction
import Mathlib.Data.List.TakeWhile
import TenantRestore.Proofs.Path
import TenantRestore.Restore.Drive

namespace TenantRestore

namespace BackupPath

/-- Whether a path stands for a folder below the root of a drive. -/
def isBelowRoot (p : BackupPath) : Bool :=
  match p.drive with
  | .ok address => !address.isRoot
  | .error _ => false

/-- The folders above a path, without the root of the drive, the nearest first. -/
def foldersAbove (p : BackupPath) : List BackupPath := p.above.takeWhile isBelowRoot

theorem isBelowRoot_iff {p : BackupPath} :
    p.isBelowRoot ↔ ∃ address, p.drive = .ok address ∧ address.isRoot = false := by
  unfold isBelowRoot
  split <;> simp_all

theorem mem_foldersAbove {p folder : BackupPath} (h : folder ∈ p.foldersAbove) :
    folder ∈ p.above ∧ folder.isBelowRoot :=
  ⟨List.takeWhile_subset _ h, List.mem_takeWhile_imp h⟩

theorem elements_of_drive {p : BackupPath} {a : DriveAddress} (h : p.drive = .ok a) :
    p.elements = [drivesElement, a.drive, rootElement] ++ a.folders := by
  unfold drive at h
  split at h
  · split at h
    · cases h
      simp_all
    · cases h
  · cases h

theorem drive_of_elements {p : BackupPath} {a : DriveAddress}
    (h : p.elements = [drivesElement, a.drive, rootElement] ++ a.folders) : p.drive = .ok a := by
  simp [drive, h]

/-- Above a folder or file of a drive is the folder it lies in, and what is above that. -/
theorem above_of_drive_concat {p : BackupPath} {drive name : String} {folders : List String}
    (h : p.drive = .ok ⟨drive, folders ++ [name]⟩) :
    ∃ dir, p.above = dir :: dir.above ∧ dir.drive = .ok ⟨drive, folders⟩ := by
  have hes := elements_of_drive h
  rw [← List.append_assoc] at hes
  exact ⟨_, above_of_concat hes, drive_of_elements rfl⟩

/-- Above a folder directly below the root there are no folders, above any other one there are
the folder it lies in and those above that. -/
theorem foldersAbove_of_concat {p dir : BackupPath} {drive : String} {folders : List String}
    (habove : p.above = dir :: dir.above) (hdir : dir.drive = .ok ⟨drive, folders⟩) :
    p.foldersAbove = if folders = [] then [] else dir :: dir.foldersAbove := by
  rw [foldersAbove, habove]
  split
  · rename_i hfolders
    rw [List.takeWhile_cons_of_neg (by simp [isBelowRoot, hdir, DriveAddress.isRoot, hfolders])]
  · rename_i hfolders
    rw [List.takeWhile_cons_of_pos (by simp [isBelowRoot, hdir, DriveAddress.isRoot, hfolders]),
      ← foldersAbove]

/-- The directories above a folder of a drive: the folders in between, then the root. -/
theorem above_of_drive {p : BackupPath} {drive : String} {folders : List String}
    (h : p.drive = .ok ⟨drive, folders⟩) (hne : folders ≠ []) :
    ∃ root rest, p.above = p.foldersAbove ++ root :: rest ∧ root.drive = .ok ⟨drive, []⟩ := by
  induction folders using List.reverseRecOn generalizing p with
  | nil => exact absurd rfl hne
  | append_singleton folders name ih =>
    obtain ⟨dir, habove, hdir⟩ := above_of_drive_concat h
    rw [foldersAbove_of_concat habove hdir, habove]
    split
    · -- the nearest directory is the root
      rename_i hfolders
      exact ⟨dir, dir.above, rfl, hfolders ▸ hdir⟩
    · rename_i hfolders
      obtain ⟨root, rest, hsplit, hroot⟩ := ih hdir hfolders
      exact ⟨root, rest, by rw [List.cons_append, ← hsplit], hroot⟩

/-- A file lies in the folder of its collection. -/
theorem above_of_ofFile {folder path : BackupPath} {file : DriveFile}
    (h : folder.ofFile file = .ok path) : path.above = folder :: folder.above := by
  unfold ofFile at h
  split at h
  · rename_i hname
    cases h
    exact above_of_append hname
  · split at h
    · rename_i hentry
      cases h
      exact above_of_append hentry
    · cases h

theorem drive_of_append {folder path : BackupPath} {name : String} {a : DriveAddress}
    (h : folder.append name = .ok path) (hdrive : folder.drive = .ok a) :
    path.drive = .ok ⟨a.drive, a.folders ++ [name]⟩ := by
  unfold append at h
  split at h
  · cases h
    refine drive_of_elements ?_
    rw [← List.append_assoc, ← elements_of_drive hdrive]
  · cases h

theorem ofFile_drive {folder path : BackupPath} {file : DriveFile} {a : DriveAddress}
    (h : folder.ofFile file = .ok path) (hdrive : folder.drive = .ok a) :
    ∃ name, path.drive = .ok ⟨a.drive, a.folders ++ [name]⟩ := by
  unfold ofFile at h
  split at h
  · rename_i hname
    cases h
    exact ⟨_, drive_of_append hname hdrive⟩
  · split at h
    · rename_i hentry
      cases h
      exact ⟨_, drive_of_append hentry hdrive⟩
    · cases h

end BackupPath

/-! ## Looking for metadata -/

/-- Between the folders below a root and the root some metadata is found or taken to be
empty. -/
theorem firstKnown_isOk (known : Table String Metadata) {fs : List BackupPath}
    (rest : List BackupPath) {root : BackupPath} {a : DriveAddress} (hfs : ∀ f ∈ fs, f.isBelowRoot)
    (hroot : root.drive = .ok a) (ha : a.isRoot) :
    ∃ m, firstKnown known (fs ++ root :: rest) = .ok m := by
  induction fs with
  | nil =>
    rw [List.nil_append, firstKnown]
    split
    · exact ⟨_, rfl⟩
    · simp [hroot, ha]
  | cons f fs ih =>
    obtain ⟨b, hb, hbelow⟩ := BackupPath.isBelowRoot_iff.1 (hfs f (List.mem_cons_self ..))
    rw [List.cons_append, firstKnown]
    split
    · exact ⟨_, rfl⟩
    · simpa [hb, hbelow] using ih fun f' hf' => hfs f' (List.mem_cons_of_mem _ hf')

/-- The search needs the metadata of a folder below the root. -/
theorem nearestCustom_of_isBelowRoot {folder : BackupPath} (h : folder.isBelowRoot)
    (known : Table String Metadata) (outer : List BackupPath) :
    nearestCustom known (folder :: outer) =
      match known.find? folder.text with
      | none => .error (.missingParentMetadata folder.text)
      | some m => if m.sharing = .custom then .ok m else nearestCustom known outer := by
  obtain ⟨address, hdrive, hroot⟩ := BackupPath.isBelowRoot_iff.1 h
  rw [nearestCustom, hdrive]
  exact if_neg (by simp [hroot])

/-- The search ends at the root of a drive, and fails elsewhere. -/
theorem nearestCustom_of_not_isBelowRoot {folder : BackupPath} (h : ¬ folder.isBelowRoot)
    (known : Table String Metadata) (outer : List BackupPath) :
    nearestCustom known (folder :: outer) = .ok {} ∨
      ∃ e, nearestCustom known (folder :: outer) = .error (.path e) := by
  rw [nearestCustom]
  cases hdrive : folder.drive with
  | error e => exact .inr ⟨e, rfl⟩
  | ok address =>
    have hroot : address.isRoot := by simpa [BackupPath.isBelowRoot, hdrive] using h
    exact .inl (if_pos hroot)

/-- The metadata a search misses is that of a folder it has come to. -/
theorem missing_of_nearestCustom {known : Table String Metadata} {folders : List BackupPath}
    {q : String} (h : nearestCustom known folders = .error (.missingParentMetadata q)) :
    ∃ folder ∈ folders, folder.text = q ∧ folder.isBelowRoot ∧ known.contains q = false := by
  induction folders with
  | nil => cases h
  | cons folder outer ih =>
    by_cases hbelow : folder.isBelowRoot
    · rw [nearestCustom_of_isBelowRoot hbelow] at h
      split at h
      · rename_i hnone
        cases h
        exact ⟨folder, List.mem_cons_self .., rfl, hbelow, by simp [Table.contains, hnone]⟩
      · split at h
        · cases h
        · obtain ⟨f, hf, hrest⟩ := ih h
          exact ⟨f, List.mem_cons_of_mem _ hf, hrest⟩
    · rcases nearestCustom_of_not_isBelowRoot hbelow known outer with hend | ⟨e, hend⟩ <;>
        rw [hend] at h <;> cases h

theorem missing_of_inheritedMetadata {known : Table String Metadata} {item : BackupPath}
    {q : String} (h : inheritedMetadata known item = .error (.missingParentMetadata q)) :
    ∃ folder ∈ item.above, folder.text = q ∧ folder.isBelowRoot ∧ known.contains q = false := by
  unfold inheritedMetadata at h
  split at h
  · cases h
  · exact missing_of_nearestCustom h

/-- The metadata of the nearest of some folders which has permissions of its own. -/
def nearestOwn (stored : BackupPath → Option Metadata) (folders : List BackupPath) : Metadata :=
  ((folders.filterMap stored).find? fun m => m.sharing = .custom).getD {}

/-- If what is known about the folders below the root is what is stored for them, then the
search finds what is stored for the nearest of them with permissions of its own. -/
theorem nearestCustom_eq {known : Table String Metadata} {stored : BackupPath → Option Metadata}
    {fs rest : List BackupPath} {root : BackupPath} {a : DriveAddress}
    (hfs : ∀ f ∈ fs, f.isBelowRoot ∧ ∃ m, known.find? f.text = some m ∧ stored f = some m)
    (hroot : root.drive = .ok a) (ha : a.isRoot) :
    nearestCustom known (fs ++ root :: rest) = .ok (nearestOwn stored fs) := by
  induction fs with
  | nil =>
    rw [List.nil_append, nearestCustom]
    simp only [hroot, ha]
    rfl
  | cons f fs ih =>
    obtain ⟨hbelow, m, hm, hstored⟩ := hfs f (List.mem_cons_self ..)
    have ih := ih fun f' hf' => hfs f' (List.mem_cons_of_mem _ hf')
    rw [List.cons_append, nearestCustom_of_isBelowRoot hbelow, hm]
    unfold nearestOwn
    rw [List.filterMap_cons_some hstored, List.find?_cons]
    by_cases hcustom : m.sharing = .custom
    · simp [hcustom]
    · simp only [hcustom, ↓reduceIte, decide_false]
      exact ih

/-- The metadata above a path in a drive is what is stored for the nearest folder. -/
theorem inheritedMetadata_eq {known : Table String Metadata}
    {stored : BackupPath → Option Metadata} {p : BackupPath} {drive : String}
    {folders : List String} (hdrive : p.drive = .ok ⟨drive, folders⟩) (hne : folders ≠ [])
    (hknown : ∀ f ∈ p.foldersAbove, ∃ m, known.find? f.text = some m ∧ stored f = some m) :
    inheritedMetadata known p = .ok (nearestOwn stored p.foldersAbove) := by
  obtain ⟨root, rest, habove, hroot⟩ := BackupPath.above_of_drive hdrive hne
  have hes := BackupPath.elements_of_drive hdrive
  unfold inheritedMetadata
  rw [if_neg (by simp [hes]), habove]
  exact nearestCustom_eq
    (fun f hf => ⟨(BackupPath.mem_foldersAbove hf).2, hknown f hf⟩) hroot rfl

end TenantRestore
