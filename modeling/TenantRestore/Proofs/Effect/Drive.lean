/-
# The effects of restoring drive collections

For every step on the way to a restored drive collection: a property of sessions that its
effects keep is kept by the step.  A step that is made of others takes their theorems as
hypotheses where these say more than that, so that a property which some step keeps for a
reason of its own is still kept by the steps around it.
-/
import TenantRestore.Proofs.Effect

namespace TenantRestore

variable {σ : Type} {plan : Plan σ} {A : Effect → Prop} {I : Session σ → Prop}
  {E : Fault → Session σ → Prop}

/-! ## Faults that are not about permissions -/

theorem BackupPath.isPlain_of_ofFile {folder : BackupPath} {file : DriveFile} {f : Fault}
    (h : folder.ofFile file = .error f) : f.isPlain := by
  unfold BackupPath.ofFile at h
  split at h
  · cases h
  · split at h
    · cases h
    · cases h
      rfl

/-- A metadata file that cannot be had is missing or cannot be read. -/
theorem fault_of_fetchMetadata {c : Collection} {name : String} {f : Fault}
    (h : fetchMetadata c name = .error f) :
    (∃ cause, f = .fetchingFailed name c.path.text cause) ∨
      ∃ problem, f = .undecodableMetadata name problem := by
  unfold fetchMetadata at h
  split at h
  · cases h
    exact .inl ⟨_, rfl⟩
  · split at h
    · cases h
      exact .inr ⟨_, rfl⟩
    · cases h

theorem isPlain_of_fetchMetadata {c : Collection} {name : String} {f : Fault}
    (h : fetchMetadata c name = .error f) : f.isPlain := by
  rcases fault_of_fetchMetadata h with ⟨_, rfl⟩ | ⟨_, rfl⟩ <;> rfl

theorem Plan.isPlain_of_recognise {c : Collection} {entry : Entry} {f : Fault}
    (h : plan.recognise c entry = .error f) : f.isPlain := by
  unfold Plan.recognise Plan.fileMetadata at h
  grind [isPlain_of_fetchMetadata, Fault.isPlain]

theorem isPlain_of_firstKnown {known : Table String Metadata} {folders : List BackupPath}
    {f : Fault} (h : firstKnown known folders = .error f) : f.isPlain := by
  induction folders with
  | nil => cases h
  | cons folder outer ih =>
    unfold firstKnown at h
    split at h
    · cases h
    · split at h
      · cases h
        rfl
      · split at h
        · cases h
        · exact ih h

theorem Plan.isPlain_of_folderMetadata {c : Collection} {address : DriveAddress}
    {known : Table String Metadata} {f : Fault}
    (h : plan.folderMetadata c address known = .error f) : f.isPlain := by
  unfold Plan.folderMetadata at h
  grind [isPlain_of_fetchMetadata, isPlain_of_firstKnown]

/-! ## Faults that do not come from being stopped -/

theorem not_isCancelled_of_nearestCustom {known : Table String Metadata}
    {folders : List BackupPath} {f : Fault} (h : nearestCustom known folders = .error f) :
    f.isCancelled = false := by
  induction folders with
  | nil => cases h
  | cons folder outer ih =>
    unfold nearestCustom at h
    split at h
    · cases h
      rfl
    · split at h
      · cases h
      · split at h
        · cases h
          rfl
        · split at h
          · cases h
          · exact ih h

/-- Whether a fault can come from granting permissions and taking them back. -/
def Fault.isOfUpdate : Fault → Bool
  | .noNewPermissionId _ | .noPermissionIdReturned _ | .remote _ => true
  | _ => false

theorem not_isCancelled_of_inheritedMetadata {known : Table String Metadata} {item : BackupPath}
    {f : Fault} (h : inheritedMetadata known item = .error f) : f.isCancelled = false := by
  unfold inheritedMetadata at h
  split at h
  · cases h
    rfl
  · exact not_isCancelled_of_nearestCustom h

namespace Upkeep

/-! ## Folders -/

theorem rootFolder (h : Upkeep plan A I E) (hA : ∀ e, e.isFolder → A e) (drive : String) :
    Restoring.Keeps I (plan.rootFolder drive) E := by
  refine Restoring.Ensures.get_bind fun s hs => ?_
  split
  · exact hs
  · refine Restoring.Keeps.bind (h.need (hA _ rfl)) (fun root => ?_) s hs
    refine Restoring.Keeps.bind ?_ fun _ => Restoring.Keeps.pure
    exact fun s hs => h.keep (.folder (drive, []) root.id) s (hA _ rfl) hs

theorem subfolder (h : Upkeep plan A I E) (hA : ∀ e, e.isFolder → A e)
    (drive parent name : String) : Restoring.Keeps I (plan.subfolder drive parent name) E := by
  refine Restoring.Keeps.bind (h.need (hA _ rfl)) fun found => ?_
  cases found with
  | some folder => exact Restoring.Keeps.pure
  | none => exact Restoring.Keeps.bind (h.need (hA _ rfl)) fun _ => Restoring.Keeps.pure

theorem descend (h : Upkeep plan A I E) (hA : ∀ e, e.isFolder → A e) (drive : String)
    (place : List String) (parent : String) (names : List String) :
    Restoring.Keeps I (plan.descend drive place parent names) E := by
  induction names generalizing place parent with
  | nil => exact Restoring.Keeps.pure
  | cons name names ih =>
    refine Restoring.Ensures.get_bind fun s hs => ?_
    split
    · exact ih _ _ s hs
    · refine Restoring.Keeps.bind (h.subfolder hA drive parent name) (fun id => ?_) s hs
      refine Restoring.Keeps.bind ?_ fun _ => ih _ _
      exact fun s hs => h.keep (.folder (drive, place ++ [name]) id) s (hA _ rfl) hs

theorem destinationFolder (h : Upkeep plan A I E) (hA : ∀ e, e.isFolder → A e)
    (address : DriveAddress) : Restoring.Keeps I (plan.destinationFolder address) E := by
  refine Restoring.Ensures.get_bind fun s hs => ?_
  split
  · exact hs
  · exact Restoring.Keeps.bind (h.rootFolder hA _) (fun root => h.descend hA _ _ root _) s hs

/-! ## Permissions -/

theorem revokeAll (h : Upkeep plan A I E) {drive item : String}
    (hA : ∀ e, e.isPermissionOn drive item → A e) (ids : Table String String)
    (ps : List Permission) :
    Steps.Keeps I (plan.updater.revokeAll drive item ids ps)
      fun r _ => ∀ f, r = .error f → f.isOfUpdate := by
  induction ps with
  | nil => exact fun s hs => ⟨hs, by rintro _ ⟨⟩⟩
  | cons p ps ih =>
    unfold Updater.revokeAll
    cases ids.find? p.id with
    | none => exact fun s hs => ⟨hs, by rintro _ ⟨⟩; rfl⟩
    | some id =>
      have hcall := hA (.call (.drive (.revoke drive item id))) (by simp [Effect.isPermissionOn])
      refine Steps.Keeps.bind (h.ask hcall) ?_
      rintro (f | ⟨⟩)
      · exact fun s hs => ⟨hs, by rintro _ ⟨⟩; rfl⟩
      · exact ih

theorem grantAll (h : Upkeep plan A I E) {drive item : String}
    (hA : ∀ e, e.isPermissionOn drive item → A e) (ids : Table String String)
    (ps : List Permission) :
    Steps.Keeps I (plan.updater.grantAll drive item ids ps)
      fun r _ => ∀ f, r.1 = .error f → f.isOfUpdate := by
  induction ps generalizing ids with
  | nil => exact fun s hs => ⟨hs, by rintro _ ⟨⟩⟩
  | cons p ps ih =>
    unfold Updater.grantAll
    cases p.invitation? with
    | none => exact ih ids
    | some invitation =>
      have hcall := hA (.call (.drive (.grant drive item invitation)))
        (by simp [Effect.isPermissionOn])
      refine Steps.Keeps.bind (h.ask hcall) ?_
      rintro (f | _ | id)
      · exact fun s hs => ⟨hs, by rintro _ ⟨⟩; rfl⟩
      · exact fun s hs => ⟨hs, by rintro _ ⟨⟩; rfl⟩
      · exact ih _

/-- Restoring permissions fails if the metadata above the item is not found, or while
permissions are granted and taken back. -/
theorem restore (h : Upkeep plan A I E) {drive item : String}
    (hA : ∀ e, e.isPermissionOn drive item → A e) (path : BackupPath) (current : Metadata)
    (known : Table String Metadata) (ids : Table String String) :
    Steps.Keeps I (plan.updater.restore drive item path current known ids)
      fun r _ => ∀ f, r.1 = .error f →
        f.isOfUpdate ∨ inheritedMetadata known path = .error f := by
  unfold Updater.restore
  split
  · exact fun s hs => ⟨hs, by rintro _ ⟨⟩⟩
  · cases inheritedMetadata known path with
    | error f => exact fun s hs => ⟨hs, by rintro _ ⟨⟩; exact Or.inr rfl⟩
    | ok above =>
      refine Steps.Ensures.bind (h.revokeAll hA ids _) ?_
      rintro (f | ⟨⟩)
      · exact fun s hs => ⟨hs.1, by rintro _ ⟨⟩; exact Or.inl (hs.2 f rfl)⟩
      · intro s hs
        obtain ⟨hI, hf⟩ := h.grantAll hA ids _ s hs.1
        exact ⟨hI, fun f hr => Or.inl (hf f hr)⟩

theorem restorePermissionsOn (h : Upkeep plan A I E) {drive item : String}
    (hA : ∀ e, e.isPermissionOn drive item → A e) {path : BackupPath}
    (hupdate : ∀ f s, Fault.isOfUpdate f → I s → E f s)
    (hknown : ∀ s f, I s → inheritedMetadata s.registry.metadata path = .error f →
      ∀ t, I t → E f t) (current : Metadata) :
    Restoring.Keeps I (plan.restorePermissions drive item path current) E := by
  refine Restoring.Ensures.get_bind fun s hs => ?_
  refine Restoring.Ensures.bind
    (Restoring.Ensures.always (h.restore hA path current _ _)) (fun r => ?_) s hs
  rintro t ⟨hI, hr⟩
  -- the new ids are remembered before the fault, if any, is passed on
  refine Restoring.Keeps.bind (x := Restoring.always (learn _)) ?_ (fun _ => ?_) t hI
  · exact fun t ht => h.keep (.permissionIds r.2) t (hA _ rfl) ht
  · refine Restoring.Keeps.ofExcept fun f t hf ht => ?_
    rcases hr f hf with hf | hf
    · exact hupdate f t hf ht
    · exact hknown s f hs hf t ht

theorem restorePermissions (h : Upkeep plan A I E) (hA : ∀ e, e.isPermission → A e)
    {path : BackupPath} (hupdate : ∀ f s, Fault.isOfUpdate f → I s → E f s)
    (hknown : ∀ s f, I s → inheritedMetadata s.registry.metadata path = .error f →
      ∀ t, I t → E f t) (drive item : String) (current : Metadata) :
    Restoring.Keeps I (plan.restorePermissions drive item path current) E :=
  h.restorePermissionsOn (fun e he => hA e (Effect.isPermission_of_on he)) hupdate hknown current

/-! ## Files -/

theorem uploadFileIn (h : Upkeep plan A I E) (hE : Tolerates A E) {drive folder : String}
    (hA : ∀ e, e.isFileIn drive folder → A e) (file : DriveFile) :
    Restoring.Keeps I (plan.uploadFile drive folder file) E := by
  have hcall : ∀ c : DriveCall, c.isFileIn drive folder → A (.call (.drive c)) :=
    fun c hc => hA (.call (.drive c)) hc
  have hkeys : ∀ ks, A (.keys folder ks) := fun ks => hA _ (by simp [Effect.isFileIn])
  have ask : ∀ c : DriveCall, c.isFileIn drive folder →
      Steps.Keeps I (plan.askDrive c) fun _ _ => True :=
    fun c hc s hs => ⟨(h.ask (hcall c hc) s hs).1, trivial⟩
  refine Restoring.Keeps.bind
    (h.knownKeys (h.need (hcall _ (by simp [DriveCall.isFileIn]))) hkeys) fun keys => ?_
  refine Restoring.Ensures.bind (Restoring.Ensures.always
    (h.place (ask _ (by simp [DriveCall.isFileIn]))
      (fun old => ask _ (by simp [DriveCall.isFileIn])) hkeys)) ?_
  rintro (fault | id)
  · rintro s ⟨hI, hfault⟩
    dsimp only
    split
    · exact ⟨hI, hE.plain _ s (hfault _ rfl)⟩
    · exact h.keep (.note fault) s (hE.note_plain _ (hfault _ rfl)) hI
  · rintro s ⟨hI, -⟩
    dsimp only
    split
    · refine Restoring.Keeps.bind
        (Restoring.Keeps.always (ask (.rename _ _ _) (by simp [DriveCall.isFileIn]))) ?_ s hI
      rintro (f | ⟨⟩)
      · exact Restoring.Keeps.bind (h.note (hE.note_plain _ rfl)) fun _ => Restoring.Keeps.pure
      · exact Restoring.Keeps.pure
    · exact hI

theorem uploadFile (h : Upkeep plan A I E) (hE : Tolerates A E) (hA : ∀ e, e.isFile → A e)
    (drive folder : String) (file : DriveFile) :
    Restoring.Keeps I (plan.uploadFile drive folder file) E :=
  h.uploadFileIn hE (fun e he => hA e (Effect.isFile_of_in he)) file

/-- Restoring a file keeps what uploading it and restoring its permissions keep. -/
theorem restoreFile (h : Upkeep plan A I E) (hE : Tolerates A E)
    (hA : ∀ e, e.isAccount → A e) {c : Collection} {address : DriveAddress} {folder : String}
    {file : DriveFile} (hupload : Restoring.Keeps I (plan.uploadFile address.drive folder file) E)
    (hpermissions : plan.options.restorePermissions → ∀ id path, c.path.ofFile file = .ok path →
      Restoring.Keeps I (plan.restorePermissions address.drive id path file.metadata) E) :
    Restoring.Keeps I (plan.restoreFile c address folder file) E := by
  refine Restoring.Keeps.bind (h.tally (hA _ rfl)) fun _ => ?_
  refine Restoring.Keeps.bind hupload fun stored => ?_
  refine Restoring.Keeps.bind (h.tally (hA _ rfl)) fun _ => ?_
  refine Restoring.Keeps.bind (h.handOut (hA _ rfl)) fun _ => ?_
  split
  · rename_i hwanted
    rw [Bool.and_eq_true] at hwanted
    cases hpath : c.path.ofFile file with
    | error f =>
      exact Restoring.Keeps.throw fun s _ => hE.plain f s (BackupPath.isPlain_of_ofFile hpath)
    | ok path => exact hpermissions hwanted.1 _ path hpath
  · exact Restoring.Keeps.pure

theorem restoreDriveEntry (h : Upkeep plan A I E) (hE : Tolerates A E) {c : Collection}
    {address : DriveAddress} {folder : String} {entry : Entry}
    (hfile : ∀ file, plan.recognise c entry = .ok (.file file) →
      Restoring.Keeps I (plan.restoreFile c address folder file) E)
    (hmetadata : ∀ path m, plan.recognise c entry = .ok (.folderMetadata path m) →
      A (.metadata path.text m)) :
    Restoring.Keeps I (plan.restoreDriveEntry c address folder entry) E := by
  unfold Plan.restoreDriveEntry
  rcases hentry : plan.recognise c entry with f | ⟨file⟩ | ⟨path, m⟩ | _
  · exact Restoring.Keeps.throw fun s _ => hE.plain f s (Plan.isPlain_of_recognise hentry)
  · exact hfile file hentry
  · exact h.rememberMetadata (hmetadata path m hentry)
  · exact Restoring.Keeps.pure

/-! ## Collections -/

/-- Entering the folder of a collection keeps what restoring its permissions keeps. -/
theorem enterFolder (h : Upkeep plan A I E) (hE : Tolerates A E) (hA : ∀ e, e.isFolder → A e)
    {c : Collection}
    (hmetadata : ∀ m, A (.metadata c.path.text m))
    (hpermissions : plan.options.restorePermissions → ∀ drive id m,
      Restoring.Keeps I (plan.restorePermissions drive id c.path m) E) :
    Restoring.Keeps I (plan.enterFolder c) E := by
  refine Restoring.Keeps.bind (Restoring.Keeps.ofExcept ?_) fun address => ?_
  · intro f s hf _
    cases hdrive : c.path.drive <;> rw [hdrive] at hf <;> cases hf
    exact hE.plain _ s rfl
  refine Restoring.Ensures.get_bind fun s hs => ?_
  refine Restoring.Keeps.bind (Restoring.Keeps.ofExcept ?_) (fun m => ?_) s hs
  · exact fun f t hf _ => hE.plain f t (Plan.isPlain_of_folderMetadata hf)
  refine Restoring.Keeps.bind (h.destinationFolder hA address) fun folder => ?_
  have hend : Restoring.Keeps I (do
      Restoring.always (TenantRestore.rememberMetadata c.path m)
      return (address, folder)) E :=
    Restoring.Keeps.bind (h.rememberMetadata (hmetadata m)) fun _ => Restoring.Keeps.pure
  dsimp only
  split
  · rename_i hwanted
    rw [Bool.and_eq_true] at hwanted
    refine Restoring.Ensures.bind
      (Restoring.Ensures.always (hpermissions hwanted.1 address.drive folder m).caught) ?_
    rintro (f | ⟨⟩)
    · rintro s ⟨hI, hfault⟩
      exact Restoring.Keeps.bind (h.note (hE.note f s (hfault f rfl))) (fun _ => hend) s hI
    · exact fun s hs => hend s hs.1
  · exact hend

end Upkeep
end TenantRestore
