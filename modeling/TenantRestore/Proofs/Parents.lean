/-
# Parents before children

The permissions of a folder or file are restored only after its folders have been entered, so
the metadata of a folder is missed only if every collection at its path failed before it could
be entered: `Plan.neverEntered_of_missing`.

Collections are taken in the order of their paths, so those of the folders above a collection
come before it, and what is known about a folder is never forgotten.  If one of the
collections at the path of a folder had been entered, its metadata would have been found.
-/
import TenantRestore.Proofs.Course
import TenantRestore.Proofs.Hierarchy
import TenantRestore.Store.Rehearsal

namespace TenantRestore

variable {σ : Type} {plan : Plan σ}

/-! ## Faults that are not added -/

/-- The faults in a log, the failure first. -/
def FaultLog.faults (l : FaultLog) : List Fault := l.failure.toList ++ l.recovered

/-- A fault has not been added to a log. -/
structure FaultLog.Lacks (before : FaultLog) (f : Fault) (after : FaultLog) : Prop where
  count : after.faults.count f = before.faults.count f
  failure : after.failure = some f → before.failure = some f

namespace FaultLog.Lacks

variable {before after : FaultLog} {f g : Fault}

theorem refl (l : FaultLog) (f : Fault) : l.Lacks f l := ⟨rfl, id⟩

theorem recover (h : before.Lacks f after) (hg : g ≠ f) : before.Lacks f (after.recover g) where
  count := by
    rw [← h.count]
    simp [faults, FaultLog.recover, hg]
  failure := h.failure

theorem fail (h : before.Lacks f after) (hg : g ≠ f) : before.Lacks f (after.fail g) := by
  unfold FaultLog.fail
  split
  · exact h.recover hg
  · rename_i hfailed
    refine ⟨?_, fun hf => absurd (Option.some.inj hf) hg⟩
    have hnone : after.failure = none := by simpa [hasFailed] using hfailed
    rw [← h.count]
    simp [faults, hnone, hg]

theorem add (h : before.Lacks f after) (hg : g ≠ f) : before.Lacks f (after.add g) := by
  unfold FaultLog.add
  split
  · exact h.fail hg
  · exact h.recover hg

end FaultLog.Lacks

/-- All effects but that of noting a fault leave it out of the log. -/
theorem Plan.lacks_perform (plan : Plan σ) {log : FaultLog} {f : Fault} {e : Effect} {s : Session σ}
    (he : e ≠ .note f) (h : log.Lacks f s.faults) : log.Lacks f (plan.perform e s).faults := by
  cases e with
  | note g =>
    have hg : g ≠ f := fun hg => he (by rw [hg])
    change log.Lacks f (if _ then _ else _)
    split
    · exact h.fail hg
    · exact h.add hg
  | call _ | metadata _ _ | permissionIds _ | keys _ _ | folder _ _ | container _ _ | tally _
  | stop | countCollection => exact h

/-! ## Entering a folder -/

/-- Whether a fault comes from reading the metadata of a folder, or from finding or creating
the folder. -/
def Fault.isOfFolder : Fault → Bool
  | .fetchingFailed _ _ _ | .undecodableMetadata _ _ | .remote _ => true
  | _ => false

theorem isOfFolder_of_fetchMetadata {c : Collection} {name : String} {f : Fault}
    (h : fetchMetadata c name = .error f) : f.isOfFolder := by
  rcases fault_of_fetchMetadata h with ⟨_, rfl⟩ | ⟨_, rfl⟩ <;> rfl

theorem Plan.isOfFolder_of_folderMetadata {c : Collection} {address : DriveAddress}
    {known : Table String Metadata} {f : Fault} (hdrive : c.path.drive = .ok address)
    (h : plan.folderMetadata c address known = .error f) : f.isOfFolder := by
  unfold Plan.folderMetadata at h
  split at h
  · cases h
  · split at h
    · cases h
    · rename_i folder hfolder
      split at h
      · exact isOfFolder_of_fetchMetadata h
      · -- the metadata of a folder above, which the search always gets to
        have hne : address.folders ≠ [] := by
          rintro hnil
          simp [hnil] at hfolder
        obtain ⟨root, rest, habove, hroot⟩ := BackupPath.above_of_drive hdrive hne
        have hbelow : ∀ f ∈ c.path :: c.path.foldersAbove, f.isBelowRoot := by
          intro f hf
          rcases List.mem_cons.1 hf with rfl | hf
          · exact BackupPath.isBelowRoot_iff.2 ⟨address, hdrive, by simpa [DriveAddress.isRoot]⟩
          · exact (BackupPath.mem_foldersAbove hf).2
        obtain ⟨m, hm⟩ := firstKnown_isOk known rest hbelow hroot rfl
        rw [habove, ← List.cons_append, hm] at h
        cases h

/-- Entering the folder of a drive collection fails only for the folder. -/
theorem Plan.isOfFolder_of_enterFolder {c : Collection} {s t : Session σ} {f : Fault}
    (hbelow : c.path.isBelowRoot) (h : (plan.enterFolder c).run s = (.error f, t)) :
    f.isOfFolder := by
  obtain ⟨address, hdrive, -⟩ := BackupPath.isBelowRoot_iff.1 hbelow
  rw [plan.enterFolder_run hdrive] at h
  split at h
  · rename_i f' hm
    cases h
    exact Plan.isOfFolder_of_folderMetadata hdrive hm
  · split at h
    · rename_i f' t' hfolder
      cases h
      have hcalls : Upkeep plan (fun _ => True) (fun _ => True) fun f _ => f.isOfFolder :=
        ⟨fun _ _ _ _ => trivial, fun _ _ _ _ _ _ => rfl⟩
      exact ((hcalls.destinationFolder (fun _ _ => trivial) address).error hfolder trivial).2
    · cases h

/-- Once its folder has been entered, the metadata of a collection is known. -/
theorem Plan.contains_of_enterFolder {c : Collection} {s t : Session σ}
    {entered : DriveAddress × String} (h : (plan.enterFolder c).run s = (.ok entered, t)) :
    t.registry.metadata.contains c.path.text := by
  rcases hdrive : c.path.drive with e | address
  · unfold Plan.enterFolder at h
    rw [hdrive] at h
    cases h
  rw [plan.enterFolder_run hdrive] at h
  split at h
  · cases h
  · split at h
    · cases h
    · cases h
      simp [Plan.perform]

/-! ## Collections that have not been entered -/

/-- No collection at the path `q` has been entered: each one was started, but its folder
failed, and after that its metadata was not known. -/
def Plan.NeverEntered (plan : Plan σ) (cs : List Collection) (start : Session σ) (q : String) :
    Prop :=
  ∀ pre c post, Collection.sort cs = pre ++ c :: post → c.path.text = q →
    let s := (plan.restoreAll pre start).2
    s.goesOn ∧ ∃ f t, (plan.restoreCollection c).run s = (.error f, t) ∧
      (plan.enterFolder c).run s = (.error f, t) ∧ f.isOfFolder ∧
      t.registry.metadata.contains q = false

variable {cs pre post : List Collection} {start : Session σ} {c : Collection}

/-- If nothing is known about a folder above a collection when this is started, then no
collection of the folder has been entered. -/
theorem Plan.neverEntered_of_unknown (hparsed : ∀ c ∈ cs, c.path.WellFormed)
    (hsort : Collection.sort cs = pre ++ c :: post)
    (hhandler : c.path.category.handler = .drive) (hserves : plan.remote.serves .drive)
    (hgoes : (plan.restoreAll pre start).2.goesOn) {folder : BackupPath}
    (hfolder : folder ∈ c.path.above) (hbelow : folder.isBelowRoot)
    (hunknown : (plan.restoreAll pre start).2.registry.metadata.contains folder.text = false) :
    plan.NeverEntered cs start folder.text := by
  intro pre' c' post' hsort' htext
  have hmem : ∀ {l l' : List Collection} {x : Collection}, Collection.sort cs = l ++ x :: l' →
      x.path.WellFormed :=
    fun h => hparsed _ (Collection.mem_sort.1 (by simp [h]))
  have hpath : c'.path = folder :=
    BackupPath.text_injective (hmem hsort') ((hmem hsort).above hfolder) htext
  -- the collection of the folder has been taken before `c`, and then those in `mid`
  obtain ⟨mid, rfl⟩ := Collection.sort_before hsort' hsort (hpath ▸ hfolder)
  rw [Plan.restoreAll_append, Plan.restoreAll_append] at hgoes hunknown
  generalize (plan.restoreAll pre' start).2 = s at hgoes hunknown ⊢
  have hgoes' := Plan.goesOn_of_restoreAll (Plan.goesOn_of_restoreAll hgoes)
  rw [Plan.restoreAll_singleton hgoes'] at hunknown
  have hlater := (plan.before_afterCollection ((plan.restoreCollection c').run s)).trans
    (plan.before_restoreAll mid _)
  have hdrive : plan.restoreCollection c' = plan.restoreDrive c' := by
    refine Plan.restoreCollection_eq_restoreDrive ?_ hserves
    rw [hpath, (BackupPath.mem_above.1 hfolder).1]
    exact hhandler
  refine ⟨hgoes', ?_⟩
  rcases henter : (plan.enterFolder c').run s with ⟨f | entered, t⟩
  · have hrun : (plan.restoreCollection c').run s = (.error f, t) := by
      rw [hdrive]
      exact Restoring.run_bind_error henter _
    rw [hrun] at hlater hunknown
    exact ⟨f, t, hrun, rfl, Plan.isOfFolder_of_enterFolder (hpath ▸ hbelow) henter,
      hlater.unknown hunknown⟩
  · -- its metadata would still be known
    rw [hdrive, Plan.restoreDrive_run henter] at hlater hunknown
    have hknown := Plan.contains_of_enterFolder henter
    rw [htext] at hknown
    have hentries := plan.before_forEach (plan.before_restoreDriveEntry c' entered.1 entered.2)
      c'.path.text c'.driesUp c'.entries t
    rw [(hentries.trans hlater).unknown hunknown] at hknown
    cases hknown

/-! ## What a run misses -/

/-- Any fault but that of being stopped and a given one. -/
def Other (f₀ f : Fault) (_ : Session σ) : Prop := f.isCancelled = false ∧ f ≠ f₀

section Missing

variable {log : FaultLog} {q : String} {u : Session σ}

theorem tolerates_other : Tolerates (· ≠ .note (.missingParentMetadata q))
    (Other (.missingParentMetadata q) : Fault → Session σ → Prop) where
  plain f _ h := ⟨Fault.not_isCancelled_of_isPlain h, by rintro rfl; cases h⟩
  not_cancelled _ _ h := h.1
  note f _ h := fun heq => h.2 (Effect.note.inj heq)
  note_plain f h := by
    rintro ⟨⟩
    cases h

/-- A later session in which a folder has not been missed since. -/
def NotMissed (log : FaultLog) (q : String) (u s : Session σ) : Prop :=
  log.Lacks (.missingParentMetadata q) s.faults ∧ u.Before s

theorem upkeep_notMissed : Upkeep plan (· ≠ .note (.missingParentMetadata q))
    (NotMissed log q u) (Other (.missingParentMetadata q)) :=
  Upkeep.of_keep
    (fun e s he hs => ⟨plan.lacks_perform he hs.1, hs.2.trans (plan.before_perform e s)⟩)
    fun f s hf => tolerates_other.plain f s hf

/-- A folder whose metadata is known already is not missed. -/
theorem Plan.restorePermissions_notMissed {path : BackupPath}
    (hknown : ∀ folder ∈ path.above, folder.isBelowRoot → folder.text = q →
      u.registry.metadata.contains q) (drive item : String) (current : Metadata) :
    Restoring.Keeps (NotMissed log q u) (plan.restorePermissions drive item path current)
      (Other (.missingParentMetadata q)) := by
  refine upkeep_notMissed.restorePermissions (fun e he => ?_) (fun f s hf hs => ?_)
    (fun s f hs hf t ht => ?_) drive item current
  · rintro rfl
    cases he
  · exact ⟨Fault.not_isCancelled_of_isOfUpdate hf, by rintro rfl; cases hf⟩
  · refine ⟨not_isCancelled_of_inheritedMetadata hf, ?_⟩
    rintro rfl
    obtain ⟨folder, habove, rfl, hbelow, hunknown⟩ := missing_of_inheritedMetadata hf
    have hknown := hknown folder habove hbelow rfl
    rw [hs.2.unknown hunknown] at hknown
    cases hknown

/-- Entering a folder misses none whose metadata is known already. -/
theorem Plan.enterFolder_notMissed
    (hknown : ∀ folder ∈ c.path.above, folder.isBelowRoot → folder.text = q →
      u.registry.metadata.contains q) :
    Restoring.Keeps (NotMissed log q u) (plan.enterFolder c)
      (Other (.missingParentMetadata q)) := by
  refine upkeep_notMissed.enterFolder tolerates_other (fun e he => ?_) (fun m => ?_)
    fun _ drive id m => Plan.restorePermissions_notMissed hknown drive id m
  · rintro rfl
    cases he
  · rintro ⟨⟩

/-- The entries of a collection miss no folder whose metadata is known already. -/
theorem Plan.driveEntry_notMissed
    (hknown : ∀ folder ∈ c.path :: c.path.above, folder.isBelowRoot → folder.text = q →
      u.registry.metadata.contains q) (address : DriveAddress) (folder : String) (e : Entry) :
    Restoring.Keeps (NotMissed log q u) (plan.restoreDriveEntry c address folder e)
      (Other (.missingParentMetadata q)) := by
  have h : Upkeep plan _ (NotMissed log q u) _ := upkeep_notMissed
  refine h.restoreDriveEntry tolerates_other (fun file _ => ?_) fun _ _ _ => by rintro ⟨⟩
  refine h.restoreFile tolerates_other ?_ (h.uploadFile tolerates_other ?_ _ _ _)
    fun _ id path hpath => ?_
  · rintro e he rfl
    cases he
  · rintro e he rfl
    cases he
  · refine Plan.restorePermissions_notMissed ?_ address.drive id file.metadata
    rw [BackupPath.above_of_ofFile hpath]
    exact hknown

/-- Items miss no folder. -/
theorem Plan.restoreItems_notMissed (kind : ItemKind) :
    Restoring.Keeps (NotMissed log q u) (plan.restoreItems kind c)
      (Stopping (Other (.missingParentMetadata q))) := by
  have h : Upkeep plan _ (NotMissed log q u) _ := upkeep_notMissed
  refine h.restoreItems tolerates_other (by rintro ⟨⟩) ?_ fun container entry _ => ?_
  · exact h.containerFor (by rintro _ _ ⟨⟩) (by rintro _ _ _ ⟨⟩) c.path
  · refine h.restoreItem tolerates_other (by rintro _ _ ⟨⟩) ?_ fun item =>
      h.createItem tolerates_other ?_ container item
    · rintro e he rfl
      cases he
    · rintro e he rfl
      cases he

theorem ne_missing_of_stopping {f : Fault}
    (h : Stopping (Other (.missingParentMetadata q)) f u) : f ≠ .missingParentMetadata q := by
  rcases h with h | ⟨rfl, -⟩
  · exact h.2
  · rintro ⟨⟩

variable {s : Session σ}

/-- A drive collection misses no folder if those above its own are known when it is started. -/
theorem Plan.restoreDrive_notMissed
    (hknown : ∀ folder ∈ c.path.above, folder.isBelowRoot → folder.text = q →
      s.registry.metadata.contains q)
    (hlacks : log.Lacks (.missingParentMetadata q) s.faults) :
    Ends (fun _ t => log.Lacks (.missingParentMetadata q) t.faults)
      (fun f t => log.Lacks (.missingParentMetadata q) t.faults ∧ f ≠ .missingParentMetadata q)
      ((plan.restoreDrive c).run s) := by
  have hstart : NotMissed log q s s := ⟨hlacks, .refl s⟩
  rcases henter : (plan.enterFolder c).run s with ⟨f | entered, t⟩
  · obtain ⟨hend, hf⟩ := (Plan.enterFolder_notMissed hknown).error henter hstart
    rw [show (plan.restoreDrive c).run s = _ from Restoring.run_bind_error henter _]
    exact ⟨hend.1, hf.2⟩
  · rw [Plan.restoreDrive_run henter]
    have hmid : NotMissed log q s t := (Plan.enterFolder_notMissed hknown).ok henter hstart
    -- from here on the folder of the collection is known, too
    have hknown' : ∀ folder ∈ c.path :: c.path.above, folder.isBelowRoot →
        folder.text = q → t.registry.metadata.contains q := by
      intro folder hfolder hbelow htext
      rcases List.mem_cons.1 hfolder with rfl | habove
      · exact htext ▸ Plan.contains_of_enterFolder henter
      · exact hmid.2.metadata q (hknown folder habove hbelow htext)
    have hentries : Restoring.Keeps (NotMissed log q t)
        (plan.forEachEntry c (plan.restoreDriveEntry c entered.1 entered.2))
        (Stopping (Other (.missingParentMetadata q))) :=
      upkeep_notMissed.forEachEntry tolerates_other (by rintro ⟨⟩)
        fun e _ => Plan.driveEntry_notMissed hknown' entered.1 entered.2 e
    exact Restoring.Ensures.mono hentries (fun _ ht => ht) (fun _ _ ht => ht.1)
      (fun _ _ ht => ⟨ht.1.1, ne_missing_of_stopping ht.2⟩) t ⟨hmid.1, .refl t⟩

/-- A collection that is started when the folders above it are known misses none. -/
theorem Plan.restoreCollection_notMissed (plan : Plan σ)
    (hknown : c.path.category.handler = .drive → plan.remote.serves .drive →
      ∀ folder ∈ c.path.above, folder.isBelowRoot → folder.text = q →
        s.registry.metadata.contains q)
    (hlacks : log.Lacks (.missingParentMetadata q) s.faults) :
    Ends (fun _ t => log.Lacks (.missingParentMetadata q) t.faults)
      (fun f t => log.Lacks (.missingParentMetadata q) t.faults ∧ f ≠ .missingParentMetadata q)
      ((plan.restoreCollection c).run s) := by
  cases hserves : plan.remote.serves c.path.category.handler with
  | false =>
    rw [Plan.restoreCollection_noHandler hserves]
    exact ⟨hlacks, by rintro ⟨⟩⟩
  | true =>
    cases hhandler : c.path.category.handler with
    | drive =>
      rw [hhandler] at hserves
      rw [Plan.restoreCollection_eq_restoreDrive hhandler hserves]
      exact Plan.restoreDrive_notMissed (hknown hhandler hserves) hlacks
    | items kind =>
      rw [hhandler] at hserves
      rw [Plan.restoreCollection_eq_restoreItems hhandler hserves]
      exact Restoring.Ensures.mono (Plan.restoreItems_notMissed kind) (fun _ ht => ht)
        (fun _ _ ht => ht.1) (fun _ _ ht => ⟨ht.1.1, ne_missing_of_stopping ht.2⟩) s
        ⟨hlacks, .refl s⟩

end Missing

/-- A run over any first collections misses no folder, unless none has been entered there. -/
theorem Plan.lacks_restoreAll {q : String} (hparsed : ∀ c ∈ cs, c.path.WellFormed)
    (hentered : ¬plan.NeverEntered cs start q) (hsort : Collection.sort cs = pre ++ post) :
    start.faults.Lacks (.missingParentMetadata q) (plan.restoreAll pre start).2.faults := by
  induction pre using List.reverseRecOn generalizing post with
  | nil => exact .refl _ _
  | append_singleton pre c ih =>
    rw [List.append_assoc] at hsort
    have ih := ih hsort
    rw [Plan.restoreAll_append]
    cases hgoes : (plan.restoreAll pre start).2.goesOn with
    | false =>
      rw [Plan.restoreAll_of_not_goesOn hgoes]
      exact ih
    | true =>
      have hend := plan.restoreCollection_notMissed (c := c) ?_ ih
      · rw [Plan.restoreAll_singleton hgoes]
        generalize (plan.restoreCollection c).run (plan.restoreAll pre start).2 = r at hend ⊢
        rcases r with ⟨f | ⟨⟩, t⟩
        · have hcount := plan.lacks_perform (e := .countCollection)
            (by rintro ⟨⟩) hend.1
          dsimp only [Plan.afterCollection]
          split
          · exact hcount
          · exact plan.lacks_perform (fun h => hend.2 (Effect.note.inj h)) hcount
        · exact plan.lacks_perform (by rintro ⟨⟩) hend
      · intro hhandler hserves folder hfolder hbelow htext
        by_contra hunknown
        refine hentered (htext ▸ Plan.neverEntered_of_unknown hparsed hsort hhandler hserves
          hgoes hfolder hbelow ?_)
        rw [htext]
        simpa using hunknown

/-- If a run adds the fault that the metadata of a folder is missing to its log, or ends with
it, then no collection at the path of the folder has been entered. -/
theorem Plan.neverEntered_of_missing (plan : Plan σ) {cs : List Collection}
    (hparsed : ∀ c ∈ cs, ∃ text, BackupPath.parse text = .ok c.path) (log : FaultLog)
    (stopped : Bool) (remote : σ) (q : String)
    (hmissing :
      let start := Session.start plan log stopped remote
      log.faults.count (.missingParentMetadata q) <
          (plan.run cs start).2.faults.faults.count (.missingParentMetadata q) ∨
        (plan.run cs start).1 = .error (.missingParentMetadata q) ∧
          log.failure ≠ some (.missingParentMetadata q)) :
    plan.NeverEntered cs (Session.start plan log stopped remote) q := by
  by_contra hentered
  have hparsed : ∀ c ∈ cs, c.path.WellFormed := fun c hc =>
    (hparsed c hc).elim fun _ => BackupPath.wellFormed_of_parse
  have hlacks := Plan.lacks_restoreAll hparsed hentered (List.append_nil _).symm
  dsimp only at hmissing
  rw [Plan.run_eq] at hmissing
  generalize (plan.restoreAll (Collection.sort cs)
    (Session.start plan log stopped remote)).2 = s at hlacks hmissing
  change log.Lacks _ s.faults at hlacks
  unfold conclude FaultLog.takeFailure at hmissing
  split at hmissing
  · rcases hmissing with hcount | ⟨⟨⟩, -⟩
    exact absurd hlacks.count (Nat.ne_of_gt hcount)
  · cases hfailure : s.faults.failure with
    | none =>
      rw [hfailure] at hmissing
      rcases hmissing with hcount | ⟨⟨⟩, -⟩
      exact absurd hlacks.count (Nat.ne_of_gt hcount)
    | some f =>
      rw [hfailure] at hmissing
      rcases hmissing with hcount | ⟨hresult, hne⟩
      · -- the failure has been taken out of the log
        have hcount' := hlacks.count
        simp only [FaultLog.faults, hfailure] at hcount hcount'
        rw [← hcount', List.count_append, List.count_append] at hcount
        simp only [Option.toList_none, List.count_nil] at hcount
        omega
      · cases hresult
        exact hne (hlacks.failure hfailure)

/-- A folder of a drive and a folder in it. -/
def nestedFolders : List Collection :=
  [["outer"], ["outer", "inner"]].map fun folders =>
    .ofEntries ⟨"tenant", .onedrive, "user", .files, ["drives", "drive", "root:"] ++ folders⟩ []

/-- A drive in which the folder that is looked for first can't be found. -/
def unreachableFolder : Rehearsal where
  drive := some { drive := "drive" }
  disturbances := [⟨.findFolder, some 1, false, some (.because "unreachable"), false⟩]

/-- Restore folders that have no metadata of their own. -/
def restoreUnreachable : Plan Rehearsal where
  options := { restorePermissions := true }
  version := 0
  remote := unreachableFolder.remote

/-- The inner folder misses the outer one, which could not be found. -/
theorem neverEntered_unreachableFolder :
    (restoreUnreachable.run nestedFolders
        (Session.start restoreUnreachable {} false unreachableFolder)).2.faults.recovered =
      [.remote (.because "unreachable"),
        .missingParentMetadata "tenant/onedrive/user/files/drives/drive/root:/outer"] ∧
    restoreUnreachable.NeverEntered nestedFolders
      (Session.start restoreUnreachable {} false unreachableFolder)
      "tenant/onedrive/user/files/drives/drive/root:/outer" := by
  have hsort : Collection.sort nestedFolders = nestedFolders :=
    Collection.sort_of_pairwise (by decide +kernel)
  constructor
  · rw [Plan.run_eq, hsort]
    decide +kernel
  · refine Plan.neverEntered_of_missing restoreUnreachable (fun c hc => ?_) {} false
      unreachableFolder _ (Or.inl ?_)
    · have hparsed : ∀ c ∈ nestedFolders, BackupPath.parse c.path.text = .ok c.path := by
        decide +kernel
      exact ⟨_, hparsed c hc⟩
    · rw [Plan.run_eq, hsort]
      decide +kernel

end TenantRestore
