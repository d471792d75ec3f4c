/-
# Where a run restores permissions

A run restores the permissions of a folder when it enters it, and those of a file when it has
been uploaded.  `Plan.visits` lists these visits in their order, each with the session in which
it starts.

Between two visits nothing happens that has to do with permissions: no call is made that
concerns one, and the new ids that are known stay the same (`Plan.leads_restoreAll`).
-/
import TenantRestore.Proofs.Permission.Calls

namespace TenantRestore

variable {σ : Type}

/-! ## Visits -/

/-- The permissions of an item or folder are about to be restored. -/
structure Visit (σ : Type) where
  /-- Whether it is a folder of the backup, not a file. -/
  onFolder : Bool
  /-- The drive. -/
  drive : String
  /-- The id of the item or folder. -/
  item : String
  /-- Its path within the backup. -/
  path : BackupPath
  /-- Its metadata. -/
  current : Metadata
  /-- The session in which its permissions are restored. -/
  start : Session σ

/-- Restore the permissions of the item or folder that is visited. -/
def Plan.visit (plan : Plan σ) (v : Visit σ) : Except Fault Unit × Session σ :=
  (plan.restorePermissions v.drive v.item v.path v.current).run v.start

/-- The exchanges of a visit. -/
def Plan.exchanges (plan : Plan σ) (v : Visit σ) : List Exchange :=
  (plan.visit v).2.trace.drop v.start.trace.length

/-- The visit on entering the folder of a collection. -/
def Plan.folderVisits (plan : Plan σ) (c : Collection) (s : Session σ) : List (Visit σ) :=
  match c.path.drive with
  | .error _ => []
  | .ok address =>
    match plan.folderMetadata c address s.registry.metadata with
    | .error _ => []
    | .ok m =>
      match (plan.destinationFolder address).run s with
      | (.error _, _) => []
      | (.ok folder, t) =>
        if plan.options.restorePermissions && !address.isRoot then
          [⟨true, address.drive, folder, c.path, m, t⟩]
        else []

/-- The visit when the file of an entry has been uploaded. -/
def Plan.fileVisits (plan : Plan σ) (c : Collection) (address : DriveAddress) (folder : String)
    (e : Entry) (s : Session σ) : List (Visit σ) :=
  match plan.recognise c e with
  | .ok (.file file) =>
    match (plan.uploadFile address.drive folder file).run (plan.perform (.tally Tally.see) s) with
    | (.error _, _) => []
    | (.ok (id, updated), t) =>
      if plan.options.restorePermissions && plan.version.hasMetaFiles then
        match c.path.ofFile file with
        | .error _ => []
        | .ok path =>
          [⟨false, address.drive, id, path, file.metadata, plan.account c address file updated t⟩]
      else []
  | _ => []

/-- The visits while entries are taken. -/
def Plan.entryVisits (plan : Plan σ) (c : Collection) (address : DriveAddress)
    (folder : String) : List (Except Failure Entry) → Session σ → List (Visit σ)
  | [], _ => []
  | .error f :: es, s =>
    if s.goesOn then
      plan.entryVisits c address folder es (plan.perform (.note (.readingFailed c.path.text f)) s)
    else []
  | .ok e :: es, s =>
    if s.goesOn then
      plan.fileVisits c address folder e s ++
        plan.entryVisits c address folder es
          (plan.afterEntry ((plan.restoreDriveEntry c address folder e).run s))
    else []

/-- The visits while a collection is restored. -/
def Plan.collectionVisits (plan : Plan σ) (c : Collection) (s : Session σ) : List (Visit σ) :=
  if c.path.category.handler = .drive ∧ plan.remote.serves .drive then
    plan.folderVisits c s ++
      match (plan.enterFolder c).run s with
      | (.error _, _) => []
      | (.ok (address, folder), t) => plan.entryVisits c address folder c.entries t
  else []

/-- The visits while collections are restored. -/
def Plan.visits (plan : Plan σ) : List Collection → Session σ → List (Visit σ)
  | [], _ => []
  | c :: cs, s =>
    if s.goesOn then
      plan.collectionVisits c s ++
        plan.visits cs (plan.afterCollection ((plan.restoreCollection c).run s))
    else []

/-! ## From one visit to the next -/

/-- What a step that has nothing to do with permissions leaves alone. -/
structure Session.Untouched (s t : Session σ) : Prop where
  exchanges : PermissionExchanges s t []
  permissionIds : t.registry.permissionIds = s.registry.permissionIds

namespace Session.Untouched

variable {plan : Plan σ} {s t u : Session σ}

theorem refl (s : Session σ) : s.Untouched s := ⟨.refl s, rfl⟩

theorem trans (h : s.Untouched t) (h' : t.Untouched u) : s.Untouched u :=
  ⟨h.exchanges.trans h'.exchanges, h'.permissionIds.trans h.permissionIds⟩

theorem of_aside (h : s.Aside t) : s.Untouched t := ⟨h.exchanges, h.permissionIds⟩

theorem perform (h : s.Untouched t) {e : Effect} (he : e.isPermission = false) :
    s.Untouched (plan.perform e t) := by
  cases e with
  | call c =>
    rw [Effect.isPermission_call] at he
    exact h.trans ⟨.of_call he t, rfl⟩
  | permissionIds _ => cases he
  | metadata _ _ | keys _ _ | folder _ _ | container _ _ | tally _ | note _ | stop
  | countCollection => exact ⟨h.exchanges, h.permissionIds⟩

end Session.Untouched

/-- A run leads from a session to a later one through some visits, without anything that has to
do with permissions in between. -/
inductive Plan.Leads (plan : Plan σ) : Session σ → List (Visit σ) → Session σ → Prop
  /-- There is no visit. -/
  | done {s t : Session σ} (h : s.Untouched t) : Leads plan s [] t
  /-- There is a visit, and maybe others after it. -/
  | visit {s t : Session σ} {v : Visit σ} {vs : List (Visit σ)} (h : s.Untouched v.start)
      (rest : Leads plan (plan.visit v).2 vs t) : Leads plan s (v :: vs) t

namespace Plan.Leads

variable {plan : Plan σ} {s t u : Session σ} {v : Visit σ} {vs vs' : List (Visit σ)}

theorem untouched_left (h : s.Untouched t) (h' : plan.Leads t vs u) : plan.Leads s vs u := by
  cases h' with
  | done h' => exact .done (h.trans h')
  | visit h' rest => exact .visit (h.trans h') rest

theorem append (h : plan.Leads s vs t) (h' : plan.Leads t vs' u) : plan.Leads s (vs ++ vs') u := by
  induction h with
  | done hst => exact untouched_left hst h'
  | visit hst _ ih => exact .visit hst (ih h')

theorem untouched_right (h : plan.Leads s vs t) (h' : t.Untouched u) : plan.Leads s vs u := by
  simpa using h.append (.done h')

theorem single (h : s.Untouched v.start) (h' : (plan.visit v).2.Untouched t) :
    plan.Leads s [v] t :=
  .visit h (.done h')

end Plan.Leads

/-! ## The visits of a run -/

section Run

variable {plan : Plan σ}

/-- Entering the folder of a collection leads through the visit of the folder. -/
theorem Plan.leads_enterFolder (plan : Plan σ) (c : Collection) (s : Session σ) :
    plan.Leads s (plan.folderVisits c s) ((plan.enterFolder c).run s).2 := by
  unfold Plan.folderVisits
  rcases haddress : c.path.drive with e | address
  · rw [plan.enterFolder_error haddress]
    exact .done (.refl s)
  rw [plan.enterFolder_run haddress]
  dsimp only
  rcases plan.folderMetadata c address s.registry.metadata with f | m
  · exact .done (.refl s)
  have haside := plan.destinationFolder_aside address s
  dsimp only
  generalize (plan.destinationFolder address).run s = r at haside ⊢
  rcases r with ⟨f | folder, t⟩
  · exact .done (.of_aside haside)
  have hstart : s.Untouched t := .of_aside haside
  dsimp only
  unfold Plan.settleFolder
  cases plan.options.restorePermissions && !address.isRoot with
  | false => exact .done (hstart.perform (e := .metadata c.path.text m) rfl)
  | true =>
    -- after the visit its fault is noted, and the metadata remembered
    refine .single (v := ⟨true, address.drive, folder, c.path, m, t⟩) hstart ?_
    unfold Plan.visit
    dsimp only
    rcases (plan.restorePermissions address.drive folder c.path m).run t with ⟨f | ⟨⟩, u⟩
    · have hnoted : u.Untouched (plan.perform (.note f) u) :=
        (Session.Untouched.refl u).perform rfl
      exact hnoted.perform (e := .metadata c.path.text m) rfl
    · exact (Session.Untouched.refl u).perform (e := .metadata c.path.text m) rfl

/-- Restoring a file leads through the visit of the file. -/
theorem Plan.leads_restoreDriveEntry (plan : Plan σ) (c : Collection) (address : DriveAddress)
    (folder : String) (e : Entry) (s : Session σ) :
    plan.Leads s (plan.fileVisits c address folder e s)
      ((plan.restoreDriveEntry c address folder e).run s).2 := by
  rcases hentry : plan.recognise c e with f | ⟨file⟩ | ⟨path, m⟩ | _
  · unfold Plan.restoreDriveEntry Plan.fileVisits
    rw [hentry]
    exact .done (.refl s)
  · rw [Plan.restoreDriveEntry_run hentry, Plan.restoreFile_run]
    unfold Plan.fileVisits
    rw [hentry]
    have haside := plan.uploadFile_aside address.drive folder file
      (plan.perform (.tally Tally.see) s)
    dsimp only
    generalize (plan.uploadFile address.drive folder file).run
      (plan.perform (.tally Tally.see) s) = r at haside ⊢
    have hsee : s.Untouched (plan.perform (.tally Tally.see) s) :=
      (Session.Untouched.refl s).perform rfl
    rcases r with ⟨f | ⟨id, updated⟩, t⟩
    · exact .done (hsee.trans (.of_aside haside))
    have hstart : s.Untouched (plan.account c address file updated t) :=
      hsee.trans (.of_aside (haside.credit _))
    dsimp only
    split
    · rcases c.path.ofFile file with f | path
      · exact .done hstart
      · exact .single hstart (.refl _)
    · exact .done hstart
  · unfold Plan.restoreDriveEntry Plan.fileVisits
    rw [hentry]
    have hend : s.Untouched (plan.perform (.metadata path.text m) s) :=
      (Session.Untouched.refl s).perform rfl
    exact .done hend
  · unfold Plan.restoreDriveEntry Plan.fileVisits
    rw [hentry]
    exact .done (.refl s)

/-- Taking the entries of a drive collection leads through the visits of its files. -/
theorem Plan.leads_entries (plan : Plan σ) (c : Collection) (address : DriveAddress)
    (folder : String) (driesUp : Bool) (es : List (Except Failure Entry)) (s : Session σ) :
    plan.Leads s (plan.entryVisits c address folder es s)
      ((plan.forEach c.path.text driesUp (plan.restoreDriveEntry c address folder) es).run
        s).2 := by
  induction es generalizing s with
  | nil =>
    obtain ⟨stopped, hend⟩ := plan.forEach_driesUp c.path.text driesUp
      (plan.restoreDriveEntry c address folder) [] s
    rw [hend, Plan.forEach_nil_snd]
    exact .done ⟨.refl s, rfl⟩
  | cons x es ih =>
    cases hgoes : s.goesOn with
    | false =>
      rw [Plan.forEach_of_not_goesOn hgoes]
      cases x <;> simp only [Plan.entryVisits, hgoes] <;> exact .done (.refl s)
    | true =>
      cases x with
      | error f =>
        rw [Plan.forEach_error hgoes]
        simp only [Plan.entryVisits, hgoes, ↓reduceIte]
        exact Plan.Leads.untouched_left ((Session.Untouched.refl s).perform rfl) (ih _)
      | ok e =>
        have hentry := plan.leads_restoreDriveEntry c address folder e s
        have hkeeps : Restoring.Keeps (fun _ => True) (plan.restoreDriveEntry c address folder e)
            Going := Plan.restoreDriveEntry_keeps (fun _ _ _ _ => trivial) c address folder e
        rw [Plan.forEach_ok hgoes]
        simp only [Plan.entryVisits, hgoes, ↓reduceIte]
        rcases hrun : (plan.restoreDriveEntry c address folder e).run s with ⟨f | ⟨⟩, t⟩
        · -- no entry ends in being stopped, so the next one is taken
          have hf : f.isCancelled = false := (hkeeps.error hrun trivial).2
          rw [hrun] at hentry
          simp only [Plan.afterEntry, hf, Bool.false_eq_true, ↓reduceIte]
          exact (hentry.untouched_right ((Session.Untouched.refl t).perform rfl)).append (ih _)
        · rw [hrun] at hentry
          exact hentry.append (ih t)

theorem Plan.leads_restoreCollection (plan : Plan σ) (c : Collection) (s : Session σ) :
    plan.Leads s (plan.collectionVisits c s) ((plan.restoreCollection c).run s).2 := by
  unfold Plan.collectionVisits
  split
  · rename_i hdrive
    rw [Plan.restoreCollection_eq_restoreDrive hdrive.1 hdrive.2]
    have henter := plan.leads_enterFolder c s
    rcases hrun : (plan.enterFolder c).run s with ⟨f | ⟨address, folder⟩, t⟩ <;> rw [hrun] at henter
    · unfold Plan.restoreDrive
      rw [Restoring.run_bind_error hrun, List.append_nil]
      exact henter
    · rw [Plan.restoreDrive_run hrun]
      exact henter.append (plan.leads_entries c address folder c.driesUp c.entries t)
  · rename_i hother
    cases hhandler : c.path.category.handler with
    | drive =>
      have hserves : plan.remote.serves c.path.category.handler = false := by
        simpa [hhandler] using hother
      rw [Plan.restoreCollection_noHandler hserves]
      exact .done (.refl s)
    | items kind =>
      have hkeeps : Restoring.Keeps (fun t : Session σ => s.Untouched t)
          (plan.restoreCollection c) (Stopping Going) := by
        refine Plan.restoreCollection_keeps fun e t he ht => ht.perform ?_
        rw [hhandler] at he
        rcases e with (_ | _ | _) | _ | _ | _ | _ | _ | _ | _ | _ | _ <;> first | rfl | cases he
      exact .done (hkeeps.snd (.refl s))

theorem Plan.untouched_afterCollection (plan : Plan σ) (r : Except Fault Unit × Session σ) :
    r.2.Untouched (plan.afterCollection r) :=
  Plan.afterCollection_keeps (I := fun t : Session σ => r.2.Untouched t)
    (fun _ ht => ht.perform rfl) (fun _ _ ht => ht.perform rfl) r (.refl r.2)

/-- A run leads through its visits. -/
theorem Plan.leads_restoreAll (plan : Plan σ) (cs : List Collection) (s : Session σ) :
    plan.Leads s (plan.visits cs s) (plan.restoreAll cs s).2 := by
  induction cs generalizing s with
  | nil => exact .done (.refl s)
  | cons c cs ih =>
    unfold Plan.visits
    cases hgoes : s.goesOn with
    | false =>
      rw [Plan.restoreAll_of_not_goesOn hgoes]
      exact .done (.refl s)
    | true =>
      have hcollection := plan.leads_restoreCollection c s
      rw [← List.singleton_append, Plan.restoreAll_append, Plan.restoreAll_singleton hgoes]
      exact (hcollection.untouched_right (plan.untouched_afterCollection _)).append (ih _)

end Run

end TenantRestore
