/-
# Restoring permissions leaves the content alone

Whether permissions are restored, too, makes no difference to what a restore of drives stores, and
where: if whoever answers the calls about folders and files heeds only such calls, then a restore
with permissions makes the same of these calls as one without, comes as far, and hands out the same
receipts; it only may have more faults.  This is `Plan.leavesContent`.

The option to restore permissions is asked for in many places.  With it, metadata has to be
fetched and read, calls are made in between, and an entry may end in a fault after its file has
been stored.  So the sessions of both restores are related by what they have in common,
`Session.SameContent`.  All steps that deal with content keep them related if done on both sides,
and so do those that deal with permissions if done by the one restore only.
-/
import TenantRestore.Proofs.Hierarchy
import TenantRestore.Proofs.Turns
import TenantRestore.Proofs.Twins

namespace TenantRestore

variable {σ : Type}

/-! ## Content -/

/-- Whether a call concerns folders or files, and not their permissions. -/
def DriveCall.isContent (c : DriveCall) : Bool := c.isFolder || c.isFile

/-- A call, if it concerns a drive. -/
def Call.drive? : Call → Option DriveCall
  | .drive c => some c
  | _ => none

/-- Whether a call concerns the folders or files of a drive. -/
def Call.isContent (c : Call) : Bool := c.drive?.any DriveCall.isContent

/-- The calls of a trace that concern drives. -/
def driveCalls (trace : List Exchange) : List DriveCall := trace.filterMap fun x => x.call.drive?

/-- The exchanges of a trace that concern content. -/
def contentOf (trace : List Exchange) : List Exchange := trace.filter fun x => x.call.isContent

/-- The state of handlers after some calls that concern drives. -/
def Remote.told (handlers : Remote σ) (state : σ) (calls : List DriveCall) : σ :=
  calls.foldl (fun t c => (handlers.respond (.drive c) t).2) state

/-- What handlers answer to a call that concerns content depends only on the calls before it that
concern content, too. -/
def Remote.HeedsContent (handlers : Remote σ) (state : σ) : Prop :=
  ∀ (c : DriveCall) (calls calls' : List DriveCall), c.isContent →
    calls.filter DriveCall.isContent = calls'.filter DriveCall.isContent →
    (handlers.respond (.drive c) (handlers.told state calls)).1.answer =
      (handlers.respond (.drive c) (handlers.told state calls')).1.answer

/-- Handlers heed only content if permissions are none of their business. -/
theorem Remote.heedsContent_of_unmoved {handlers : Remote σ}
    (h : ∀ c t, DriveCall.isContent c = false → (handlers.respond (.drive c) t).2 = t)
    (state : σ) : handlers.HeedsContent state := by
  have hfilter (calls : List DriveCall) :
      handlers.told state calls = handlers.told state (calls.filter DriveCall.isContent) := by
    induction calls generalizing state with
    | nil => rfl
    | cons c calls ih =>
      cases hc : c.isContent with
      | true =>
        rw [List.filter_cons_of_pos hc]
        exact ih _
      | false =>
        rw [List.filter_cons_of_neg (by simp [hc]), ← ih]
        exact congrArg (fun t => handlers.told t calls) (h c state hc)
  intro c calls calls' _ hsame
  rw [hfilter calls, hfilter calls', hsame]

theorem filter_driveCalls (trace : List Exchange) :
    (driveCalls trace).filter DriveCall.isContent = driveCalls (contentOf trace) := by
  induction trace with
  | nil => rfl
  | cons x trace ih =>
    unfold driveCalls contentOf at ih ⊢
    cases hx : x.call.drive? with
    | none => simp [Call.isContent, hx, ih]
    | some c => cases hc : c.isContent <;> simp [Call.isContent, hx, hc, ih]

theorem Plan.driveCalls_ask (plan : Plan σ) (c : Call) (s : Session σ) :
    driveCalls (plan.ask c s).2.trace = driveCalls s.trace ++ c.drive?.toList := by
  change driveCalls (s.trace ++ [_]) = _
  rw [driveCalls, List.filterMap_append]
  cases hc : c.drive? <;> simp [driveCalls, hc]

theorem Plan.contentOf_ask (plan : Plan σ) (c : Call) (s : Session σ) :
    contentOf (plan.ask c s).2.trace =
      contentOf s.trace ++ if c.isContent then [⟨c, (plan.ask c s).1⟩] else [] := by
  change contentOf (s.trace ++ [⟨c, (plan.ask c s).1⟩]) = _
  rw [contentOf, List.filter_append]
  cases hc : c.isContent <;> simp [contentOf, hc]

theorem Remote.told_concat (handlers : Remote σ) (state : σ) (calls : List DriveCall)
    (c : DriveCall) :
    handlers.told state (calls ++ [c]) =
      (handlers.respond (.drive c) (handlers.told state calls)).2 :=
  List.foldl_concat ..

namespace Effect

/-- The effects of restoring content. -/
def isContent : Effect → Bool
  | call (.drive c) => c.isContent
  | call (.receipt _) => true
  | keys _ _ | folder _ _ | tally _ | note _ | stop | countCollection => true
  | _ => false

/-- The effects of restoring permissions, which may fail. -/
def isOfSharing : Effect → Bool
  | call (.drive c) => !c.isContent
  | metadata _ _ | permissionIds _ | note _ => true
  | _ => false

theorem isContent_of_isFolder {e : Effect} (h : e.isFolder) : e.isContent := by
  unfold isFolder at h
  split at h
  · simp [isContent, DriveCall.isContent, h]
  · rfl
  · cases h

theorem isContent_of_isFile {e : Effect} (h : e.isFile) : e.isContent := by
  unfold isFile at h
  split at h
  · simp [isContent, DriveCall.isContent, h]
  · rfl
  · cases h

theorem isOfSharing_of_isPermission {e : Effect} (h : e.isPermission) : e.isOfSharing := by
  unfold isPermission at h
  split at h
  · rename_i c
    cases c <;> first | rfl | cases h
  · rfl
  · cases h

end Effect

/-! ## What two restores have in common -/

/-- Two sessions have the same content.  The first one may have more faults, and more calls that
do not concern content. -/
structure Session.SameContent (handlers : Remote σ) (state : σ)
    (s s' : Session (σ × List Receipt)) : Prop where
  content : contentOf s.trace = contentOf s'.trace
  told : s.remote.1 = handlers.told state (driveCalls s.trace)
  told' : s'.remote.1 = handlers.told state (driveCalls s'.trace)
  book : s.remote.2 = s'.remote.2
  keys : s.registry.keys = s'.registry.keys
  folders : s.registry.folders = s'.registry.folders
  progress : s.progress = s'.progress
  patient : s.faults.Patient
  patient' : s'.faults.Patient
  recovered : s'.faults.recovered.Sublist s.faults.recovered

theorem Session.sameContent_refl {handlers : Remote σ} {state : σ}
    {s : Session (σ × List Receipt)} (htold : s.remote.1 = handlers.told state (driveCalls s.trace))
    (hpatient : s.faults.Patient) : s.SameContent handlers state s :=
  ⟨rfl, htold, htold, rfl, rfl, rfl, rfl, hpatient, hpatient, List.Sublist.refl _⟩

theorem Plan.recovered_note {plan : Plan σ} (hfast : plan.options.failFast = false)
    {s : Session σ} (h : s.faults.Patient) (f : Fault) :
    (plan.perform (.note f) s).faults.recovered = s.faults.recovered ++ [f] := by
  change (if plan.options.failFast then s.faults.fail f else s.faults.add f).recovered = _
  rw [hfast]
  simp [FaultLog.add, h.not_failFast, FaultLog.recover]

/-- The restore with or without the permissions. -/
def Plan.withPermissions (plan : Plan σ) (wanted : Bool) : Plan σ :=
  { plan with options.restorePermissions := wanted }

theorem Plan.perform_withPermissions (plan : Plan σ) (wanted : Bool) (e : Effect)
    (s : Session σ) : (plan.withPermissions wanted).perform e s = plan.perform e s := by
  cases e <;> rfl

section Common

variable {handlers : Remote σ} {state : σ} {plan : Plan (σ × List Receipt)}
  {s s' : Session (σ × List Receipt)}
  (hremote : plan.remote = handlers.withBook)
include hremote

/-- Handlers know of the calls that concern drives; receipts are not shown to them. -/
theorem Plan.told_ask {c : Call} (hc : ∀ kind call, c ≠ .items kind call)
    (h : s.remote.1 = handlers.told state (driveCalls s.trace)) :
    (plan.ask c s).2.remote.1 = handlers.told state (driveCalls (plan.ask c s).2.trace) := by
  rw [plan.driveCalls_ask]
  rcases c with c | ⟨kind, c⟩ | r
  · rw [(plan.ask_drive_withBook hremote c s).2, h]
    exact (handlers.told_concat state _ c).symm
  · exact absurd rfl (hc kind c)
  · rw [plan.ask_receipt_withBook hremote]
    exact h.trans (congrArg _ (List.append_nil _).symm)

/-- A call that concerns content is answered alike, as it comes after the same such calls. -/
theorem Session.SameContent.answer (h : s.SameContent handlers state s')
    (hheeds : handlers.HeedsContent state) {c : DriveCall} (hc : c.isContent) :
    (plan.ask (.drive c) s).1 = (plan.ask (.drive c) s').1 := by
  rw [(plan.ask_drive_withBook hremote c s).1, (plan.ask_drive_withBook hremote c s').1,
    h.told, h.told']
  refine hheeds c _ _ hc ?_
  rw [filter_driveCalls, filter_driveCalls, h.content]

variable (hfast : plan.options.failFast = false)
include hfast

/-- The effects of restoring content lead to sessions with the same content. -/
theorem Session.SameContent.perform (h : s.SameContent handlers state s')
    (hheeds : handlers.HeedsContent state) {e : Effect} (he : e.isContent) :
    (plan.perform e s).SameContent handlers state (plan.perform e s') := by
  have hpatient := plan.patient_perform hfast e h.patient
  have hpatient' := plan.patient_perform hfast e h.patient'
  cases e with
  | call c =>
    rcases c with c | ⟨kind, c⟩ | r
    · have hanswer := h.answer hremote hheeds (c := c) he
      refine { h with
        content := ?_
        told := plan.told_ask hremote (by simp) h.told
        told' := plan.told_ask hremote (by simp) h.told'
        book := ?_ }
      · change contentOf (plan.ask (.drive c) s).2.trace =
          contentOf (plan.ask (.drive c) s').2.trace
        rw [plan.contentOf_ask, plan.contentOf_ask, h.content, hanswer]
      · change (plan.ask (.drive c) s).2.remote.2 = (plan.ask (.drive c) s').2.remote.2
        rw [(plan.ask_drive_withBook hremote c s).2, (plan.ask_drive_withBook hremote c s').2]
        exact h.book
    · cases he
    · refine { h with
        content := ?_
        told := plan.told_ask hremote (by simp) h.told
        told' := plan.told_ask hremote (by simp) h.told'
        book := ?_ }
      · change contentOf (plan.ask (.receipt r) s).2.trace =
          contentOf (plan.ask (.receipt r) s').2.trace
        rw [plan.contentOf_ask, plan.contentOf_ask, h.content]
        rfl
      · change (plan.ask (.receipt r) s).2.remote.2 = (plan.ask (.receipt r) s').2.remote.2
        rw [plan.ask_receipt_withBook hremote, plan.ask_receipt_withBook hremote, h.book]
  | keys container ks =>
    exact { h with keys := congrArg (Table.insert · container ks) h.keys }
  | folder place id =>
    exact { h with folders := congrArg (Table.insert · place id) h.folders }
  | tally f =>
    exact { h with progress := by simp only [Plan.perform, h.progress] }
  | note f =>
    refine { h with patient := hpatient, patient' := hpatient', recovered := ?_ }
    rw [Plan.recovered_note hfast h.patient, Plan.recovered_note hfast h.patient']
    exact h.recovered.append (List.Sublist.refl _)
  | stop => exact { h with }
  | countCollection => exact { h with progress := by simp only [Plan.perform, h.progress] }
  | metadata _ _ | permissionIds _ | container _ _ => cases he

/-- The effects of restoring permissions do not change the content. -/
theorem Session.SameContent.sharing (h : s.SameContent handlers state s') {e : Effect}
    (he : e.isOfSharing) : (plan.perform e s).SameContent handlers state s' := by
  have hpatient := plan.patient_perform hfast e h.patient
  cases e with
  | call c =>
    rcases c with c | ⟨kind, c⟩ | r
    · have hc : (Call.drive c).isContent = false := by
        simpa [Effect.isOfSharing, Call.isContent, Call.drive?] using he
      refine { h with content := ?_, told := plan.told_ask hremote (by simp) h.told, book := ?_ }
      · change contentOf (plan.ask (.drive c) s).2.trace = contentOf s'.trace
        rw [plan.contentOf_ask, hc, ← h.content]
        exact List.append_nil _
      · change (plan.ask (.drive c) s).2.remote.2 = s'.remote.2
        rw [(plan.ask_drive_withBook hremote c s).2]
        exact h.book
    · cases he
    · cases he
  | metadata _ _ | permissionIds _ => exact { h with }
  | note f =>
    refine { h with patient := hpatient, recovered := ?_ }
    rw [Plan.recovered_note hfast h.patient]
    exact h.recovered.trans (List.sublist_append_left ..)
  | keys _ _ | folder _ _ | container _ _ | tally _ | stop | countCollection => cases he

end Common

/-! ## Metadata -/

/-- The metadata that is fetched at a turn if permissions are restored: that of a folder in its own
collection, and that of a file. -/
def Plan.fetchedAt (plan : Plan σ) : Turn → List (Except Fault Metadata)
  | .entering c =>
    match c.path.drive with
    | .ok address =>
      if plan.remote.serves .drive && plan.version.keepsOwnDirMeta then
        address.folders.getLast?.toList.map fun folder =>
          fetchMetadata c (plan.version.dirMetaName folder)
      else []
    | .error _ => []
  | .taking c _ e =>
    if plan.version.hasMetaFiles then
      (stem? e.name dataSuffix).toList.map fun stem => fetchMetadata c (stem ++ metaSuffix)
    else []
  | .unread _ _ | .leaving _ => []

section Metadata

variable {plan : Plan σ} {c : Collection} {address : DriveAddress} {entrance : Entrance} {e : Entry}

/-- If what is fetched can be read, then there is metadata of every folder. -/
theorem Plan.exists_folderMetadata (hread : ∀ r ∈ plan.fetchedAt (.entering c), r.isOk)
    (hserves : plan.remote.serves .drive) (hdrive : c.path.drive = .ok address)
    (known : Table String Metadata) : ∃ m, plan.folderMetadata c address known = .ok m := by
  unfold Plan.folderMetadata
  split
  · exact ⟨_, rfl⟩
  cases hfolder : address.folders.getLast? with
  | none => exact ⟨_, rfl⟩
  | some folder =>
    dsimp only
    split
    · rename_i hown
      have hok : (fetchMetadata c (plan.version.dirMetaName folder)).isOk := by
        refine hread _ ?_
        simp [Plan.fetchedAt, hdrive, hserves, hown, hfolder]
      cases hfetch : fetchMetadata c (plan.version.dirMetaName folder) with
      | ok m => exact ⟨m, rfl⟩
      | error f =>
        rw [hfetch] at hok
        cases hok
    · -- the search goes up to the root, so it finds something
      have hne : address.folders ≠ [] := by
        rintro hnil
        rw [hnil] at hfolder
        cases hfolder
      obtain ⟨root, rest, habove, hroot⟩ := BackupPath.above_of_drive hdrive hne
      rw [habove, ← List.cons_append]
      refine firstKnown_isOk known rest (fun f hf => ?_) hroot rfl
      rcases List.mem_cons.1 hf with rfl | hf
      · refine BackupPath.isBelowRoot_iff.2 ⟨address, hdrive, ?_⟩
        simpa [DriveAddress.isRoot] using hne
      · exact (BackupPath.mem_foldersAbove hf).2

/-- If what is fetched can be read, then an entry is the same file with permissions and without,
but for its metadata; or it is no file. -/
theorem Plan.recognise_withPermissions
    (hread : ∀ r ∈ plan.fetchedAt (.taking c entrance e), r.isOk) :
    (∃ file m, (plan.withPermissions true).recognise c e = .ok (.file file) ∧
        (plan.withPermissions false).recognise c e = .ok (.file { file with metadata := m })) ∨
      ((∀ file, (plan.withPermissions true).recognise c e ≠ .ok (.file file)) ∧
        (plan.withPermissions false).recognise c e = .ok .nothing) := by
  have hversion (wanted : Bool) : (plan.withPermissions wanted).version = plan.version := rfl
  have hwanted (wanted : Bool) :
      (plan.withPermissions wanted).options.restorePermissions = wanted := rfl
  unfold Plan.recognise
  simp only [hversion, hwanted]
  cases hmeta : plan.version.hasMetaFiles with
  | false => exact Or.inl ⟨_, {}, rfl, rfl⟩
  | true =>
    cases hdir : stem? e.name dirMetaSuffix with
    | some folder =>
      refine Or.inr ⟨fun file => ?_, by simp⟩
      simp only [Bool.not_true, Bool.false_eq_true, ↓reduceIte, Bool.and_true]
      split
      · split
        · exact nofun
        · split <;> exact nofun
      · exact nofun
    | none =>
      simp only [Bool.not_true, Bool.false_eq_true, ↓reduceIte]
      split
      · exact Or.inr ⟨nofun, rfl⟩
      cases hdata : stem? e.name dataSuffix with
      | none => exact Or.inr ⟨nofun, rfl⟩
      | some stem =>
        have hok : (fetchMetadata c (stem ++ metaSuffix)).isOk := by
          refine hread _ ?_
          simp [Plan.fetchedAt, hmeta, hdata]
        cases hfetch : fetchMetadata c (stem ++ metaSuffix) with
        | error f =>
          rw [hfetch] at hok
          cases hok
        | ok m =>
          refine Or.inl ?_
          unfold Plan.fileMetadata
          simp only [hversion, hwanted, hfetch]
          -- without permissions the metadata is read just if the name is found there
          cases plan.version.hasNameInMeta with
          | true => exact ⟨_, m, rfl, rfl⟩
          | false => exact ⟨_, {}, rfl, rfl⟩

end Metadata

/-! ## Steps with and without permissions -/

/-- The second of two steps ends like the first, or without its fault. -/
def Restoring.Eased (R : Session σ → Session σ → Prop) (x x' : Restoring σ Unit) : Prop :=
  ∀ s s', R s s' →
    R (x.run s).2 (x'.run s').2 ∧ ((x'.run s').1 = (x.run s).1 ∨ (x'.run s').1 = .ok ())

section Steps

variable {handlers : Remote σ} {state : σ} {plan : Plan (σ × List Receipt)}
  (hremote : plan.remote = handlers.withBook) (hfast : plan.options.failFast = false)
include hremote hfast

/-- Restoring permissions keeps a session with the same content as another one. -/
theorem Plan.upkeep_sharing (s' : Session (σ × List Receipt)) :
    Upkeep (plan.withPermissions true) (fun e => e.isOfSharing)
      (fun s => s.SameContent handlers state s') Going := by
  refine Upkeep.of_keep (fun e s he hs => ?_) fun _ _ => Fault.not_isCancelled_of_isPlain
  rw [Plan.perform_withPermissions]
  exact hs.sharing hremote hfast he

theorem Plan.restorePermissions_sharing (s' : Session (σ × List Receipt)) (drive item : String)
    (path : BackupPath) (current : Metadata) :
    Restoring.Keeps (fun s => s.SameContent handlers state s')
      ((plan.withPermissions true).restorePermissions drive item path current) Going :=
  (Plan.upkeep_sharing hremote hfast s').restorePermissions_going
    (fun _ => Effect.isOfSharing_of_isPermission) drive item path current

theorem Plan.settleFolder_sharing {s s' : Session (σ × List Receipt)}
    (hs : s.SameContent handlers state s') (path : BackupPath) (address : DriveAddress)
    (folder : String) (m : Metadata) :
    ((plan.withPermissions true).settleFolder path address folder m s).SameContent handlers state
      s' := by
  refine Plan.settleFolder_keeps (I := fun s => s.SameContent handlers state s')
    (Plan.restorePermissions_sharing hremote hfast s' address.drive folder path m)
    (fun f t ht => ?_) hs
  rw [Plan.perform_withPermissions]
  exact ht.sharing hremote hfast rfl

variable (hheeds : handlers.HeedsContent state)
include hheeds

/-- As far as content goes, a restore with permissions and one without are in tandem. -/
theorem Plan.tandem_content :
    (plan.withPermissions true).Tandem (plan.withPermissions false) (fun e => e.isContent)
      (Session.SameContent handlers state) Eq where
  location := rfl
  onCollision := rfl
  answer c s s' hc he hs := by
    rcases c with c | ⟨kind, c⟩ | r
    · exact hs.answer hremote hheeds he
    · cases he
    · exact absurd rfl (hc r)
  perform e s s' he hs := by
    rw [Plan.perform_withPermissions, Plan.perform_withPermissions]
    exact hs.perform hremote hfast hheeds he
  alike := Keys.alike_eq
  keys container ks ks' s s' hks hs := by
    subst hks
    exact { hs with keys := congrArg (Table.insert · container ks) hs.keys }

theorem Plan.enterFolder_content {c : Collection} (hserves : plan.remote.serves .drive)
    (hread : ∀ r ∈ plan.fetchedAt (.entering c), r.isOk) :
    Restoring.Twin (Session.SameContent handlers state)
      ((plan.withPermissions true).enterFolder c) ((plan.withPermissions false).enterFolder c) := by
  intro s s' hs
  cases hdrive : c.path.drive with
  | error e =>
    rw [Plan.enterFolder_error _ hdrive, Plan.enterFolder_error _ hdrive]
    exact ⟨Agree.refl _, hs⟩
  | ok address =>
    obtain ⟨m, hm⟩ := (plan.withPermissions true).exists_folderMetadata hread hserves hdrive
      s.registry.metadata
    have hm' : (plan.withPermissions false).folderMetadata c address s'.registry.metadata =
        .ok {} := rfl
    obtain ⟨r, t, t', hrun, hrun', ht⟩ :=
      ((Plan.tandem_content hremote hfast hheeds).destinationFolder
        (fun _ => Effect.isContent_of_isFolder) (fun _ _ hs => hs.folders) address).run hs
    rw [Plan.enterFolder_run _ hdrive, Plan.enterFolder_run _ hdrive, hm, hm']
    dsimp only
    rw [hrun, hrun']
    cases r with
    | error f => exact ⟨Agree.refl _, ht⟩
    | ok folder =>
      -- only one of them settles the permissions, and the metadata they remember may differ
      have hsettled := Plan.settleFolder_sharing hremote hfast ht c.path address folder m
      exact ⟨Agree.refl _, { hsettled with }⟩

theorem Plan.restoreFile_content (c : Collection) (address : DriveAddress) (folder : String)
    (file : DriveFile) (m : Metadata) :
    Restoring.Eased (Session.SameContent handlers state)
      ((plan.withPermissions true).restoreFile c address folder file)
      ((plan.withPermissions false).restoreFile c address folder { file with metadata := m }) := by
  intro s s' hs
  have htandem : (plan.withPermissions true).Tandem (plan.withPermissions false) _
    (Session.SameContent handlers state) _ := Plan.tandem_content hremote hfast hheeds
  have hseen := htandem.perform (.tally Tally.see) s s' rfl hs
  obtain ⟨r, t, t', hrun, hrun', ht⟩ := (htandem.uploadFile (fun _ => Effect.isContent_of_isFile)
    (fun _ => rfl) address.drive folder file m).run
      ⟨hseen, Session.KnowKeys.of_eq Keys.alike_eq hseen.keys folder⟩
  rw [Plan.restoreFile_run, Plan.restoreFile_run, hrun, hrun']
  rcases r with f | ⟨id, updated⟩
  · exact ⟨ht, Or.inl rfl⟩
  have haccounted (r : Receipt) := htandem.perform (.call (.receipt r)) _ _ rfl
    (htandem.perform (.tally fun n => n.succeed file.data.size) t t' rfl ht)
  dsimp only
  rw [if_neg (show ¬ ((plan.withPermissions false).options.restorePermissions && _) = true by
    simp [Plan.withPermissions])]
  refine ⟨?_, Or.inr rfl⟩
  split
  · split
    · exact haccounted _
    · exact (Plan.restorePermissions_sharing hremote hfast _ address.drive id _ file.metadata).snd
        (haccounted _)
  · exact haccounted _

theorem Plan.take_content {c : Collection} {address : DriveAddress} {folder : String} {e : Entry}
    (hread : ∀ r ∈ plan.fetchedAt (.taking c (.drive address folder) e), r.isOk) :
    Restoring.Eased (Session.SameContent handlers state)
      ((plan.withPermissions true).take c (.drive address folder) e)
      ((plan.withPermissions false).take c (.drive address folder) e) := by
  intro s s' hs
  dsimp only [Plan.take]
  rcases Plan.recognise_withPermissions hread with ⟨file, m, hfile, hfile'⟩ | ⟨hno, hnothing⟩
  · rw [Plan.restoreDriveEntry_run hfile, Plan.restoreDriveEntry_run hfile']
    exact Plan.restoreFile_content hremote hfast hheeds c address folder file m s s' hs
  · have hrun' : ((plan.withPermissions false).restoreDriveEntry c address folder e).run s' =
        (.ok (), s') := by
      unfold Plan.restoreDriveEntry
      rw [hnothing]
      rfl
    rw [hrun']
    refine ⟨?_, Or.inr rfl⟩
    unfold Plan.restoreDriveEntry
    rcases hentry : (plan.withPermissions true).recognise c e with f | ⟨file⟩ | ⟨path, m⟩ | _
    · exact hs
    · exact absurd hentry (hno file)
    · exact { hs with }
    · exact hs

/-! ## From boundary to boundary -/

theorem Plan.enter_content {c : Collection} (hhandler : c.path.category.handler = .drive)
    (hread : ∀ r ∈ plan.fetchedAt (.entering c), r.isOk) :
    Restoring.Twin (Session.SameContent handlers state) ((plan.withPermissions true).enter c)
      ((plan.withPermissions false).enter c) := by
  intro s s' hs
  cases hserves : plan.remote.serves .drive with
  | false =>
    have hserves (wanted : Bool) :
        (plan.withPermissions wanted).remote.serves c.path.category.handler = false := by
      rw [hhandler]
      exact hserves
    rw [Plan.enter_noHandler (hserves true), Plan.enter_noHandler (hserves false)]
    exact ⟨Agree.refl _, hs⟩
  | true =>
    obtain ⟨r, t, t', hrun, hrun', ht⟩ :=
      (Plan.enterFolder_content hremote hfast hheeds hserves hread).run hs
    have hserves (wanted : Bool) : (plan.withPermissions wanted).remote.serves .drive = true :=
      hserves
    rw [Plan.enter_drive hhandler (hserves true), Plan.enter_drive hhandler (hserves false), hrun,
      hrun']
    cases r with
    | error f => exact ⟨Agree.refl _, ht⟩
    | ok entered => exact ⟨Agree.refl _, ht⟩

omit hremote hfast hheeds in
/-- A collection of a drive is entered at a folder. -/
theorem Plan.exists_drive_of_enter {c : Collection} (hhandler : c.path.category.handler = .drive)
    {entrance : Entrance} {s t : Session (σ × List Receipt)}
    (h : (plan.enter c).run s = (.ok entrance, t)) :
    ∃ address folder, entrance = .drive address folder := by
  cases hserves : plan.remote.serves .drive with
  | false =>
    rw [← hhandler] at hserves
    rw [Plan.enter_noHandler hserves] at h
    cases h
  | true =>
    rw [Plan.enter_drive hhandler hserves] at h
    rcases hrun : (plan.enterFolder c).run s with ⟨f | entered, u⟩ <;> rw [hrun] at h <;> cases h
    exact ⟨entered.1, entered.2, rfl⟩

theorem Plan.afterCollection_content (r : Except Fault Unit) {s s' : Session (σ × List Receipt)}
    (hs : s.SameContent handlers state s') :
    ((plan.withPermissions true).afterCollection (r, s)).SameContent handlers state
      ((plan.withPermissions false).afterCollection (r, s')) := by
  have htandem : (plan.withPermissions true).Tandem (plan.withPermissions false) _
    (Session.SameContent handlers state) _ := Plan.tandem_content hremote hfast hheeds
  have hcount := htandem.perform .countCollection s s' rfl hs
  rcases r with f | ⟨⟩
  · dsimp only [Plan.afterCollection]
    split
    · exact hcount
    · exact htandem.perform (.note f) _ _ rfl hcount
  · exact hcount

/-- A fault is noted on both sides, or only by the restore with permissions. -/
theorem Plan.afterEntry_content {r r' : Except Fault Unit} (hr : r' = r ∨ r' = .ok ())
    {s s' : Session (σ × List Receipt)} (hs : s.SameContent handlers state s') :
    ((plan.withPermissions true).afterEntry (r, s)).SameContent handlers state
      ((plan.withPermissions false).afterEntry (r', s')) := by
  rcases r with f | ⟨⟩
  · rcases hr with rfl | rfl
    · dsimp only [Plan.afterEntry]
      split
      · exact hs
      · exact (Plan.tandem_content hremote hfast hheeds).perform (.note f) s s' rfl hs
    · dsimp only [Plan.afterEntry]
      split
      · exact hs
      · rw [Plan.perform_withPermissions]
        exact hs.sharing hremote hfast rfl
  · rcases hr with rfl | rfl <;> exact hs

end Steps

/-- Two runs have come equally far, to boundaries with the same content.  They are in no other
collection than one of a drive. -/
structure Boundary.SameContent (handlers : Remote σ) (state : σ)
    (b b' : Boundary (σ × List Receipt)) : Prop
    extends b.Twin (Session.SameContent handlers state) b' where
  inDrive : ∀ p, b.current = some p → ∃ address folder, p.entrance = .drive address folder

section Boundaries

variable {handlers : Remote σ} {state : σ} {plan : Plan (σ × List Receipt)}
  (hremote : plan.remote = handlers.withBook) (hfast : plan.options.failFast = false)
  (hheeds : handlers.HeedsContent state)
include hremote hfast hheeds

theorem Plan.begin_content {c : Collection} (hhandler : c.path.category.handler = .drive)
    (hread : ∀ r ∈ plan.fetchedAt (.entering c), r.isOk) (later : List Collection)
    {s s' : Session (σ × List Receipt)} (hs : s.SameContent handlers state s') :
    ((plan.withPermissions true).begin c later s).SameContent handlers state
      ((plan.withPermissions false).begin c later s') := by
  obtain ⟨r, t, t', hrun, hrun', ht⟩ :=
    (Plan.enter_content hremote hfast hheeds hhandler hread).run hs
  unfold Plan.begin
  rw [hrun, hrun']
  cases r with
  | error f =>
    exact ⟨⟨Plan.afterCollection_content hremote hfast hheeds (.error f) ht, rfl, rfl⟩,
      by rintro _ ⟨⟩⟩
  | ok entrance =>
    refine ⟨⟨ht, rfl, rfl⟩, ?_⟩
    rintro p ⟨⟩
    exact Plan.exists_drive_of_enter hhandler hrun

theorem Plan.pass_content {p : Passage}
    (hp : ∃ address folder, p.entrance = .drive address folder)
    (hread : ∀ r ∈ plan.fetchedAt p.turn, r.isOk) (later : List Collection)
    {s s' : Session (σ × List Receipt)} (hs : s.SameContent handlers state s') :
    ((plan.withPermissions true).pass p later s).SameContent handlers state
      ((plan.withPermissions false).pass p later s') := by
  have htandem : (plan.withPermissions true).Tandem (plan.withPermissions false) _
    (Session.SameContent handlers state) _ := Plan.tandem_content hremote hfast hheeds
  obtain ⟨c, entrance, rest⟩ := p
  obtain ⟨address, folder, hentrance⟩ := hp
  dsimp only at hentrance
  subst hentrance
  have hstill (rest : List (Except Failure Entry)) :
      ∀ p, some (⟨c, .drive address folder, rest⟩ : Passage) = some p →
        ∃ address folder, p.entrance = .drive address folder := by
    rintro p ⟨⟩
    exact ⟨address, folder, rfl⟩
  rcases rest with _ | ⟨f | e, rest⟩
  · dsimp only [Plan.pass]
    split
    · exact ⟨⟨htandem.perform .countCollection _ _ rfl (htandem.perform .stop s s' rfl hs), rfl,
        rfl⟩, by rintro _ ⟨⟩⟩
    · exact ⟨⟨htandem.perform .countCollection s s' rfl hs, rfl, rfl⟩, by rintro _ ⟨⟩⟩
  · exact ⟨⟨htandem.perform (.note _) s s' rfl hs, rfl, rfl⟩, hstill rest⟩
  · obtain ⟨ht, hr⟩ := Plan.take_content hremote hfast hheeds hread s s' hs
    exact ⟨⟨Plan.afterEntry_content hremote hfast hheeds hr ht, rfl, rfl⟩, hstill rest⟩

/-- If both runs go on, they come to boundaries with the same content again. -/
theorem Plan.advance_content {b b' : Boundary (σ × List Receipt)}
    (hb : b.SameContent handlers state b') (hgoes : b.session.goesOn) (hgoes' : b'.session.goesOn)
    (hdrive : ∀ c ∈ b.later, c.path.category.handler = .drive)
    (hread : ∀ turn, b.turn? = some turn → ∀ r ∈ plan.fetchedAt turn, r.isOk) :
    ((plan.withPermissions true).advance b).SameContent handlers state
      ((plan.withPermissions false).advance b') := by
  obtain ⟨s, current, later⟩ := b
  obtain ⟨s', current', later'⟩ := b'
  obtain ⟨⟨hs, hcurrent, hlater⟩, hin⟩ := hb
  dsimp only at hs hcurrent hlater hin hgoes hgoes' hdrive
  subst hcurrent hlater
  rw [Boundary.turn?, if_pos hgoes] at hread
  rw [Plan.advance, Plan.advance, if_pos hgoes, if_pos hgoes']
  rcases current with _ | p
  · rcases later with _ | ⟨c, later⟩
    · exact ⟨⟨hs, rfl, rfl⟩, hin⟩
    · exact Plan.begin_content hremote hfast hheeds (hdrive c (List.mem_cons_self ..))
        (hread _ rfl) later hs
  · exact Plan.pass_content hremote hfast hheeds (hin p rfl) (hread _ rfl) later hs

end Boundaries

/-! ## Runs -/

/-- A restore of the same collections with permissions and one without. -/
structure Plan.LeavesContent (plan : Plan (σ × List Receipt)) (cs : List Collection)
    (start : Session (σ × List Receipt)) : Prop where
  /-- Both are successful. -/
  results : ∀ wanted, ((plan.withPermissions wanted).run cs start).1 = .ok ()
  /-- They make the same calls that concern content, in the same order. -/
  content : contentOf ((plan.withPermissions true).run cs start).2.trace =
    contentOf ((plan.withPermissions false).run cs start).2.trace
  /-- They come equally far. -/
  progress : ((plan.withPermissions true).run cs start).2.progress =
    ((plan.withPermissions false).run cs start).2.progress
  /-- They hand out the same receipts. -/
  receipts : ((plan.withPermissions true).run cs start).2.remote.2 =
    ((plan.withPermissions false).run cs start).2.remote.2
  /-- The faults of the one without are among those of the other, in the same order. -/
  faults : ((plan.withPermissions false).run cs start).2.faults.recovered.Sublist
    ((plan.withPermissions true).run cs start).2.faults.recovered

section Runs

variable {handlers : Remote σ} {state : σ} {plan : Plan (σ × List Receipt)} {cs : List Collection}
  {start : Session (σ × List Receipt)}

/-- Both runs have the same content at every boundary. -/
theorem Plan.boundary_content (hremote : plan.remote = handlers.withBook)
    (hheeds : handlers.HeedsContent state)
    (hdrive : ∀ c ∈ cs, c.path.category.handler = .drive)
    (htold : start.remote.1 = handlers.told state (driveCalls start.trace))
    (hruns : ∀ wanted, (plan.withPermissions wanted).Uninterrupted cs start)
    (hread : ∀ step ∈ (plan.withPermissions true).course cs start,
      ∀ r ∈ plan.fetchedAt step.2, r.isOk) (n : Nat) :
    ((plan.withPermissions true).boundary cs start n).SameContent handlers state
      ((plan.withPermissions false).boundary cs start n) := by
  induction n with
  | zero =>
    rw [Plan.boundary_zero, Plan.boundary_zero]
    exact ⟨⟨Session.sameContent_refl htold (hruns true).patient, rfl, rfl⟩, by rintro _ ⟨⟩⟩
  | succ n ih =>
    rw [Plan.boundary_succ, Plan.boundary_succ]
    refine Plan.advance_content hremote (hruns true).not_failFast hheeds ih
      ((hruns true).goesOn_boundary n) ((hruns false).goesOn_boundary n) (fun c hc => ?_)
      fun turn hturn => hread _ (Plan.mem_course hturn)
    exact hdrive c ((Plan.mem_of_boundary _ cs start n).1 c hc)

/-- Restoring permissions leaves the content alone, as far as all metadata can be read. -/
theorem Plan.leavesContent {log : FaultLog} (hremote : plan.remote = handlers.withBook)
    (hheeds : handlers.HeedsContent state)
    (hdrive : ∀ c ∈ cs, c.path.category.handler = .drive)
    (hstart : start = Session.start plan log false (state, []))
    (hruns : ∀ wanted, (plan.withPermissions wanted).Uninterrupted cs start)
    (hread : ∀ step ∈ (plan.withPermissions true).course cs start,
      ∀ r ∈ plan.fetchedAt step.2, r.isOk) : plan.LeavesContent cs start := by
  have htold : start.remote.1 = handlers.told state (driveCalls start.trace) := by
    rw [hstart]
    rfl
  obtain ⟨n, hover⟩ := (plan.withPermissions true).exists_over cs start
  have hlast := Plan.boundary_content hremote hheeds hdrive htold hruns hread n
  have hdone := (hruns true).exhausted hover
  have hover' : ((plan.withPermissions false).boundary cs start n).over :=
    Or.inr ⟨hlast.current ▸ hdone.1, hlast.later ▸ hdone.2⟩
  have hrun := (hruns true).run_eq hover
  have hrun' := (hruns false).run_eq hover'
  refine ⟨?_, ?_, ?_, ?_, ?_⟩
  · rintro (_ | _)
    · rw [hrun']
    · rw [hrun]
  all_goals rw [hrun, hrun']
  · exact hlast.session.content
  · exact hlast.session.progress
  · exact hlast.session.book
  · exact hlast.session.recovered

end Runs

/-! ## A drive that refuses permissions -/

/-- A drive that numbers its folders and files, and refuses all permissions. -/
def refusingDrive : Remote Nat where
  serves h := h = .drive
  respond
    | .drive (.rootFolder _), n => (⟨.ok ⟨"root", "root", none⟩, false⟩, n)
    | .drive (.findFolder _ _ _), n => (⟨.ok none, false⟩, n)
    | .drive (.createFolder _ parent name), n =>
      (⟨.ok ⟨Progress.count n, name, some parent⟩, false⟩, n + 1)
    | .drive (.listKeys _ _), n => (⟨.ok Table.empty, false⟩, n)
    | .drive (.upload _ _ _ _ _), n => (⟨.ok (Progress.count n), false⟩, n + 1)
    | .drive (.delete _ _), n => (⟨.ok (), false⟩, n)
    | .drive (.rename _ _ _), n => (⟨.ok (), false⟩, n)
    | .drive (.grant _ _ _), n => (⟨.error (.because "refused"), false⟩, n)
    | .drive (.revoke _ _ _), n => (⟨.error (.because "refused"), false⟩, n)
    | .items _ _, n => (⟨.error (.because "no items"), false⟩, n)
    | .receipt _, n => (⟨.ok (), false⟩, n)

theorem refusingDrive_heedsContent (n : Nat) : refusingDrive.HeedsContent n := by
  refine Remote.heedsContent_of_unmoved (fun c t hc => ?_) n
  cases c <;> first | rfl | cases hc

/-- A folder that is shared with Ann, and a file in it that is shared with Bob instead. -/
def sharedFile : List Collection :=
  let shared (name user : String) := ("\x7b\"filename\":\"" ++ name ++
    "\",\"permissions\":[\x7b\"id\":\"" ++ user ++ "\",\"role\":[\"read\"],\"entityId\":\"" ++
    user ++ "\"\x7d]\x7d").toUTF8
  [.ofEntries ⟨"tenant", .onedrive, "user", .files, ["drives", "drive", "root:", "folder"]⟩
    [.ok ⟨".dirmeta", shared "folder" "ann"⟩, .ok ⟨"x.meta", shared "letter" "bob"⟩,
      .ok ⟨"x.data", "abc".toUTF8⟩]]

theorem sort_sharedFile : Collection.sort sharedFile = sharedFile :=
  Collection.sort_of_pairwise (by decide +kernel)

/-- Restore to a drive that refuses permissions. -/
def restoreRefused : Plan (Nat × List Receipt) where
  options := {}
  version := FormatVersion.current
  remote := refusingDrive.withBook

theorem restoreRefused_uninterrupted (wanted : Bool) :
    (restoreRefused.withPermissions wanted).Uninterrupted sharedFile
      (Session.start restoreRefused {} false (0, [])) where
  not_failFast := rfl
  patient := ⟨rfl, rfl⟩
  not_stopped := by
    rw [Plan.run_eq, sort_sharedFile]
    cases wanted <;> decide +kernel

/-- The file is stored in either case; with permissions there are two faults more. -/
theorem sharedFile_leavesContent :
    let start := Session.start restoreRefused {} false (0, [])
    restoreRefused.LeavesContent sharedFile start ∧
      ((restoreRefused.withPermissions true).run sharedFile start).2.progress.tally.successes = 1 ∧
      ((restoreRefused.withPermissions true).run sharedFile start).2.faults.recovered.length = 2 ∧
      ((restoreRefused.withPermissions false).run sharedFile start).2.faults.recovered = [] := by
  intro start
  have hread : ∀ step ∈ (restoreRefused.withPermissions true).course sharedFile start,
      ∀ r ∈ restoreRefused.fetchedAt step.2, r.isOk := by
    simp only [start, Plan.course, Plan.courseUntil, Plan.boundary, sort_sharedFile]
    decide +kernel
  have hleaves := Plan.leavesContent rfl (refusingDrive_heedsContent 0) (by decide) rfl
    restoreRefused_uninterrupted hread
  refine ⟨hleaves, ?_⟩
  simp only [start, Plan.run_eq, sort_sharedFile]
  decide +kernel

end TenantRestore
