/-
# What a drive collection uploads

Which entries of a drive collection are files, and by which names, is told by the version of the
format and by the entries alone, `Plan.files`.  They are uploaded as they are and in their order,
each of them once.  Only if existing files are kept are those left out whose names are taken,
`sift`: a name is taken if the folder has been listed with it, or once a file of the name has been
stored there.

One entry uploads nothing but its file, and is told from others by its name and its metadata.  From
there on it is an induction over the entries, with what is uploaded for them as `Plan.Uploads`.
-/
import TenantRestore.Proofs.Seen
import TenantRestore.Proofs.Uploads.Folder

namespace TenantRestore

variable {σ : Type} {plan : Plan σ}

/-! ## Files -/

/-- The files among the entries of a drive collection, with their names and contents. -/
def Plan.files (plan : Plan σ) (c : Collection) (es : List (Except Failure Entry)) :
    List (String × ByteArray) :=
  es.filterMap fun x =>
    x.toOption.bind fun e => (plan.fileName? c e).map fun name => (name, e.data)

/-- Leave files out whose names are taken, if that is wanted.  The name of a file that is not left
out is taken from then on if storing it succeeds. -/
def sift (wanted : Bool) (taken : String → Bool) :
    List (String × ByteArray) → List Bool → List (String × ByteArray)
  | [], _ => []
  | f :: fs, stored =>
    if wanted && taken f.1 then sift wanted taken fs stored
    else
      f :: sift wanted (fun name => taken name || (stored.headD false && f.1 = name)) fs stored.tail

/-- The files that are left are in their order, each of them once. -/
theorem sift_sublist (wanted : Bool) (taken : String → Bool) (fs : List (String × ByteArray))
    (stored : List Bool) : (sift wanted taken fs stored).Sublist fs := by
  induction fs generalizing taken stored with
  | nil => exact .refl _
  | cons f fs ih =>
    unfold sift
    split
    · exact (ih _ _).cons _
    · exact (ih _ _).cons_cons _

/-- No file is left out unless that is wanted. -/
theorem sift_false (taken : String → Bool) (fs : List (String × ByteArray)) (stored : List Bool) :
    sift false taken fs stored = fs := by
  induction fs generalizing taken stored with
  | nil => rfl
  | cons f fs ih => simp [sift, ih]

/-! ## One entry -/

theorem Plan.restoreDriveEntry_sparesKeys {c : Collection} {e : Entry}
    (h : plan.fileName? c e = none) (address : DriveAddress) (folder : String) (s : Session σ) :
    s.SparesKeys ((plan.restoreDriveEntry c address folder e).run s).2 := by
  rcases Plan.restoreDriveEntry_aside (Plan.recognise_ne_file h) address folder s with
    heq | ⟨text, m, heq⟩ <;> rw [heq]
  · exact .refl s
  · exact (Session.SparesKeys.refl s).perform plan (e := .metadata text m) rfl

theorem Plan.restoreDriveEntry_filing {c : Collection} {e : Entry} {name : String}
    (h : plan.fileName? c e = some name) (address : DriveAddress) (folder : String)
    (s : Session σ) :
    ∃ m, Filing plan c address folder ⟨e.name, name, m, e.data⟩ s
      ((plan.restoreDriveEntry c address folder e).run s).2 := by
  obtain ⟨m, hr⟩ := Plan.recognise_of_fileName? h
  exact ⟨m, Plan.restoreDriveEntry_files hr address folder s⟩

theorem Plan.restoreDriveEntry_keyed (plan : Plan σ) (c : Collection) (address : DriveAddress)
    (folder : String) (e : Entry) :
    Restoring.Keeps Session.Keyed (plan.restoreDriveEntry c address folder e) Going := by
  have hkeyed (s : Session σ) (hs : s.Keyed) :
      ((plan.restoreDriveEntry c address folder e).run s).2.Keyed := by
    rcases hname : plan.fileName? c e with _ | name
    · exact (Plan.restoreDriveEntry_sparesKeys hname address folder s).keyed hs
    · obtain ⟨m, hfiling⟩ := Plan.restoreDriveEntry_filing hname address folder s
      exact hfiling.keyed hs
  have hfault : Restoring.Keeps (fun _ => True) (plan.take c (.drive address folder) e) Going :=
    upkeep_trivial.take_going (tolerates_going fun _ => trivial) (fun _ _ _ => trivial) c e
  refine .of_ensures (fun s hs => ?_) hfault
  have hend := hkeyed s hs
  rcases hr : (plan.restoreDriveEntry c address folder e).run s with ⟨_ | _, t⟩ <;>
    rw [hr] at hend <;> exact hend

/-! ## One entry after the other -/

/-- The call by which a file is uploaded to a folder. -/
def Plan.uploadOf (plan : Plan σ) (drive folder : String) (f : String × ByteArray) : Call :=
  .drive (.upload drive folder f.1 f.2 plan.options.onCollision)

/-- From a session to another one just those of some files are uploaded that are not to be left
out. -/
structure Plan.Uploads (plan : Plan σ) (drive folder : String) (fs : List (String × ByteArray))
    (s t : Session σ) : Prop where
  before : s.trace <+: t.trace
  lists : s.registry.keys.contains folder → ∀ name,
    t.trace.any (Exchange.lists folder name) = s.trace.any (Exchange.lists folder name)
  calls : (uploads (s.since t)).map Exchange.call =
    (sift (plan.options.onCollision = .skip)
      (fun name => t.trace.any (Exchange.lists folder name) ||
        s.trace.any (Exchange.stores folder name))
      fs ((uploads (s.since t)).map Exchange.succeeds)).map (plan.uploadOf drive folder)

namespace Plan.Uploads

variable {drive folder : String} {fs : List (String × ByteArray)} {s t u : Session σ}

theorem nil (h : s.SparesKeys t) : plan.Uploads drive folder [] s t where
  before := h.before
  lists _ := h.any_lists folder
  calls := by simp [h.uploads_eq, sift]

theorem after (h : s.SparesKeys t) (h' : plan.Uploads drive folder fs t u) :
    plan.Uploads drive folder fs s u where
  before := h.before.trans h'.before
  lists hknown name := by
    rw [h'.lists (by rwa [h.keys]), h.any_lists]
  calls := by
    have hsince : uploads (s.since u) = uploads (t.since u) := by
      simp [Session.since_trans h.before h'.before, h.uploads_eq]
    simp only [hsince, h'.calls, h.any_stores]

theorem spares (h : plan.Uploads drive folder fs s t) (h' : t.SparesKeys u) :
    plan.Uploads drive folder fs s u where
  before := h.before.trans h'.before
  lists hknown name := by rw [h'.any_lists, h.lists hknown]
  calls := by
    have hsince : uploads (s.since u) = uploads (s.since t) := by
      simp [Session.since_trans h.before h'.before, h'.uploads_eq]
    simp only [hsince, h.calls, h'.any_lists]

/-- A file comes before the others. -/
theorem cons {file : DriveFile}
    (h : Sifts plan.options.onCollision drive folder file s t)
    (h' : plan.Uploads drive folder fs t u) :
    plan.Uploads drive folder ((file.name, file.data) :: fs) s u where
  before := h.before.trans h'.before
  lists hknown name := by rw [h'.lists h.known, h.lists hknown]
  calls := by
    have huploads := h.uploads
    -- the folder is not listed again after the first file, so the same names are taken for it
    simp only [← h'.lists h.known] at huploads
    have hsince : uploads (s.since u) = uploads (s.since t) ++ uploads (t.since u) := by
      simp [Session.since_trans h.before h'.before]
    rcases huploads with ⟨hskip, htaken, hnone, hstores⟩ | ⟨hnew, x, hone, hcall, hstores⟩
    · rw [hsince, hnone, List.nil_append, sift, if_pos (by simp [hskip, htaken]), h'.calls]
      simp only [hstores]
    · rw [hsince, hone, List.singleton_append, List.map_cons, List.map_cons, sift,
        if_neg (by simpa using hnew), List.map_cons, hcall, h'.calls]
      simp only [hstores, List.headD_cons, List.tail_cons, Bool.or_assoc]
      rfl

end Plan.Uploads

section Entries

variable {c : Collection} {address : DriveAddress} {folder : String} {s : Session σ}

/-- An entry that is taken leads to uploading its file, if it is one. -/
theorem Plan.Uploads.entry {e : Entry} {es : List (Except Failure Entry)} {t u : Session σ}
    (hs : s.Keyed) (ht : t = plan.afterEntry ((plan.restoreDriveEntry c address folder e).run s))
    (hlisted : ∀ x ∈ t.trace, x.call.isListing → x.succeeds)
    (h : plan.Uploads address.drive folder (plan.files c es) t u) :
    plan.Uploads address.drive folder (plan.files c (.ok e :: es)) s u := by
  have hnoted : ((plan.restoreDriveEntry c address folder e).run s).2.SparesKeys t := by
    rw [ht]
    exact Plan.afterEntry_keeps (fun f _ h => h.perform plan (e := .note f) rfl) _ (.refl _)
  rcases hname : plan.fileName? c e with _ | name
  · have hfiles : plan.files c (.ok e :: es) = plan.files c es := by
      simp [Plan.files, Except.toOption, hname]
    rw [hfiles]
    exact .after (Plan.restoreDriveEntry_sparesKeys hname address folder s) (.after hnoted h)
  · have hfiles : plan.files c (.ok e :: es) = (name, e.data) :: plan.files c es := by
      simp [Plan.files, Except.toOption, hname]
    obtain ⟨m, hfiling⟩ := Plan.restoreDriveEntry_filing hname address folder s
    rw [hfiles]
    refine .cons (hfiling.sifts hs fun x hx => hlisted x ?_) (.after hnoted h)
    exact hnoted.before.subset hx

/-- A collection that is not interrupted uploads those of its files that are not to be left out. -/
theorem Plan.forEach_uploads (plan : Plan σ) (hfast : plan.options.failFast = false)
    {path : String} {driesUp : Bool} {es : List (Except Failure Entry)} (hs : s.Keyed)
    (hpatient : s.faults.Patient)
    (hstopped : ((plan.forEach path driesUp (plan.restoreDriveEntry c address folder) es).run
      s).2.stopped = false)
    (hlisted : ∀ x ∈ ((plan.forEach path driesUp (plan.restoreDriveEntry c address folder) es).run
      s).2.trace, x.call.isListing → x.succeeds) :
    plan.Uploads address.drive folder (plan.files c es) s
      ((plan.forEach path driesUp (plan.restoreDriveEntry c address folder) es).run s).2 := by
  have hbefore (es : List (Except Failure Entry)) (s : Session σ) :=
    plan.before_forEach (plan.before_restoreDriveEntry c address folder) path driesUp es s
  induction es generalizing s with
  | nil =>
    obtain ⟨stopped, hend⟩ := plan.forEach_driesUp path driesUp
      (plan.restoreDriveEntry c address folder) [] s
    rw [hend, Plan.forEach_nil_snd]
    exact .nil ⟨rfl, [], (List.append_nil _).symm, .nil⟩
  | cons x es ih =>
    -- a session that was stopped would be so at the end
    have hgoes : s.goesOn := by
      refine Session.goesOn_iff.2 ⟨?_, by simp [FaultLog.hasFailed, hpatient.not_failed]⟩
      have hstays := (hbefore (x :: es) s).stopped
      simpa [hstopped] using hstays
    cases x with
    | error f =>
      have hnoted : s.SparesKeys (plan.perform (.note (.readingFailed path f)) s) :=
        (Session.SparesKeys.refl s).perform plan (e := .note _) rfl
      rw [Plan.forEach_error hgoes] at hstopped hlisted ⊢
      exact .after hnoted
        (ih (hnoted.keyed hs) (plan.patient_perform hfast _ hpatient) hstopped hlisted)
    | ok e =>
      have hrest : ((plan.forEach path driesUp (plan.restoreDriveEntry c address folder)
          (.ok e :: es)).run s).2 =
          ((plan.forEach path driesUp (plan.restoreDriveEntry c address folder) es).run
            (plan.afterEntry ((plan.restoreDriveEntry c address folder e).run s))).2 := by
        rw [Plan.forEach_ok hgoes]
        rcases hr : (plan.restoreDriveEntry c address folder e).run s with ⟨f | ⟨⟩, t⟩
        · -- the fault of an entry is no cancellation, so it is noted and the next one is taken
          have htaken : (plan.take c (.drive address folder) e).run s = (.error f, t) := hr
          have hgoing := Plan.not_isCancelled_of_take htaken
          simp [Plan.afterEntry, hgoing]
        · rfl
      have hkeyed : (plan.afterEntry ((plan.restoreDriveEntry c address folder e).run s)).Keyed :=
        Plan.afterEntry_keeps (fun f t ht => upkeep_keyed.keep (.note f) t rfl ht) _
          ((plan.restoreDriveEntry_keyed c address folder e).snd hs)
      have hstill :
          (plan.afterEntry ((plan.restoreDriveEntry c address folder e).run s)).faults.Patient :=
        Plan.afterEntry_keeps (I := fun t => t.faults.Patient)
          (fun f _ ht => plan.patient_perform hfast (.note f) ht) _
          ((Plan.restoreDriveEntry_keeps (I := fun t => t.faults.Patient)
            (fun e _ _ ht => plan.patient_perform hfast e ht) c address folder e).snd hpatient)
      rw [hrest] at hstopped hlisted ⊢
      refine .entry hs rfl (fun x hx => hlisted x ?_) (ih hkeyed hstill hstopped hlisted)
      exact (hbefore es _).trace.subset hx

end Entries

/-! ## One collection after the other -/

/-- Entering a collection uploads nothing, and teaches nothing of any keys. -/
theorem Plan.enter_sparesKeys (plan : Plan σ) (c : Collection) (s : Session σ) :
    s.SparesKeys ((plan.enter c).run s).2 := by
  have hkeeps : Restoring.Keeps s.SparesKeys (plan.enter c) Going :=
    (upkeep_sparesKeys s).enter tolerates_leavesKeys (fun _ => Effect.leavesKeys_of_isToward)
      fun _ _ drive id m => (upkeep_sparesKeys s).restorePermissions_going
        (fun _ he => Effect.leavesKeys_of (.inr (.inl he))) drive id c.path m
  exact hkeeps.snd (.refl s)

theorem Session.keyed_start (plan : Plan σ) (log : FaultLog) (stopped : Bool) (remote : σ) :
    (Session.start plan log stopped remote).Keyed := fun _ _ => rfl

theorem Session.SparesKeys.afterCollection (plan : Plan σ) {s : Session σ}
    {r : Except Fault Unit × Session σ} (h : s.SparesKeys r.2) :
    s.SparesKeys (plan.afterCollection r) :=
  Plan.afterCollection_keeps (fun _ h => h.perform plan (e := .countCollection) rfl)
    (fun f _ h => h.perform plan (e := .note f) rfl) r h

/-- The entries of a collection go to a place of its handler. -/
theorem Plan.handler_of_enter {c : Collection} {s t : Session σ} {entrance : Entrance}
    (h : (plan.enter c).run s = (.ok entrance, t)) :
    entrance.handler = c.path.category.handler := by
  cases hserves : plan.remote.serves c.path.category.handler with
  | false =>
    rw [Plan.enter_noHandler hserves] at h
    cases h
  | true =>
    cases hhandler : c.path.category.handler with
    | drive =>
      rw [hhandler] at hserves
      rw [Plan.enter_drive hhandler hserves] at h
      split at h <;> cases h
      rfl
    | items kind =>
      rw [hhandler] at hserves
      rw [Plan.enter_items hhandler hserves] at h
      split at h <;> cases h
      rfl

/-- Between drive collections the restore knows what it has to know of every folder. -/
theorem Plan.restoreAll_keyed (plan : Plan σ) {cs : List Collection}
    (hdrive : ∀ c ∈ cs, c.path.category.handler = .drive) :
    Steps.Keeps Session.Keyed (plan.restoreAll cs) fun _ _ => True := by
  refine upkeep_keyed.restoreAll tolerates_leavesKeys rfl fun c hc => ?_
  refine Upkeep.restoreCollection tolerates_leavesKeys (fun _ => ?_) fun kind hkind => ?_
  · have henter : Restoring.Keeps Session.Keyed (plan.enterFolder c) Going :=
      upkeep_keyed.enterFolder tolerates_leavesKeys
        (fun _ he => Effect.leavesKeys_of (.inl he)) (fun _ => rfl)
        fun _ drive id m => upkeep_keyed.restorePermissions_going
          (fun _ he => Effect.leavesKeys_of (.inr (.inl he))) drive id c.path m
    exact upkeep_keyed.restoreDrive tolerates_leavesKeys rfl henter
      fun address folder e _ => plan.restoreDriveEntry_keyed c address folder e
  · rw [hdrive c hc] at hkind
    cases hkind

/-- The uploads on behalf of a drive collection, where some names are taken already. -/
structure Plan.UploadsFiles (plan : Plan σ) (c : Collection) (drive folder : String)
    (taken : String → Bool) (made : List Exchange) : Prop where
  /-- They are those of all files that are not left out, under their names and as they are. -/
  calls : made.map Exchange.call =
    (sift (plan.options.onCollision = .skip) taken (plan.files c c.entries)
      (made.map Exchange.succeeds)).map (plan.uploadOf drive folder)
  /-- No file is left out unless existing files are kept. -/
  all : plan.options.onCollision ≠ .skip →
    made.map Exchange.call = (plan.files c c.entries).map (plan.uploadOf drive folder)
  /-- Files are uploaded in their order, and none of them twice. -/
  once : (made.map Exchange.call).Sublist
    ((plan.files c c.entries).map (plan.uploadOf drive folder))
  /-- Since version 1 nothing is uploaded but the data of entries with the ending of a content. -/
  contents : plan.version ≠ 0 → ∀ x ∈ made, ∃ e stem name, .ok e ∈ c.entries ∧
    e.name = stem ++ dataSuffix ∧ x.call = plan.uploadOf drive folder (name, e.data)

theorem Plan.UploadsFiles.of_calls {c : Collection} {drive folder : String}
    {taken : String → Bool} {made : List Exchange}
    (h : made.map Exchange.call =
      (sift (plan.options.onCollision = .skip) taken (plan.files c c.entries)
        (made.map Exchange.succeeds)).map (plan.uploadOf drive folder)) :
    plan.UploadsFiles c drive folder taken made := by
  have honce : (made.map Exchange.call).Sublist
      ((plan.files c c.entries).map (plan.uploadOf drive folder)) := by
    rw [h]
    exact (sift_sublist ..).map _
  refine ⟨h, fun hpolicy => ?_, honce, fun hversion x hx => ?_⟩
  · rw [h, decide_eq_false hpolicy, sift_false]
  · obtain ⟨f, hf, hcall⟩ := List.mem_map.1 (honce.subset (List.mem_map_of_mem hx))
    obtain ⟨r, hr, hfile⟩ := List.mem_filterMap.1 hf
    obtain ⟨e, he, hname⟩ := Option.bind_eq_some_iff.1 hfile
    obtain ⟨name, hname, rfl⟩ := Option.map_eq_some_iff.1 hname
    rcases hstem : stem? e.name dataSuffix with _ | stem
    · simp [fileName?, hversion, hstem] at hname
    · refine ⟨e, stem, name, ?_, stem?_eq_some_iff.1 hstem, hcall.symm⟩
      rcases r with _ | _ <;> cases he
      exact hr

section Run

variable {cs pre post : List Collection} {c : Collection} {log : FaultLog} {stopped : Bool}
  {remote : σ}

/-- A drive collection uploads its files in their order, each of them once and as it is.  If
existing files are kept, those are left out whose names the folder has been listed with, and those
whose names other files have been stored under before. -/
theorem Plan.uploads_files (plan : Plan σ)
    (hrun : plan.Uninterrupted cs (.start plan log stopped remote))
    (hdrive : ∀ c ∈ cs, c.path.category.handler = .drive)
    (hlisted : ∀ x ∈ (plan.run cs (.start plan log stopped remote)).2.trace,
      x.call.isListing → x.succeeds)
    (hsort : Collection.sort cs = pre ++ c :: post) :
    let s := (plan.restoreAll pre (.start plan log stopped remote)).2
    let t := (plan.restoreAll (pre ++ [c]) (.start plan log stopped remote)).2
    match ((plan.enter c).run s).1 with
    | .ok (.drive address folder) =>
      plan.UploadsFiles c address.drive folder
        (fun name => t.trace.any (Exchange.lists folder name) ||
          s.trace.any (Exchange.stores folder name)) (uploads (s.since t))
    | _ => uploads (s.since t) = [] := by
  intro s t
  have hs : s.Keyed := by
    have hbefore : ∀ c' ∈ pre, c'.path.category.handler = .drive := by
      intro c' hc'
      have hmem : c' ∈ Collection.sort cs := by simp [hsort, hc']
      exact hdrive c' (List.mem_mergeSort.1 hmem)
    exact (plan.restoreAll_keyed hbefore _ (Session.keyed_start plan log stopped remote)).1
  have ht : t = plan.afterCollection ((plan.restoreCollection c).run s) := by
    simp only [t, s]
    rw [Plan.restoreAll_append, Plan.restoreAll_singleton (hrun.goesOn hsort)]
  have hpost : Collection.sort cs = (pre ++ [c]) ++ post := by rw [hsort, List.append_assoc]; rfl
  have hend : t.Before (plan.restoreAll (Collection.sort cs) (.start plan log stopped remote)).2 :=
    Plan.Uninterrupted.before_end plan _ hpost
  have hunstopped := hrun.not_stopped
  rw [Plan.run_eq, conclude_stopped] at hunstopped
  rw [Plan.run_eq, conclude_trace] at hlisted
  have hentered := plan.enter_sparesKeys c s
  have hpatient : ((plan.enter c).run s).2.faults.Patient := by
    have hupkeep : Upkeep plan (fun _ => True) (fun t => t.faults.Patient) Going :=
      Upkeep.of_keep (fun e t _ => hrun.keeps_patient e t)
        fun _ _ => Fault.not_isCancelled_of_isPlain
    exact (hupkeep.enter_going (tolerates_going fun _ => trivial) fun _ _ _ => trivial).snd
      (hrun.patient_restoreAll pre)
  rw [Plan.restoreCollection_run] at ht
  rcases henter : (plan.enter c).run s with ⟨f | ⟨address, folder⟩ | ⟨kind, container⟩, u⟩ <;>
    rw [henter] at ht hentered hpatient <;> dsimp only
  · have hspares : s.SparesKeys t := ht ▸ Session.SparesKeys.afterCollection plan hentered
    exact hspares.uploads_eq
  · let act := plan.restoreDriveEntry c address folder
    let w := ((plan.forEach c.path.text c.driesUp act c.entries).run u).2
    have hw : w.SparesKeys t := ht ▸ Session.SparesKeys.afterCollection plan (.refl w)
    have hwend : w.Before _ := (ht ▸ plan.before_afterCollection _ : w.Before t).trans hend
    have hstopped : w.stopped = false := by
      have hstays := hwend.stopped
      simpa [hunstopped] using hstays
    have huploads : plan.Uploads address.drive folder (plan.files c c.entries) u w :=
      plan.forEach_uploads hrun.not_failFast (hentered.keyed hs) hpatient hstopped
        fun x hx => hlisted x (hwend.trace.subset hx)
    exact .of_calls ((huploads.spares hw).after hentered).calls
  · have hhandler := Plan.handler_of_enter henter
    have hmem : c ∈ Collection.sort cs := by simp [hsort]
    rw [hdrive c (List.mem_mergeSort.1 hmem)] at hhandler
    cases hhandler

end Run

/-- A drive that has a file `b.txt` already. -/
def partlyRestored : Rehearsal where
  drive := some (({ drive := "drive" } : DriveStore).addFile "b.txt" .empty).2

/-- Restore a backup of version 3, keeping existing files. -/
def completing : Plan Rehearsal where
  options := {}
  version := 3
  remote := partlyRestored.remote

/-- Two files with metadata of one of them, metadata of a folder, an entry that can't be read, and
one that is nothing. -/
def mixedEntries : Collection :=
  .ofEntries ⟨"tenant", .onedrive, "user", .files, ["drives", "drive", "root:"]⟩
    [.ok ⟨"a.txt.data", ⟨#[1]⟩⟩, .ok ⟨"a.txt.meta", .empty⟩, .error (.because "unreadable"),
      .ok ⟨"sub.dirmeta", .empty⟩, .ok ⟨"b.txt.data", ⟨#[2]⟩⟩, .ok ⟨"notes.txt", ⟨#[3]⟩⟩]

/-- Only the file that is not there yet is uploaded. -/
theorem uploads_mixedEntries :
    let start := Session.start completing {} false partlyRestored
    let s := (completing.restoreAll [] start).2
    let t := (completing.restoreAll [mixedEntries] start).2
    completing.UploadsFiles mixedEntries "drive" "root"
      (fun name => t.trace.any (Exchange.lists "root" name) ||
        s.trace.any (Exchange.stores "root" name)) (uploads (s.since t)) ∧
    t.trace.any (Exchange.stores "root" "a.txt") ∧
    t.trace.any (Exchange.stores "root" "b.txt") = false := by
  have hsort : Collection.sort [mixedEntries] = [] ++ mixedEntries :: [] :=
    Collection.sort_of_pairwise (by decide +kernel)
  have hended : completing.run [mixedEntries] (Session.start completing {} false partlyRestored) =
      conclude (completing.restoreAll [mixedEntries]
        (Session.start completing {} false partlyRestored)).2 := by
    rw [Plan.run_eq, hsort, List.nil_append]
  have hrun : completing.Uninterrupted [mixedEntries]
      (Session.start completing {} false partlyRestored) := by
    refine ⟨rfl, ⟨rfl, rfl⟩, ?_⟩
    rw [hended]
    decide +kernel
  have hlisted : ∀ x ∈ (completing.run [mixedEntries]
      (Session.start completing {} false partlyRestored)).2.trace,
      x.call.isListing → x.succeeds := by
    rw [hended]
    decide +kernel
  have henter : ((completing.enter mixedEntries).run
      (completing.restoreAll [] (Session.start completing {} false partlyRestored)).2).1 =
      .ok (.drive ⟨"drive", []⟩ "root") := rfl
  have huploads := completing.uploads_files hrun (by decide +kernel) hlisted hsort
  dsimp only at huploads
  rw [henter, List.nil_append] at huploads
  exact ⟨huploads, by decide +kernel⟩

end TenantRestore
