/-
# The items a restore has seen

Items seen are to be counted whether or not restoring them succeeds.  Every entry of a collection
of items is one, and so is every file of a drive: at first every entry, later every entry whose
name has the ending of a content.

A file counts only after its metadata has been read, if that is needed.  So a restore counts all
items it takes just if it can read the metadata of all of them: `Plan.countsItems_iff`.  Which
entries of a drive are restored as files, and by which names, is told by `Plan.fileName?`.
-/
import TenantRestore.Proofs.Permission.Baseline
import TenantRestore.Proofs.Turns

namespace TenantRestore

variable {σ : Type} {plan : Plan σ}

/-! ## Items -/

/-- Whether an entry is an item, as its collection and its name tell. -/
def Plan.isItem (plan : Plan σ) : Entrance → Entry → Bool
  | .drive _ _, e => !plan.version.hasMetaFiles || (stem? e.name dataSuffix).isSome
  | .items _ _, _ => true

/-- Whether an entry is a file whose metadata is needed, but can't be read. -/
def Plan.lacksMetadata (plan : Plan σ) (c : Collection) : Entrance → Entry → Bool
  | .drive _ _, e => plan.version.hasMetaFiles &&
      (stem? e.name dataSuffix).any fun stem => !(plan.fileMetadata c stem).isOk
  | .items _ _, _ => false

/-- How many items are taken at a turn. -/
def Plan.itemsAt (plan : Plan σ) : Turn → Nat
  | .taking _ entrance e => (plan.isItem entrance e).toNat
  | _ => 0

/-- How many items are taken at a turn whose metadata can't be read. -/
def Plan.overlookedAt (plan : Plan σ) : Turn → Nat
  | .taking c entrance e => (plan.lacksMetadata c entrance e).toNat
  | _ => 0

/-- How many items are taken in a course. -/
def Plan.items (plan : Plan σ) (course : List (Session σ × Turn)) : Nat :=
  (course.map fun step => plan.itemsAt step.2).sum

/-- How many items of a course have metadata that can't be read. -/
def Plan.overlooked (plan : Plan σ) (course : List (Session σ × Turn)) : Nat :=
  (course.map fun step => plan.overlookedAt step.2).sum

/-- A text has only one of two endings if neither ends in the other. -/
theorem stem?_eq_none {text ending other stem : String} (h : stem? text ending = some stem)
    (hshort : ¬ ending.toList <:+ other.toList) (hlong : ¬ other.toList <:+ ending.toList) :
    stem? text other = none := by
  have hsuffix : ending.toList <:+ text.toList := by
    rw [stem?_eq_some_iff.1 h, String.toList_append]
    exact List.suffix_append ..
  unfold stem?
  rw [if_neg]
  intro hends
  rcases List.suffix_or_suffix_of_suffix hsuffix (List.isSuffixOf_iff_suffix.1 hends) with h | h
  · exact hshort h
  · exact hlong h

/-- The name of a content is neither that of metadata nor that of the metadata of a folder. -/
theorem stem?_of_data {name stem : String} (h : stem? name dataSuffix = some stem) :
    stem? name dirMetaSuffix = none ∧ stem? name metaSuffix = none :=
  ⟨stem?_eq_none h (by decide) (by decide), stem?_eq_none h (by decide) (by decide)⟩

/-- An entry counts as an item seen just if it is an item, and none whose metadata is needed, but
can't be read. -/
theorem Plan.sees_eq (plan : Plan σ) (c : Collection) (entrance : Entrance) (e : Entry) :
    plan.sees c entrance e = (plan.isItem entrance e && !plan.lacksMetadata c entrance e) := by
  cases entrance with
  | items _ _ => rfl
  | drive address folder =>
    unfold Plan.sees Plan.isItem Plan.lacksMetadata Plan.recognise
    cases hmeta : plan.version.hasMetaFiles with
    | false => rfl
    | true =>
      cases hdata : stem? e.name dataSuffix with
      | some stem =>
        obtain ⟨hdir, hfile⟩ := stem?_of_data hdata
        simp only [hdir, hfile, hdata]
        cases hfetch : plan.fileMetadata c stem <;>
          simp [hfetch, Except.isOk, Except.toBool, Except.toOption]
      | none =>
        -- whatever else the entry may be, it is no file
        simp only [hdata]
        split
        · rename_i hno
          simp at hno
        · split
          · split
            · split
              · rfl
              · split <;> rfl
            · rfl
          · split <;> rfl

theorem Plan.isItem_of_lacksMetadata {c : Collection} {entrance : Entrance} {e : Entry}
    (h : plan.lacksMetadata c entrance e) : plan.isItem entrance e := by
  cases entrance with
  | items _ _ => rfl
  | drive address folder =>
    simp only [lacksMetadata, Bool.and_eq_true, Option.any_eq_true] at h
    obtain ⟨-, stem, hstem, -⟩ := h
    simp [isItem, hstem]

/-- Nothing is overlooked at a turn just if it takes no file whose metadata is needed, but can't be
read. -/
theorem Plan.overlookedAt_eq_zero_iff {turn : Turn} :
    plan.overlookedAt turn = 0 ↔ ∀ c address folder e stem,
      turn = .taking c (.drive address folder) e → plan.version.hasMetaFiles →
        stem? e.name dataSuffix = some stem → (plan.fileMetadata c stem).isOk := by
  rcases turn with _ | _ | ⟨c, ⟨address, folder⟩ | _, e⟩ | _
  · exact iff_of_true rfl (by simp)
  · exact iff_of_true rfl (by simp)
  · have hzero : plan.overlookedAt (.taking c (.drive address folder) e) = 0 ↔
        plan.lacksMetadata c (.drive address folder) e = false := Bool.toNat_eq_zero
    simp only [hzero, lacksMetadata, Bool.and_eq_false_imp, Option.any_eq_false,
      Bool.not_eq_false']
    constructor
    · rintro h _ _ _ _ stem ⟨⟩ hmeta hstem
      exact h hmeta stem hstem
    · intro h hmeta stem hstem
      exact h c address folder e stem rfl hmeta hstem
  · exact iff_of_true rfl (by simp)
  · exact iff_of_true rfl (by simp)

theorem Plan.seenAt_add (plan : Plan σ) (turn : Turn) :
    plan.seenAt turn + plan.overlookedAt turn = plan.itemsAt turn := by
  cases turn with
  | taking c entrance e =>
    simp only [seenAt, overlookedAt, itemsAt, plan.sees_eq]
    cases hlacks : plan.lacksMetadata c entrance e with
    | false => simp
    | true => simp [Plan.isItem_of_lacksMetadata hlacks]
  | entering _ | unread _ _ | leaving _ => rfl

theorem Plan.seen_add (plan : Plan σ) (course : List (Session σ × Turn)) :
    plan.seen course + plan.overlooked course = plan.items course := by
  induction course with
  | nil => rfl
  | cons step course ih =>
    have hturn := plan.seenAt_add step.2
    simp only [seen, overlooked, items, List.map_cons, List.sum_cons] at ih ⊢
    omega

/-! ## Files -/

/-- The name by which an entry of a drive collection is restored, if it is a file.  At first every
entry was one; since then a file has the ending of a content.  Its metadata has to be found and
read if it is needed, be it for its permissions or for its name, which is only stored there since
version 6. -/
def Plan.fileName? (plan : Plan σ) (c : Collection) (e : Entry) : Option String :=
  if plan.version = 0 then some e.name
  else
    (stem? e.name dataSuffix).bind fun stem =>
      if plan.options.restorePermissions ∨ 6 ≤ plan.version then
        match c.fetch (stem ++ metaSuffix) with
        | .error _ => none
        | .ok found =>
          match Metadata.ofData found.data with
          | .error _ => none
          | .ok m => some (if 6 ≤ plan.version then m.fileName else stem)
      else some stem

theorem Plan.fileName?_of_stem {c : Collection} {e : Entry} {stem : String}
    (hversion : plan.version ≠ 0) (h : stem? e.name dataSuffix = some stem) :
    plan.fileName? c e = (plan.fileMetadata c stem).toOption.map fun m =>
      if plan.version.hasNameInMeta then m.fileName else stem := by
  have hread : (fetchMetadata c (stem ++ metaSuffix)).toOption =
      match c.fetch (stem ++ metaSuffix) with
      | .error _ => none
      | .ok found => (Metadata.ofData found.data).toOption := by
    unfold fetchMetadata
    rcases c.fetch (stem ++ metaSuffix) with f | found
    · rfl
    · dsimp only
      rcases Metadata.ofData found.data with p | m <;> rfl
  unfold Plan.fileName? Plan.fileMetadata
  rw [if_neg hversion, h, Option.bind_some]
  by_cases hneeds : plan.options.restorePermissions ∨ 6 ≤ plan.version
  · have hread' : ¬ (!plan.options.restorePermissions && !plan.version.hasNameInMeta) = true := by
      simpa [FormatVersion.hasNameInMeta, or_iff_not_imp_left] using hneeds
    rw [if_pos hneeds, if_neg hread', hread]
    rcases c.fetch (stem ++ metaSuffix) with f | found
    · rfl
    · dsimp only
      rcases Metadata.ofData found.data with p | m
      · rfl
      · simp [Except.toOption, FormatVersion.hasNameInMeta]
  · rw [if_neg hneeds, if_pos (by simpa [FormatVersion.hasNameInMeta] using hneeds)]
    simp [Except.toOption, FormatVersion.hasNameInMeta, (not_or.1 hneeds).2]

/-- An entry that is a file is recognised, with its name and content. -/
theorem Plan.recognise_of_fileName? {c : Collection} {e : Entry} {name : String}
    (h : plan.fileName? c e = some name) :
    ∃ m, plan.recognise c e = .ok (.file ⟨e.name, name, m, e.data⟩) := by
  by_cases hversion : plan.version = 0
  · have hname : e.name = name := by simpa [fileName?, hversion] using h
    refine ⟨{}, ?_⟩
    unfold Plan.recognise
    simp [FormatVersion.hasMetaFiles, hversion, hname]
  rcases hstem : stem? e.name dataSuffix with _ | stem
  · simp [fileName?, hversion, hstem] at h
  obtain ⟨hdir, hmeta⟩ := stem?_of_data hstem
  rw [Plan.fileName?_of_stem hversion hstem] at h
  have hversioned : plan.version.hasMetaFiles = true := by
    simpa [FormatVersion.hasMetaFiles, Nat.one_le_iff_ne_zero] using hversion
  rcases hread : plan.fileMetadata c stem with f | m <;> rw [hread] at h
  · cases h
  · refine ⟨m, ?_⟩
    unfold Plan.recognise
    simp only [hversioned, hdir, hmeta, hstem, hread]
    cases h
    rfl

/-- No other entry is recognised as a file. -/
theorem Plan.recognise_ne_file {c : Collection} {e : Entry} (h : plan.fileName? c e = none)
    (file : DriveFile) : plan.recognise c e ≠ .ok (.file file) := by
  intro hfile
  -- a file counts as an item that is seen, hence it is one whose metadata is read if needed
  have hsees : plan.sees c (.drive ⟨"", []⟩ "") e = true := by
    simp [sees, hfile, Except.toOption]
  rw [plan.sees_eq] at hsees
  by_cases hversion : plan.version = 0
  · simp [fileName?, hversion] at h
  have hversioned : plan.version.hasMetaFiles = true := by
    simpa [FormatVersion.hasMetaFiles, Nat.one_le_iff_ne_zero] using hversion
  rcases hstem : stem? e.name dataSuffix with _ | stem
  · simp [isItem, hversioned, hstem] at hsees
  · rw [Plan.fileName?_of_stem hversion hstem] at h
    rcases hread : plan.fileMetadata c stem with f | m
    · simp [lacksMetadata, hversioned, hstem, hread, Except.isOk, Except.toBool] at hsees
    · rw [hread] at h
      cases h

/-! ## Runs -/

/-- At every turn the items that are taken are counted, and so are those of the whole run. -/
structure Plan.CountsItems (plan : Plan σ) (cs : List Collection) (start : Session σ) : Prop where
  each : ∀ n turn, (plan.boundary cs start n).turn? = some turn →
    (plan.boundary cs start (n + 1)).session.progress.tally.objects =
      (plan.boundary cs start n).session.progress.tally.objects + plan.itemsAt turn
  total : (plan.run cs start).2.progress.tally.objects =
    start.progress.tally.objects + plan.items (plan.course cs start)

theorem Plan.tally_close (plan : Plan σ) (b : Boundary σ) :
    (plan.close b).progress.tally = b.session.progress.tally := by
  unfold Plan.close
  split <;> rfl

/-- A turn counts the items seen at it. -/
theorem Plan.objects_boundary_succ {cs : List Collection} {start : Session σ} {n : Nat}
    {turn : Turn} (h : (plan.boundary cs start n).turn? = some turn) :
    (plan.boundary cs start (n + 1)).session.progress.tally.objects =
      (plan.boundary cs start n).session.progress.tally.objects + plan.seenAt turn := by
  obtain ⟨l, hturn, hadds⟩ := plan.advance_adds h
  rw [Plan.boundary_succ, ← Plan.tally_close plan, ← Plan.tally_close plan, hadds.tally,
    Tally.objects_add, hturn.objects_eq]

theorem Plan.objects_run (plan : Plan σ) (cs : List Collection) (start : Session σ) :
    (plan.run cs start).2.progress.tally.objects =
      start.progress.tally.objects + plan.seen (plan.course cs start) := by
  obtain ⟨l, hcourse, hadds⟩ := plan.restoreAll_adds cs start
  rw [Plan.run_eq, conclude_progress, hadds.tally, Tally.objects_add, hcourse.objects_eq]

/-- A run counts all items it takes just if it overlooks none at any of its turns. -/
theorem Plan.countsItems_iff_overlookedAt {cs : List Collection} {start : Session σ} :
    plan.CountsItems cs start ↔ ∀ n turn, (plan.boundary cs start n).turn? = some turn →
      plan.overlookedAt turn = 0 := by
  constructor
  · intro h n turn hturn
    have heach := h.each n turn hturn
    have hadd := plan.seenAt_add turn
    rw [Plan.objects_boundary_succ hturn] at heach
    omega
  · refine fun h => ⟨fun n turn hturn => ?_, ?_⟩
    · have hadd := plan.seenAt_add turn
      have hzero := h n turn hturn
      rw [Plan.objects_boundary_succ hturn]
      omega
    · have hadd := plan.seen_add (plan.course cs start)
      have hzero : plan.overlooked (plan.course cs start) = 0 := by
        refine List.sum_eq_zero_iff_forall_eq_nat.2 fun k hk => ?_
        obtain ⟨⟨s, turn⟩, hstep, rfl⟩ := List.mem_map.1 hk
        obtain ⟨n, -, -, hturn⟩ := Plan.turn?_of_mem_courseUntil hstep
        exact h n turn hturn
      rw [Plan.objects_run]
      omega

/-- In the end a run has counted all items it has taken but those whose metadata was needed, and
could not be read.  So it counts all of them just if there is no such item. -/
theorem Plan.countsItems_iff (plan : Plan σ) (cs : List Collection) (start : Session σ) :
    (plan.run cs start).2.progress.tally.objects + plan.overlooked (plan.course cs start) =
        start.progress.tally.objects + plan.items (plan.course cs start) ∧
      (plan.CountsItems cs start ↔
        ∀ n c address folder e stem, (plan.boundary cs start n).turn? =
            some (.taking c (.drive address folder) e) →
          plan.version.hasMetaFiles → stem? e.name dataSuffix = some stem →
          (plan.fileMetadata c stem).isOk) := by
  constructor
  · have hadd := plan.seen_add (plan.course cs start)
    rw [Plan.objects_run]
    omega
  · rw [Plan.countsItems_iff_overlookedAt]
    constructor
    · intro h n c address folder e stem hturn
      exact Plan.overlookedAt_eq_zero_iff.1 (h n _ hturn) c address folder e stem rfl
    · intro h n turn hturn
      refine Plan.overlookedAt_eq_zero_iff.2 fun c address folder e stem hturn' => ?_
      exact h n c address folder e stem (hturn' ▸ hturn)

/-! ## A file without metadata -/

/-- A file in the root of a drive, whose metadata is missing. -/
def namelessFile : List Collection :=
  [.ofEntries ⟨"tenant", .onedrive, "user", .files, ["drives", "drive", "root:"]⟩
    [.ok ⟨"x.data", "abc".toUTF8⟩]]

/-- Restore to a drive without changing permissions. -/
def restoreFiles : Plan Rehearsal where
  options := {}
  version := FormatVersion.current
  remote := emptyDrive.remote

theorem sort_namelessFile : Collection.sort namelessFile = namelessFile :=
  Collection.sort_of_pairwise (by decide +kernel)

/-- The file is taken, and a fault is noted for it, but it is not among the items seen. -/
theorem namelessFile_not_counted :
    let start := Session.start restoreFiles {} false emptyDrive
    let ended := (restoreFiles.run namelessFile start).2
    (ended.faults.recovered.length = 1 ∧ ended.progress.tally.objects = 0 ∧
        restoreFiles.items (restoreFiles.course namelessFile start) = 1) ∧
      ¬ restoreFiles.CountsItems namelessFile start := by
  intro start ended
  have hend : ended.faults.recovered.length = 1 ∧ ended.progress.tally.objects = 0 := by
    simp only [ended, start, Plan.run_eq, sort_namelessFile]
    decide +kernel
  have hitems : restoreFiles.items (restoreFiles.course namelessFile start) = 1 := by
    simp only [start, Plan.course, Plan.courseUntil, Plan.boundary, sort_namelessFile]
    decide +kernel
  refine ⟨⟨hend.1, hend.2, hitems⟩, fun h => ?_⟩
  have htotal := h.total
  rw [hitems] at htotal
  have hzero : (restoreFiles.run namelessFile start).2.progress.tally.objects = 0 := hend.2
  rw [hzero] at htotal
  cases htotal

end TenantRestore
