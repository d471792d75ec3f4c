/-
# The calls for a file

Storing something under a key takes a few calls in a fixed order: the keys of its container are
listed unless they are known, it is created, and what it replaces is deleted.  `Placed` has one
way for each end this can have, by the exchanges alone.  A file that has taken the place of
another one is also renamed, `Storing`.

A file counts, and its receipt is handed out, as soon as it is created; its permissions are
changed only then, whatever comes of that.  So all calls for an entry of a drive are known from
what is answered to the first of them: `Plan.files_entry`.
-/
import TenantRestore.Proofs.Entries
import TenantRestore.Proofs.Permission.Calls
import TenantRestore.Proofs.Seen

namespace TenantRestore

variable {σ α : Type} {plan : Plan σ}

namespace Table

variable {κ : Type} [DecidableEq κ]

/-- Storing what is found under a key makes no difference. -/
theorem insert_of_find? {t : Table κ α} {k : κ} {a : α} (h : t.find? k = some a) :
    t.insert k a = t := by
  obtain ⟨es⟩ := t
  have hput : put k a es = es := by
    induction es with
    | nil => cases h
    | cons e es ih =>
      by_cases he : e.1 = k
      · have hfound : e.2 = a := by simpa [find?, he] using h
        rw [put, if_pos he, ← he, ← hfound]
      · rw [put, if_neg he, ih (by simpa [find?, he] using h)]
  rw [insert, hput]

end Table

/-! ## Making calls -/

/-- A session comes from another one by some exchanges and by learning, and nothing is counted. -/
structure Session.Makes (s : Session σ) (made : List Exchange) (registry : Registry)
    (t : Session σ) : Prop where
  trace : t.trace = s.trace ++ made
  registry : t.registry = registry
  progress : t.progress = s.progress

namespace Session.Makes

variable {s t u : Session σ} {made made' : List Exchange} {known known' : Registry}

theorem refl (s : Session σ) : s.Makes [] s.registry s := ⟨(List.append_nil _).symm, rfl, rfl⟩

theorem trans (h : s.Makes made known t) (h' : t.Makes made' known' u) :
    s.Makes (made ++ made') known' u where
  trace := by rw [h'.trace, h.trace, List.append_assoc]
  registry := h'.registry
  progress := h'.progress.trans h.progress

theorem note (h : s.Makes made known t) (f : Fault) :
    s.Makes made known (plan.perform (.note f) t) := ⟨h.trace, h.registry, h.progress⟩

theorem keys (h : s.Makes made known t) (container : String) (ks : Keys) :
    s.Makes made { known with keys := known.keys.insert container ks }
      (plan.perform (.keys container ks) t) :=
  ⟨h.trace, by rw [← h.registry]; rfl, h.progress⟩

end Session.Makes

/-- A step only makes a call, and ends with the answer. -/
def Asks (ask : Steps σ (Except Failure α)) (exchange : Except Failure α → Exchange) : Prop :=
  ∀ s : Session σ, s.Makes [exchange (ask s).1] s.registry (ask s).2

theorem Plan.asks (plan : Plan σ) (c : Call) : Asks (plan.ask c) (Exchange.mk c) :=
  fun _ => ⟨rfl, rfl, rfl⟩

/-! ## Placing under a key -/

/-- The keys of a container are known, or are listed by an exchange. -/
inductive Loads (container : String) (listed : Except Failure Keys → Exchange) (before : Registry) :
    List Exchange → Keys → Registry → Prop
  /-- The keys are known. -/
  | known {ks : Keys} (h : before.keys.find? container = some ks) :
      Loads container listed before [] ks before
  /-- The keys are listed, and known from now on. -/
  | listed {ks : Keys} (h : before.keys.find? container = none) :
      Loads container listed before [listed (.ok ks)] ks
        { before with keys := before.keys.insert container ks }

theorem Loads.find? {container : String} {listed : Except Failure Keys → Exchange}
    {before after : Registry} {made : List Exchange} {ks : Keys}
    (h : Loads container listed before made ks after) :
    after.keys.find? container = some ks := by
  cases h with
  | known h => exact h
  | listed _ => simp

section Place

variable {container key : String} {ks : Keys} {s : Session σ}
  {ask : Steps σ (Except Failure Keys)} {listed : Except Failure Keys → Exchange}

/-- The keys of a container are loaded, unless they are unknown and can't be listed. -/
theorem Plan.knownKeys_loads (plan : Plan σ) (hask : Asks ask listed) (container : String)
    (s : Session σ) :
    (∃ f t, s.registry.keys.find? container = none ∧
      (knownKeys container ask).run s = (.error (.remote f), t) ∧
      s.Makes [listed (.error f)] s.registry t) ∨
    ∃ made ks known t, Loads container listed s.registry made ks known ∧
      (knownKeys container ask).run s = (.ok ks, t) ∧ s.Makes made known t := by
  rcases hknown : s.registry.keys.find? container with _ | ks
  · have hmakes := hask s
    rcases hr : ask s with ⟨f | ks, t⟩ <;> rw [hr] at hmakes
    · refine .inl ⟨f, t, rfl, ?_, hmakes⟩
      have hneed := Restoring.run_need ask s
      rw [hr] at hneed
      unfold knownKeys
      rw [Restoring.run_bind_ok (Restoring.run_get s), hknown]
      exact Restoring.run_bind_error hneed _
    · exact .inr ⟨_, ks, _, _, .listed hknown, plan.knownKeys_of_none hknown hr,
        hmakes.keys container ks⟩
  · exact .inr ⟨_, ks, _, s, .known hknown, knownKeys_of_some hknown, .refl s⟩

/-- How something is placed under a key, with the exchanges, the result and the keys afterwards. -/
inductive Placed (policy : CollisionPolicy) (key : String) (ks : Keys)
    (created : Except Failure String → Exchange)
    (deleted : String → Except Failure Unit → Exchange) :
    List Exchange → Except Fault String → Keys → Prop
  /-- Something has the key already, and is kept. -/
  | kept (hskip : ks.contains key ∧ policy = .skip) :
      Placed policy key ks created deleted [] (.error (.itemAlreadyExists key)) ks
  /-- It can't be created. -/
  | refused (hnew : ¬ (ks.contains key ∧ policy = .skip)) (f : Failure) :
      Placed policy key ks created deleted [created (.error f)] (.error (.remote f)) ks
  /-- It is created, and nothing is replaced. -/
  | added (hnew : ¬ (ks.contains key ∧ policy = .skip))
      (hfree : policy = .replace → ks.find? key = none) (new : String) :
      Placed policy key ks created deleted [created (.ok new)] (.ok new) (ks.insert key new)
  /-- It is created, and what it replaces is deleted. -/
  | replaced (hreplace : policy = .replace) {old : String} (hold : ks.find? key = some old)
      (new : String) :
      Placed policy key ks created deleted [created (.ok new), deleted old (.ok ())] (.ok new)
        (ks.insert key new)
  /-- It is created, but what it replaces can't be deleted. -/
  | stays (hreplace : policy = .replace) {old : String} (hold : ks.find? key = some old)
      (new : String) (f : Failure) :
      Placed policy key ks created deleted [created (.ok new), deleted old (.error f)]
        (.error (.deletingReplacedItemFailed new old f)) (ks.insert key new)

variable {create : Steps σ (Except Failure String)}
  {delete : String → Steps σ (Except Failure Unit)}
  {created : Except Failure String → Exchange}
  {deleted : String → Except Failure Unit → Exchange}

theorem Settles.placed (hcreate : Asks create created)
    (hdelete : ∀ old, Asks (delete old) (deleted old)) {policy : CollisionPolicy}
    {r : Except Fault String} {ks' : Keys} {t : Session σ}
    (h : Settles policy key ks create delete s r ks' t) :
    ∃ made, Placed policy key ks created deleted made r ks' ∧ s.Makes made s.registry t := by
  have hcreated {r : Except Failure String} {t : Session σ} (h : create s = (r, t)) :
      s.Makes [created r] s.registry t := by
    have hmakes := hcreate s
    rwa [h] at hmakes
  have hdeleted {old : String} {new : String} {r : Except Failure Unit} {t u : Session σ}
      (h : create s = (.ok new, t)) (h' : delete old t = (r, u)) :
      s.Makes [created (.ok new), deleted old r] s.registry u := by
    have hmakes := hdelete old t
    rw [h', (hcreated h).registry] at hmakes
    exact (hcreated h).trans hmakes
  cases h with
  | kept hskip => exact ⟨[], .kept hskip, .refl s⟩
  | refused hnew h => exact ⟨_, .refused hnew _, hcreated h⟩
  | added hnew h hfree => exact ⟨_, .added hnew hfree _, hcreated h⟩
  | replaced hreplace hold h h' => exact ⟨_, .replaced hreplace hold _, hdeleted h h'⟩
  | stays hreplace hold h h' => exact ⟨_, .stays hreplace hold _ _, hdeleted h h'⟩

/-- Placing something makes the calls for it and keeps the keys up to date. -/
theorem Plan.place_placed (plan : Plan σ) (hcreate : Asks create created)
    (hdelete : ∀ old, Asks (delete old) (deleted old)) (container key : String) (ks : Keys)
    (s : Session σ) :
    ∃ made r ks' t, plan.place container key ks create delete s = (r, t) ∧
      Placed plan.options.onCollision key ks created deleted made r ks' ∧
      s.Makes made { s.registry with keys := s.registry.keys.insert container ks' } t := by
  obtain ⟨r, ks', t, hplace, hways⟩ := plan.places container key ks create delete s
  obtain ⟨made, hplaced, hmakes⟩ := hways.placed hcreate hdelete
  exact ⟨made, r, ks', _, hplace, hplaced, hmakes.keys container ks'⟩

end Place

/-! ## Storing a file -/

/-- How a file is stored in a folder with some keys: the exchanges, and the id under which it is
stored if it is. -/
inductive Storing (policy : CollisionPolicy) (drive folder : String) (file : DriveFile)
    (ks : Keys) : List Exchange → Option String → Prop
  /-- Another file has the name, and is kept. -/
  | kept (hskip : ks.contains file.name ∧ policy = .skip) :
      Storing policy drive folder file ks [] none
  /-- The file can't be uploaded. -/
  | refused (hnew : ¬ (ks.contains file.name ∧ policy = .skip)) (f : Failure) :
      Storing policy drive folder file ks
        [⟨.drive (.upload drive folder file.name file.data policy), .error f⟩] none
  /-- The file is uploaded, and none is replaced. -/
  | added (hnew : ¬ (ks.contains file.name ∧ policy = .skip))
      (hfree : policy = .replace → ks.find? file.name = none) (new : String) :
      Storing policy drive folder file ks
        [⟨.drive (.upload drive folder file.name file.data policy), .ok new⟩] (some new)
  /-- The file is uploaded, but the one it replaces can't be deleted. -/
  | stays (hreplace : policy = .replace) {old : String} (hold : ks.find? file.name = some old)
      (new : String) (f : Failure) :
      Storing policy drive folder file ks
        [⟨.drive (.upload drive folder file.name file.data policy), .ok new⟩,
          ⟨.drive (.delete drive old), .error f⟩] (some new)
  /-- The file is uploaded, the one it replaces is deleted, and the new one is to get its name. -/
  | replaced (hreplace : policy = .replace) {old : String} (hold : ks.find? file.name = some old)
      (new : String) (r : Except Failure Unit) :
      Storing policy drive folder file ks
        [⟨.drive (.upload drive folder file.name file.data policy), .ok new⟩,
          ⟨.drive (.delete drive old), .ok ()⟩,
          ⟨.drive (.rename drive new file.name), r⟩] (some new)

/-- What becomes of a file that is uploaded: the result, and the session afterwards. -/
inductive Uploading (plan : Plan σ) (drive folder : String) (file : DriveFile) (s : Session σ) :
    Except Fault (String × Bool) → Session σ → Prop
  /-- The keys of the folder are unknown and can't be listed. -/
  | unlisted (hunknown : s.registry.keys.find? folder = none) {f : Failure} {t : Session σ}
      (hmakes : s.Makes [⟨.drive (.listKeys drive folder), .error f⟩] s.registry t) :
      Uploading plan drive folder file s (.error (.remote f)) t
  /-- The file is not stored. -/
  | unstored {loads made : List Exchange} {ks : Keys} {known : Registry} {f : Fault}
      {t : Session σ}
      (hloads : Loads folder (Exchange.mk (.drive (.listKeys drive folder))) s.registry loads ks
        known)
      (hstoring : Storing plan.options.onCollision drive folder file ks made none)
      (hmakes : s.Makes (loads ++ made) known t) :
      Uploading plan drive folder file s (.error f) t
  /-- The file is stored. -/
  | stored {loads made : List Exchange} {ks : Keys} {known : Registry} {new : String}
      {t : Session σ}
      (hloads : Loads folder (Exchange.mk (.drive (.listKeys drive folder))) s.registry loads ks
        known)
      (hstoring : Storing plan.options.onCollision drive folder file ks made (some new))
      (hmakes : s.Makes (loads ++ made)
        { known with keys := known.keys.insert folder (ks.insert file.name new) } t) :
      Uploading plan drive folder file s
        (.ok (new, decide (plan.options.onCollision = .replace ∧ ks.contains file.name))) t

/-- Uploading a file stores it in its folder, if the keys of that are known or can be listed. -/
theorem Plan.uploadFile_uploading (plan : Plan σ) (drive folder : String) (file : DriveFile)
    (s : Session σ) :
    Uploading plan drive folder file s ((plan.uploadFile drive folder file).run s).1
      ((plan.uploadFile drive folder file).run s).2 := by
  have hlist : Asks (α := Keys) (plan.askDrive (.listKeys drive folder))
      (Exchange.mk (.drive (.listKeys drive folder))) := plan.asks _
  have hupload : Asks (α := String)
      (plan.askDrive (.upload drive folder file.name file.data plan.options.onCollision))
      (Exchange.mk (.drive (.upload drive folder file.name file.data plan.options.onCollision))) :=
    plan.asks _
  have hdelete (old : String) : Asks (α := Unit) (plan.askDrive (.delete drive old))
      (Exchange.mk (.drive (.delete drive old))) := plan.asks _
  unfold Plan.uploadFile
  rcases plan.knownKeys_loads hlist folder s with
    ⟨f, t, hunknown, hrun, hmakes⟩ | ⟨loads, ks, known, t, hloads, hrun, hmakes⟩
  · rw [Restoring.run_bind_error hrun]
    exact .unlisted hunknown hmakes
  rw [Restoring.run_bind_ok hrun]
  dsimp only
  obtain ⟨made, r, ks', u, hplace, hplaced, hmade⟩ :=
    plan.place_placed hupload hdelete folder file.name ks t
  rw [hmakes.registry] at hmade
  have hall := hmakes.trans hmade
  rw [Restoring.run_always_bind hplace]
  cases hplaced with
  | kept hskip =>
    -- the keys that are remembered are those that are known already
    rw [Table.insert_of_find? hloads.find?] at hall
    exact .unstored hloads (.kept hskip) hall
  | refused hnew f =>
    rw [Table.insert_of_find? hloads.find?] at hall
    exact .unstored hloads (.refused hnew f) hall
  | added hnew hfree new =>
    have hnone : ¬ (plan.options.onCollision = .replace ∧ ks.contains file.name) := by
      rintro ⟨hreplace, hcontains⟩
      simp [Table.contains, hfree hreplace] at hcontains
    dsimp only
    rw [if_neg hnone]
    exact .stored hloads (.added hnew hfree new) hall
  | replaced hreplace hold new =>
    have hcontains : plan.options.onCollision = .replace ∧ ks.contains file.name := by
      simp [hreplace, Table.contains, hold]
    have hrename : Asks (α := Unit) (plan.askDrive (.rename drive new file.name))
        (Exchange.mk (.drive (.rename drive new file.name))) := plan.asks _
    have hrenamed := hrename u
    rw [hall.registry] at hrenamed
    dsimp only
    rw [if_pos hcontains]
    rcases hr : plan.askDrive (.rename drive new file.name) u with ⟨f | ⟨⟩, v⟩ <;>
      rw [hr] at hrenamed <;> rw [Restoring.run_always_bind hr] <;>
      have hmade := hall.trans hrenamed <;> rw [List.append_assoc] at hmade
    · exact .stored hloads (.replaced hreplace hold new (.error f)) (hmade.note (.remote f))
    · exact .stored hloads (.replaced hreplace hold new (.ok ())) hmade
  | stays hreplace hold new f =>
    exact .stored hloads (.stays hreplace hold new f) (hall.note _)

/-! ## Changing the permissions of a file -/

/-- Exchanges by which permissions on an item are taken back, and then others are granted. -/
def Granting (drive item : String) (made : List Exchange) : Prop :=
  ∃ revoked granted, made = revoked ++ granted ∧
    (∀ x ∈ revoked, ∃ permission, x.call = .drive (.revoke drive item permission)) ∧
    ∀ x ∈ granted, ∃ invitation, x.call = .drive (.grant drive item invitation)

theorem Granting.nil (drive item : String) : Granting drive item [] :=
  ⟨[], [], rfl, by simp, by simp⟩

/-- Permissions are taken back before others are granted. -/
theorem Attempted.granting {ids : Table String String} {drive item : String}
    {added removed : List Permission} {made : List Exchange}
    (h : Attempted (revokeCalls ids drive item (grantCalls drive item added) removed) made) :
    Granting drive item made := by
  induction removed generalizing made with
  | nil =>
    -- nothing is left to be taken back, so all that was attempted are the grants
    refine ⟨[], made, rfl, by simp, fun x hx => ?_⟩
    obtain ⟨call, hcall, hx⟩ := h.mem hx
    obtain ⟨p, -, rfl⟩ := List.mem_map.1 hcall
    exact ⟨p.invitation, hx⟩
  | cons p ps ih =>
    rw [revokeCalls] at h
    split at h
    · cases h
      exact .nil drive item
    · cases h with
      | next hcall _ rest =>
        obtain ⟨revoked, granted, rfl, hrevoked, hgranted⟩ := ih rest
        exact ⟨_ :: revoked, granted, rfl, List.forall_mem_cons.2 ⟨⟨_, hcall⟩, hrevoked⟩, hgranted⟩
      | last hcall _ =>
        exact ⟨[_], [], rfl, by simpa using ⟨_, hcall⟩, by simp⟩

/-- Restoring the permissions of an item only changes permissions on the item. -/
theorem Plan.restorePermissions_granting (plan : Plan σ) (drive item : String) (path : BackupPath)
    (current : Metadata) (s : Session σ) :
    ∃ made, Granting drive item made ∧
      ((plan.restorePermissions drive item path current).run s).2.trace = s.trace ++ made := by
  rcases habove : inheritedMetadata s.registry.metadata path with f | above
  · refine ⟨[], .nil drive item, ?_⟩
    rw [Plan.restorePermissions_run, List.append_nil]
    unfold Updater.restore
    rw [habove]
    split <;> rfl
  · obtain ⟨made, htrace, -, hmade⟩ := plan.restorePermissions_attempted drive item current habove
    refine ⟨made, ?_, htrace⟩
    unfold plannedCalls at hmade
    split at hmade
    · cases hmade
      exact .nil drive item
    · exact hmade.granting

theorem Plan.restorePermissions_leaves (plan : Plan σ) (drive item : String) (path : BackupPath)
    (current : Metadata) (s : Session σ) :
    ((plan.restorePermissions drive item path current).run s).2.registry.keys = s.registry.keys ∧
      ((plan.restorePermissions drive item path current).run s).2.progress = s.progress := by
  have hupkeep : Upkeep plan (fun e => e.isPermission)
      (fun t => t.registry.keys = s.registry.keys ∧ t.progress = s.progress) Going := by
    refine Upkeep.of_keep (fun e t he ht => ?_) fun _ _ => Fault.not_isCancelled_of_isPlain
    cases e with
    | call _ | permissionIds _ => exact ht
    | _ => cases he
  exact (hupkeep.restorePermissions_going (fun _ he => he) drive item path current).snd ⟨rfl, rfl⟩

/-! ## Taking an entry -/

/-- What becomes of a file that is restored, by the calls that are made for it. -/
inductive Filing (plan : Plan σ) (c : Collection) (address : DriveAddress) (folder : String)
    (file : DriveFile) (s t : Session σ) : Prop
  /-- The keys of the folder can't be listed.  Nothing is learnt, and no success is counted. -/
  | unlisted (hunknown : s.registry.keys.find? folder = none) {f : Failure}
      (trace : t.trace = s.trace ++ [⟨.drive (.listKeys address.drive folder), .error f⟩])
      (registry : t.registry = s.registry) (tally : t.progress.tally = s.progress.tally.see)
  /-- The file is not stored.  Only the keys of the folder may have been learnt, and no success is
  counted. -/
  | unstored {loads made : List Exchange} {ks : Keys} {known : Registry}
      (hloads : Loads folder (Exchange.mk (.drive (.listKeys address.drive folder))) s.registry
        loads ks known)
      (hstoring : Storing plan.options.onCollision address.drive folder file ks made none)
      (trace : t.trace = s.trace ++ (loads ++ made)) (registry : t.registry = known)
      (tally : t.progress.tally = s.progress.tally.see)
  /-- The file is stored.  It is counted and its receipt is handed out, before its permissions are
  changed. -/
  | stored {loads made shares : List Exchange} {ks : Keys} {known : Registry} {new : String}
      {answer : Except Failure Unit}
      (hloads : Loads folder (Exchange.mk (.drive (.listKeys address.drive folder))) s.registry
        loads ks known)
      (hstoring : Storing plan.options.onCollision address.drive folder file ks made (some new))
      (hgranting : Granting address.drive new shares)
      (trace : t.trace = s.trace ++ (loads ++ made ++
        ⟨.receipt (plan.receiptOf c address file
          (decide (plan.options.onCollision = .replace ∧ ks.contains file.name))), answer⟩ ::
        shares))
      (keys : t.registry.keys = known.keys.insert folder (ks.insert file.name new))
      (tally : t.progress.tally = s.progress.tally.see.succeed file.data.size)

theorem Plan.restoreFile_filing (plan : Plan σ) (c : Collection) (address : DriveAddress)
    (folder : String) (file : DriveFile) (s : Session σ) :
    Filing plan c address folder file s ((plan.restoreFile c address folder file).run s).2 := by
  have hupload := plan.uploadFile_uploading address.drive folder file
    (plan.perform (.tally Tally.see) s)
  rw [Plan.restoreFile_run]
  rcases hrun : (plan.uploadFile address.drive folder file).run
    (plan.perform (.tally Tally.see) s) with ⟨r, t⟩
  rw [hrun] at hupload
  cases hupload with
  | unlisted hunknown hmakes =>
    exact .unlisted hunknown hmakes.trace hmakes.registry (congrArg Progress.tally hmakes.progress)
  | unstored hloads hstoring hmakes =>
    exact .unstored hloads hstoring hmakes.trace hmakes.registry
      (congrArg Progress.tally hmakes.progress)
  | @stored loads made ks known new _ hloads hstoring hmakes =>
    let receipt := plan.receiptOf c address file
      (decide (plan.options.onCollision = .replace ∧ ks.contains file.name))
    obtain ⟨answer, hsent⟩ := plan.trace_credit receipt t
    -- the file is accounted for by now, and whatever becomes of its permissions comes after that
    have hstored {u : Session σ} {shares : List Exchange}
        (hgranting : Granting address.drive new shares)
        (htrace : u.trace = (plan.credit receipt t).trace ++ shares)
        (hkeys : u.registry.keys = (plan.credit receipt t).registry.keys)
        (hprogress : u.progress = (plan.credit receipt t).progress) :
        Filing plan c address folder file s u := by
      have hbefore : t.trace = s.trace ++ (loads ++ made) := hmakes.trace
      have hcounted : t.progress.tally = s.progress.tally.see :=
        congrArg Progress.tally hmakes.progress
      have hmade : u.trace =
          s.trace ++ (loads ++ made ++ ⟨.receipt receipt, answer⟩ :: shares) := by
        rw [htrace, hsent, hbefore]
        simp
      refine .stored hloads hstoring hgranting hmade (hkeys.trans ?_) ?_
      · exact congrArg Registry.keys hmakes.registry
      · rw [hprogress, ← hcounted]
        rfl
    have hdone : Filing plan c address folder file s (plan.credit receipt t) :=
      hstored (.nil _ _) (List.append_nil _).symm rfl rfl
    dsimp only
    split
    · rcases c.path.ofFile file with f | path
      · exact hdone
      · obtain ⟨shares, hgranting, htrace⟩ :=
          plan.restorePermissions_granting address.drive new path file.metadata
            (plan.credit receipt t)
        obtain ⟨hkeys, hprogress⟩ :=
          plan.restorePermissions_leaves address.drive new path file.metadata
            (plan.credit receipt t)
        exact hstored hgranting htrace hkeys hprogress
    · exact hdone

/-- A file is filed in the folder. -/
theorem Plan.restoreDriveEntry_files {c : Collection} {entry : Entry} {file : DriveFile}
    (h : plan.recognise c entry = .ok (.file file)) (address : DriveAddress) (folder : String)
    (s : Session σ) :
    Filing plan c address folder file s
      ((plan.restoreDriveEntry c address folder entry).run s).2 := by
  rw [Plan.restoreDriveEntry_run h]
  exact plan.restoreFile_filing c address folder file s

/-- An entry that is no file changes nothing, unless it is the metadata of a folder. -/
theorem Plan.restoreDriveEntry_aside {c : Collection} {entry : Entry}
    (h : ∀ file, plan.recognise c entry ≠ .ok (.file file)) (address : DriveAddress)
    (folder : String) (s : Session σ) :
    ((plan.restoreDriveEntry c address folder entry).run s).2 = s ∨
      ∃ text m, ((plan.restoreDriveEntry c address folder entry).run s).2 =
        plan.perform (.metadata text m) s := by
  unfold Plan.restoreDriveEntry
  rcases hentry : plan.recognise c entry with f | ⟨file⟩ | ⟨path, m⟩ | _
  · exact .inl rfl
  · exact absurd hentry (h file)
  · exact .inr ⟨path.text, m, rfl⟩
  · exact .inl rfl

/-- The calls for an entry of a drive.  If it is a file, it is filed under its name; otherwise it
changes nothing but what is known about a folder. -/
theorem Plan.files_entry (plan : Plan σ) (c : Collection) (address : DriveAddress)
    (folder : String) (entry : Entry) (s : Session σ) :
    let r := (plan.restoreDriveEntry c address folder entry).run s
    match plan.fileName? c entry with
    | some name => ∃ m, plan.recognise c entry = .ok (.file ⟨entry.name, name, m, entry.data⟩) ∧
        Filing plan c address folder ⟨entry.name, name, m, entry.data⟩ s r.2
    | none =>
      match plan.recognise c entry with
      | .error f => r = (.error f, s)
      | .ok (.folderMetadata path m) => r = (.ok (), plan.perform (.metadata path.text m) s)
      | .ok _ => r = (.ok (), s) := by
  intro r
  rcases hname : plan.fileName? c entry with _ | name
  · dsimp only
    have hno := Plan.recognise_ne_file hname
    rcases hentry : plan.recognise c entry with f | ⟨file⟩ | ⟨path, m⟩ | _
    case ok.file => exact absurd hentry (hno file)
    all_goals
      simp only [r]
      unfold Plan.restoreDriveEntry
      rw [hentry]
      rfl
  · obtain ⟨m, hentry⟩ := Plan.recognise_of_fileName? hname
    exact ⟨m, hentry, Plan.restoreDriveEntry_files hentry address folder s⟩

end TenantRestore
