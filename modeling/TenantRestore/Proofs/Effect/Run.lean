/-
# The effects of a run

What is said of the steps for drive collections in `TenantRestore.Proofs.Effect.Drive` is said
here of those for collections of items, of whole collections, and of a list of collections
restored one after the other.
-/
import TenantRestore.Proofs.Effect.Drive

namespace TenantRestore

variable {σ : Type} {plan : Plan σ} {A : Effect → Prop} {I : Session σ → Prop}
  {E : Fault → Session σ → Prop}

theorem Item.isPlain_of_ofEntry {kind : ItemKind} {entry : Entry} {f : Fault}
    (h : Item.ofEntry kind entry = .error f) : f.isPlain := by
  unfold Item.ofEntry at h
  split at h
  · cases h
    rfl
  · split at h
    · cases h
    · cases h
      rfl

/-- The faults in which a step `E` allows can end a collection, and that of being stopped,
which only ends it when the restore has been stopped. -/
def Stopping (E : Fault → Session σ → Prop) (f : Fault) (s : Session σ) : Prop :=
  E f s ∨ f = .cancelled ∧ s.stopped

theorem Plan.restoreAll_cons (c : Collection) (cs : List Collection) (s : Session σ) :
    plan.restoreAll (c :: cs) s =
      if s.stopped || s.faults.hasFailed then ((), s)
      else
        match (plan.restoreCollection c).run s with
        | (.ok (), t) => plan.restoreAll cs (plan.perform .countCollection t)
        | (.error f, t) =>
          if f.isCancelled then ((), plan.perform .countCollection t)
          else plan.restoreAll cs (plan.perform (.note f) (plan.perform .countCollection t)) := by
  have hbind {α β : Type} (x : Steps σ α) (f : α → Steps σ β) (s : Session σ) :
      (x >>= f) s = f (x s).1 (x s).2 := rfl
  have hget : (get : Steps σ (Session σ)) s = (s, s) := rfl
  rw [Plan.restoreAll, hbind, hget]
  dsimp only
  split
  · rfl
  · rw [hbind]
    rcases (plan.restoreCollection c).run s with ⟨f | ⟨⟩, t⟩
    · rw [hbind]
      dsimp only
      cases f.isCancelled <;> rfl
    · rfl

namespace Upkeep

/-! ## Collections of items -/

theorem containerFor (h : Upkeep plan A I E) {kind : ItemKind}
    (hcall : ∀ owner name, A (.call (.items kind (.container owner name))))
    (hA : ∀ owner name id, A (.container (kind.category, owner, name) id)) (path : BackupPath) :
    Restoring.Keeps I (plan.containerFor kind path) E := by
  refine Restoring.Ensures.get_bind fun s hs => ?_
  split
  · exact hs
  · refine Restoring.Keeps.bind (h.need (hcall _ _)) (fun container => ?_) s hs
    refine Restoring.Keeps.bind ?_ fun _ => Restoring.Keeps.pure
    exact fun s hs => h.keep (.container _ container.id) s (hA _ _ _) hs

theorem createItemIn (h : Upkeep plan A I E) (hE : Tolerates A E) {kind : ItemKind}
    {container : String} (hA : ∀ e, e.isItemIn kind container → A e) (item : Item) :
    Restoring.Keeps I (plan.createItem kind container item) E := by
  have hcall : ∀ c, c.isItemIn container → A (.call (.items kind c)) :=
    fun c hc => hA _ (by simpa [Effect.isItemIn] using hc)
  have hkeys : ∀ ks, A (.keys container ks) := fun ks => hA _ (by simp [Effect.isItemIn])
  have ask : ∀ c, c.isItemIn container → Steps.Keeps I (plan.askItems kind c) fun _ _ => True :=
    fun c hc s hs => ⟨(h.ask (hcall c hc) s hs).1, trivial⟩
  refine Restoring.Keeps.bind
    (h.knownKeys (h.need (hcall _ (by simp [ItemCall.isItemIn]))) hkeys) fun keys => ?_
  refine Restoring.Ensures.bind (Restoring.Ensures.always
    (h.place (ask _ (by simp [ItemCall.isItemIn]))
      (fun old => ask _ (by simp [ItemCall.isItemIn])) hkeys)) ?_
  rintro (fault | id)
  · rintro s ⟨hI, hfault⟩
    dsimp only
    split
    · exact ⟨hI, hE.plain _ s (hfault _ rfl)⟩
    · exact h.keep (.note fault) s (hE.note_plain _ (hfault _ rfl)) hI
  · exact fun s hs => hs.1

theorem createItem (h : Upkeep plan A I E) (hE : Tolerates A E) {kind : ItemKind}
    (hA : ∀ e, e.isItem kind → A e) (container : String) (item : Item) :
    Restoring.Keeps I (plan.createItem kind container item) E :=
  h.createItemIn hE (fun e he => hA e (Effect.isItem_of_in he)) item

/-- Restoring an item keeps what creating it keeps. -/
theorem restoreItem (h : Upkeep plan A I E) (hE : Tolerates A E) {kind : ItemKind}
    {container : String}
    (hcall : ∀ id children, A (.call (.items kind (.addChildren container id children))))
    (hA : ∀ e, e.isAccount → A e) {c : Collection} {entry : Entry}
    (hcreate : ∀ item, Restoring.Keeps I (plan.createItem kind container item) E) :
    Restoring.Keeps I (plan.restoreItem kind c container entry) E := by
  refine Restoring.Keeps.bind (h.tally (hA _ rfl)) fun _ => ?_
  refine Restoring.Keeps.bind (Restoring.Keeps.ofExcept ?_) fun stored => ?_
  · exact fun f t hf _ => hE.plain f t (Item.isPlain_of_ofEntry hf)
  refine Restoring.Keeps.bind (hcreate _) fun created => ?_
  have hend (r : Receipt) : Restoring.Keeps I (do
      Restoring.always (TenantRestore.tally fun t => t.succeed entry.data.size)
      Restoring.always (plan.handOut r)) E :=
    Restoring.Keeps.bind (h.tally (hA _ rfl)) fun _ => h.handOut (hA _ rfl)
  dsimp only
  split
  · exact Restoring.Keeps.bind (h.need (hcall _ _)) fun _ => hend _
  · exact hend _

/-! ## Whole collections -/

/-- The entries of a collection keep what its steps keep, and end it only if the restore is
stopped. -/
theorem forEachEntry (h : Upkeep plan A I E) (hE : Tolerates A E) (hstop : A .stop)
    {c : Collection} {act : Entry → Restoring σ Unit}
    (hact : ∀ e, .ok e ∈ c.entries → Restoring.Keeps I (act e) E) :
    Restoring.Keeps I (plan.forEachEntry c act) (Stopping E) := by
  have hentries : Restoring.Ensures I (plan.forEachEntry c act) _ _ := h.forEach hE hstop hact
  exact hentries.mono (fun _ hs => hs) (fun _ _ hs => hs) fun f s hs => ⟨hs.1, Or.inr hs.2⟩

theorem restoreItems (h : Upkeep plan A I E) (hE : Tolerates A E) (hstop : A .stop)
    {kind : ItemKind} {c : Collection}
    (hcontainer : Restoring.Keeps I (plan.containerFor kind c.path) E)
    (hitem : ∀ container entry, .ok entry ∈ c.entries →
      Restoring.Keeps I (plan.restoreItem kind c container entry) E) :
    Restoring.Keeps I (plan.restoreItems kind c) (Stopping E) :=
  Restoring.Keeps.bind (hcontainer.mono fun _ _ _ => Or.inl) fun container =>
    h.forEachEntry hE hstop (hitem container)

theorem restoreDrive (h : Upkeep plan A I E) (hE : Tolerates A E) (hstop : A .stop)
    {c : Collection} (henter : Restoring.Keeps I (plan.enterFolder c) E)
    (hentry : ∀ address folder entry, .ok entry ∈ c.entries →
      Restoring.Keeps I (plan.restoreDriveEntry c address folder entry) E) :
    Restoring.Keeps I (plan.restoreDrive c) (Stopping E) :=
  Restoring.Keeps.bind (henter.mono fun _ _ _ => Or.inl) fun entered =>
    h.forEachEntry hE hstop (hentry entered.1 entered.2)

theorem restoreCollection {c : Collection} (hE : Tolerates A E)
    (hdrive : c.path.category.handler = .drive →
      Restoring.Keeps I (plan.restoreDrive c) (Stopping E))
    (hitems : ∀ kind, c.path.category.handler = .items kind →
      Restoring.Keeps I (plan.restoreItems kind c) (Stopping E)) :
    Restoring.Keeps I (plan.restoreCollection c) (Stopping E) := by
  unfold Plan.restoreCollection
  dsimp only
  split
  · split
    · exact hdrive ‹_›
    · exact hitems _ ‹_›
  · exact Restoring.Keeps.throw fun s _ => Or.inl (hE.plain _ s rfl)

/-! ## Runs -/

/-- Restoring collections one after the other keeps what restoring each of them keeps. -/
theorem restoreAll (h : Upkeep plan A I E) (hE : Tolerates A E) (hcount : A .countCollection)
    {cs : List Collection}
    (hc : ∀ c ∈ cs, Restoring.Keeps I (plan.restoreCollection c) (Stopping E)) :
    Steps.Keeps I (plan.restoreAll cs) fun _ _ => True := by
  induction cs with
  | nil => exact fun s hs => ⟨hs, trivial⟩
  | cons c cs ih =>
    intro s hs
    have ih := ih fun c' hc' => hc c' (List.mem_cons_of_mem _ hc')
    have hend := hc c (List.mem_cons_self ..) s hs
    rw [Plan.restoreAll_cons]
    split
    · exact ⟨hs, trivial⟩
    rcases hrun : (plan.restoreCollection c).run s with ⟨f | ⟨⟩, t⟩ <;> rw [hrun] at hend
    · obtain ⟨hI, hf⟩ := hend
      -- a collection that fails counts, too
      have hI := h.keep .countCollection t hcount hI
      dsimp only
      split
      · exact ⟨hI, trivial⟩
      · refine ih _ (h.keep (.note f) _ ?_ hI)
        rcases hf with hf | ⟨rfl, -⟩
        · exact hE.note f t hf
        · contradiction
    · exact ih _ (h.keep .countCollection t hcount hend)

end Upkeep

/-! ## What all effects keep -/

/-- The effects of restoring the collections of a handler. -/
def Effect.isOf (h : Handler) : Effect → Bool
  | call (.drive _) => h = .drive
  | call (.items kind _) => h = .items kind
  | metadata _ _ => h = .drive
  | permissionIds _ => h = .drive
  | folder _ _ => h = .drive
  | container p _ => h = p.1.handler
  | _ => true

theorem Effect.isOf_drive {e : Effect}
    (h : e.isFolder ∨ e.isFile ∨ e.isPermission ∨ e.isAccount) : e.isOf .drive := by
  rcases e with (_ | _ | _) | _ | _ | _ | _ | _ | _ | _ | _ | _ <;>
    simp [isFolder, isFile, isPermission, isAccount, isOf] at h ⊢

theorem Effect.isOf_items {kind : ItemKind} {e : Effect} (h : e.isItem kind ∨ e.isAccount) :
    e.isOf (.items kind) := by
  rcases e with (_ | _ | _) | _ | _ | _ | _ | p | _ | _ | _ | _ <;>
    simp [isItem, isAccount, isOf] at h ⊢
  · exact h.symm
  · rw [h]
    cases kind <;> rfl

/-- Any fault but that of being stopped. -/
def Going (f : Fault) (_ : Session σ) : Prop := f.isCancelled = false

theorem Fault.not_isCancelled_of_isPlain {f : Fault} (h : f.isPlain) : f.isCancelled = false := by
  cases f <;> first | rfl | cases h

theorem Fault.not_isCancelled_of_isOfUpdate {f : Fault} (h : f.isOfUpdate) :
    f.isCancelled = false := by
  cases f <;> first | rfl | cases h

theorem tolerates_going (hA : ∀ f, A (.note f)) :
    Tolerates A (Going : Fault → Session σ → Prop) where
  plain _ _ := Fault.not_isCancelled_of_isPlain
  not_cancelled _ _ h := h
  note f _ _ := hA f
  note_plain f _ := hA f

section Handler

variable {handler : Handler}

theorem upkeep_going (hkeep : ∀ e s, e.isOf handler → I s → I (plan.perform e s)) :
    Upkeep plan (fun e => e.isOf handler) I Going :=
  Upkeep.of_keep hkeep fun _ _ => Fault.not_isCancelled_of_isPlain

theorem tolerates_isOf : Tolerates (fun e => e.isOf handler)
    (Going : Fault → Session σ → Prop) :=
  tolerates_going fun _ => rfl

end Handler

/-- What is kept when faults are noted and the restore is stopped is kept by taking entries, if
each of them keeps it. -/
theorem Plan.forEach_keeps (hnote : ∀ f s, I s → I (plan.perform (.note f) s))
    (hstop : ∀ s, I s → I (plan.perform .stop s)) {path : String} {driesUp : Bool}
    {act : Entry → Restoring σ Unit} {entries : List (Except Failure Entry)}
    (hact : ∀ e, Restoring.Keeps I (act e) Going) :
    Restoring.Keeps I (plan.forEach path driesUp act entries) (Stopping Going) := by
  have h : Upkeep plan (fun e => (∃ f, e = .note f) ∨ e = .stop) I Going := by
    refine Upkeep.of_keep ?_ fun _ _ => Fault.not_isCancelled_of_isPlain
    rintro _ s (⟨f, rfl⟩ | rfl) hs
    · exact hnote f s hs
    · exact hstop s hs
  have hentries : Restoring.Ensures I (plan.forEach path driesUp act entries) _ _ :=
    h.forEach (tolerates_going fun f => Or.inl ⟨f, rfl⟩) (Or.inr rfl) fun e _ => hact e
  exact hentries.mono (fun _ hs => hs) (fun _ _ hs => hs) fun f s hs => ⟨hs.1, Or.inr hs.2⟩

/-- Any fault but that of being stopped may end the restoring of permissions. -/
theorem Upkeep.restorePermissions_going (h : Upkeep plan A I Going)
    (hA : ∀ e, e.isPermission → A e) (drive item : String) (path : BackupPath)
    (current : Metadata) :
    Restoring.Keeps I (plan.restorePermissions drive item path current) Going :=
  h.restorePermissions hA (fun _ _ hf _ => Fault.not_isCancelled_of_isOfUpdate hf)
    (fun _ _ _ hf _ _ => not_isCancelled_of_inheritedMetadata hf) drive item current

section DriveHandler

variable (hkeep : ∀ e s, e.isOf .drive → I s → I (plan.perform e s))
include hkeep

theorem Plan.restorePermissions_keeps (drive item : String) (path : BackupPath)
    (current : Metadata) :
    Restoring.Keeps I (plan.restorePermissions drive item path current) Going :=
  (upkeep_going hkeep).restorePermissions_going (fun _ he => Effect.isOf_drive (by simp [he]))
    drive item path current

/-- What all effects of drives keep is kept by entering a folder. -/
theorem Plan.enterFolder_keeps (c : Collection) :
    Restoring.Keeps I (plan.enterFolder c) Going :=
  (upkeep_going hkeep).enterFolder tolerates_isOf
    (fun _ he => Effect.isOf_drive (by simp [he])) (fun _ => rfl)
    fun _ drive id m => Plan.restorePermissions_keeps hkeep drive id c.path m

end DriveHandler

/-- The effects of restoring the entries of a drive collection.  Since version 4 the metadata of
folders is not among them. -/
def Plan.isOfDriveEntry (plan : Plan σ) (e : Effect) : Prop :=
  e.isOf .drive ∧ ∀ p m, e = .metadata p m → plan.version.keepsOwnDirMeta = false

theorem Plan.isOfDriveEntry_of {e : Effect} (h : e.isFile ∨ e.isPermission ∨ e.isAccount) :
    plan.isOfDriveEntry e := by
  refine ⟨Effect.isOf_drive (Or.inr h), ?_⟩
  rintro p m rfl
  rcases h with h | h | h <;> cases h

theorem Plan.keepsOwnDirMeta_of_recognise {c : Collection} {entry : Entry} {path : BackupPath}
    {m : Metadata} (h : plan.recognise c entry = .ok (.folderMetadata path m)) :
    plan.version.keepsOwnDirMeta = false := by
  unfold Plan.recognise at h
  grind

section DriveEntries

variable (hkeep : ∀ e s, plan.isOfDriveEntry e → I s → I (plan.perform e s))
include hkeep

/-- What all effects of drive entries keep is kept by an entry. -/
theorem Plan.restoreDriveEntry_keeps (c : Collection) (address : DriveAddress)
    (folder : String) (entry : Entry) :
    Restoring.Keeps I (plan.restoreDriveEntry c address folder entry) Going := by
  have h : Upkeep plan plan.isOfDriveEntry I Going :=
    Upkeep.of_keep hkeep fun _ _ => Fault.not_isCancelled_of_isPlain
  have hE : Tolerates plan.isOfDriveEntry (Going : Fault → Session σ → Prop) :=
    tolerates_going fun _ => ⟨rfl, by rintro _ _ ⟨⟩⟩
  refine h.restoreDriveEntry hE (fun file _ => ?_) fun path m hm => ⟨rfl, fun _ _ _ =>
    Plan.keepsOwnDirMeta_of_recognise hm⟩
  refine h.restoreFile hE (fun _ he => Plan.isOfDriveEntry_of (by simp [he]))
    (h.uploadFile hE (fun _ he => Plan.isOfDriveEntry_of (by simp [he])) _ _ _)
    fun _ id path _ => ?_
  exact h.restorePermissions_going (fun _ he => Plan.isOfDriveEntry_of (by simp [he])) _ _ _ _

/-- What all effects of drive entries keep is kept by any number of them. -/
theorem Plan.driveEntries_keeps (c : Collection) (address : DriveAddress) (folder path : String)
    (driesUp : Bool) (es : List (Except Failure Entry)) :
    Restoring.Keeps I (plan.forEach path driesUp (plan.restoreDriveEntry c address folder) es)
      (Stopping Going) :=
  Plan.forEach_keeps (fun _ s => hkeep _ s ⟨rfl, by rintro _ _ ⟨⟩⟩)
    (fun s => hkeep _ s ⟨rfl, by rintro _ _ ⟨⟩⟩)
    fun e => Plan.restoreDriveEntry_keeps hkeep c address folder e

end DriveEntries

section ItemHandler

variable {kind : ItemKind} (hkeep : ∀ e s, e.isOf (.items kind) → I s → I (plan.perform e s))
include hkeep

/-- What all effects of items of a kind keep is kept by finding their container. -/
theorem Plan.containerFor_keeps (path : BackupPath) :
    Restoring.Keeps I (plan.containerFor kind path) Going :=
  (upkeep_going hkeep).containerFor (fun _ _ => Effect.isOf_items (by simp [Effect.isItem]))
    (fun _ _ _ => Effect.isOf_items (by simp [Effect.isItem])) path

/-- What all effects of items of a kind keep is kept by an item. -/
theorem Plan.restoreItem_keeps (c : Collection) (container : String) (entry : Entry) :
    Restoring.Keeps I (plan.restoreItem kind c container entry) Going := by
  have h := upkeep_going hkeep
  refine h.restoreItem tolerates_isOf (fun _ _ => Effect.isOf_items (by simp [Effect.isItem]))
    (fun _ he => Effect.isOf_items (Or.inr he)) fun item => ?_
  exact h.createItem tolerates_isOf (fun _ he => Effect.isOf_items (Or.inl he)) container item

end ItemHandler

/-- What all effects of the handler of a collection keep is kept by the collection. -/
theorem Plan.restoreCollection_keeps {c : Collection}
    (hkeep : ∀ e s, e.isOf c.path.category.handler → I s → I (plan.perform e s)) :
    Restoring.Keeps I (plan.restoreCollection c) (Stopping Going) := by
  have hE : Tolerates (fun e => e.isOf c.path.category.handler)
      (Going : Fault → Session σ → Prop) := tolerates_isOf
  refine Upkeep.restoreCollection hE (fun hdrive => ?_) fun kind hkind => ?_
  · rw [hdrive] at hkeep
    exact (upkeep_going hkeep).restoreDrive tolerates_isOf rfl (Plan.enterFolder_keeps hkeep c)
      fun address folder entry _ =>
        Plan.restoreDriveEntry_keeps (fun e s he => hkeep e s he.1) c address folder entry
  · rw [hkind] at hkeep
    exact (upkeep_going hkeep).restoreItems tolerates_isOf rfl
      (Plan.containerFor_keeps hkeep c.path)
      fun container entry _ => Plan.restoreItem_keeps hkeep c container entry

/-- What all effects keep is kept by a run over any collections. -/
theorem Plan.restoreAll_keeps (hkeep : ∀ e s, I s → I (plan.perform e s))
    (cs : List Collection) : Steps.Keeps I (plan.restoreAll cs) fun _ _ => True := by
  have h : Upkeep plan (fun _ => True) I Going :=
    Upkeep.of_keep (fun e s _ => hkeep e s) fun _ _ => Fault.not_isCancelled_of_isPlain
  exact h.restoreAll (tolerates_going fun _ => trivial) trivial fun c _ =>
    Plan.restoreCollection_keeps fun e s _ => hkeep e s

end TenantRestore
