/-
# What the steps of a restore do to a session

However long a step of a restore is, it changes the session only by a few elementary effects:
it makes a call, learns something, counts, notes a fault, or is stopped.  This file names
these effects and says of every step which of them it uses.

To show that a step keeps a property of sessions it then suffices to show that the effects it
uses keep it; this is `Upkeep`.  Every step has one theorem that says so, named after the step.
-/
import TenantRestore.Proofs.Ensures
import TenantRestore.Restore.Run

namespace TenantRestore

variable {σ α β : Type}

/-! ## Effects -/

/-- An elementary change of a session. -/
inductive Effect
  /-- Make a call. -/
  | call (call : Call)
  /-- Remember the metadata of a folder. -/
  | metadata (path : String) (metadata : Metadata)
  /-- Remember the new ids of permissions. -/
  | permissionIds (ids : Table String String)
  /-- Remember the keys of a container. -/
  | keys (container : String) (keys : Keys)
  /-- Remember the id of a folder. -/
  | folder (place : String × List String) (id : String)
  /-- Remember the id of a container. -/
  | container (place : Category × String × String) (id : String)
  /-- Count. -/
  | tally (change : Tally → Tally)
  /-- Note a fault. -/
  | note (fault : Fault)
  /-- Be stopped. -/
  | stop
  /-- Count a collection. -/
  | countCollection

/-- The session after an effect. -/
def Plan.perform (plan : Plan σ) : Effect → Session σ → Session σ
  | .call c, s => (plan.ask c s).2
  | .metadata p m, s => { s with registry.metadata := s.registry.metadata.insert p m }
  | .permissionIds ids, s => { s with registry.permissionIds := ids }
  | .keys c ks, s => { s with registry.keys := s.registry.keys.insert c ks }
  | .folder p id, s => { s with registry.folders := s.registry.folders.insert p id }
  | .container p id, s => { s with registry.containers := s.registry.containers.insert p id }
  | .tally f, s => { s with progress.tally := f s.progress.tally }
  | .note f, s => (plan.note f s).2
  | .stop, s => { s with stopped := true }
  | .countCollection, s => { s with progress.folders := s.progress.folders + 1 }

/-- Whether a call looks for a folder or creates one. -/
def DriveCall.isFolder : DriveCall → Bool
  | .rootFolder _ | .findFolder _ _ _ | .createFolder _ _ _ => true
  | _ => false

/-- Whether a call concerns the files in a folder. -/
def DriveCall.isFile : DriveCall → Bool
  | .listKeys _ _ | .upload _ _ _ _ _ | .delete _ _ | .rename _ _ _ => true
  | _ => false

/-- Whether a call concerns the files in a given folder. -/
def DriveCall.isFileIn (drive folder : String) : DriveCall → Bool
  | .listKeys d f | .upload d f _ _ _ => d = drive ∧ f = folder
  | .delete d _ | .rename d _ _ => d = drive
  | _ => false

/-- Whether a call concerns the items in a given container. -/
def ItemCall.isItemIn (container : String) : ItemCall → Bool
  | .listKeys c | .create c _ | .addChildren c _ _ | .delete c _ => c = container
  | .container _ _ => false

/-- Whether a call concerns a permission. -/
def DriveCall.isPermission : DriveCall → Bool
  | .grant _ _ _ | .revoke _ _ _ => true
  | _ => false

namespace Effect

/-- The effects of finding the folder of a collection. -/
def isFolder : Effect → Bool
  | call (.drive c) => c.isFolder
  | folder _ _ => true
  | _ => false

/-- The effects of storing a file. -/
def isFile : Effect → Bool
  | call (.drive c) => c.isFile
  | keys _ _ => true
  | _ => false

/-- The effects of storing a file in a given folder. -/
def isFileIn (drive folder : String) : Effect → Bool
  | call (.drive c) => c.isFileIn drive folder
  | keys c _ => c = folder
  | _ => false

theorem isFile_of_in {drive folder : String} {e : Effect} (h : e.isFileIn drive folder) :
    e.isFile := by
  unfold isFileIn at h
  split at h
  · unfold DriveCall.isFileIn at h
    split at h <;> first | rfl | cases h
  · rfl
  · cases h

/-- The effects of restoring permissions. -/
def isPermission : Effect → Bool
  | call (.drive c) => c.isPermission
  | permissionIds _ => true
  | _ => false

/-- The effects of restoring the permissions of one item or folder. -/
def isPermissionOn (drive item : String) : Effect → Bool
  | call (.drive (.grant d i _)) => d = drive ∧ i = item
  | call (.drive (.revoke d i _)) => d = drive ∧ i = item
  | permissionIds _ => true
  | _ => false

theorem isPermission_of_on {drive item : String} {e : Effect} (h : e.isPermissionOn drive item) :
    e.isPermission := by
  unfold isPermissionOn at h
  split at h <;> first | rfl | cases h

/-- The effects of restoring items of a kind. -/
def isItem (kind : ItemKind) : Effect → Bool
  | call (.items k _) => k = kind
  | keys _ _ => true
  | container p _ => p.1 = kind.category
  | _ => false

/-- The effects of finding the container of a collection. -/
def isContainer (kind : ItemKind) : Effect → Bool
  | call (.items k (.container _ _)) => k = kind
  | container p _ => p.1 = kind.category
  | _ => false

theorem isItem_of_isContainer {kind : ItemKind} {e : Effect} (h : e.isContainer kind) :
    e.isItem kind := by
  unfold isContainer at h
  split at h
  · exact h
  · exact h
  · cases h

/-- The effects of storing an item of a kind in a given container. -/
def isItemIn (kind : ItemKind) (container : String) : Effect → Bool
  | call (.items k c) => k = kind ∧ c.isItemIn container
  | keys c _ => c = container
  | _ => false

theorem isItem_of_in {kind : ItemKind} {container : String} {e : Effect}
    (h : e.isItemIn kind container) : e.isItem kind := by
  unfold isItemIn at h
  split at h
  · simpa [isItem] using (of_decide_eq_true h).1
  · rfl
  · cases h

/-- The effects of accounting for what is restored. -/
def isAccount : Effect → Bool
  | call (.receipt _) => true
  | tally _ => true
  | _ => false

end Effect

/-- Whether a fault can end any step of a restore: all can, except for being stopped and for
the two that only arise from permissions. -/
def Fault.isPlain : Fault → Bool
  | .missingParentMetadata _ | .noNewPermissionId _ | .cancelled => false
  | _ => true

/-- The effects with `A` keep a property of sessions, and a failed call is a fault that is
related to the session by `E`. -/
structure Upkeep (plan : Plan σ) (A : Effect → Prop) (I : Session σ → Prop)
    (E : Fault → Session σ → Prop) : Prop where
  keep : ∀ e s, A e → I s → I (plan.perform e s)
  failed : ∀ c s f, A (.call c) → I s → (plan.ask c s).1 = .error f →
    E (.remote f) (plan.ask c s).2

/-- The faults allowed by `E` are enough for a restore: all plain ones are among them, being
stopped is not, and the effects with `A` contain that of noting them. -/
structure Tolerates (A : Effect → Prop) (E : Fault → Session σ → Prop) : Prop where
  plain : ∀ f s, Fault.isPlain f → E f s
  not_cancelled : ∀ f s, E f s → f.isCancelled = false
  note : ∀ f s, E f s → A (.note f)
  note_plain : ∀ f, Fault.isPlain f → A (.note f)

namespace Upkeep

variable {plan : Plan σ} {A : Effect → Prop} {I : Session σ → Prop}
  {E : Fault → Session σ → Prop}

/-- Where all plain faults are allowed, it suffices that the effects keep the property. -/
theorem of_keep (hkeep : ∀ e s, A e → I s → I (plan.perform e s))
    (hplain : ∀ f s, Fault.isPlain f → E f s) : Upkeep plan A I E where
  keep := hkeep
  failed _ _ _ _ _ _ := hplain _ _ rfl

/-! ## Elementary steps -/

theorem ask (h : Upkeep plan A I E) {c : Call} (hA : A (.call c)) :
    Steps.Keeps I (plan.ask c) fun r t => ∀ f, r = .error f → E (.remote f) t :=
  fun s hs => ⟨h.keep (.call c) s hA hs, fun f hf => h.failed c s f hA hs hf⟩

theorem need (h : Upkeep plan A I E) {c : Call} (hA : A (.call c)) :
    Restoring.Keeps I (Restoring.need (plan.ask c)) E := by
  intro s hs
  obtain ⟨hI, hE⟩ := h.ask hA s hs
  rw [Restoring.run_need]
  cases hr : (plan.ask c s).1 with
  | ok a => exact hI
  | error f => exact ⟨hI, hE f hr⟩

theorem rememberMetadata (h : Upkeep plan A I E) {path : BackupPath} {m : Metadata}
    (hA : A (.metadata path.text m)) :
    Restoring.Keeps I (Restoring.always (rememberMetadata path m)) E :=
  fun s hs => h.keep _ s hA hs

theorem note (h : Upkeep plan A I E) {f : Fault} (hA : A (.note f)) :
    Restoring.Keeps I (Restoring.always (plan.note f)) E :=
  fun s hs => h.keep _ s hA hs

theorem tally (h : Upkeep plan A I E) {f : Tally → Tally} (hA : A (.tally f)) :
    Restoring.Keeps I (Restoring.always (tally f)) E :=
  fun s hs => h.keep _ s hA hs

theorem handOut (h : Upkeep plan A I E) {r : Receipt} (hA : A (.call (.receipt r))) :
    Restoring.Keeps I (Restoring.always (plan.handOut r)) E :=
  fun s hs => h.keep _ s hA hs

/-! ## Storing under a collision policy -/

theorem knownKeys (h : Upkeep plan A I E) {container : String}
    {ask : Steps σ (Except Failure Keys)} (hask : Restoring.Keeps I (Restoring.need ask) E)
    (hA : ∀ ks, A (.keys container ks)) : Restoring.Keeps I (knownKeys container ask) E := by
  refine Restoring.Ensures.get_bind fun s hs => ?_
  split
  · exact hs
  · refine Restoring.Keeps.bind hask (fun ks => ?_) s hs
    refine Restoring.Keeps.bind ?_ fun _ => Restoring.Keeps.pure
    exact fun s hs => h.keep (.keys container ks) s (hA ks) hs

/-- Settling an item has no effects but those of creating it and of deleting the one it
replaces, and only plain faults. -/
theorem settle {policy : CollisionPolicy} {key : String} {keys : Keys}
    {create : Steps σ (Except Failure String)} {delete : String → Steps σ (Except Failure Unit)}
    (hcreate : Steps.Keeps I create fun _ _ => True)
    (hdelete : ∀ old, Steps.Keeps I (delete old) fun _ _ => True) :
    Steps.Keeps I (policy.settle key keys create delete)
      fun r _ => ∀ f, r.1 = .error f → f.isPlain := by
  unfold CollisionPolicy.settle
  split
  · exact fun s hs => ⟨hs, by rintro _ ⟨⟩; rfl⟩
  refine Steps.Keeps.bind hcreate ?_
  rintro (f | new)
  · exact fun s hs => ⟨hs, by rintro _ ⟨⟩; rfl⟩
  dsimp only
  -- only when an item is replaced is there one to delete
  split
  · refine Steps.Keeps.bind (hdelete _) ?_
    rintro (f | ⟨⟩)
    · exact fun s hs => ⟨hs, by rintro _ ⟨⟩; rfl⟩
    · exact fun s hs => ⟨hs, by rintro _ ⟨⟩⟩
  · exact fun s hs => ⟨hs, by rintro _ ⟨⟩⟩

theorem place (h : Upkeep plan A I E) {container key : String} {keys : Keys}
    {create : Steps σ (Except Failure String)} {delete : String → Steps σ (Except Failure Unit)}
    (hcreate : Steps.Keeps I create fun _ _ => True)
    (hdelete : ∀ old, Steps.Keeps I (delete old) fun _ _ => True)
    (hA : ∀ ks, A (.keys container ks)) :
    Steps.Keeps I (plan.place container key keys create delete)
      fun r _ => ∀ f, r = .error f → f.isPlain := by
  have hsettle : Steps.Keeps I (plan.options.onCollision.settle key keys create delete) _ :=
    settle hcreate hdelete
  intro s hs
  obtain ⟨hI, hplain⟩ := hsettle s hs
  exact ⟨h.keep (.keys container _) _ (hA _) hI, hplain⟩

/-! ## Taking entries -/

theorem another : Restoring.Ensures I (another : Restoring σ Bool) (fun _ s => I s)
    fun f s => I s ∧ f = .cancelled ∧ s.stopped := by
  intro s hs
  unfold TenantRestore.another
  simp only [Restoring.run_bind, Restoring.run_get]
  split
  · exact hs
  · split
    · rename_i hstopped
      exact ⟨hs, rfl, hstopped⟩
    · exact hs

/-- Taking the entries of a collection ends in no other fault than that of being stopped. -/
theorem forEach (h : Upkeep plan A I E) {path : String} {driesUp : Bool}
    {act : Entry → Restoring σ Unit} {entries : List (Except Failure Entry)}
    (hE : Tolerates A E) (hstop : A .stop)
    (hact : ∀ e, .ok e ∈ entries → Restoring.Keeps I (act e) E) :
    Restoring.Ensures I (plan.forEach path driesUp act entries) (fun _ s => I s)
      fun f s => I s ∧ f = .cancelled ∧ s.stopped := by
  induction entries with
  | nil =>
    refine Restoring.Ensures.bind another ?_
    rintro (_ | _)
    · exact fun s hs => hs
    · -- entries that dry up stop the restore
      cases driesUp with
      | false => exact fun s hs => hs
      | true => exact fun s hs => ⟨h.keep .stop s hstop hs, rfl, rfl⟩
  | cons x rest ih =>
    have ih := ih fun e he => hact e (List.mem_cons_of_mem _ he)
    cases x with
    | error f =>
      refine Restoring.Ensures.bind another ?_
      rintro (_ | _)
      · exact fun s hs => hs
      · refine Restoring.Ensures.bind (Q := fun _ s => I s) ?_ fun _ => ih
        exact fun s hs => h.keep (.note _) s (hE.note_plain _ rfl) hs
    | ok e =>
      refine Restoring.Ensures.bind another ?_
      rintro (_ | _)
      · exact fun s hs => hs
      · refine Restoring.Ensures.bind
          (Restoring.Ensures.always (hact e (List.mem_cons_self ..)).caught) fun r => ?_
        refine Restoring.Ensures.bind (Q := fun _ s => I s) ?_ fun _ => ih
        rintro s ⟨hI, hfault⟩
        cases r with
        | ok _ => exact hI
        | error f =>
          -- the fault is not that of being stopped, so it is noted
          have hf := hfault f rfl
          simp only [Plan.noteEntry, hE.not_cancelled f s hf]
          exact h.keep (.note f) s (hE.note f s hf) hI

end Upkeep

end TenantRestore
