/-
# The ledger of a restore

What becomes of a restore can be read in several places: the calls with what came back from them,
the faults in its log, its counts, and the receipts it has handed out.  They are kept up in
different steps, so that they agree is not to be seen at any single one of them.

Here all that a part of a restore adds to its session is put into one ledger, and the ledgers of
parts that follow each other are joined.  `Ledger.Balanced` says that the counts, the receipts,
the faults and the calls of a ledger agree; joined ledgers that are balanced are balanced.
-/
import Mathlib.Algebra.GroupWithZero.Nat
import Mathlib.Data.List.Basic
import TenantRestore.Proofs.Course

namespace TenantRestore

/-! ## What exchanges tell -/

/-- Whether a call creates a file or an item, or concerns one that is to be replaced. -/
def Call.isStoring : Call → Bool
  | .drive (.upload _ _ _ _ _) | .drive (.delete _ _) | .drive (.rename _ _ _) => true
  | .items _ (.create _ _) | .items _ (.delete _ _) => true
  | _ => false

/-- Whether a call neither stores anything, nor adds children to it, nor hands out a receipt. -/
def Call.isQuiet : Call → Bool
  | .receipt _ | .items _ (.addChildren _ _ _) => false
  | c => !c.isStoring

namespace Exchange

/-- The receipt that has been handed out. -/
def receipt? (x : Exchange) : Option Receipt :=
  match x.call with
  | .receipt r => some r
  | _ => none

/-- The id of the file or item that has been created. -/
def created? : Exchange → Option String
  | ⟨.drive (.upload _ _ _ _ _), .ok id⟩ => some id
  | ⟨.items _ (.create _ _), .ok id⟩ => some id
  | _ => none

/-- Whether the children of an item have been refused. -/
def refuses : Exchange → Bool
  | ⟨.items _ (.addChildren _ _ _), .error _⟩ => true
  | _ => false

/-- The fault that a new file or item has not taken the place of the one it replaces: this can't
be deleted, or the new file can't get its name. -/
def mishap? (new : String) : Exchange → Option Fault
  | ⟨.drive (.delete _ old), .error f⟩ => some (.deletingReplacedItemFailed new old f)
  | ⟨.items _ (.delete _ old), .error f⟩ => some (.deletingReplacedItemFailed new old f)
  | ⟨.drive (.rename _ _ _), .error f⟩ => some (.remote f)
  | _ => none

theorem created?_of_not_isStoring {x : Exchange} (h : x.call.isStoring = false) :
    x.created? = none := by
  unfold created?
  split <;> first | rfl | cases h

theorem mishap?_of_not_isStoring {x : Exchange} (h : x.call.isStoring = false) (new : String) :
    x.mishap? new = none := by
  unfold mishap?
  split <;> first | rfl | cases h

theorem receipt?_of_isQuiet {x : Exchange} (h : x.call.isQuiet) : x.receipt? = none := by
  unfold receipt?
  split
  · rename_i hcall
    rw [hcall] at h
    cases h
  · rfl

theorem refuses_of_isQuiet {x : Exchange} (h : x.call.isQuiet) : x.refuses = false := by
  unfold refuses
  split
  · cases h
  · rfl

end Exchange

theorem Call.isStoring_of_isQuiet {c : Call} (h : c.isQuiet) : c.isStoring = false := by
  unfold isQuiet at h
  split at h
  · cases h
  · cases h
  · simpa using h

/-- The receipts that some exchanges have handed out. -/
def receipts (xs : List Exchange) : List Receipt := xs.filterMap Exchange.receipt?

/-- The ids of the files and items that some exchanges have created. -/
def creations (xs : List Exchange) : List String := xs.filterMap Exchange.created?

/-- How often children have been refused. -/
def refusals (xs : List Exchange) : Nat := xs.countP Exchange.refuses

/-- The faults of a file or item that was created, but has not taken the place of another one. -/
def mishaps (xs : List Exchange) : List Fault :=
  (creations xs).head?.elim [] fun new => xs.filterMap (Exchange.mishap? new)

/-- The fault in which a step ends, if it does. -/
def faultOf {α : Type} : Except Fault α → List Fault
  | .ok _ => []
  | .error f => [f]

@[simp] theorem receipts_nil : receipts [] = [] := rfl

@[simp] theorem creations_nil : creations [] = [] := rfl

@[simp] theorem refusals_nil : refusals [] = 0 := rfl

@[simp] theorem receipts_append (xs ys : List Exchange) :
    receipts (xs ++ ys) = receipts xs ++ receipts ys := List.filterMap_append

@[simp] theorem creations_append (xs ys : List Exchange) :
    creations (xs ++ ys) = creations xs ++ creations ys := List.filterMap_append

@[simp] theorem refusals_append (xs ys : List Exchange) :
    refusals (xs ++ ys) = refusals xs + refusals ys := List.countP_append

section Quiet

variable {xs ys : List Exchange}

theorem creations_of_not_isStoring (h : ∀ x ∈ xs, x.call.isStoring = false) :
    creations xs = [] :=
  List.filterMap_eq_nil_iff.2 fun x hx => Exchange.created?_of_not_isStoring (h x hx)

theorem receipts_of_isQuiet (h : ∀ x ∈ xs, x.call.isQuiet) : receipts xs = [] :=
  List.filterMap_eq_nil_iff.2 fun x hx => Exchange.receipt?_of_isQuiet (h x hx)

theorem creations_of_isQuiet (h : ∀ x ∈ xs, x.call.isQuiet) : creations xs = [] :=
  creations_of_not_isStoring fun x hx => Call.isStoring_of_isQuiet (h x hx)

theorem refusals_of_isQuiet (h : ∀ x ∈ xs, x.call.isQuiet) : refusals xs = 0 :=
  List.countP_eq_zero.2 fun x hx => by simp [Exchange.refuses_of_isQuiet (h x hx)]

/-- Where nothing is created, nothing can fail to take another place. -/
theorem mishaps_of_creations (h : creations xs = []) : mishaps xs = [] := by
  rw [mishaps, h]
  rfl

/-- The mishaps are not changed by exchanges that store nothing. -/
theorem mishaps_append_left (h : ∀ x ∈ xs, x.call.isStoring = false) :
    mishaps (xs ++ ys) = mishaps ys := by
  have hnone (new : String) : xs.filterMap (Exchange.mishap? new) = [] :=
    List.filterMap_eq_nil_iff.2 fun x hx => Exchange.mishap?_of_not_isStoring (h x hx) new
  simp [mishaps, creations_of_not_isStoring h, List.filterMap_append, hnone]

theorem mishaps_append_right (h : ∀ y ∈ ys, y.call.isStoring = false) :
    mishaps (xs ++ ys) = mishaps xs := by
  have hnone (new : String) : ys.filterMap (Exchange.mishap? new) = [] :=
    List.filterMap_eq_nil_iff.2 fun x hx => Exchange.mishap?_of_not_isStoring (h x hx) new
  simp [mishaps, creations_of_not_isStoring h, List.filterMap_append, hnone]

end Quiet

/-! ## Counts -/

namespace Tally

@[simp] theorem objects_add (a b : Tally) : (a + b).objects = a.objects + b.objects := rfl

@[simp] theorem successes_add (a b : Tally) : (a + b).successes = a.successes + b.successes := rfl

@[simp] theorem bytes_add (a b : Tally) : (a + b).bytes = a.bytes + b.bytes := rfl

protected theorem zero_add (a : Tally) : {} + a = a := by
  change Tally.mk _ _ _ = a
  simp

protected theorem add_assoc (a b c : Tally) : a + b + c = a + (b + c) := by
  change Tally.mk _ _ _ = Tally.mk _ _ _
  simp [Nat.add_assoc]

end Tally

/-! ## Ledgers -/

/-- What a part of a restore adds to its session. -/
structure Ledger where
  /-- The calls that are made, with what comes back. -/
  exchanges : List Exchange := []
  /-- The faults that are noted. -/
  faults : List Fault := []
  /-- What is counted. -/
  tally : Tally := {}
  /-- How many collections are handled. -/
  folders : Nat := 0

namespace Ledger

instance : Append Ledger where
  append l l' :=
    ⟨l.exchanges ++ l'.exchanges, l.faults ++ l'.faults, l.tally + l'.tally,
      l.folders + l'.folders⟩

@[simp] theorem exchanges_append (l l' : Ledger) :
    (l ++ l').exchanges = l.exchanges ++ l'.exchanges := rfl

@[simp] theorem faults_append (l l' : Ledger) : (l ++ l').faults = l.faults ++ l'.faults := rfl

@[simp] theorem tally_append (l l' : Ledger) : (l ++ l').tally = l.tally + l'.tally := rfl

@[simp] theorem folders_append (l l' : Ledger) :
    (l ++ l').folders = l.folders + l'.folders := rfl

/-- The counts, the receipts, the faults and the calls of a ledger agree. -/
structure Balanced (l : Ledger) : Prop where
  /-- For every item that counts as restored a receipt is handed out. -/
  successes : l.tally.successes = (receipts l.exchanges).length
  /-- The bytes are those of the receipts. -/
  bytes : l.tally.bytes = ((receipts l.exchanges).map Receipt.size).sum
  /-- An item that is created counts as restored, unless its children are refused. -/
  created : (creations l.exchanges).length = l.tally.successes + refusals l.exchanges
  /-- What is restored has been seen. -/
  seen : l.tally.successes ≤ l.tally.objects
  /-- For every item that is seen but not restored there is a fault. -/
  explained : l.tally.objects ≤ l.tally.successes + l.faults.length

theorem Balanced.append {l l' : Ledger} (h : l.Balanced) (h' : l'.Balanced) :
    (l ++ l').Balanced where
  successes := by simp [h.successes, h'.successes]
  bytes := by simp [h.bytes, h'.bytes]
  created := by
    have hcreated := h.created
    have hcreated' := h'.created
    simp only [exchanges_append, creations_append, refusals_append, tally_append,
      Tally.successes_add, List.length_append]
    omega
  seen := Nat.add_le_add h.seen h'.seen
  explained := by
    have hexplained := h.explained
    have hexplained' := h'.explained
    simp only [tally_append, faults_append, Tally.objects_add, Tally.successes_add,
      List.length_append]
    omega

/-- A ledger that counts no items is balanced if its exchanges store nothing either. -/
theorem balanced_of_isQuiet {l : Ledger} (hquiet : ∀ x ∈ l.exchanges, x.call.isQuiet)
    (htally : l.tally = {}) : l.Balanced where
  successes := by simp [htally, receipts_of_isQuiet hquiet]
  bytes := by simp [htally, receipts_of_isQuiet hquiet]
  created := by simp [htally, creations_of_isQuiet hquiet, refusals_of_isQuiet hquiet]
  seen := by simp [htally]
  explained := by simp [htally]

end Ledger

/-! ## What is added to a session -/

variable {σ α : Type} {plan : Plan σ}

/-- The log after a fault has been noted. -/
def Plan.record (plan : Plan σ) (log : FaultLog) (fault : Fault) : FaultLog :=
  if plan.options.failFast then log.fail fault else log.add fault

/-- A session comes from another one by adding a ledger to it. -/
structure Plan.Adds (plan : Plan σ) (s : Session σ) (l : Ledger) (t : Session σ) : Prop where
  trace : t.trace = s.trace ++ l.exchanges
  faults : t.faults = l.faults.foldl plan.record s.faults
  tally : t.progress.tally = s.progress.tally + l.tally
  folders : t.progress.folders = s.progress.folders + l.folders

namespace Plan.Adds

variable {s t u : Session σ} {l l' : Ledger}

theorem refl (s : Session σ) : plan.Adds s {} s := ⟨by simp, rfl, rfl, rfl⟩

theorem trans (h : plan.Adds s l t) (h' : plan.Adds t l' u) : plan.Adds s (l ++ l') u where
  trace := by simp [h'.trace, h.trace]
  faults := by simp [h'.faults, h.faults]
  tally := by rw [h'.tally, h.tally, Tally.add_assoc]; rfl
  folders := by rw [h'.folders, h.folders, Nat.add_assoc]; rfl

theorem call {c : Call} {r : Except Failure c.Answer} (h : plan.ask c s = (r, t)) :
    plan.Adds s { exchanges := [⟨c, r⟩] } t := by
  cases h
  exact ⟨rfl, rfl, rfl, rfl⟩

/-- What is learnt is not in the ledger. -/
theorem keys (h : plan.Adds s l t) (container : String) (ks : Keys) :
    plan.Adds s l (plan.perform (.keys container ks) t) :=
  ⟨h.trace, h.faults, h.tally, h.folders⟩

theorem metadata (h : plan.Adds s l t) (path : String) (m : Metadata) :
    plan.Adds s l (plan.perform (.metadata path m) t) :=
  ⟨h.trace, h.faults, h.tally, h.folders⟩

theorem note (f : Fault) (s : Session σ) :
    plan.Adds s { faults := [f] } (plan.perform (.note f) s) :=
  ⟨by simp [perform, Plan.note, modify, modifyGet, MonadStateOf.modifyGet, StateT.modifyGet, pure],
    rfl, rfl, rfl⟩

theorem see (s : Session σ) :
    plan.Adds s { tally := { objects := 1 } } (plan.perform (.tally Tally.see) s) :=
  ⟨by simp [perform], rfl, rfl, rfl⟩

theorem countCollection (s : Session σ) :
    plan.Adds s { folders := 1 } (plan.perform .countCollection s) :=
  ⟨by simp [perform], rfl, rfl, rfl⟩

/-- The fault of a step is noted, if it is not that of being stopped. -/
theorem afterEntry {r : Except Fault Unit} (h : plan.Adds s l t)
    (hr : ∀ f, r = .error f → f.isCancelled = false) :
    plan.Adds s (l ++ { faults := faultOf r }) (plan.afterEntry (r, t)) := by
  rcases r with f | ⟨⟩
  · have hgoing := hr f rfl
    simp only [Plan.afterEntry, hgoing, Bool.false_eq_true, ↓reduceIte]
    exact h.trans (.note f t)
  · exact h.trans (.refl t)

end Plan.Adds

/-! ## Keeping the receipts -/

/-- Handlers beside a book in which every receipt is entered that is handed out. -/
def Remote.withBook (handlers : Remote σ) : Remote (σ × List Receipt) where
  serves := handlers.serves
  respond
    | .drive c, s =>
      let (r, t) := handlers.respond (.drive c) s.1
      (r, (t, s.2))
    | .items kind c, s =>
      let (r, t) := handlers.respond (.items kind c) s.1
      (r, (t, s.2))
    | .receipt r, s => (⟨.ok (), false⟩, (s.1, s.2 ++ [r]))

/-- The book of a session has all receipts that have been handed out. -/
def Session.Booked (s : Session (σ × List Receipt)) : Prop := s.remote.2 = receipts s.trace

section Book

variable {plan : Plan (σ × List Receipt)} {handlers : Remote σ}
  (hremote : plan.remote = handlers.withBook)
include hremote

/-- The handlers answer a call about drives, whatever is in the book. -/
theorem Plan.ask_drive_withBook (c : DriveCall) (s : Session (σ × List Receipt)) :
    (plan.ask (.drive c) s).1 = (handlers.respond (.drive c) s.remote.1).1.answer ∧
      (plan.ask (.drive c) s).2.remote =
        ((handlers.respond (.drive c) s.remote.1).2, s.remote.2) := by
  unfold Plan.ask
  rw [hremote]
  exact ⟨rfl, rfl⟩

/-- A receipt is entered in the book, and the handlers do not notice. -/
theorem Plan.ask_receipt_withBook (r : Receipt) (s : Session (σ × List Receipt)) :
    (plan.ask (.receipt r) s).2.remote = (s.remote.1, s.remote.2 ++ [r]) := by
  unfold Plan.ask
  rw [hremote]
  rfl

theorem Session.Booked.perform {s : Session (σ × List Receipt)} (h : s.Booked) (e : Effect) :
    (plan.perform e s).Booked := by
  cases e with
  | call c =>
    have hbook : (plan.ask c s).2.remote.2 = s.remote.2 ++ receipts [⟨c, (plan.ask c s).1⟩] := by
      unfold Plan.ask
      rw [hremote]
      rcases c with c | ⟨kind, c⟩ | r
      · exact (List.append_nil _).symm
      · exact (List.append_nil _).symm
      · rfl
    change _ = receipts (s.trace ++ [⟨c, (plan.ask c s).1⟩])
    rw [receipts_append, ← h]
    exact hbook
  | metadata _ _ | permissionIds _ | keys _ _ | folder _ _ | container _ _ | tally _ | note _
  | stop | countCollection => exact h

end Book

/-! ## Steps that only ask and learn -/

/-- The effects that are not in a ledger, or only by a quiet call. -/
def Effect.isQuiet : Effect → Bool
  | call c => c.isQuiet
  | tally _ | note _ | countCollection => false
  | _ => true

/-- A session comes from another one by quiet calls. -/
def Plan.Quietly (plan : Plan σ) (s t : Session σ) : Prop :=
  ∃ made, (∀ x ∈ made, x.call.isQuiet) ∧ plan.Adds s { exchanges := made } t

theorem Plan.Quietly.refl (s : Session σ) : plan.Quietly s s :=
  ⟨[], by simp, .refl s⟩

theorem Plan.Quietly.perform {s t : Session σ} (h : plan.Quietly s t) {e : Effect}
    (he : e.isQuiet) : plan.Quietly s (plan.perform e t) := by
  obtain ⟨made, hquiet, hadds⟩ := h
  cases e with
  | call c =>
    refine ⟨made ++ [⟨c, (plan.ask c t).1⟩], ?_, hadds.trans (.call rfl)⟩
    intro x hx
    rcases List.mem_append.1 hx with hx | hx
    · exact hquiet x hx
    · rw [List.mem_singleton.1 hx]
      exact he
  | tally _ | note _ | countCollection => cases he
  | metadata _ _ | permissionIds _ | keys _ _ | folder _ _ | container _ _ | stop =>
    exact ⟨made, hquiet, hadds.trace, hadds.faults, hadds.tally, hadds.folders⟩

/-- Quiet effects add nothing but quiet calls. -/
theorem Plan.upkeep_quietly (plan : Plan σ) (s : Session σ) :
    Upkeep plan (fun e => e.isQuiet) (plan.Quietly s) Going :=
  Upkeep.of_keep (fun _ _ he ht => ht.perform he) fun _ _ => Fault.not_isCancelled_of_isPlain

theorem Effect.isQuiet_of_isFolder {e : Effect} (h : e.isFolder) : e.isQuiet := by
  rcases e with (c | _ | _) | _ | _ | _ | _ | _ | _ | _ | _ | _ <;> first | rfl | cases h | skip
  cases c <;> first | rfl | cases h

theorem Effect.isQuiet_of_isPermission {e : Effect} (h : e.isPermission) : e.isQuiet := by
  rcases e with (c | _ | _) | _ | _ | _ | _ | _ | _ | _ | _ | _ <;> first | rfl | cases h | skip
  cases c <;> first | rfl | cases h

theorem Plan.restorePermissions_quietly (plan : Plan σ) (drive item : String) (path : BackupPath)
    (current : Metadata) (s : Session σ) :
    plan.Quietly s ((plan.restorePermissions drive item path current).run s).2 := by
  have hkeeps : Restoring.Keeps (plan.Quietly s)
      (plan.restorePermissions drive item path current) Going :=
    (plan.upkeep_quietly s).restorePermissions_going (fun _ => Effect.isQuiet_of_isPermission) drive
      item path current
  exact hkeeps.snd (.refl s)

theorem Plan.destinationFolder_quietly (plan : Plan σ) (address : DriveAddress) (s : Session σ) :
    plan.Quietly s ((plan.destinationFolder address).run s).2 := by
  have hkeeps : Restoring.Keeps (plan.Quietly s) (plan.destinationFolder address) Going :=
    (plan.upkeep_quietly s).destinationFolder (fun _ => Effect.isQuiet_of_isFolder) address
  exact hkeeps.snd (.refl s)

theorem Plan.containerFor_quietly (plan : Plan σ) (kind : ItemKind) (path : BackupPath)
    (s : Session σ) : plan.Quietly s ((plan.containerFor kind path).run s).2 := by
  have hkeeps : Restoring.Keeps (plan.Quietly s) (plan.containerFor kind path) Going :=
    (plan.upkeep_quietly s).containerFor (fun _ _ => rfl) (fun _ _ _ => rfl) path
  exact hkeeps.snd (.refl s)

theorem Plan.fileKeys_quietly (plan : Plan σ) (drive folder : String) (s : Session σ) :
    plan.Quietly s ((knownKeys folder (plan.askDrive (.listKeys drive folder))).run s).2 := by
  have h := plan.upkeep_quietly s
  have hkeeps : Restoring.Keeps (plan.Quietly s) (knownKeys folder _) Going :=
    h.knownKeys (h.need (c := .drive (.listKeys drive folder)) rfl) fun _ => rfl
  exact hkeeps.snd (.refl s)

theorem Plan.itemKeys_quietly (plan : Plan σ) (kind : ItemKind) (container : String)
    (s : Session σ) :
    plan.Quietly s ((knownKeys container (plan.askItems kind (.listKeys container))).run s).2 := by
  have h := plan.upkeep_quietly s
  have hkeeps : Restoring.Keeps (plan.Quietly s) (knownKeys container _) Going :=
    h.knownKeys (h.need (c := .items kind (.listKeys container)) rfl) fun _ => rfl
  exact hkeeps.snd (.refl s)

end TenantRestore
