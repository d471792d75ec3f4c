/-
# The ledger of an entry

What becomes of a single entry: it may be left aside, it may be seen but not be created, it may
be created and counted as restored, or its children may be refused.  For each of these the
ledger is balanced once the fault in which the entry ends is noted, if it ends in one; and the
faults noted before are the mishaps of its exchanges.
-/
import TenantRestore.Proofs.Boundary
import TenantRestore.Proofs.Ledger
import TenantRestore.Proofs.Settle

namespace TenantRestore

variable {σ : Type} {plan : Plan σ}

/-! ## Placing a file or an item -/

/-- An exchange by which something may be created. -/
structure Exchange.Creates (x : Exchange) (r : Except Failure String) : Prop where
  created : x.created? = r.toOption
  receipt : x.receipt? = none
  refuses : x.refuses = false
  mishap : ∀ new, x.mishap? new = none

/-- An exchange by which something may be deleted that is to be replaced. -/
structure Exchange.Deletes (x : Exchange) (old : String) (r : Except Failure Unit) : Prop where
  created : x.created? = none
  receipt : x.receipt? = none
  refuses : x.refuses = false
  done : r = .ok () → ∀ new, x.mishap? new = none
  failed : ∀ f, r = .error f → ∀ new, x.mishap? new = some (.deletingReplacedItemFailed new old f)

/-- What is created when something is placed, even if it is not placed where it should be. -/
def idsPlaced : Except Fault String → List String
  | .ok new => [new]
  | .error f => f.createdItem?.toList

/-- The fault that what is created does not take the place of another one. -/
def faultsPlaced : Except Fault String → List Fault
  | .ok _ => []
  | .error f => f.createdItem?.toList.map fun _ => f

/-- Exchanges by which something may be placed under a key. -/
structure Places (xs : List Exchange) (r : Except Fault String) : Prop where
  receipts_eq : receipts xs = []
  refusals_eq : refusals xs = 0
  creations_eq : creations xs = idsPlaced r
  mishaps_eq : mishaps xs = faultsPlaced r

/-- Something is placed just if it is created. -/
theorem Exchange.Creates.places {x : Exchange} {r : Except Failure String} (hx : x.Creates r) :
    Places [x] (r.mapError .remote) where
  receipts_eq := by simp [receipts, hx.receipt]
  refusals_eq := by simp [refusals, hx.refuses]
  creations_eq := by
    cases r <;>
      simp [creations, hx.created, Except.toOption, Except.mapError, idsPlaced, Fault.createdItem?]
  mishaps_eq := by
    cases r <;>
      simp [mishaps, creations, hx.created, hx.mishap, Except.toOption, Except.mapError,
        faultsPlaced, Fault.createdItem?]

/-- What is created is placed, but not where it should be if the other thing can't be deleted. -/
theorem Exchange.Creates.places_deleting {x y : Exchange} {new old : String}
    {r : Except Failure Unit} (hx : x.Creates (.ok new)) (hy : y.Deletes old r) :
    Places [x, y] (match r with
      | .ok () => .ok new
      | .error f => .error (.deletingReplacedItemFailed new old f)) where
  receipts_eq := by simp [receipts, hx.receipt, hy.receipt]
  refusals_eq := by simp [refusals, hx.refuses, hy.refuses]
  creations_eq := by
    cases r <;>
      simp [creations, hx.created, hy.created, Except.toOption, idsPlaced, Fault.createdItem?]
  mishaps_eq := by
    rcases r with f | ⟨⟩
    · simp [mishaps, creations, hx.created, hx.mishap, hy.created, hy.failed f rfl,
        Except.toOption, faultsPlaced, Fault.createdItem?]
    · simp [mishaps, creations, hx.created, hx.mishap, hy.created, hy.done rfl, Except.toOption,
        faultsPlaced]

theorem Settles.adds {policy : CollisionPolicy} {key : String} {ks ks' : Keys}
    {create : Steps σ (Except Failure String)} {delete : String → Steps σ (Except Failure Unit)}
    (hcreate : ∀ {s r t}, create s = (r, t) →
      ∃ x : Exchange, x.Creates r ∧ plan.Adds s { exchanges := [x] } t)
    (hdelete : ∀ {old s r t}, delete old s = (r, t) →
      ∃ x : Exchange, x.Deletes old r ∧ plan.Adds s { exchanges := [x] } t)
    {s t : Session σ} {r : Except Fault String}
    (h : Settles policy key ks create delete s r ks' t) :
    ∃ xs, Places xs r ∧ plan.Adds s { exchanges := xs } t := by
  cases h with
  | kept _ => exact ⟨[], ⟨rfl, rfl, rfl, rfl⟩, .refl s⟩
  | refused _ hrun =>
    obtain ⟨x, hx, hadds⟩ := hcreate hrun
    exact ⟨[x], hx.places, hadds⟩
  | added _ hrun _ =>
    obtain ⟨x, hx, hadds⟩ := hcreate hrun
    exact ⟨[x], hx.places, hadds⟩
  | replaced _ _ hrun hgone =>
    obtain ⟨x, hx, hadds⟩ := hcreate hrun
    obtain ⟨y, hy, hadds'⟩ := hdelete hgone
    exact ⟨[x, y], hx.places_deleting hy, hadds.trans hadds'⟩
  | stays _ _ hrun hstays =>
    obtain ⟨x, hx, hadds⟩ := hcreate hrun
    obtain ⟨y, hy, hadds'⟩ := hdelete hstays
    exact ⟨[x, y], hx.places_deleting hy, hadds.trans hadds'⟩

theorem Plan.upload_adds {drive folder name : String} {data : ByteArray}
    {policy : CollisionPolicy} {s t : Session σ} {r : Except Failure String}
    (h : plan.askDrive (.upload drive folder name data policy) s = (r, t)) :
    ∃ x : Exchange, x.Creates r ∧ plan.Adds s { exchanges := [x] } t := by
  refine ⟨_, ⟨?_, rfl, rfl, fun _ => rfl⟩, .call h⟩
  cases r <;> rfl

theorem Plan.deleteFile_adds {drive old : String} {s t : Session σ} {r : Except Failure Unit}
    (h : plan.askDrive (.delete drive old) s = (r, t)) :
    ∃ x : Exchange, x.Deletes old r ∧ plan.Adds s { exchanges := [x] } t := by
  refine ⟨_, ⟨rfl, rfl, rfl, ?_, ?_⟩, .call h⟩
  · rintro rfl _
    rfl
  · rintro _ rfl _
    rfl

theorem Plan.create_adds {kind : ItemKind} {container : String} {item : Item} {s t : Session σ}
    {r : Except Failure String} (h : plan.askItems kind (.create container item) s = (r, t)) :
    ∃ x : Exchange, x.Creates r ∧ plan.Adds s { exchanges := [x] } t := by
  refine ⟨_, ⟨?_, rfl, rfl, fun _ => rfl⟩, .call h⟩
  cases r <;> rfl

theorem Plan.deleteItem_adds {kind : ItemKind} {container old : String} {s t : Session σ}
    {r : Except Failure Unit} (h : plan.askItems kind (.delete container old) s = (r, t)) :
    ∃ x : Exchange, x.Deletes old r ∧ plan.Adds s { exchanges := [x] } t := by
  refine ⟨_, ⟨rfl, rfl, rfl, ?_, ?_⟩, .call h⟩
  · rintro rfl _
    rfl
  · rintro _ rfl _
    rfl

theorem Places.after_quiet {made xs : List Exchange} {r : Except Fault String} (h : Places xs r)
    (hquiet : ∀ x ∈ made, x.call.isQuiet) : Places (made ++ xs) r where
  receipts_eq := by rw [receipts_append, receipts_of_isQuiet hquiet, h.receipts_eq]; rfl
  refusals_eq := by rw [refusals_append, refusals_of_isQuiet hquiet, h.refusals_eq]
  creations_eq := by
    rw [creations_append, creations_of_isQuiet hquiet, List.nil_append, h.creations_eq]
  mishaps_eq := by
    rw [mishaps_append_left fun x hx => Call.isStoring_of_isQuiet (hquiet x hx), h.mishaps_eq]

/-! ## Storing a file or an item -/

/-- The ledger of storing a file or an item, which is not yet counted. -/
structure Ledger.OfStoring (l : Ledger) (r : Except Fault (String × Bool)) : Prop where
  tally_eq : l.tally = {}
  folders_eq : l.folders = 0
  receipts_eq : receipts l.exchanges = []
  refusals_eq : refusals l.exchanges = 0
  /-- Something is created unless storing it ends in a fault. -/
  created : (creations l.exchanges).length = if r.isOk then 1 else 0
  /-- Only the mishaps are noted. -/
  faults_eq : l.faults = mishaps l.exchanges

section OfStoring

variable {xs : List Exchange}

/-- Nothing is stored if the keys can't be listed. -/
theorem Ledger.ofStoring_of_isQuiet (hquiet : ∀ x ∈ xs, x.call.isQuiet) (f : Fault) :
    Ledger.OfStoring { exchanges := xs } (.error f) where
  tally_eq := rfl
  folders_eq := rfl
  receipts_eq := receipts_of_isQuiet hquiet
  refusals_eq := refusals_of_isQuiet hquiet
  created := by rw [creations_of_isQuiet hquiet]; rfl
  faults_eq := (mishaps_of_creations (creations_of_isQuiet hquiet)).symm

theorem Places.ofStoring_ok {id : String} (h : Places xs (.ok id)) (replaces : Bool) :
    Ledger.OfStoring { exchanges := xs } (.ok (id, replaces)) :=
  ⟨rfl, rfl, h.receipts_eq, h.refusals_eq, by rw [h.creations_eq]; rfl, h.mishaps_eq.symm⟩

theorem Places.ofStoring_error {f : Fault} (h : Places xs (.error f)) (hf : f.createdItem? = none) :
    Ledger.OfStoring { exchanges := xs } (.error f) := by
  have hcreations := h.creations_eq
  have hmishaps := h.mishaps_eq
  simp only [idsPlaced, faultsPlaced, hf] at hcreations hmishaps
  exact ⟨rfl, rfl, h.receipts_eq, h.refusals_eq, by rw [hcreations]; rfl, hmishaps.symm⟩

/-- What is created beside the one it should replace is stored, and the fault is noted. -/
theorem Places.ofStoring_beside {f : Fault} {id : String} (h : Places xs (.error f))
    (hf : f.createdItem? = some id) (replaces : Bool) :
    Ledger.OfStoring ({ exchanges := xs } ++ { faults := [f] }) (.ok (id, replaces)) := by
  have hcreations := h.creations_eq
  have hmishaps := h.mishaps_eq
  simp only [idsPlaced, faultsPlaced, hf] at hcreations hmishaps
  refine ⟨rfl, rfl, ?_, ?_, ?_, ?_⟩ <;>
    simp [h.receipts_eq, h.refusals_eq, hcreations, hmishaps, Except.isOk, Except.toBool]

/-- A file that has taken the place of another one is renamed; whether that fails is noted. -/
theorem Places.ofStoring_renamed {id drive item name : String} (h : Places xs (.ok id))
    (r : Except Failure Unit) (replaces : Bool) :
    Ledger.OfStoring
      ({ exchanges := xs } ++ { exchanges := [⟨.drive (.rename drive item name), r⟩] } ++
      { faults := faultOf (r.mapError .remote) }) (.ok (id, replaces)) := by
  have hcreations : creations (xs ++ [⟨.drive (.rename drive item name), r⟩]) = [id] := by
    rw [creations_append, h.creations_eq]
    rfl
  have hmishaps := h.mishaps_eq
  simp only [mishaps, h.creations_eq, idsPlaced, List.head?_cons, Option.elim_some]
    at hmishaps
  refine ⟨rfl, rfl, ?_, ?_, ?_, ?_⟩ <;>
    simp only [Ledger.exchanges_append, Ledger.faults_append, List.append_nil, List.nil_append]
  · rw [receipts_append, h.receipts_eq]
    rfl
  · rw [refusals_append, h.refusals_eq]
    rfl
  · rw [hcreations]
    rfl
  · rw [mishaps, hcreations]
    simp only [List.head?_cons, Option.elim_some, List.filterMap_append, hmishaps]
    cases r <;> rfl

end OfStoring

theorem Plan.uploadFile_adds (plan : Plan σ) (drive folder : String) (file : DriveFile)
    (s : Session σ) :
    ∃ l : Ledger, l.OfStoring ((plan.uploadFile drive folder file).run s).1 ∧
      plan.Adds s l ((plan.uploadFile drive folder file).run s).2 := by
  obtain ⟨made, hquiet, hkeys⟩ := plan.fileKeys_quietly drive folder s
  unfold Plan.uploadFile
  rcases hknown : (knownKeys folder (plan.askDrive (.listKeys drive folder))).run s with
    ⟨f | keys, u⟩ <;> rw [hknown] at hkeys
  · rw [Restoring.run_bind_error hknown]
    exact ⟨_, Ledger.ofStoring_of_isQuiet hquiet f, hkeys⟩
  rw [Restoring.run_bind_ok hknown]
  dsimp only
  obtain ⟨r, ks', t, hplace, hways⟩ := plan.places folder file.name keys
    (plan.askDrive (.upload drive folder file.name file.data plan.options.onCollision))
    (fun old => plan.askDrive (.delete drive old)) u
  obtain ⟨xs, hxs, hadds⟩ := hways.adds Plan.upload_adds Plan.deleteFile_adds
  have hplaces := hxs.after_quiet hquiet
  have hplaced := (hkeys.trans hadds).keys folder ks'
  rw [Restoring.run_always_bind hplace]
  cases r with
  | error f =>
    dsimp only
    split
    · rename_i hf
      exact ⟨_, hplaces.ofStoring_error hf, hplaced⟩
    · rename_i id hf
      exact ⟨_, hplaces.ofStoring_beside hf _, hplaced.trans (.note f _)⟩
  | ok id =>
    dsimp only
    split
    · rcases hrename : plan.askDrive (.rename drive id file.name)
        (plan.perform (.keys folder ks') t) with ⟨f | ⟨⟩, v⟩
      · rw [Restoring.run_always_bind hrename]
        exact ⟨_, hplaces.ofStoring_renamed (.error f) _,
          (hplaced.trans (.call hrename)).trans (.note (.remote f) v)⟩
      · rw [Restoring.run_always_bind hrename]
        exact ⟨_, hplaces.ofStoring_renamed (.ok ()) _,
          (hplaced.trans (.call hrename)).trans (.refl v)⟩
    · exact ⟨_, hplaces.ofStoring_ok _, hplaced⟩

theorem Plan.createItem_adds (plan : Plan σ) (kind : ItemKind) (container : String) (item : Item)
    (s : Session σ) :
    ∃ l : Ledger, l.OfStoring ((plan.createItem kind container item).run s).1 ∧
      plan.Adds s l ((plan.createItem kind container item).run s).2 := by
  obtain ⟨made, hquiet, hkeys⟩ := plan.itemKeys_quietly kind container s
  unfold Plan.createItem
  rcases hknown : (knownKeys container (plan.askItems kind (.listKeys container))).run s with
    ⟨f | keys, u⟩ <;> rw [hknown] at hkeys
  · rw [Restoring.run_bind_error hknown]
    exact ⟨_, Ledger.ofStoring_of_isQuiet hquiet f, hkeys⟩
  rw [Restoring.run_bind_ok hknown]
  dsimp only
  obtain ⟨r, ks', t, hplace, hways⟩ := plan.places container item.key keys
    (plan.askItems kind (.create container item))
    (fun old => plan.askItems kind (.delete container old)) u
  obtain ⟨xs, hxs, hadds⟩ := hways.adds Plan.create_adds Plan.deleteItem_adds
  have hplaces := hxs.after_quiet hquiet
  have hplaced := (hkeys.trans hadds).keys container ks'
  rw [Restoring.run_always_bind hplace]
  cases r with
  | error f =>
    dsimp only
    split
    · rename_i hf
      exact ⟨_, hplaces.ofStoring_error hf, hplaced⟩
    · rename_i id hf
      exact ⟨_, hplaces.ofStoring_beside hf _, hplaced.trans (.note f _)⟩
  | ok id => exact ⟨_, hplaces.ofStoring_ok _, hplaced⟩

/-! ## Taking an entry -/

/-- The ledger of an entry that ends in a result, and counts for as many items seen as it should. -/
structure Ledger.Takes (l : Ledger) (r : Except Fault Unit) (seen : Nat) : Prop where
  folders_eq : l.folders = 0
  objects_eq : l.tally.objects = seen
  /-- Only the mishaps are noted on the way. -/
  faults_eq : l.faults = mishaps l.exchanges
  /-- The ledger is balanced once the fault in which the entry ends is noted. -/
  balanced : (l ++ { faults := faultOf r }).Balanced

/-- An entry of which nothing is counted. -/
theorem Ledger.takes_nothing (r : Except Fault Unit) : Ledger.Takes {} r 0 where
  folders_eq := rfl
  objects_eq := rfl
  faults_eq := rfl
  balanced := Ledger.balanced_of_isQuiet (by simp) rfl

/-- An item that can't be read is only seen. -/
theorem Ledger.takes_unread (f : Fault) :
    Ledger.Takes { tally := { objects := 1 } } (.error f) 1 :=
  ⟨rfl, rfl, rfl, rfl, rfl, rfl, Nat.zero_le _, Nat.le_refl _⟩

namespace Ledger.OfStoring

variable {l : Ledger}

/-- What is not stored is only seen. -/
theorem takes_error {f : Fault} (h : l.OfStoring (.error f)) :
    Ledger.Takes ({ tally := { objects := 1 } } ++ l) (.error f) 1 := by
  have hcreated := h.created
  refine ⟨?_, ?_, h.faults_eq, ?_, ?_, ?_, ?_, ?_⟩ <;>
    simp_all [h.folders_eq, h.tally_eq, h.receipts_eq, h.refusals_eq, faultOf, Except.isOk,
      Except.toBool]

/-- An item whose children are refused is only seen. -/
theorem takes_orphan {id container item : String} {replaces : Bool} {kind : ItemKind}
    {children : List Json} (h : l.OfStoring (.ok (id, replaces))) (f : Failure) :
    Ledger.Takes ({ tally := { objects := 1 } } ++ l ++
      { exchanges := [⟨.items kind (.addChildren container item children), .error f⟩] })
      (.error (.remote f)) 1 := by
  have hcreated : (creations l.exchanges).length = 1 := h.created
  have hmishaps : mishaps (l.exchanges ++
      [⟨.items kind (.addChildren container item children), .error f⟩]) = mishaps l.exchanges :=
    mishaps_append_right (by simp; rfl)
  have hreceipts : receipts [⟨.items kind (.addChildren container item children), .error f⟩] = [] :=
    rfl
  have hrefusals : refusals [⟨.items kind (.addChildren container item children), .error f⟩] = 1 :=
    rfl
  have hcreations : creations [⟨.items kind (.addChildren container item children), .error f⟩] =
    [] := rfl
  refine ⟨?_, ?_, ?_, ?_, ?_, ?_, ?_, ?_⟩ <;>
    simp [h.folders_eq, h.tally_eq, h.receipts_eq, h.refusals_eq, h.faults_eq, hcreated, hmishaps,
      hreceipts, hrefusals, hcreations, faultOf]

/-- What is stored counts, whatever comes of it later. -/
theorem takes_ok {id : String} {replaces : Bool} {more quiet : List Exchange} {receipt : Receipt}
    {answer : Except Failure Unit} (h : l.OfStoring (.ok (id, replaces)))
    (hmore : ∀ x ∈ more, x.call.isStoring = false ∧ x.receipt? = none ∧ x.refuses = false)
    (hquiet : ∀ x ∈ quiet, x.call.isQuiet) (r : Except Fault Unit) :
    Ledger.Takes ({ tally := { objects := 1 } } ++ l ++ { exchanges := more } ++
      { tally := { successes := 1, bytes := receipt.size } } ++
      { exchanges := [⟨.receipt receipt, answer⟩] } ++ { exchanges := quiet }) r 1 := by
  have hcreated : (creations l.exchanges).length = 1 := h.created
  have hreceipts : receipts more = [] := List.filterMap_eq_nil_iff.2 fun x hx => (hmore x hx).2.1
  have hcreations : creations more = [] := creations_of_not_isStoring fun x hx => (hmore x hx).1
  have hrefusals : refusals more = 0 :=
    List.countP_eq_zero.2 fun x hx => by simp [(hmore x hx).2.2]
  have hreceipt : receipts (⟨.receipt receipt, answer⟩ :: quiet) = [receipt] :=
    congrArg (receipt :: ·) (receipts_of_isQuiet hquiet)
  have hcreation : creations (⟨.receipt receipt, answer⟩ :: quiet) = [] :=
    (List.filterMap_cons_none rfl).trans (creations_of_isQuiet hquiet)
  have hrefusal : refusals (⟨.receipt receipt, answer⟩ :: quiet) = 0 :=
    (List.countP_cons_of_neg (by simp [Exchange.refuses])).trans (refusals_of_isQuiet hquiet)
  have hmishaps : mishaps (l.exchanges ++ (more ++ ⟨.receipt receipt, answer⟩ :: quiet)) =
      mishaps l.exchanges := by
    refine mishaps_append_right fun x hx => ?_
    rcases List.mem_append.1 hx with hx | hx
    · exact (hmore x hx).1
    · rcases List.mem_cons.1 hx with rfl | hx
      · rfl
      · exact Call.isStoring_of_isQuiet (hquiet x hx)
  refine ⟨?_, ?_, ?_, ?_, ?_, ?_, ?_, ?_⟩ <;>
    simp [h.folders_eq, h.tally_eq, h.receipts_eq, h.refusals_eq, h.faults_eq, hcreated, hreceipts,
      hcreations, hrefusals, hreceipt, hcreation, hrefusal, hmishaps]

end Ledger.OfStoring

/-- What is stored is accounted for by counting it and handing out its receipt. -/
theorem Plan.Adds.credit {s t : Session σ} {l : Ledger} (h : plan.Adds s l t) (r : Receipt) :
    plan.Adds s (l ++ { tally := { successes := 1, bytes := r.size } } ++
        { exchanges := [⟨.receipt r,
          (plan.ask (.receipt r) (plan.perform (.tally fun t => t.succeed r.size) t)).1⟩] })
      (plan.credit r t) := by
  have hcount : plan.Adds t { tally := { successes := 1, bytes := r.size } }
      (plan.perform (.tally fun t => t.succeed r.size) t) := ⟨by simp [perform], rfl, rfl, rfl⟩
  exact (h.trans hcount).trans (.call rfl)

theorem Plan.restoreFile_adds (plan : Plan σ) (c : Collection) (address : DriveAddress)
    (folder : String) (file : DriveFile) (s : Session σ) :
    ∃ l : Ledger, l.Takes ((plan.restoreFile c address folder file).run s).1 1 ∧
      plan.Adds s l ((plan.restoreFile c address folder file).run s).2 := by
  obtain ⟨l, hstoring, hadds⟩ := plan.uploadFile_adds address.drive folder file
    (plan.perform (.tally Tally.see) s)
  have hseen := (Plan.Adds.see s).trans hadds
  rw [Plan.restoreFile_run]
  rcases hupload : (plan.uploadFile address.drive folder file).run
    (plan.perform (.tally Tally.see) s) with ⟨f | ⟨id, updated⟩, t⟩ <;>
    rw [hupload] at hstoring hseen
  · exact ⟨_, hstoring.takes_error, hseen⟩
  have haccount : plan.Adds s _ (plan.account c address file updated t) :=
    (hseen.trans (.refl t)).credit _
  dsimp only
  split
  · rcases c.path.ofFile file with f | path
    · exact ⟨_, hstoring.takes_ok (by simp) (by simp) _, haccount.trans (.refl _)⟩
    · obtain ⟨quiet, hquiet, hpermissions⟩ := plan.restorePermissions_quietly address.drive id path
        file.metadata (plan.account c address file updated t)
      exact ⟨_, hstoring.takes_ok (by simp) hquiet _, haccount.trans hpermissions⟩
  · exact ⟨_, hstoring.takes_ok (by simp) (by simp) _, haccount.trans (.refl _)⟩

theorem Plan.restoreItem_adds (plan : Plan σ) (kind : ItemKind) (c : Collection)
    (container : String) (entry : Entry) (s : Session σ) :
    ∃ l : Ledger, l.Takes ((plan.restoreItem kind c container entry).run s).1 1 ∧
      plan.Adds s l ((plan.restoreItem kind c container entry).run s).2 := by
  rw [Plan.restoreItem_run]
  rcases Item.ofEntry kind entry with f | stored
  · exact ⟨_, Ledger.takes_unread f, .see s⟩
  dsimp only
  generalize stored.locate plan.options.location entry.name = located
  obtain ⟨l, hstoring, hadds⟩ := plan.createItem_adds kind container located.withoutChildren
    (plan.perform (.tally Tally.see) s)
  have hseen := (Plan.Adds.see s).trans hadds
  rcases hcreate : (plan.createItem kind container located.withoutChildren).run
    (plan.perform (.tally Tally.see) s) with ⟨f | ⟨id, updated⟩, t⟩ <;>
    rw [hcreate] at hstoring hseen
  · exact ⟨_, hstoring.takes_error, hseen⟩
  dsimp only
  split
  · exact ⟨_, hstoring.takes_ok (by simp) (by simp) _,
      ((hseen.trans (.refl t)).credit _).trans (.refl _)⟩
  · rcases hchildren : plan.askItems kind (.addChildren container id located.children) t with
      ⟨f | ⟨⟩, u⟩
    · exact ⟨_, hstoring.takes_orphan f, hseen.trans (.call hchildren)⟩
    · refine ⟨_, ?_, ((hseen.trans (.call hchildren)).credit _).trans (.refl _)⟩
      refine hstoring.takes_ok (fun x hx => ?_) (by simp) _
      rw [List.mem_singleton.1 hx]
      exact ⟨rfl, rfl, rfl⟩

/-- Whether an entry that is taken counts as an item seen: in a collection of a drive it has to be
recognised as a file. -/
def Plan.sees (plan : Plan σ) (c : Collection) : Entrance → Entry → Bool
  | .drive _ _, e => (plan.recognise c e).toOption.any fun
    | .file _ => true
    | _ => false
  | .items _ _, _ => true

/-- What taking an entry adds to a session. -/
theorem Plan.take_adds (plan : Plan σ) (c : Collection) (entrance : Entrance) (e : Entry)
    (s : Session σ) :
    ∃ l : Ledger, l.Takes ((plan.take c entrance e).run s).1 (plan.sees c entrance e).toNat ∧
      plan.Adds s l ((plan.take c entrance e).run s).2 := by
  cases entrance with
  | items kind container => exact plan.restoreItem_adds kind c container e s
  | drive address folder =>
    simp only [Plan.take, Plan.restoreDriveEntry, Plan.sees]
    rcases hentry : plan.recognise c e with f | ⟨file⟩ | ⟨path, m⟩ | _
    · exact ⟨{}, Ledger.takes_nothing _, .refl s⟩
    · exact plan.restoreFile_adds c address folder file s
    · exact ⟨{}, Ledger.takes_nothing _, (Plan.Adds.refl s).metadata path.text m⟩
    · exact ⟨{}, Ledger.takes_nothing _, .refl s⟩

end TenantRestore
