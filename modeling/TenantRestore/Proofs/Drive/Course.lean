/-
# From boundary to boundary, as seen from the drive

Between two boundaries a run enters a collection, takes an entry or does nothing to the drive.
So what entering and taking keep holds at every boundary: `Plan.boundary_view`.
-/
import TenantRestore.Proofs.Drive.Steps

namespace TenantRestore

variable {ρ : Type} {plan : Plan (DriveStore × ρ)} {desk : Remote ρ}

/-- Collections whose calls, if any, are about drives. -/
def Plan.OnlyDrives {σ : Type} (plan : Plan σ) (cs : List Collection) : Prop :=
  ∀ c ∈ cs, plan.remote.serves c.path.category.handler → c.path.category.handler = .drive

/-- The entries of a collection a run is in go to its destination folder. -/
def DriveView.Hosts {σ : Type} (plan : Plan σ) (V : DriveView) (p : Passage) : Prop :=
  ∃ address folder, p.entrance = .drive address folder ∧ p.collection.path.drive = .ok address ∧
    address.drive = V.store.drive ∧ V.folder? (plan.options.destination address) = some folder

namespace DriveView

/-! ## What a restore knows of folders -/

theorem folder?_congr {V W : DriveView} (hfolders : W.folders = V.folders)
    (hdrive : W.store.drive = V.store.drive) (place : List String) :
    W.folder? place = V.folder? place := by
  unfold folder?
  rw [hfolders, hdrive]

@[simp] theorem folder?_asked (V : DriveView) (c : DriveCall) (place : List String) :
    (V.asked c).folder? place = V.folder? place :=
  folder?_congr (V := V) (W := V.asked c) rfl (drive_asked V c) place

theorem Shares.folder? {item : String} {V W : DriveView} (h : V.Shares item W)
    (place : List String) : W.folder? place = V.folder? place :=
  folder?_congr h.folders h.drive place

@[simp] theorem folders_listed (V : DriveView) (folder : String) :
    (V.listed folder).folders = V.folders := by
  unfold listed
  split <;> rfl

theorem Files.folders {policy : CollisionPolicy} {folder : String} {file : DriveFile}
    {V W : DriveView} {r : Except Fault (String × Bool)} (h : V.Files policy folder file r W) :
    W.folders = V.folders := by
  cases h <;> rfl

/-- A restore only learns more folders and makes more calls. -/
structure Grows (V W : DriveView) : Prop where
  folder : ∀ place id, V.folder? place = some id → W.folder? place = some id
  trace : V.trace <+: W.trace

namespace Grows

variable {U V W : DriveView}

theorem refl (V : DriveView) : V.Grows V := ⟨fun _ _ h => h, List.prefix_refl _⟩

theorem trans (h : U.Grows V) (h' : V.Grows W) : U.Grows W :=
  ⟨fun place id hid => h'.folder place id (h.folder place id hid), h.trace.trans h'.trace⟩

theorem of_folders (hfolders : W.folders = V.folders) (hdrive : W.store.drive = V.store.drive)
    (htrace : V.trace <+: W.trace) : V.Grows W :=
  ⟨fun place id h => by rw [folder?_congr hfolders hdrive, h], htrace⟩

theorem asked (V : DriveView) (c : DriveCall) : V.Grows (V.asked c) :=
  of_folders rfl (drive_asked V c) (List.prefix_append ..)

theorem heard (V : DriveView) (x : Exchange) : V.Grows (V.heard x) :=
  of_folders rfl rfl (List.prefix_append ..)

theorem keeping (V : DriveView) (folder : String) (ks : Keys) : V.Grows (V.keeping folder ks) :=
  of_folders rfl rfl (List.prefix_refl _)

theorem remembering (V : DriveView) (path : String) (m : Metadata) :
    V.Grows (V.remembering path m) :=
  of_folders rfl rfl (List.prefix_refl _)

theorem knowing {place : List String} (hnew : V.folder? place = none) (id : String) :
    V.Grows (V.knowing (V.store.drive, place) id) := by
  refine ⟨fun place' id' h => ?_, List.prefix_refl _⟩
  rw [folder?_knowing, if_neg]
  · exact h
  · rintro rfl
    rw [hnew] at h
    cases h

theorem shares {item : String} (h : V.Shares item W) : V.Grows W := by
  obtain ⟨xs, hxs, -⟩ := h.trace
  exact of_folders h.folders h.drive ⟨xs, hxs.symm⟩

theorem toward {names : List String} (h : V.Toward names W) : V.Grows W := by
  cases h with
  | look _ => exact heard ..
  | root hnew => exact knowing hnew _
  | found _ _ hnew _ => exact knowing hnew _
  | @created place name parent _ _ hnew _ _ =>
    have hknown := knowing (V := V.asked (.createFolder V.store.drive parent name))
      ((folder?_asked ..).trans hnew) (V.store.newId "folder")
    rw [drive_asked] at hknown
    exact (asked V _).trans hknown
  | orphaned _ _ => exact asked ..

theorem way {names : List String} (h : V.Way names W) : V.Grows W := by
  induction h with
  | refl => exact refl V
  | tail _ hstep ih => exact ih.trans (toward hstep)

theorem listed (V : DriveView) (folder : String) : V.Grows (V.listed folder) := by
  unfold DriveView.listed
  split
  · exact refl V
  · exact (asked ..).trans (keeping ..)

theorem files {policy : CollisionPolicy} {folder : String} {file : DriveFile}
    {r : Except Fault (String × Bool)} (h : V.Files policy folder file r W) : V.Grows W := by
  cases h with
  | kept _ _ _ => exact keeping ..
  | refused _ _ _ | added _ _ _ _ => exact (asked ..).trans (keeping ..)
  | replaced _ _ _ _ _ => exact (((asked ..).trans (asked ..)).trans (keeping ..)).trans (asked ..)
  | stays _ _ _ _ _ => exact ((asked ..).trans (asked ..)).trans (keeping ..)

theorem enters {σ : Type} {plan : Plan σ} {c : Collection} {r : Except Fault Entrance}
    (h : V.Enters plan c r W) : V.Grows W := by
  cases h with
  | unserved _ | unplaced _ _ | unread _ _ _ => exact refl V
  | elsewhere _ _ _ _ _ => exact heard ..
  | lost _ _ _ _ hway _ => exact way hway
  | entered _ _ _ _ hway _ hshares =>
    exact ((way hway).trans (shares hshares)).trans (remembering ..)

theorem takes {σ : Type} {plan : Plan σ} {c : Collection} {folder : String} {e : Entry}
    {r : Except Fault Unit} (h : V.Takes plan c folder e r W) : V.Grows W := by
  cases h with
  | unread _ | nothing _ => exact refl V
  | metadata _ => exact remembering ..
  | failed _ hfiles => exact (listed ..).trans (files hfiles)
  | stored _ hfiles hshares => exact ((listed ..).trans (files hfiles)).trans (shares hshares)

end Grows

/-- A file is stored under a new id. -/
theorem Files.not_given {policy : CollisionPolicy} {folder id : String} {file : DriveFile}
    {updated : Bool} {V W : DriveView} (h : V.Files policy folder file (.ok (id, updated)) W) :
    ¬ Given V.store.count id := by
  cases h with
  | added _ _ hupload _ | replaced _ _ _ hupload _ | stays _ _ _ hupload _ =>
    rw [(DriveStore.upload_of_ok hupload).1]
    exact V.store.not_given_newId "item"

section Taking

variable {σ : Type} {plan : Plan σ} {c : Collection} {folder : String} {e : Entry}
  {V W : DriveView} {r : Except Fault Unit}

theorem Takes.drive (h : V.Takes plan c folder e r W) : W.store.drive = V.store.drive := by
  cases h with
  | unread _ | nothing _ | metadata _ => rfl
  | failed _ hfiles => rw [hfiles.drive, drive_listed]
  | stored _ hfiles hshares => rw [hshares.drive, hfiles.drive, drive_listed]

/-- Taking an entry teaches no folders. -/
theorem Takes.folders (h : V.Takes plan c folder e r W) : W.folders = V.folders := by
  cases h with
  | unread _ | nothing _ | metadata _ => rfl
  | failed _ hfiles => rw [hfiles.folders, folders_listed]
  | stored _ hfiles hshares => rw [hshares.folders, hfiles.folders, folders_listed]

theorem Takes.hosts (h : V.Takes plan c folder e r W) {p : Passage} (hp : V.Hosts plan p) :
    W.Hosts plan p := by
  obtain ⟨address, id, hentrance, hpath, hdrive, hfolder⟩ := hp
  refine ⟨address, id, hentrance, hpath, hdrive.trans h.drive.symm, ?_⟩
  rw [folder?_congr h.folders h.drive, hfolder]

end Taking

/-- A collection that has been entered goes to its destination folder. -/
theorem Enters.hosts {σ : Type} {plan : Plan σ} {c : Collection} {V W : DriveView}
    {entrance : Entrance} (h : V.Enters plan c (.ok entrance) W)
    (rest : List (Except Failure Entry)) : W.Hosts plan ⟨c, entrance, rest⟩ := by
  cases h with
  | entered hhandler hpath hmetadata hdrive hway hfolder hshares =>
    refine ⟨_, _, rfl, hpath, ?_, ?_⟩
    · rw [hdrive, store_remembering, hshares.drive, hway.drive]
    · exact (hshares.folder? _).trans hfolder

end DriveView

section Steps

variable (hremote : plan.remote = DriveStore.beside desk)
include hremote

/-- A collection is entered between two boundaries. -/
theorem Plan.begin_view {c : Collection} {s : Session (DriveStore × ρ)} (hhome : s.view.Home)
    (hc : plan.remote.serves c.path.category.handler → c.path.category.handler = .drive)
    (later : List Collection) :
    ∃ r W, s.view.Enters plan c r W ∧ (plan.begin c later s).session.view = W ∧
      (plan.begin c later s).current = r.toOption.map (fun entrance => ⟨c, entrance, c.entries⟩) ∧
      (plan.begin c later s).later = later := by
  obtain ⟨r, t, hrun, henters⟩ := Plan.enter_view hremote hhome hc
  refine ⟨r, t.view, henters, ?_⟩
  unfold Plan.begin
  rw [hrun]
  cases r with
  | error f =>
    refine ⟨?_, rfl, rfl⟩
    dsimp only [Plan.afterCollection]
    split <;> rfl
  | ok entrance => exact ⟨rfl, rfl, rfl⟩

/-- An entry is taken between two boundaries. -/
theorem Plan.pass_view (c : Collection) {address : DriveAddress} (folder : String) (e : Entry)
    {s : Session (DriveStore × ρ)} (hdrive : address.drive = s.view.store.drive)
    (rest : List (Except Failure Entry)) (later : List Collection) :
    ∃ r W, s.view.Takes plan c folder e r W ∧
      (plan.pass ⟨c, .drive address folder, .ok e :: rest⟩ later s).session.view = W ∧
      ∀ f, r = .error f → f.isCancelled = false → plan.options.onCollision ≠ .replace →
        (plan.pass ⟨c, .drive address folder, .ok e :: rest⟩ later s).session.faults =
          (plan.perform (.note f) s).faults := by
  obtain ⟨r, t, hrun, htakes, hfaults⟩ :=
    Plan.take_view hremote c folder e hdrive
  refine ⟨r, t.view, htakes, ?_, ?_⟩
  · dsimp only [Plan.pass]
    rw [hrun]
    cases r with
    | error f =>
      dsimp only [Plan.afterEntry]
      split <;> rfl
    | ok _ => rfl
  · rintro f rfl hgoing hpolicy
    dsimp only [Plan.pass]
    rw [hrun]
    simp only [Plan.afterEntry, hgoing, Bool.false_eq_true, ↓reduceIte]
    have hnote (u : Session (DriveStore × ρ)) : (plan.perform (.note f) u).faults =
        if plan.options.failFast then u.faults.fail f else u.faults.add f := rfl
    rw [hnote, hnote, hfaults hpolicy]

end Steps

/-- Without an entry nothing happens to the drive. -/
theorem Plan.pass_view_nothing (p : Passage) (later : List Collection)
    (s : Session (DriveStore × ρ)) (hrest : ∀ e rest, p.rest ≠ .ok e :: rest) :
    (plan.pass p later s).session.view = s.view := by
  obtain ⟨c, entrance, rest⟩ := p
  rcases rest with _ | ⟨f | e, rest⟩
  · dsimp only [Plan.pass]
    split <;> rfl
  · rfl
  · exact absurd rfl (hrest e rest)

section Keeps

variable (hremote : plan.remote = DriveStore.beside desk) {cs : List Collection}
  (hcs : plan.OnlyDrives cs) {start : Session (DriveStore × ρ)} {I : DriveView → Prop}
  (hhome : ∀ V, I V → V.Home)
  (henter : ∀ c ∈ cs, ∀ V r W, I V → V.Enters plan c r W → I W)
  (htake : ∀ c ∈ cs, ∀ V address folder e r W, I V → c.path.drive = .ok address →
    address.drive = V.store.drive → V.folder? (plan.options.destination address) = some folder →
    V.Takes plan c folder e r W → I W)
include hremote hcs hhome henter htake

/-- What entering collections and taking entries keep is kept from boundary to boundary. -/
theorem Plan.advance_view {b : Boundary (DriveStore × ρ)} (hlater : ∀ c ∈ b.later, c ∈ cs)
    (hcurrent : ∀ p, b.current = some p → p.collection ∈ cs) (hI : I b.session.view)
    (hhosts : ∀ p, b.current = some p → b.session.view.Hosts plan p) :
    I (plan.advance b).session.view ∧
      ∀ p, (plan.advance b).current = some p → (plan.advance b).session.view.Hosts plan p := by
  rcases plan.advance_cases b with ⟨p, -, hp, heq⟩ | ⟨c, later, -, -, hc, heq⟩ | ⟨-, heq⟩ <;>
    rw [heq]
  · obtain ⟨address, folder, hentrance, hpath, hdrive, hfolder⟩ := hhosts p hp
    have hmem := hcurrent p hp
    have hhost := hhosts p hp
    obtain ⟨c, entrance, rest⟩ := p
    dsimp only at hentrance hpath hmem
    subst hentrance
    rcases rest with _ | ⟨f | e, rest⟩
    · rw [Plan.pass_view_nothing _ _ _ (by simp)]
      exact ⟨hI, by simp [Plan.pass]⟩
    · rw [Plan.pass_view_nothing _ _ _ (by simp)]
      refine ⟨hI, ?_⟩
      rintro _ ⟨⟩
      exact hhost
    · obtain ⟨r, W, htakes, hview, -⟩ :=
        Plan.pass_view hremote c folder e hdrive rest b.later
      rw [hview]
      refine ⟨htake c hmem _ _ _ _ _ _ hI hpath hdrive hfolder htakes, ?_⟩
      rintro _ ⟨⟩
      exact htakes.hosts hhost
  · rw [hc] at hlater
    have hmem := hlater c (List.mem_cons_self ..)
    obtain ⟨r, W, henters, hview, hnow, -⟩ :=
      Plan.begin_view hremote (hhome _ hI) (hcs c hmem) later
    rw [hview, hnow]
    refine ⟨henter c hmem _ _ _ hI henters, ?_⟩
    intro p hp
    cases r with
    | error f => cases hp
    | ok entrance =>
      cases hp
      exact henters.hosts c.entries
  · exact ⟨hI, hhosts⟩

/-- It holds at every boundary if it holds at one before. -/
theorem Plan.boundary_view {m n : Nat} (h : m ≤ n) (hI : I (plan.boundary cs start m).session.view)
    (hhosts : ∀ p, (plan.boundary cs start m).current = some p →
      (plan.boundary cs start m).session.view.Hosts plan p) :
    I (plan.boundary cs start n).session.view ∧
      ∀ p, (plan.boundary cs start n).current = some p →
        (plan.boundary cs start n).session.view.Hosts plan p := by
  induction h with
  | refl => exact ⟨hI, hhosts⟩
  | step _ ih =>
    obtain ⟨hlater, hcurrent⟩ := plan.mem_of_boundary cs start _
    rw [Plan.boundary_succ]
    exact Plan.advance_view hremote hcs hhome henter htake hlater hcurrent ih.1 ih.2

/-- It holds at every boundary if it holds at the start. -/
theorem Plan.boundary_view_start (hstart : I start.view) (n : Nat) :
    I (plan.boundary cs start n).session.view ∧
      ∀ p, (plan.boundary cs start n).current = some p →
        (plan.boundary cs start n).session.view.Hosts plan p :=
  Plan.boundary_view hremote hcs hhome henter htake (Nat.zero_le n) hstart (by simp)

end Keeps

/-- What a drive keeps while it answers calls is kept from boundary to boundary. -/
theorem Plan.store_boundary (hremote : plan.remote = DriveStore.beside desk) {I : DriveStore → Prop}
    (hkeep : ∀ s c, I s → I (s.respond c).2) (cs : List Collection)
    {start : Session (DriveStore × ρ)} (hstart : I start.view.store) (n : Nat) :
    I (plan.boundary cs start n).session.view.store :=
  Plan.boundary_keeps (I := fun s : Session (DriveStore × ρ) => I s.view.store)
    (fun e _ hs => Plan.store_perform hremote hkeep e hs) cs hstart n

/-- A run ends with the view of its last boundary. -/
theorem Plan.view_run_of_over {cs : List Collection} {start : Session (DriveStore × ρ)} {n : Nat}
    (h : (plan.boundary cs start n).over) :
    (plan.run cs start).2.view = (plan.boundary cs start n).session.view := by
  rw [Plan.run_eq_close h]
  have hclose : (plan.close (plan.boundary cs start n)).view =
      (plan.boundary cs start n).session.view := by
    unfold Plan.close
    split <;> rfl
  rw [← hclose]
  unfold conclude
  split
  · rfl
  · split <;> rfl

theorem Plan.view_run (plan : Plan (DriveStore × ρ)) (cs : List Collection)
    (start : Session (DriveStore × ρ)) :
    ∃ n, (plan.boundary cs start n).over ∧
      (plan.run cs start).2.view = (plan.boundary cs start n).session.view := by
  obtain ⟨n, hover⟩ := plan.exists_over cs start
  exact ⟨n, hover, Plan.view_run_of_over hover⟩

end TenantRestore
