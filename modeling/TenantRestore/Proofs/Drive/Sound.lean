/-
# What a restore knows of a drive is true

Whatever a restore does, the folders it knows are folders of the drive, each in the one above it,
and the keys it knows belong to files of their folder, as long as these files are there.  This is
`DriveView.Sound`.  It holds at every boundary of a restore (`Plan.sound_boundary`).

Two classes of drives are looked at: those that can be reached by any calls, on which ids are
never given twice, and those that come about by putting files on them and by restores of drive
collections.  On the latter all nodes are in folders whose ids were given: `DriveStore.Built.tidy`.
-/
import TenantRestore.Proofs.Drive.Course

namespace TenantRestore

variable {ρ : Type} {plan : Plan (DriveStore × ρ)} {desk : Remote ρ}

/-- The ids of nodes and of the folders they are in were given by the drive. -/
structure DriveStore.Tidy (s : DriveStore) : Prop extends Numbered s where
  placed : ∀ n ∈ s.nodes, ∀ p, n.parent = some p → Given s.count p

/-- What a restore that started from the drive `d` knows of a drive is true. -/
structure DriveView.Sound (d : DriveStore) (V : DriveView) : Prop where
  numbered : V.store.Numbered
  count : d.count ≤ V.store.count
  placed : ∀ n ∈ V.store.nodes, ∀ p, n.parent = some p →
    (∃ m ∈ d.nodes, m.parent = some p) ∨ ∃ place, V.folder? place = some p
  home : V.Home
  root : ∀ id, V.folder? [] = some id → id = rootId
  folder : ∀ place name id, V.folder? (place ++ [name]) = some id →
    ∃ parent, V.folder? place = some parent ∧ ⟨id, name, some parent, none⟩ ∈ V.store.nodes
  key : ∀ folder ks name id, V.keys.find? folder = some ks → ks.find? name = some id →
    Given V.store.count id ∧
      ∀ n ∈ V.store.nodes, n.id = id → n.parent = some folder ∧ n.content.isSome

namespace DriveStore.Tidy

variable {s : DriveStore}

theorem new (drive : String) (keepsAll : Bool) :
    Tidy { drive := drive, keepsAll := keepsAll } where
  toNumbered := .new drive keepsAll
  placed n hn p hp := by
    rw [List.mem_singleton.1 hn] at hp
    cases hp

theorem addNode (h : s.Tidy) {parent : String} (hparent : Given s.count parent)
    (word name : String) (content : Option ByteArray) :
    (s.addNode word parent name content).Tidy where
  toNumbered := h.toNumbered.addNode ..
  placed n hn p hp := by
    refine Given.mono ?_ (Nat.le_succ _)
    rcases h.mem_addNode.1 hn with rfl | hn
    · cases hp
      exact hparent
    · exact h.placed n hn p hp

theorem enter (h : s.Tidy) {parent : String} (hparent : Given s.count parent)
    (names : List String) :
    (s.enter parent names).2.Tidy ∧
      Given (s.enter parent names).2.count (s.enter parent names).1 := by
  induction names generalizing s parent with
  | nil => exact ⟨h, hparent⟩
  | cons name names ih =>
    unfold DriveStore.enter
    split
    · rename_i n hchild
      exact ih h (h.given n (mem_of_child? hchild).1)
    · exact ih (h.addNode hparent ..) (s.given_newId "folder")

theorem addFile (h : s.Tidy) (path : String) (data : ByteArray) : (s.addFile path data).2.Tidy := by
  obtain ⟨htidy, hparent⟩ := h.enter (Or.inl rfl)
    (((splitAtChar pathSeparator path).dropLast).filter fun part => part ≠ "")
  exact htidy.addNode hparent ..

end DriveStore.Tidy

namespace DriveView

variable {d : DriveStore} {V W : DriveView}

namespace Sound

/-- The folders a restore knows have ids that were given. -/
theorem given (h : V.Sound d) {place : List String} {id : String}
    (hid : V.folder? place = some id) : Given V.store.count id := by
  rcases List.eq_nil_or_concat place with rfl | ⟨place, name, rfl⟩
  · exact Or.inl (h.root id hid)
  · rw [List.concat_eq_append] at hid
    obtain ⟨parent, -, hnode⟩ := h.folder place name id hid
    exact h.numbered.given _ hnode

theorem placed_grows (h : V.Sound d) (hnodes : W.store.nodes = V.store.nodes) (hgrows : V.Grows W) :
    ∀ n ∈ W.store.nodes, ∀ p, n.parent = some p →
      (∃ m ∈ d.nodes, m.parent = some p) ∨ ∃ place, W.folder? place = some p := by
  intro n hn p hp
  rw [hnodes] at hn
  refine (h.placed n hn p hp).imp_right ?_
  rintro ⟨place, hplace⟩
  exact ⟨place, hgrows.folder _ _ hplace⟩

/-- A restore keeps a drive tidy. -/
theorem tidy (h : V.Sound d) (hd : d.Tidy) : V.store.Tidy where
  toNumbered := h.numbered
  placed n hn p hp := by
    rcases h.placed n hn p hp with ⟨m, hm, hparent⟩ | ⟨place, hplace⟩
    · exact (hd.placed m hm p hparent).mono h.count
    · exact h.given hplace

/-- Nodes may go, and others may change, but for folders and for the ids, places and contents of
files. -/
theorem of_fewer (h : V.Sound d) (hnumbered : W.store.Numbered)
    (hdrive : W.store.drive = V.store.drive) (hcount : V.store.count ≤ W.store.count)
    (hfolders : W.folders = V.folders)
    (hkeys : ∀ folder ks, W.keys.find? folder = some ks → V.keys.find? folder = some ks)
    (hnodes : ∀ n ∈ W.store.nodes, ∃ m ∈ V.store.nodes,
      m.id = n.id ∧ m.parent = n.parent ∧ m.content = n.content)
    (hstay : ∀ n ∈ V.store.nodes, n.content = none → n ∈ W.store.nodes) : W.Sound d where
  numbered := hnumbered
  count := h.count.trans hcount
  placed n hn p hp := by
    obtain ⟨m, hm, -, hparent, -⟩ := hnodes n hn
    refine (h.placed m hm p (hparent.trans hp)).imp_right ?_
    rintro ⟨place, hplace⟩
    exact ⟨place, by rw [folder?_congr hfolders hdrive, hplace]⟩
  home place id hid := by
    rw [hfolders] at hid
    rw [hdrive]
    exact h.home place id hid
  root id hid := by
    rw [folder?_congr hfolders hdrive] at hid
    exact h.root id hid
  folder place name id hid := by
    rw [folder?_congr hfolders hdrive] at hid ⊢
    obtain ⟨parent, hparent, hnode⟩ := h.folder place name id hid
    exact ⟨parent, hparent, hstay _ hnode rfl⟩
  key folder ks name id hks hid := by
    obtain ⟨hgiven, hplace⟩ := h.key folder ks name id (hkeys folder ks hks) hid
    refine ⟨hgiven.mono hcount, fun n hn hn' => ?_⟩
    obtain ⟨m, hm, hmid, hparent, hcontent⟩ := hnodes n hn
    rw [← hparent, ← hcontent]
    exact hplace m hm (hmid.trans hn')

/-- Only the drive, its nodes and what is known of it matter. -/
theorem of_same (h : V.Sound d) (hdrive : W.store.drive = V.store.drive)
    (hcount : V.store.count ≤ W.store.count) (hnodes : W.store.nodes = V.store.nodes)
    (hfolders : W.folders = V.folders)
    (hkeys : ∀ folder ks, W.keys.find? folder = some ks → V.keys.find? folder = some ks) :
    W.Sound d := by
  refine h.of_fewer (h.numbered.of_eq hnodes hcount) hdrive hcount hfolders hkeys ?_ ?_
  · intro n hn
    exact ⟨n, hnodes ▸ hn, rfl, rfl, rfl⟩
  · intro n hn _
    exact hnodes ▸ hn

theorem heard (h : V.Sound d) (x : Exchange) : (V.heard x).Sound d :=
  h.of_same rfl (Nat.le_refl _) rfl rfl fun _ _ hks => hks

theorem remembering (h : V.Sound d) (path : String) (m : Metadata) :
    (V.remembering path m).Sound d :=
  h.of_same rfl (Nat.le_refl _) rfl rfl fun _ _ hks => hks

theorem shares (h : V.Sound d) {item : String} (hshares : V.Shares item W) : W.Sound d := by
  refine h.of_same hshares.drive hshares.count hshares.nodes hshares.folders fun folder ks hks => ?_
  rw [hshares.keys] at hks
  exact hks

/-- A folder is learnt that is in a folder known before. -/
theorem knowing (h : V.Sound d) {place : List String} {name parent id : String}
    (hparent : V.folder? place = some parent) (hnew : V.folder? (place ++ [name]) = none)
    (hnode : ⟨id, name, some parent, none⟩ ∈ V.store.nodes) :
    (V.knowing (V.store.drive, place ++ [name]) id).Sound d where
  numbered := h.numbered
  count := h.count
  placed := h.placed_grows rfl (.knowing hnew id)
  home place' id' hid := by
    simp only [DriveView.knowing, Table.find?_insert] at hid
    split at hid
    · rename_i hplace
      rw [← hplace]
      rfl
    · exact h.home place' id' hid
  root id' hid := by
    rw [folder?_knowing, if_neg (by simp)] at hid
    exact h.root id' hid
  folder place' name' id' hid := by
    rw [folder?_knowing] at hid ⊢
    split at hid
    · rename_i hplace
      cases hid
      obtain ⟨rfl, hname⟩ := List.append_inj' hplace rfl
      cases hname
      rw [if_neg (by simp)]
      exact ⟨parent, hparent, hnode⟩
    · obtain ⟨parent', hparent', hnode'⟩ := h.folder place' name' id' hid
      -- the place that is learnt was not known, so it is not that of the parent
      have hother : place ++ [name] ≠ place' := by
        rintro rfl
        rw [hnew] at hparent'
        cases hparent'
      rw [if_neg hother]
      exact ⟨parent', hparent', hnode'⟩
  key := h.key

theorem knowingRoot (h : V.Sound d) (hnew : V.folder? [] = none) :
    (V.knowing (V.store.drive, []) rootId).Sound d where
  numbered := h.numbered
  count := h.count
  placed := h.placed_grows rfl (.knowing hnew rootId)
  home place' id' hid := by
    simp only [DriveView.knowing, Table.find?_insert] at hid
    split at hid
    · rename_i hplace
      rw [← hplace]
      rfl
    · exact h.home place' id' hid
  root id' hid := by
    rw [folder?_knowing, if_pos rfl] at hid
    cases hid
    rfl
  folder place' name' id' hid := by
    rw [folder?_knowing, if_neg (by simp)] at hid
    obtain ⟨parent', hparent', hnode'⟩ := h.folder place' name' id' hid
    rw [folder?_knowing]
    split
    · rename_i hplace
      rw [← hplace, hnew] at hparent'
      cases hparent'
    · exact ⟨parent', hparent', hnode'⟩
  key := h.key

/-- Keys are learnt that belong to files of their folder. -/
theorem keeping (h : V.Sound d) {folder : String} {ks : Keys}
    (hks : ∀ name id, ks.find? name = some id → Given V.store.count id ∧
      ∀ n ∈ V.store.nodes, n.id = id → n.parent = some folder ∧ n.content.isSome) :
    (V.keeping folder ks).Sound d where
  numbered := h.numbered
  count := h.count
  placed := h.placed
  home := h.home
  root := h.root
  folder := h.folder
  key folder' ks' name id hks' hid := by
    simp only [DriveView.keeping, Table.find?_insert] at hks'
    split at hks'
    · rename_i hfolder
      cases hks'
      rw [← hfolder]
      exact hks name id hid
    · exact h.key folder' ks' name id hks' hid

/-- A node is added to a folder. -/
theorem adding (h : V.Sound d) {word folder name : String} {content : Option ByteArray}
    {place : List String} (hfolder : V.folder? place = some folder)
    (hdrive : W.store.drive = V.store.drive)
    (hnodes : W.store.nodes = (V.store.addNode word folder name content).nodes)
    (hcount : W.store.count = V.store.count + 1) (hfolders : W.folders = V.folders)
    (hkeys : W.keys = V.keys) : W.Sound d where
  numbered := (h.numbered.addNode word folder name content).of_eq hnodes hcount.ge
  count := h.count.trans (by omega)
  placed n hn p hp := by
    rw [hnodes] at hn
    rcases h.numbered.mem_addNode.1 hn with rfl | hn
    · cases hp
      exact Or.inr ⟨place, by rw [folder?_congr hfolders hdrive, hfolder]⟩
    · refine (h.placed n hn p hp).imp_right ?_
      rintro ⟨place', hplace'⟩
      exact ⟨place', by rw [folder?_congr hfolders hdrive, hplace']⟩
  home place' id hid := by
    rw [hfolders] at hid
    rw [hdrive]
    exact h.home place' id hid
  root id hid := by
    rw [folder?_congr hfolders hdrive] at hid
    exact h.root id hid
  folder place' name' id hid := by
    rw [folder?_congr hfolders hdrive] at hid ⊢
    obtain ⟨parent, hparent, hnode⟩ := h.folder place' name' id hid
    refine ⟨parent, hparent, ?_⟩
    rw [hnodes]
    exact h.numbered.mem_addNode.2 (Or.inr hnode)
  key folder' ks name' id hks hid := by
    rw [hkeys] at hks
    obtain ⟨hgiven, hplace⟩ := h.key folder' ks name' id hks hid
    refine ⟨hgiven.mono (by omega), fun n hn hn' => ?_⟩
    rw [hnodes] at hn
    rcases h.numbered.mem_addNode.1 hn with rfl | hn
    · have hnewId : V.store.newId word = id := hn'
      exact absurd (hnewId ▸ hgiven) (V.store.not_given_newId word)
    · exact hplace n hn hn'

/-! ### The steps of a restore -/

theorem toward (h : V.Sound d) {names : List String} (hstep : V.Toward names W) : W.Sound d := by
  cases hstep with
  | look hcall => exact h.heard _
  | root hnew => exact h.knowingRoot hnew
  | found hplace hparent hnew hfind =>
    refine h.knowing hparent hnew ?_
    obtain ⟨n, hchild, hcontent, hc⟩ := DriveStore.findFolder_eq_some.1 hfind
    obtain ⟨hn, hnparent, hname⟩ := DriveStore.mem_of_child? hchild
    cases hc
    rw [← hcontent, ← hnparent, ← hname]
    exact hn
  | @created place name parent hplace hparent hnew hfind hnode =>
    have hstore := store_created hnode name
    have hadded : (V.asked (.createFolder V.store.drive parent name)).Sound d :=
      h.adding hparent (drive_asked ..) (by rw [hstore]; rfl) (by rw [hstore]; rfl) rfl rfl
    have hmem := (mem_created h.numbered hnode name).2 (Or.inl rfl)
    have hknown := hadded.knowing ((folder?_asked ..).trans hparent) ((folder?_asked ..).trans hnew)
      hmem
    rw [drive_asked] at hknown
    exact hknown
  | orphaned hparent hnode =>
    rw [asked_of_snd_eq]
    · exact h.heard _
    · rw [DriveStore.respond_createFolder, DriveStore.createFolder_of_none hnode]

theorem way (h : V.Sound d) {names : List String} (hway : V.Way names W) : W.Sound d := by
  induction hway with
  | refl => exact h
  | tail _ hstep ih => exact ih.toward hstep

theorem listed (h : V.Sound d) (folder : String) : (V.listed folder).Sound d := by
  unfold DriveView.listed
  split
  · exact h
  · have hasked : (V.asked (.listKeys V.store.drive folder)).Sound d := by
      rw [asked_of_snd_eq (by rw [DriveStore.respond_listKeys])]
      exact h.heard _
    refine hasked.keeping fun name id hid => ?_
    obtain ⟨n, hn, hplace, rfl⟩ := DriveStore.mem_of_find?_keys hid
    simp only [asked, DriveStore.respond_listKeys]
    refine ⟨h.numbered.given n hn, fun m hm hid => ?_⟩
    rw [h.numbered.unique hm hn hid]
    exact ⟨hplace.1, hplace.2.2⟩

/-- A file is uploaded to a folder the restore knows, and its key is kept. -/
theorem uploaded (h : V.Sound d) {place : List String} {folder name new : String} {ks : Keys}
    {data : ByteArray} {policy : CollisionPolicy} (hfolder : V.folder? place = some folder)
    (hks : V.keys.find? folder = some ks)
    (hupload : (V.store.upload folder name data policy).1 = .ok new) (key : String) :
    ((V.asked (.upload V.store.drive folder name data policy)).keeping folder
      (ks.insert key new)).Sound d := by
  obtain ⟨rfl, hstore⟩ := DriveStore.upload_of_ok hupload
  rw [← store_asked_upload (V := V) rfl] at hstore
  have hadded : (V.asked (.upload V.store.drive folder name data policy)).Sound d :=
    h.adding hfolder (drive_asked ..) (by rw [hstore]; rfl) (by rw [hstore]; rfl) rfl rfl
  refine hadded.keeping fun name' id hid => ?_
  rw [Table.find?_insert] at hid
  split at hid
  · -- the key of the new file
    cases hid
    refine ⟨by rw [hstore]; exact V.store.given_newId "item", fun n hn hid => ?_⟩
    rw [hstore] at hn
    rcases h.numbered.mem_addNode.1 hn with rfl | hn
    · exact ⟨rfl, rfl⟩
    · exact absurd hid (h.numbered.newId_ne "item" hn)
  · exact hadded.key folder ks name' id hks hid

/-- Files may be deleted. -/
theorem deleted (h : V.Sound d) {drive item : String} (hdrive : drive = V.store.drive)
    (hfile : ∀ n ∈ V.store.nodes, n.id = item → n.content.isSome) :
    (V.asked (.delete drive item)).Sound d := by
  have hstore := store_asked_delete hdrive item
  cases hanswer : (V.store.delete item).1 with
  | error f =>
    rw [DriveStore.delete_of_error hanswer] at hstore
    exact h.of_same (by rw [hstore]) (by rw [hstore]) (by rw [hstore]) rfl fun _ _ hks => hks
  | ok done =>
    have hmem {n : Node} : n ∈ (V.asked (.delete drive item)).store.nodes ↔
        n ∈ V.store.nodes ∧ n.id ≠ item := by
      rw [hstore]
      exact DriveStore.mem_delete hanswer
    refine h.of_fewer (hstore ▸ h.numbered.delete item) (drive_asked ..) ?_ rfl (fun _ _ hks => hks)
      ?_ ?_
    · rw [hstore, DriveStore.count_delete]
    · exact fun n hn => ⟨n, (hmem.1 hn).1, rfl, rfl, rfl⟩
    · intro n hn hcontent
      refine hmem.2 ⟨hn, fun hid => ?_⟩
      have hsome := hfile n hn hid
      rw [hcontent] at hsome
      cases hsome

/-- Files may be renamed. -/
theorem renamed (h : V.Sound d) {drive item : String} (hdrive : drive = V.store.drive)
    (hfile : ∀ n ∈ V.store.nodes, n.id = item → n.content.isSome) (name : String) :
    (V.asked (.rename drive item name)).Sound d := by
  have hstore := store_asked_rename hdrive item name
  refine h.of_fewer (hstore ▸ h.numbered.rename item name) (drive_asked ..) ?_ rfl
    (fun _ _ hks => hks) ?_ ?_
  · rw [hstore, DriveStore.count_rename]
  · intro n hn
    rw [hstore] at hn
    rcases DriveStore.mem_of_mem_rename hn with hn | ⟨m, hm, -, rfl⟩
    · exact ⟨n, hn, rfl, rfl, rfl⟩
    · exact ⟨m, hm, rfl, rfl, rfl⟩
  · intro n hn hcontent
    rw [hstore]
    refine DriveStore.mem_rename_of_ne hn fun hid => ?_
    have hsome := hfile n hn hid
    rw [hcontent] at hsome
    cases hsome

/-- A key known before an upload belongs to a file afterwards, too. -/
theorem oldKey (h : V.Sound d) {folder name old : String} {ks : Keys}
    (hks : V.keys.find? folder = some ks) (hold : ks.find? name = some old) {data : ByteArray}
    {policy : CollisionPolicy} {n : Node}
    (hn : n ∈ (V.asked (.upload V.store.drive folder name data policy)).store.nodes)
    (hid : n.id = old) : n.content.isSome := by
  obtain ⟨hgiven, hplace⟩ := h.key folder ks name old hks hold
  rw [store_asked_upload rfl] at hn
  exact (hplace n (h.numbered.mem_of_mem_upload hn (hid ▸ hgiven)) hid).2

theorem files (h : V.Sound d) {policy : CollisionPolicy} {place : List String} {folder : String}
    {file : DriveFile} {r : Except Fault (String × Bool)} (hfolder : V.folder? place = some folder)
    (hfiles : V.Files policy folder file r W) : W.Sound d := by
  cases hfiles with
  | kept hks hskip hname => exact h.keeping fun name id hid => h.key folder _ name id hks hid
  | refused hks hname hupload =>
    have hstore := store_refused hupload
    refine keeping (V := V.asked _) ?_ fun name id hid => ?_
    · exact h.of_same (by rw [hstore]) (by rw [hstore]) (by rw [hstore]) rfl fun _ _ hks => hks
    · rw [hstore]
      exact h.key folder _ name id hks hid
  | added hks hname hupload hfree => exact h.uploaded hfolder hks hupload file.name
  | @replaced ks new old hks hreplace hold hupload hdelete =>
    have huploaded := h.uploaded hfolder hks hupload file.name
    have hdeleted := huploaded.deleted (drive_asked ..).symm
      fun n hn hid => h.oldKey hks hold hn hid
    refine hdeleted.renamed (by simp) (fun n hn hid => ?_) file.name
    rw [store_asked_delete (by simp)] at hn
    obtain ⟨-, hplace⟩ := huploaded.key folder (ks.insert file.name new) file.name new
      (by simp [DriveView.keeping]) (by simp)
    exact (hplace n (DriveStore.mem_of_mem_delete hn) hid).2
  | stays hks hreplace hold hupload hdelete =>
    exact (h.uploaded hfolder hks hupload file.name).deleted (drive_asked ..).symm
      fun n hn hid => h.oldKey hks hold hn hid

theorem enters (h : V.Sound d) {σ : Type} {plan : Plan σ} {c : Collection}
    {r : Except Fault Entrance} (henters : V.Enters plan c r W) : W.Sound d := by
  cases henters with
  | unserved _ | unplaced _ _ | unread _ _ _ => exact h
  | elsewhere _ _ _ _ _ => exact h.heard _
  | lost _ _ _ _ hway _ => exact h.way hway
  | entered _ _ _ _ hway _ hshares => exact ((h.way hway).shares hshares).remembering _ _

theorem takes (h : V.Sound d) {σ : Type} {plan : Plan σ} {c : Collection} {place : List String}
    {folder : String} {e : Entry} {r : Except Fault Unit} (hfolder : V.folder? place = some folder)
    (htakes : V.Takes plan c folder e r W) : W.Sound d := by
  have hlisted : (V.listed folder).folder? place = some folder := by
    rw [folder?_congr (folders_listed V folder) (drive_listed V folder), hfolder]
  cases htakes with
  | unread _ | nothing _ => exact h
  | metadata _ => exact h.remembering _ _
  | failed _ hfiles => exact (h.listed folder).files hlisted hfiles
  | stored _ hfiles hshares => exact ((h.listed folder).files hlisted hfiles).shares hshares

end Sound

end DriveView

/-- A restore that has only just started knows nothing. -/
theorem DriveView.Sound.start (plan : Plan (DriveStore × ρ)) (log : FaultLog) (stopped : Bool)
    {d : DriveStore} (hd : d.Numbered) (r : ρ) :
    (Session.start plan log stopped (d, r)).view.Sound d where
  numbered := hd
  count := Nat.le_refl _
  placed n hn p hp := Or.inl ⟨n, hn, hp⟩
  home _ _ h := by cases h
  root _ h := by cases h
  folder _ _ _ h := by cases h
  key _ _ _ _ h := by cases h

section Boundaries

variable (hremote : plan.remote = DriveStore.beside desk) {cs : List Collection}
  (hcs : plan.OnlyDrives cs) {start : Session (DriveStore × ρ)} {d : DriveStore}
  (hstart : start.view.Sound d)
include hremote hcs hstart

/-- What a restore knows of a drive is true at every boundary, and the entries of the collection it
is in go to its destination folder. -/
theorem Plan.sound_boundary (n : Nat) : (plan.boundary cs start n).session.view.Sound d ∧
    ∀ p, (plan.boundary cs start n).current = some p →
      (plan.boundary cs start n).session.view.Hosts plan p :=
  Plan.boundary_view_start hremote hcs (fun _ h => h.home) (fun _ _ _ _ _ h => h.enters)
    (fun _ _ _ _ _ _ _ _ h _ _ hfolder => h.takes hfolder) hstart n

/-- From boundary to boundary a restore only learns more folders. -/
theorem Plan.grows_boundary {m n : Nat} (h : m ≤ n) :
    (plan.boundary cs start m).session.view.Grows (plan.boundary cs start n).session.view := by
  obtain ⟨hsound, hhosts⟩ := Plan.sound_boundary hremote hcs hstart m
  have hkept := Plan.boundary_view hremote hcs
    (I := fun V => V.Sound d ∧ (plan.boundary cs start m).session.view.Grows V)
    (fun _ h => h.1.home)
    (fun _ _ _ _ _ h henters => ⟨h.1.enters henters, h.2.trans (.enters henters)⟩)
    (fun _ _ _ _ _ _ _ _ h _ _ hfolder htakes =>
      ⟨h.1.takes hfolder htakes, h.2.trans (.takes htakes)⟩) h ⟨hsound, .refl _⟩ hhosts
  exact hkept.1.2

theorem Plan.grows_run (n : Nat) :
    (plan.boundary cs start n).session.view.Grows (plan.run cs start).2.view := by
  obtain ⟨last, hover⟩ := plan.exists_over cs start
  have hlater : (plan.boundary cs start (max n last)).over := by
    rw [Plan.boundary_of_over hover (Nat.le_max_right ..)]
    exact hover
  rw [Plan.view_run_of_over hlater]
  exact Plan.grows_boundary hremote hcs hstart (Nat.le_max_left ..)

theorem Plan.sound_run : (plan.run cs start).2.view.Sound d := by
  obtain ⟨n, -, hview⟩ := plan.view_run cs start
  rw [hview]
  exact (Plan.sound_boundary hremote hcs hstart n).1

end Boundaries

/-- The drives that come about by putting files on them and by restores of drive collections. -/
inductive DriveStore.Built : DriveStore → Prop
  /-- A new drive. -/
  | new (drive : String) : Built { drive := drive }
  /-- Deleting is forbidden, or allowed again. -/
  | protect {s : DriveStore} (h : Built s) (keepsAll : Bool) : Built { s with keepsAll := keepsAll }
  /-- A file is put on it. -/
  | addFile {s : DriveStore} (h : Built s) (path : String) (data : ByteArray) :
      Built (s.addFile path data).2
  /-- A restore has been run on it. -/
  | run {s : DriveStore} (h : Built s) {ρ : Type} {plan : Plan (DriveStore × ρ)} {desk : Remote ρ}
      (hremote : plan.remote = DriveStore.beside desk) {cs : List Collection}
      (hcs : plan.OnlyDrives cs) (log : FaultLog) (stopped : Bool) (r : ρ) :
      Built (plan.run cs (Session.start plan log stopped (s, r))).2.remote.1

/-- Such a drive is tidy. -/
theorem DriveStore.Built.tidy {s : DriveStore} (h : s.Built) : s.Tidy := by
  induction h with
  | new drive => exact .new drive false
  | protect _ keepsAll ih => exact { ih.of_eq rfl (Nat.le_refl _) with placed := ih.placed }
  | addFile _ path data ih => exact ih.addFile path data
  | run _ hremote hcs log stopped r ih =>
    exact (Plan.sound_run hremote hcs (.start _ log stopped ih.toNumbered r)).tidy ih

end TenantRestore
