/-
# A restore stays in the folder of its location

A restore to a location works below one folder of the root, the folder of the location.  Whatever
it creates is in that folder, and what is elsewhere on the drive stays as it is, with its
permissions.  Nothing at all gets lost, unless the policy is to replace: then a file of a
destination folder may be deleted, but only after a file of its name has been stored beside it.

This holds however a restore ends.  The main result is `Plan.confined_to_location`; the invariant
that carries it is `DriveView.Confined`: every id that is deleted, renamed, shared or given a child
is traced back to the folders the restore knows, all of which but the root are below the location.
-/
import Mathlib.Data.List.Induction
import TenantRestore.Proofs.Drive.Sound
import TenantRestore.Proofs.Path

namespace TenantRestore

variable {ρ : Type}

/-- Being a node or lying below it. -/
inductive Within (nodes : List Node) (top : String) : String → Prop
  /-- Every node is within itself. -/
  | self : Within nodes top top
  /-- What is in a node lies within whatever that node lies in. -/
  | inner {n : Node} {parent : String} (hn : n ∈ nodes) (hparent : n.parent = some parent)
      (h : Within nodes top parent) : Within nodes top n.id

/-- A file has been replaced: it was deleted from the destination folder of a collection, after
a file of its name had been stored there. -/
def DriveView.Replaced {σ : Type} (plan : Plan σ) (cs : List Collection) (V : DriveView)
    (n : Node) : Prop :=
  plan.options.onCollision = .replace ∧ n.content.isSome ∧
    ∃ c ∈ cs, ∃ address folder, c.path.drive = .ok address ∧ address.drive = V.store.drive ∧
      V.folder? (plan.options.destination address) = some folder ∧ n.parent = some folder ∧
      ∃ data new before between after, V.trace =
        before ++ ⟨.drive (.upload V.store.drive folder n.name data .replace), .ok new⟩ ::
          (between ++ ⟨.drive (.delete V.store.drive n.id), .ok ()⟩ :: after)

/-- The keys of the nodes of a drive are their names. -/
def DriveView.KeysOf (d : DriveStore) (V : DriveView) : Prop :=
  ∀ folder ks name id, V.keys.find? folder = some ks → ks.find? name = some id →
    ∀ n ∈ d.nodes, n.id = id → n.isFileAt folder name

/-- A restore to a location which started from the drive `d` has changed nothing outside of it. -/
structure DriveView.Confined {σ : Type} (plan : Plan σ) (cs : List Collection) (d : DriveStore)
    (V : DriveView) : Prop where
  sound : V.Sound d
  drive : V.store.drive = d.drive
  old : ∀ n ∈ V.store.nodes, Given d.count n.id → n ∈ d.nodes
  added : ∀ n ∈ V.store.nodes, ¬ Given d.count n.id →
    V.folder? [plan.options.location] = some n.id ∨
      ∃ rest parent, n.parent = some parent ∧
        V.folder? (plan.options.location :: rest) = some parent
  kept : ∀ n ∈ d.nodes, n ∈ V.store.nodes ∨ V.Replaced plan cs n
  keys : V.KeysOf d
  grants : ∀ id, Given d.count id → V.store.grantsOn id = d.grantsOn id ∨
    ∃ rest, V.folder? (plan.options.location :: rest) = some id

namespace DriveView

variable {σ : Type} {plan : Plan σ} {cs : List Collection} {d : DriveStore} {V W : DriveView}

theorem Replaced.grows {n : Node} (h : V.Replaced plan cs n) (hgrows : V.Grows W)
    (hdrive : W.store.drive = V.store.drive) : W.Replaced plan cs n := by
  obtain ⟨hpolicy, hfile, c, hc, address, folder, hpath, hhome, hfolder, hparent, data, new, before,
    between, after, htrace⟩ := h
  obtain ⟨more, hmore⟩ := hgrows.trace
  refine ⟨hpolicy, hfile, c, hc, address, folder, hpath, hdrive ▸ hhome, hgrows.folder _ _ hfolder,
    hparent, data, new, before, between, after ++ more, ?_⟩
  rw [← hmore, htrace, hdrive]
  simp

theorem KeysOf.keeping (h : V.KeysOf d) {folder : String} {ks : Keys}
    (hks : V.keys.find? folder = some ks) : (V.keeping folder ks).KeysOf d := by
  intro folder' ks' name id hks'
  simp only [DriveView.keeping, Table.find?_insert] at hks'
  split at hks'
  · rename_i hfolder
    cases hks'
    exact hfolder ▸ h folder ks name id hks
  · exact h folder' ks' name id hks'

namespace Confined

/-- What a step has to show for its changes to stay below the location. -/
theorem step (h : V.Confined plan cs d) (hsound : W.Sound d) (hgrows : V.Grows W)
    (hdrive : W.store.drive = V.store.drive)
    (hold : ∀ n ∈ W.store.nodes, Given d.count n.id → n ∈ V.store.nodes)
    (hadded : ∀ n ∈ W.store.nodes, ¬ Given d.count n.id →
      (∃ m ∈ V.store.nodes, m.id = n.id ∧ m.parent = n.parent) ∨
        W.folder? [plan.options.location] = some n.id ∨
        ∃ rest parent, n.parent = some parent ∧
          W.folder? (plan.options.location :: rest) = some parent)
    (hkept : ∀ n ∈ d.nodes, n ∈ V.store.nodes → n ∈ W.store.nodes ∨ W.Replaced plan cs n)
    (hkeys : W.KeysOf d)
    (hgrants : ∀ id, Given d.count id → W.store.grantsOn id = V.store.grantsOn id ∨
      ∃ rest, W.folder? (plan.options.location :: rest) = some id) : W.Confined plan cs d where
  sound := hsound
  drive := hdrive.trans h.drive
  old n hn hid := h.old n (hold n hn hid) hid
  added n hn hid := by
    rcases hadded n hn hid with ⟨m, hm, hmid, hparent⟩ | hnew
    · rw [← hmid] at hid ⊢
      rw [← hparent]
      rcases h.added m hm hid with htop | ⟨rest, parent, hin, hknown⟩
      · exact Or.inl (hgrows.folder _ _ htop)
      · exact Or.inr ⟨rest, parent, hin, hgrows.folder _ _ hknown⟩
    · exact hnew
  kept n hn := by
    rcases h.kept n hn with hV | hreplaced
    · exact hkept n hn hV
    · exact Or.inr (hreplaced.grows hgrows hdrive)
  keys := hkeys
  grants id hid := by
    rcases hgrants id hid with hsame | hbelow
    · rw [hsame]
      rcases h.grants id hid with hsame | ⟨rest, hknown⟩
      · exact Or.inl hsame
      · exact Or.inr ⟨rest, hgrows.folder _ _ hknown⟩
    · exact Or.inr hbelow

/-- A step that leaves the nodes alone. -/
theorem of_same (h : V.Confined plan cs d) (hsound : W.Sound d) (hgrows : V.Grows W)
    (hdrive : W.store.drive = V.store.drive)
    (hnodes : W.store.nodes = V.store.nodes) (hkeys : W.KeysOf d)
    (hgrants : ∀ id, Given d.count id → W.store.grantsOn id = V.store.grantsOn id ∨
      ∃ rest, W.folder? (plan.options.location :: rest) = some id) : W.Confined plan cs d :=
  h.step hsound hgrows hdrive (fun _ hn _ => hnodes ▸ hn)
    (fun n hn _ => Or.inl ⟨n, hnodes ▸ hn, rfl, rfl⟩) (fun _ _ hn => Or.inl (hnodes ▸ hn)) hkeys
    hgrants

/-! ### The way to a folder -/

theorem toward (h : V.Confined plan cs d) {names : List String}
    (hstep : V.Toward (plan.options.location :: names) W) : W.Confined plan cs d := by
  have hsound := h.sound.toward hstep
  have hgrows := Grows.toward hstep
  have hdrive := hstep.drive
  cases hstep with
  | look _ | root _ | found _ _ _ _ =>
    exact h.of_same hsound hgrows hdrive rfl h.keys fun _ _ => Or.inl rfl
  | @orphaned place name parent hparent hnode =>
    have hstore := store_orphaned hnode name
    exact h.of_same hsound hgrows hdrive (by rw [hstore]) h.keys
      fun _ _ => Or.inl (by rw [hstore])
  | @created place name parent hplace hparent hnew hfind hnode =>
    have hstore := store_created hnode name
    have hmem {n : Node} := (mem_created h.sound.numbered hnode name (n := n)).1
    refine h.step hsound hgrows hdrive (fun n hn hid => ?_) (fun n hn hid => ?_)
      (fun n _ hn => Or.inl ?_) h.keys fun _ _ => Or.inl ?_
    · rcases hmem hn with rfl | hn
      · exact absurd (hid.mono h.sound.count) (V.store.not_given_newId "folder")
      · exact hn
    · rcases hmem hn with rfl | hn
      · -- the new folder is that of the location, or in a folder below it
        right
        cases place with
        | nil =>
          obtain rfl : name = plan.options.location := by simpa using hplace
          left
          have hknown := folder?_knowing (V.asked (.createFolder V.store.drive parent
            plan.options.location)) [plan.options.location] [plan.options.location]
            (V.store.newId "folder")
          rw [drive_asked, if_pos rfl] at hknown
          exact hknown
        | cons top rest =>
          obtain rfl : top = plan.options.location := by
            have hhead := hplace
            simp only [List.cons_append, List.cons_prefix_cons] at hhead
            exact hhead.1
          exact Or.inr ⟨rest, parent, rfl, hgrows.folder _ _ hparent⟩
      · exact Or.inl ⟨n, hn, rfl, rfl⟩
    · rw [store_knowing, hstore]
      exact h.sound.numbered.mem_addNode.2 (Or.inr hn)
    · rw [store_knowing, hstore]
      rfl

theorem way (h : V.Confined plan cs d) {names : List String}
    (hway : V.Way (plan.options.location :: names) W) : W.Confined plan cs d := by
  induction hway with
  | refl => exact h
  | tail _ hstep ih => exact ih.toward hstep

/-! ### Permissions -/

/-- Permissions are shared on folders below the location and on nodes the restore has added. -/
theorem shares (h : V.Confined plan cs d) {item : String} (hshares : V.Shares item W)
    (hitem : Given d.count item → ∃ rest, V.folder? (plan.options.location :: rest) = some item) :
    W.Confined plan cs d := by
  have hgrows := Grows.shares hshares
  refine h.of_same (h.sound.shares hshares) hgrows hshares.drive hshares.nodes ?_ ?_
  · intro folder ks name id hks
    rw [hshares.keys] at hks
    exact h.keys folder ks name id hks
  · intro id hid
    by_cases heq : id = item
    · obtain ⟨rest, hrest⟩ := hitem (heq ▸ hid)
      exact Or.inr ⟨rest, heq ▸ hgrows.folder _ _ hrest⟩
    · exact Or.inl (hshares.grants id heq)

theorem remembering (h : V.Confined plan cs d) (path : String) (m : Metadata) :
    (V.remembering path m).Confined plan cs d :=
  h.of_same (h.sound.remembering path m) (.remembering ..) rfl rfl h.keys
    fun _ _ => Or.inl rfl

theorem heard (h : V.Confined plan cs d) (x : Exchange) : (V.heard x).Confined plan cs d :=
  h.of_same (h.sound.heard x) (.heard ..) rfl rfl h.keys fun _ _ => Or.inl rfl

/-! ### Files -/

/-- The nodes of the drive at the start are nodes still, with the same name and place. -/
theorem mem_of_id (h : V.Confined plan cs d) (hd : d.Numbered) {m n : Node}
    (hm : m ∈ V.store.nodes) (hn : n ∈ d.nodes) (hid : n.id = m.id) : n = m :=
  hd.unique hn (h.old m hm (hid ▸ hd.given n hn)) hid

theorem listed (h : V.Confined plan cs d) (hd : d.Numbered) (folder : String) :
    (V.listed folder).Confined plan cs d := by
  unfold DriveView.listed
  split
  · exact h
  · have hstore : (V.asked (.listKeys V.store.drive folder)).store = V.store := by
      rw [asked_of_snd_eq (by rw [DriveStore.respond_listKeys]), store_heard]
    have hlisted := h.sound.listed folder
    unfold DriveView.listed at hlisted
    rw [if_neg (by assumption)] at hlisted
    refine h.of_same hlisted ((Grows.asked ..).trans (.keeping ..)) (drive_asked ..) ?_ ?_
      fun id _ => Or.inl ?_
    · rw [store_keeping, hstore]
    · intro folder' ks name id hks hid n hn hn'
      simp only [keeping, Table.find?_insert] at hks
      split at hks
      · rename_i hfolder
        cases hks
        obtain ⟨m, hm, hplace, rfl⟩ := DriveStore.mem_of_find?_keys hid
        rw [h.mem_of_id hd hm hn hn', ← hfolder]
        exact hplace
      · exact h.keys folder' ks name id hks hid n hn hn'
    · rw [store_keeping, hstore]

/-- A file is uploaded to a folder below the location. -/
theorem uploaded (h : V.Confined plan cs d) (hd : d.Numbered) {rest : List String}
    {folder name new : String} {ks : Keys} {data : ByteArray} {policy : CollisionPolicy}
    (hfolder : V.folder? (plan.options.location :: rest) = some folder)
    (hks : V.keys.find? folder = some ks)
    (hupload : (V.store.upload folder name data policy).1 = .ok new) (key : String) :
    ((V.asked (.upload V.store.drive folder name data policy)).keeping folder
      (ks.insert key new)).Confined plan cs d := by
  have hsound := h.sound.uploaded hfolder hks hupload key
  have hgrows : V.Grows ((V.asked (.upload V.store.drive folder name data policy)).keeping folder
      (ks.insert key new)) := (Grows.asked ..).trans (.keeping ..)
  obtain ⟨rfl, hstore⟩ := DriveStore.upload_of_ok hupload
  rw [← store_asked_upload (V := V) rfl] at hstore
  have hnew : ¬ Given d.count (V.store.newId "item") :=
    fun hid => V.store.not_given_newId "item" (hid.mono h.sound.count)
  refine h.step hsound hgrows (drive_asked ..) (fun n hn hid => ?_) (fun n hn hid => ?_)
    (fun n _ hn => Or.inl ?_) (fun folder' ks' name' id hks' hid n hn hn' => ?_)
    fun id _ => Or.inl ?_
  · rw [store_keeping, hstore] at hn
    rcases h.sound.numbered.mem_addNode.1 hn with rfl | hn
    · exact absurd hid hnew
    · exact hn
  · rw [store_keeping, hstore] at hn
    rcases h.sound.numbered.mem_addNode.1 hn with rfl | hn
    · exact Or.inr (Or.inr ⟨rest, folder, rfl, hgrows.folder _ _ hfolder⟩)
    · exact Or.inl ⟨n, hn, rfl, rfl⟩
  · rw [store_keeping, hstore]
    exact h.sound.numbered.mem_addNode.2 (Or.inr hn)
  · simp only [keeping, Table.find?_insert] at hks'
    split at hks'
    · rename_i hsame
      cases hks'
      rw [Table.find?_insert] at hid
      split at hid
      · -- the new file is not one of the nodes at the start
        cases hid
        exact absurd (hn' ▸ hd.given n hn) hnew
      · exact hsame ▸ h.keys folder ks name' id hks hid n hn hn'
    · exact h.keys folder' ks' name' id hks' hid n hn hn'
  · rw [store_keeping, hstore]
    rfl

/-- A file is deleted that is replaced. -/
theorem deleted (h : V.Confined plan cs d) {item drive : String} (hdrive : drive = V.store.drive)
    (hsound : (V.asked (.delete drive item)).Sound d)
    (hitem : (V.store.delete item).1 = .ok () → ∀ n ∈ d.nodes, n.id = item →
      (V.asked (.delete drive item)).Replaced plan cs n) :
    (V.asked (.delete drive item)).Confined plan cs d := by
  have hstore := store_asked_delete hdrive item
  refine h.step hsound (.asked ..) (drive_asked ..) (fun n hn _ => ?_) (fun n hn _ => ?_)
    (fun n hn hV => ?_) h.keys fun id _ => Or.inl ?_
  · rw [hstore] at hn
    exact DriveStore.mem_of_mem_delete hn
  · rw [hstore] at hn
    exact Or.inl ⟨n, DriveStore.mem_of_mem_delete hn, rfl, rfl⟩
  · cases hanswer : (V.store.delete item).1 with
    | error f =>
      rw [hstore, DriveStore.delete_of_error hanswer]
      exact Or.inl hV
    | ok done =>
      by_cases hid : n.id = item
      · exact Or.inr (hitem hanswer n hn hid)
      · rw [hstore]
        exact Or.inl ((DriveStore.mem_delete hanswer).2 ⟨hV, hid⟩)
  · rw [hstore]
    unfold DriveStore.grantsOn
    rw [DriveStore.grants_delete]

/-- A file is renamed that the restore has added. -/
theorem renamed (h : V.Confined plan cs d) (hd : d.Numbered) {item drive : String}
    (hdrive : drive = V.store.drive) (hitem : ¬ Given d.count item) (name : String)
    (hsound : (V.asked (.rename drive item name)).Sound d) :
    (V.asked (.rename drive item name)).Confined plan cs d := by
  have hstore := store_asked_rename hdrive item name
  refine h.step hsound (.asked ..) (drive_asked ..) (fun n hn hid => ?_) (fun n hn _ => ?_)
    (fun n hn hV => Or.inl ?_) h.keys fun id _ => Or.inl ?_
  · rw [hstore] at hn
    rcases DriveStore.mem_of_mem_rename hn with hn | ⟨m, -, hm, rfl⟩
    · exact hn
    · exact absurd (hm ▸ hid) hitem
  · rw [hstore] at hn
    rcases DriveStore.mem_of_mem_rename hn with hn | ⟨m, hm, -, rfl⟩
    · exact Or.inl ⟨n, hn, rfl, rfl⟩
    · exact Or.inl ⟨m, hm, rfl, rfl⟩
  · rw [hstore]
    refine DriveStore.mem_rename_of_ne hV ?_
    rintro rfl
    exact hitem (hd.given n hn)
  · rw [hstore]
    unfold DriveStore.grantsOn
    rw [DriveStore.grants_rename]

/-- What a key belongs to is replaced when its file is stored again under `replace` and the file of
the key is deleted. -/
theorem replaced_of_key (h : V.Confined plan cs d) {c : Collection} (hc : c ∈ cs)
    {address : DriveAddress} (hpath : c.path.drive = .ok address)
    (hhome : address.drive = V.store.drive) {folder : String}
    (hfolder : V.folder? (plan.options.destination address) = some folder)
    {file : DriveFile} {ks : Keys} {new old : String} (hks : V.keys.find? folder = some ks)
    (hreplace : plan.options.onCollision = .replace) (hold : ks.find? file.name = some old)
    (hupload : (V.store.upload folder file.name file.data plan.options.onCollision).1 = .ok new)
    (hdelete : ((V.store.upload folder file.name file.data
      plan.options.onCollision).2.delete old).1 = .ok ()) {n : Node} (hn : n ∈ d.nodes)
    (hid : n.id = old) :
    (((V.asked (.upload V.store.drive folder file.name file.data
      plan.options.onCollision)).keeping folder (ks.insert file.name new)).asked
        (.delete V.store.drive old)).Replaced plan cs n := by
  obtain ⟨hparent, hname, hcontent⟩ := h.keys folder ks file.name old hks hold n hn hid
  have hfirst := trace_uploaded hupload
  have hsecond := trace_asked (V := V.asked (.upload V.store.drive folder file.name file.data
    plan.options.onCollision)) (c := .delete V.store.drive old) (r := .ok ()) (by
      rw [store_asked_upload rfl, ← DriveStore.drive_upload V.store folder file.name file.data
        plan.options.onCollision, DriveStore.respond_delete]
      exact hdelete)
  have hdrive : (((V.asked (.upload V.store.drive folder file.name file.data
      plan.options.onCollision)).keeping folder (ks.insert file.name new)).asked
        (.delete V.store.drive old)).store.drive = V.store.drive := by simp
  refine ⟨hreplace, hcontent, c, hc, address, folder, hpath, by simpa using hhome, ?_, hparent,
    file.data, new, V.trace, [], [], ?_⟩
  · rw [folder?_asked]
    exact (Grows.keeping ..).folder _ _ ((Grows.asked ..).folder _ _ hfolder)
  · change ((V.asked _).asked _).trace = _
    rw [hsecond, hfirst, hdrive, hname, hid, hreplace, List.append_assoc]
    rfl

/-- A file is stored in the destination folder of a collection. -/
theorem files (h : V.Confined plan cs d) (hd : d.Numbered)
    (hlocation : plan.options.location ≠ "") {c : Collection} (hc : c ∈ cs) {address : DriveAddress}
    (hpath : c.path.drive = .ok address) (hhome : address.drive = V.store.drive) {folder : String}
    (hfolder : V.folder? (plan.options.destination address) = some folder) {file : DriveFile}
    {r : Except Fault (String × Bool)}
    (hfiles : V.Files plan.options.onCollision folder file r W) : W.Confined plan cs d := by
  have hplace := hfolder
  rw [Options.destination, if_neg hlocation] at hplace
  have hsound := h.sound.files hfolder hfiles
  cases hfiles with
  | @kept ks hks hskip hname =>
    exact h.of_same hsound (.keeping ..) rfl rfl (h.keys.keeping hks)
      fun _ _ => Or.inl rfl
  | @refused ks f hks hname hupload =>
    have hstore := store_refused hupload
    have hkeys : (V.asked (.upload V.store.drive folder file.name file.data
        plan.options.onCollision)).KeysOf d := h.keys
    exact h.of_same hsound ((Grows.asked ..).trans (.keeping ..)) (drive_asked ..)
      (by rw [store_keeping, hstore]) (hkeys.keeping hks)
      fun _ _ => Or.inl (by rw [store_keeping, hstore])
  | added hks hname hupload hfree => exact h.uploaded hd hplace hks hupload file.name
  | @replaced ks new old hks hreplace hold hupload hdelete =>
    have huploaded := h.uploaded hd hplace hks hupload file.name
    have hgone := huploaded.sound.deleted (drive_asked ..).symm
      fun n hn hid => h.sound.oldKey hks hold hn hid
    have hdeleted := huploaded.deleted (drive_asked ..).symm hgone
      fun _ _ => h.replaced_of_key hc hpath hhome hfolder hks hreplace hold hupload hdelete
    obtain ⟨rfl, -⟩ := DriveStore.upload_of_ok hupload
    exact hdeleted.renamed hd (by simp)
      (fun hid => V.store.not_given_newId "item" (hid.mono h.sound.count)) file.name hsound
  | @stays ks new old f hks hreplace hold hupload hdelete =>
    have huploaded := h.uploaded hd hplace hks hupload file.name
    refine huploaded.deleted (drive_asked ..).symm hsound fun hanswer => ?_
    rw [store_keeping, store_asked_upload rfl, hdelete] at hanswer
    cases hanswer

theorem enters (h : V.Confined plan cs d) (hlocation : plan.options.location ≠ "")
    {c : Collection} {r : Except Fault Entrance} (henters : V.Enters plan c r W) :
    W.Confined plan cs d := by
  have hplace (address : DriveAddress) :
      plan.options.destination address = plan.options.location :: address.folders :=
    if_neg hlocation
  cases henters with
  | unserved _ | unplaced _ _ | unread _ _ _ => exact h
  | elsewhere _ _ _ _ _ => exact h.heard _
  | lost _ _ _ _ hway _ =>
    rw [hplace] at hway
    exact h.way hway
  | entered _ _ _ _ hway hfolder hshares =>
    rw [hplace] at hway hfolder
    exact ((h.way hway).shares hshares fun _ => ⟨_, hfolder⟩).remembering _ _

theorem takes (h : V.Confined plan cs d) (hd : d.Numbered)
    (hlocation : plan.options.location ≠ "") {c : Collection} (hc : c ∈ cs) {address : DriveAddress}
    (hpath : c.path.drive = .ok address) (hhome : address.drive = V.store.drive) {folder : String}
    (hfolder : V.folder? (plan.options.destination address) = some folder) {e : Entry}
    {r : Except Fault Unit} (htakes : V.Takes plan c folder e r W) : W.Confined plan cs d := by
  have hhome' : address.drive = (V.listed folder).store.drive := by rw [hhome, drive_listed]
  have hfolder' := (Grows.listed V folder).folder _ _ hfolder
  cases htakes with
  | unread _ | nothing _ => exact h
  | metadata _ => exact h.remembering _ _
  | failed _ hfiles => exact (h.listed hd folder).files hd hlocation hc hpath hhome' hfolder' hfiles
  | stored _ hfiles hshares =>
    have hstored := (h.listed hd folder).files hd hlocation hc hpath hhome' hfolder' hfiles
    refine hstored.shares hshares fun hid => ?_
    exact absurd (hid.mono (h.listed hd folder).sound.count) hfiles.not_given

theorem start {ρ : Type} (plan : Plan (DriveStore × ρ)) (log : FaultLog) (stopped : Bool)
    {d : DriveStore} (hd : d.Tidy) (r : ρ) (cs : List Collection) :
    (Session.start plan log stopped (d, r)).view.Confined plan cs d where
  sound := .start plan log stopped hd.toNumbered r
  drive := rfl
  old n hn _ := hn
  added n hn hid := absurd (hd.given n hn) hid
  kept n hn := Or.inl hn
  keys _ _ _ _ h := by cases h
  grants _ _ := Or.inl rfl

end Confined

/-! ## Below the location -/

/-- A folder known at a place below another one lies within it.  The nodes on the way are given as
far as some property of ids is handed up from a node to the folder it is in. -/
theorem Sound.within (h : V.Sound d) {P : String → Prop} {nodes : List Node}
    (hnodes : ∀ n ∈ V.store.nodes, P n.id → n ∈ nodes ∧ ∀ p, n.parent = some p → P p)
    {top : String} {rest : List String} {id : String} (hid : V.folder? (top :: rest) = some id)
    (hP : P id) : ∃ topId, V.folder? [top] = some topId ∧ Within nodes topId id := by
  induction rest using List.reverseRecOn generalizing id with
  | nil => exact ⟨id, hid, .self⟩
  | append_singleton rest name ih =>
    obtain ⟨parent, hparent, hnode⟩ := h.folder (top :: rest) name id hid
    obtain ⟨hmem, hup⟩ := hnodes _ hnode hP
    obtain ⟨topId, htop, hwithin⟩ := ih hparent (hup parent rfl)
    exact ⟨topId, htop, .inner hmem rfl hwithin⟩

end DriveView

/-- What a restore to a location does to a drive. -/
structure Plan.ConfinedTo {σ : Type} (plan : Plan σ) (cs : List Collection) (d : DriveStore)
    (V : DriveView) : Prop where
  /-- What is not in the folder of the location stays as it is, with its permissions. -/
  outside : ∀ n ∈ d.nodes,
    (∀ top, V.folder? [plan.options.location] = some top → ¬ Within d.nodes top n.id) →
      V.store.node? n.id = some n ∧ V.store.grantsOn n.id = d.grantsOn n.id
  /-- What is new is in the folder of the location. -/
  inside : ∀ n ∈ V.store.nodes, n ∉ d.nodes →
    ∃ top, V.folder? [plan.options.location] = some top ∧ Within V.store.nodes top n.id
  /-- Nothing gets lost, unless the policy is to replace. -/
  kept : plan.options.onCollision ≠ .replace → ∀ n ∈ d.nodes, V.store.node? n.id = some n
  /-- What gets lost has been replaced. -/
  replaced : ∀ n ∈ d.nodes, V.store.node? n.id ≠ some n → V.Replaced plan cs n

/-- A restore to a location changes nothing outside the folder of the location, puts everything
new into it, and loses only files that it has replaced. -/
theorem Plan.confined_to_location {plan : Plan (DriveStore × ρ)} {desk : Remote ρ}
    (hremote : plan.remote = DriveStore.beside desk) (hlocation : plan.options.location ≠ "")
    {cs : List Collection} (hcs : plan.OnlyDrives cs) {d : DriveStore} (hd : d.Built)
    (log : FaultLog) (stopped : Bool) (r : ρ) :
    plan.ConfinedTo cs d (plan.run cs (Session.start plan log stopped (d, r))).2.view := by
  have htidy := hd.tidy
  obtain ⟨n, -, hview⟩ := plan.view_run cs (Session.start plan log stopped (d, r))
  have h : (plan.boundary cs (Session.start plan log stopped (d, r)) n).session.view.Confined
      plan cs d :=
    (Plan.boundary_view_start hremote hcs (fun _ h => h.sound.home)
      (fun _ _ _ _ _ h henters => h.enters hlocation henters)
      (fun _ hc _ _ _ _ _ _ h hpath hhome hfolder htakes =>
        h.takes htidy.toNumbered hlocation hc hpath hhome hfolder htakes)
      (.start plan log stopped htidy r cs) n).1
  rw [← hview] at h
  generalize (plan.run cs (Session.start plan log stopped (d, r))).2.view = V at h
  -- a node is found under its id as long as it is there
  have hfind {n : Node} (hn : n ∈ V.store.nodes) : V.store.node? n.id = some n :=
    (DriveStore.node?_eq_some h.sound.numbered).2 ⟨hn, rfl⟩
  have hkept {n : Node} (hn : n ∈ d.nodes) (hlost : V.store.node? n.id ≠ some n) :
      V.Replaced plan cs n := by
    rcases h.kept n hn with hmem | hreplaced
    · exact absurd (hfind hmem) hlost
    · exact hreplaced
  have hplace (address : DriveAddress) :
      plan.options.destination address = plan.options.location :: address.folders :=
    if_neg hlocation
  have hwithin {rest : List String} {id : String}
      (hid : V.folder? (plan.options.location :: rest) = some id) (hgiven : Given d.count id) :
      ∃ top, V.folder? [plan.options.location] = some top ∧ Within d.nodes top id := by
    refine h.sound.within (P := Given d.count) (fun n hn hn' => ?_) hid hgiven
    have hold := h.old n hn hn'
    exact ⟨hold, htidy.placed n hold⟩
  refine ⟨fun n hn hout => ⟨?_, ?_⟩, fun n hn hnew => ?_, fun hpolicy n hn => ?_,
    fun n hn hlost => hkept hn hlost⟩
  · by_contra hlost
    obtain ⟨-, -, c, -, address, folder, -, -, hfolder, hparent, -⟩ := hkept hn hlost
    rw [hplace] at hfolder
    obtain ⟨top, htop, hfolderWithin⟩ := hwithin hfolder (htidy.placed n hn folder hparent)
    exact hout top htop (.inner hn hparent hfolderWithin)
  · rcases h.grants n.id (htidy.given n hn) with hsame | ⟨rest, hknown⟩
    · exact hsame
    · obtain ⟨top, htop, hnodeWithin⟩ := hwithin hknown (htidy.given n hn)
      exact absurd hnodeWithin (hout top htop)
  · have hfresh : ¬ Given d.count n.id := fun hid => hnew (h.old n hn hid)
    rcases h.added n hn hfresh with htop | ⟨rest, parent, hparent, hknown⟩
    · exact ⟨n.id, htop, .self⟩
    · obtain ⟨top, htop, hparentWithin⟩ := h.sound.within (P := fun _ => True)
        (fun m hm _ => ⟨hm, fun _ _ => trivial⟩) hknown trivial
      exact ⟨top, htop, .inner hn hparent hparentWithin⟩
  · by_contra hlost
    exact hpolicy (hkept hn hlost).1

/-- A file in the root of a drive. -/
def letter : List Collection :=
  [.ofEntries ⟨"tenant", .onedrive, "user", .files, ["drives", "drive", "root:"]⟩
    [.ok ⟨"letter.txt", .empty⟩]]

/-- A drive with two files. -/
def filledDrive : DriveStore :=
  ((({ drive := "drive" } : DriveStore).addFile "Restored/letter.txt" .empty).2.addFile
    "notes.txt" .empty).2

/-- Restore into the folder `Restored`, replacing files. -/
def replaceLetter : Plan (DriveStore × Unit) where
  options := { location := "Restored", onCollision := .replace }
  version := 0
  remote := DriveStore.beside .nobody

/-- The letter in the folder is replaced, the notes beside it are not touched. -/
theorem confined_letter :
    let start := Session.start replaceLetter {} false (filledDrive, ())
    let ended := (replaceLetter.run letter start).2
    replaceLetter.ConfinedTo letter filledDrive ended.view ∧
      ended.view.store.nodes.map (·.id) = ["existing-3", "folder-1", "item-4", "root"] := by
  have hsort : Collection.sort letter = letter := Collection.sort_of_pairwise (by decide +kernel)
  have hcs : replaceLetter.OnlyDrives letter := by
    intro c hc _
    rw [List.mem_singleton.1 hc]
    rfl
  have hbuilt : filledDrive.Built := ((DriveStore.Built.new "drive").addFile _ _).addFile _ _
  refine ⟨Plan.confined_to_location rfl (by decide) hcs hbuilt {} false (), ?_⟩
  rw [Plan.run_eq, hsort]
  decide +kernel

end TenantRestore
