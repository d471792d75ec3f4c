/-
# Restoring the same again

Under the policy to skip, a restore to a new drive stores every file whose name is free.  Run once
more on the drive it has left, it finds every folder it has created, and every name it has looked at
taken: it changes nothing, and reports the files it had stored as conflicts (`Plan.again`).

The two runs are compared boundary by boundary (`Boundary.Echoes`).  The second one finds the same
folders as the first since no two folders beside each other have the same name, and a folder is
found before a file of its name, because its id comes first.  This is so on a drive that was new
when the first run started (`DriveView.Fresh`).
-/
import Mathlib.Data.List.Induction
import TenantRestore.Proofs.Drive.Sound
import TenantRestore.Proofs.Path

namespace TenantRestore

variable {ρ : Type}

/-- The id of a node that is in a folder tells whether it is a folder or a file. -/
def Node.Worded (n : Node) : Prop :=
  n.parent = none ∨ ∃ number, n.id = (if n.content.isSome then "item" else "folder") ++ number

/-- The ids of folders come before those of files. -/
theorem Node.Worded.id_lt {m n : Node} (hm : m.Worded) (hn : n.Worded) {p q : String}
    (hmp : m.parent = some p) (hnp : n.parent = some q) (hmcontent : m.content = none)
    (hncontent : n.content.isSome) : m.id < n.id := by
  rcases hm with hm | ⟨i, hi⟩
  · rw [hmp] at hm
    cases hm
  rcases hn with hn | ⟨j, hj⟩
  · rw [hnp] at hn
    cases hn
  rw [hi, hj, if_pos hncontent, hmcontent, String.lt_iff_toList_lt, String.toList_append,
    String.toList_append]
  exact List.cons_lt_cons_iff.2 (Or.inl (by decide))

theorem DriveStore.newId_eq (s : DriveStore) (word : String) : ∃ number, s.newId word =
    word ++ number :=
  ⟨"-" ++ Progress.count (s.count + 1), by rw [newId, String.append_assoc]⟩

/-- Whether a file has been stored under a name by a call. -/
def Exchange.Uploads (x : Exchange) (name : String) : Prop :=
  ∃ drive folder data policy new, x = ⟨.drive (.upload drive folder name data policy), .ok new⟩

theorem Exchange.not_uploads {x : Exchange} (h : x.call.changes = false) (name : String) :
    ¬ x.Uploads name := by
  rintro ⟨drive, folder, data, policy, new, rfl⟩
  cases h

namespace DriveView

/-! ## A drive that was new -/

/-- What holds during a restore that skips files and started from a drive `d` on which this was so,
for example a new one. -/
structure Fresh (d : DriveStore) (V : DriveView) : Prop where
  sound : V.Sound d
  top : ∃ n ∈ V.store.nodes, n.id = rootId
  worded : ∀ n ∈ V.store.nodes, n.Worded
  single : ∀ m ∈ V.store.nodes, ∀ n ∈ V.store.nodes, ∀ p, m.parent = some p → n.parent = some p →
    m.name = n.name → m.content = none → n.content = none → m = n
  keys : ∀ folder ks name, V.keys.find? folder = some ks → ks.contains name →
    ∃ n ∈ V.store.nodes, n.isFileAt folder name

variable {d : DriveStore} {V W : DriveView} {folder name : String}

/-- The folders above a known one are known. -/
theorem Sound.above (h : V.Sound d) {place names : List String} (hplace : place <+: names)
    (hknown : (V.folder? names).isSome) : (V.folder? place).isSome := by
  obtain ⟨rest, rfl⟩ := hplace
  induction rest using List.reverseRecOn with
  | nil => simpa using hknown
  | append_singleton rest name ih =>
    obtain ⟨id, hid⟩ := Option.isSome_iff_exists.1 hknown
    rw [← List.append_assoc] at hid
    obtain ⟨parent, hparent, -⟩ := h.folder (place ++ rest) name id hid
    exact ih (by rw [hparent]; rfl)

namespace Fresh

/-- Known folders are there. -/
theorem node?_folder (h : V.Fresh d) {place : List String} {id : String}
    (hid : V.folder? place = some id) : (V.store.node? id).isSome := by
  have hnode : ∃ n ∈ V.store.nodes, n.id = id := by
    rcases List.eq_nil_or_concat place with rfl | ⟨place, name, rfl⟩
    · rw [h.sound.root id hid]
      exact h.top
    · rw [List.concat_eq_append] at hid
      obtain ⟨parent, -, hnode⟩ := h.sound.folder place name id hid
      exact ⟨_, hnode, rfl⟩
  obtain ⟨n, hn, hnid⟩ := hnode
  rw [(DriveStore.node?_eq_some h.sound.numbered).2 ⟨hn, hnid⟩]
  rfl

theorem not_stranded (h : V.Fresh d) : ¬ V.Stranded := by
  rintro ⟨place, parent, hparent, hgone⟩
  have hthere := h.node?_folder hparent
  rw [hgone] at hthere
  cases hthere

/-- A folder is found by its name, even if there is a file of that name beside it. -/
theorem findFolder (h : V.Fresh d) {id parent : String}
    (hnode : ⟨id, name, some parent, none⟩ ∈ V.store.nodes) :
    V.store.findFolder parent name = some ⟨id, name, some parent⟩ := by
  cases hchild : V.store.child? parent name with
  | none => exact absurd rfl (DriveStore.child?_eq_none.1 hchild _ hnode rfl)
  | some m =>
    obtain ⟨hm, hparent, hname⟩ := DriveStore.mem_of_child? hchild
    have hcontent : m.content = none := by
      by_contra hfile
      have hfile : m.content.isSome := by simpa [Option.isSome_iff_ne_none] using hfile
      -- otherwise the folder would come before the file
      have hlt := (h.worded _ hnode).id_lt (h.worded m hm) rfl hparent rfl hfile
      rcases h.sound.numbered.eq_or_lt_of_child? hchild hnode rfl rfl with rfl | hgt
      · cases hfile
      · exact absurd (String.lt_trans hlt hgt) (String.lt_irrefl _)
    have hsame := h.single m hm _ hnode parent hparent rfl hname hcontent rfl
    exact DriveStore.findFolder_eq_some.2 ⟨m, hchild, hcontent, by rw [hsame]⟩

/-- Only the nodes and the known keys matter. -/
theorem of_same (h : V.Fresh d) (hsound : W.Sound d) (hnodes : W.store.nodes = V.store.nodes)
    (hkeys : ∀ folder ks name, W.keys.find? folder = some ks → ks.contains name →
      ∃ n ∈ V.store.nodes, n.isFileAt folder name) : W.Fresh d where
  sound := hsound
  top := hnodes ▸ h.top
  worded := hnodes ▸ h.worded
  single := hnodes ▸ h.single
  keys := hnodes ▸ hkeys

/-- A node is added; a folder only where there is none of its name. -/
theorem of_added (h : V.Fresh d) (hsound : W.Sound d) {n : Node} {p : String}
    (hnodes : ∀ m, m ∈ W.store.nodes ↔ m = n ∨ m ∈ V.store.nodes) (hparent : n.parent = some p)
    (hword : n.Worded)
    (hfind : n.content = none → V.store.findFolder p n.name = none)
    (hkeys : ∀ folder ks name, W.keys.find? folder = some ks → ks.contains name →
      ∃ m ∈ W.store.nodes, m.isFileAt folder name) : W.Fresh d := by
  have hfree : ∀ m ∈ V.store.nodes, m.parent = some p → m.content = none → n.content = none →
      m.name ≠ n.name := by
    intro m hm hmparent hmcontent hcontent hname
    have hnode : ⟨m.id, n.name, some p, none⟩ ∈ V.store.nodes := by
      rw [← hname, ← hmparent, ← hmcontent]
      exact hm
    have hfound := h.findFolder hnode
    rw [hfind hcontent] at hfound
    cases hfound
  refine ⟨hsound, ?_, ?_, ?_, hkeys⟩
  · obtain ⟨m, hm, hid⟩ := h.top
    exact ⟨m, (hnodes m).2 (Or.inr hm), hid⟩
  · intro m hm
    rcases (hnodes m).1 hm with rfl | hm
    · exact hword
    · exact h.worded m hm
  · intro k hk m hm q hkq hmq hname hkcontent hmcontent
    rcases (hnodes k).1 hk with rfl | hk <;> rcases (hnodes m).1 hm with rfl | hm
    · rfl
    · rw [hparent] at hkq
      exact absurd hname.symm (hfree m hm (hmq.trans hkq.symm) hmcontent hkcontent)
    · rw [hparent] at hmq
      exact absurd hname (hfree k hk (hkq.trans hmq.symm) hkcontent hmcontent)
    · exact h.single k hk m hm q hkq hmq hname hkcontent hmcontent

theorem toward (h : V.Fresh d) {names : List String} (hstep : V.Toward names W) :
    W.Fresh d ∧ V.store.nodes ⊆ W.store.nodes := by
  have hsound := h.sound.toward hstep
  cases hstep with
  | look _ | root _ | found _ _ _ _ => exact ⟨h.of_same hsound rfl h.keys, List.Subset.refl _⟩
  | @orphaned place name parent hparent hnode =>
    have hthere := h.node?_folder hparent
    rw [hnode] at hthere
    cases hthere
  | @created place name parent _ _ _ hfind hnode =>
    have hmem {m : Node} := mem_created h.sound.numbered hnode name (n := m)
    have hsub : V.store.nodes ⊆ (V.asked (.createFolder V.store.drive parent name)).store.nodes :=
      fun m hm => hmem.2 (Or.inr hm)
    refine ⟨h.of_added hsound (fun _ => hmem) rfl ?_ (fun _ => hfind) ?_, hsub⟩
    · exact Or.inr (V.store.newId_eq "folder")
    · intro folder ks name hks hname
      obtain ⟨m, hm, hfile⟩ := h.keys folder ks name hks hname
      exact ⟨m, hsub hm, hfile⟩

theorem way (h : V.Fresh d) {names : List String} (hway : V.Way names W) :
    W.Fresh d ∧ V.store.nodes ⊆ W.store.nodes := by
  induction hway with
  | refl => exact ⟨h, List.Subset.refl _⟩
  | tail _ hstep ih =>
    obtain ⟨hfresh, hnodes⟩ := ih.1.toward hstep
    exact ⟨hfresh, List.Subset.trans ih.2 hnodes⟩

theorem heard (h : V.Fresh d) (x : Exchange) : (V.heard x).Fresh d :=
  h.of_same (h.sound.heard x) rfl h.keys

theorem remembering (h : V.Fresh d) (path : String) (m : Metadata) :
    (V.remembering path m).Fresh d :=
  h.of_same (h.sound.remembering path m) rfl h.keys

theorem shares (h : V.Fresh d) {item : String} (hshares : V.Shares item W) : W.Fresh d := by
  refine h.of_same (h.sound.shares hshares) hshares.nodes fun folder ks name hks => ?_
  rw [hshares.keys] at hks
  exact h.keys folder ks name hks

theorem enters (h : V.Fresh d) {σ : Type} {plan : Plan σ} {c : Collection}
    {r : Except Fault Entrance} (henters : V.Enters plan c r W) :
    W.Fresh d ∧ V.store.nodes ⊆ W.store.nodes := by
  cases henters with
  | unserved _ | unplaced _ _ | unread _ _ _ => exact ⟨h, List.Subset.refl _⟩
  | elsewhere _ _ _ _ _ => exact ⟨h.heard _, List.Subset.refl _⟩
  | lost _ _ _ _ hway _ => exact h.way hway
  | entered _ _ _ _ hway _ hshares =>
    obtain ⟨hfresh, hnodes⟩ := h.way hway
    refine ⟨(hfresh.shares hshares).remembering _ _, ?_⟩
    rw [store_remembering, hshares.nodes]
    exact hnodes

theorem listed (h : V.Fresh d) (folder : String) : (V.listed folder).Fresh d := by
  refine h.of_same (h.sound.listed folder) (by rw [store_listed]) fun folder' ks name hks => ?_
  unfold DriveView.listed at hks
  split at hks
  · exact h.keys folder' ks name hks
  · simp only [DriveView.keeping, Table.find?_insert] at hks
    split at hks
    · rename_i hfolder
      cases hks
      rw [← hfolder]
      exact DriveStore.contains_keys.1
    · exact h.keys folder' ks name hks

/-- Keeping keys that were known teaches nothing. -/
theorem keys_insert (h : V.Fresh d) {ks : Keys} (hks : V.keys.find? folder = some ks)
    (folder' : String) (ks' : Keys) (name : String)
    (hks' : (V.keys.insert folder ks).find? folder' = some ks') (hname : ks'.contains name) :
    ∃ n ∈ V.store.nodes, n.isFileAt folder' name := by
  rw [Table.find?_insert] at hks'
  split at hks'
  · rename_i hfolder
    cases hks'
    exact h.keys folder' ks name (hfolder ▸ hks) hname
  · exact h.keys folder' ks' name hks' hname

end Fresh

/-- A step adds to a drive: it has stored files, if any, only of those in question, and their names
are taken afterwards. -/
structure Adds (folder : String) (P : DriveFile → Prop) (V W : DriveView) : Prop where
  nodes : V.store.nodes ⊆ W.store.nodes
  taken : ∀ file, P file → ∃ n ∈ W.store.nodes, n.parent = some folder ∧ n.name = file.name
  uploads : ∃ xs, W.trace = V.trace ++ xs ∧ ∀ x ∈ xs, ∀ name, x.Uploads name →
    ∃ file, P file ∧ file.name = name ∧ ∃ n ∈ W.store.nodes, n.isFileAt folder name

section Storing

variable {file : DriveFile} {ks : Keys}

/-- The upload of a file fails because its name is taken. -/
theorem Fresh.refused (h : V.Fresh d) {f : Failure} (hks : V.keys.find? folder = some ks)
    (hupload : (V.store.upload folder file.name file.data .skip).1 = .error f)
    (hsound : ((V.asked (.upload V.store.drive folder file.name file.data .skip)).keeping folder
      ks).Sound d) :
    Fresh d ((V.asked (.upload V.store.drive folder file.name file.data .skip)).keeping folder ks) ∧
      V.Adds folder (· = file)
        ((V.asked (.upload V.store.drive folder file.name file.data .skip)).keeping folder ks) := by
  obtain ⟨n, hchild⟩ := Option.isSome_iff_exists.1 (DriveStore.child?_of_upload_error hupload)
  obtain ⟨hn, hparent, hname⟩ := DriveStore.mem_of_child? hchild
  have hnodes : (V.asked (.upload V.store.drive folder file.name file.data .skip)).store.nodes =
      V.store.nodes := by rw [store_refused hupload]
  refine ⟨h.of_same hsound hnodes (h.keys_insert hks), ?_, ?_, [_], trace_uploaded hupload, ?_⟩
  · rw [store_keeping, hnodes]
    exact List.Subset.refl _
  · rintro _ rfl
    rw [store_keeping, hnodes]
    exact ⟨n, hn, hparent, hname⟩
  · rintro x hx name ⟨drive, folder', data, policy, new, rfl⟩
    cases List.mem_singleton.1 hx

/-- A file is uploaded under a name that is free. -/
theorem Fresh.added (h : V.Fresh d) {new : String} (hks : V.keys.find? folder = some ks)
    (hupload : (V.store.upload folder file.name file.data .skip).1 = .ok new)
    (hsound : ((V.asked (.upload V.store.drive folder file.name file.data .skip)).keeping folder
      (ks.insert file.name new)).Sound d) :
    Fresh d ((V.asked (.upload V.store.drive folder file.name file.data .skip)).keeping folder
        (ks.insert file.name new)) ∧
      V.Adds folder (· = file) ((V.asked (.upload V.store.drive folder file.name file.data
        .skip)).keeping folder (ks.insert file.name new)) := by
  have hmem (m : Node) :
      m ∈ (V.asked (.upload V.store.drive folder file.name file.data .skip)).store.nodes ↔
        m = ⟨new, file.name, some folder, some file.data⟩ ∨ m ∈ V.store.nodes := by
    rw [store_asked_upload rfl, h.sound.numbered.mem_upload hupload,
      DriveStore.freeName_of_free (DriveStore.child?_of_upload_ok hupload)]
  have hstored : ∃ n ∈ (V.asked (.upload V.store.drive folder file.name file.data
      .skip)).store.nodes, n.isFileAt folder file.name :=
    ⟨_, (hmem _).2 (Or.inl rfl), rfl, rfl, rfl⟩
  have hold {m : Node} (hm : m ∈ V.store.nodes) := (hmem m).2 (Or.inr hm)
  refine ⟨h.of_added hsound hmem rfl (Or.inr ?_) (by simp) ?_, fun m hm => hold hm, ?_,
    [_], trace_uploaded hupload, ?_⟩
  · rw [(DriveStore.upload_of_ok hupload).1]
    exact V.store.newId_eq "item"
  · intro folder' ks' name hks' hname
    simp only [DriveView.keeping, Table.find?_insert] at hks'
    split at hks'
    · rename_i hfolder
      cases hks'
      subst hfolder
      rw [Table.contains_insert] at hname
      rcases Bool.or_eq_true_iff.1 hname with hsame | hname
      · rw [← of_decide_eq_true hsame]
        exact hstored
      · obtain ⟨m, hm, hfile⟩ := h.keys folder ks name hks hname
        exact ⟨m, hold hm, hfile⟩
    · obtain ⟨m, hm, hfile⟩ := h.keys folder' ks' name hks' hname
      exact ⟨m, hold hm, hfile⟩
  · rintro _ rfl
    obtain ⟨n, hn, hfile⟩ := hstored
    exact ⟨n, hn, hfile.1, hfile.2.1⟩
  · rintro x hx name ⟨drive, folder', data, policy, new', rfl⟩
    cases List.mem_singleton.1 hx
    exact ⟨file, rfl, rfl, hstored⟩

/-- A file is stored under the policy to skip. -/
theorem Fresh.files (h : V.Fresh d) {place : List String} {r : Except Fault (String × Bool)}
    (hfolder : V.folder? place = some folder) (hfiles : V.Files .skip folder file r W) :
    W.Fresh d ∧ V.Adds folder (· = file) W := by
  have hsound := h.sound.files hfolder hfiles
  cases hfiles with
  | @kept ks hks _ hname =>
    obtain ⟨n, hn, hfile⟩ := h.keys folder ks file.name hks hname
    refine ⟨h.of_same hsound rfl (h.keys_insert hks), List.Subset.refl _, ?_,
      [], by simp [DriveView.keeping], by simp⟩
    rintro _ rfl
    exact ⟨n, hn, hfile.1, hfile.2.1⟩
  | refused hks _ hupload => exact h.refused hks hupload hsound
  | added hks _ hupload _ => exact h.added hks hupload hsound
  | replaced _ hreplace _ _ _ | stays _ hreplace _ _ _ => cases hreplace

end Storing

theorem trace_listed (V : DriveView) (folder : String) :
    ∃ xs, (V.listed folder).trace = V.trace ++ xs ∧ ∀ x ∈ xs, x.call.changes = false := by
  unfold DriveView.listed
  split
  · exact ⟨[], by simp, by simp⟩
  · exact ⟨[_], rfl, by simp [Call.changes]⟩

theorem Adds.shares {P : DriveFile → Prop} {X : DriveView} {item : String}
    (h : V.Adds folder P W) (hshares : W.Shares item X) : V.Adds folder P X := by
  obtain ⟨xs, hxs, huploads⟩ := h.uploads
  obtain ⟨ys, hys, hquiet⟩ := hshares.trace
  refine ⟨?_, ?_, xs ++ ys, by rw [hys, hxs, List.append_assoc], fun x hx name hname => ?_⟩
  · rw [hshares.nodes]
    exact h.nodes
  · rw [hshares.nodes]
    exact h.taken
  · rw [hshares.nodes]
    rcases List.mem_append.1 hx with hx | hx
    · exact huploads x hx name hname
    · exact absurd hname (Exchange.not_uploads (hquiet x hx) name)

theorem Adds.of_listed {P : DriveFile → Prop} {file : DriveFile}
    (h : (V.listed folder).Adds folder (· = file) W) (hP : ∀ file', P file' ↔ file' = file) :
    V.Adds folder P W := by
  obtain ⟨xs, hxs, hquiet⟩ := trace_listed V folder
  obtain ⟨ys, hys, huploads⟩ := h.uploads
  refine ⟨store_listed V folder ▸ h.nodes, fun file' hfile' => h.taken file' ((hP file').1 hfile'),
    xs ++ ys, by rw [hys, hxs, List.append_assoc], fun x hx name hname => ?_⟩
  rcases List.mem_append.1 hx with hx | hx
  · exact absurd hname (Exchange.not_uploads (hquiet x hx) name)
  · obtain ⟨file', hfile', hrest⟩ := huploads x hx name hname
    exact ⟨file', (hP file').2 hfile', hrest⟩

/-- An entry is taken under the policy to skip. -/
theorem Fresh.takes (h : V.Fresh d) {σ : Type} {plan : Plan σ}
    (hpolicy : plan.options.onCollision = .skip) {c : Collection} {place : List String} {e : Entry}
    {r : Except Fault Unit} (hfolder : V.folder? place = some folder)
    (htakes : V.Takes plan c folder e r W) :
    W.Fresh d ∧ V.Adds folder (fun file => plan.recognise c e = .ok (.file file)) W := by
  have hlisted : (V.listed folder).folder? place = some folder := by
    rw [folder?_congr (folders_listed V folder) (drive_listed V folder), hfolder]
  cases htakes with
  | unread hentry | nothing hentry =>
    exact ⟨h, List.Subset.refl _, by simp [hentry], [], by simp, by simp⟩
  | metadata hentry =>
    refine ⟨h.remembering _ _, List.Subset.refl _, by simp [hentry], [], ?_, by simp⟩
    exact (List.append_nil _).symm
  | @failed file f _ hentry hfiles =>
    rw [hpolicy] at hfiles
    obtain ⟨hfresh, hadds⟩ := (h.listed folder).files hlisted hfiles
    exact ⟨hfresh, hadds.of_listed fun file' => by simp [hentry, eq_comm]⟩
  | @stored file id updated r W' _ hentry hfiles hshares =>
    rw [hpolicy] at hfiles
    obtain ⟨hfresh, hadds⟩ := (h.listed folder).files hlisted hfiles
    refine ⟨hfresh.shares hshares, Adds.shares ?_ hshares⟩
    exact hadds.of_listed fun file' => by simp [hentry, eq_comm]

/-! ## A drive that has been restored to -/

/-- What a second restore sees of a drive that a first one has left as `F`. -/
structure Echo (F V : DriveView) : Prop where
  nodes : V.store.nodes = F.store.nodes
  folder : ∀ place id, V.folder? place = some id → F.folder? place = some id
  keys : ∀ folder ks, V.keys.find? folder = some ks →
    ∀ n ∈ F.store.nodes, ∀ name, n.isFileAt folder name → ks.contains name
  calls : ∀ x ∈ V.trace, x.call.changes → x.answer.isOk = false

namespace Echo

variable {F : DriveView} {d' : DriveStore}

theorem heard (h : F.Echo V) {x : Exchange} (hx : x.call.changes = false) :
    F.Echo (V.heard x) where
  nodes := h.nodes
  folder := h.folder
  keys := h.keys
  calls y hy hchanges := by
    rcases List.mem_append.1 hy with hy | hy
    · exact h.calls y hy hchanges
    · rw [List.mem_singleton.1 hy, hx] at hchanges
      cases hchanges

theorem remembering (h : F.Echo V) (path : String) (m : Metadata) :
    F.Echo (V.remembering path m) :=
  ⟨h.nodes, h.folder, h.keys, h.calls⟩

theorem shares (h : F.Echo V) {item : String} (hshares : V.Shares item W) : F.Echo W where
  nodes := hshares.nodes.trans h.nodes
  folder place id hid := h.folder place id (hshares.folder? place ▸ hid)
  keys folder ks hks := h.keys folder ks (hshares.keys ▸ hks)
  calls x hx hchanges := by
    obtain ⟨xs, hxs, hquiet⟩ := hshares.trace
    rw [hxs] at hx
    rcases List.mem_append.1 hx with hx | hx
    · exact h.calls x hx hchanges
    · rw [hquiet x hx] at hchanges
      cases hchanges

/-- A folder is learnt that was known in the end. -/
theorem knowing (h : F.Echo V) {place : List String} {id : String}
    (hid : F.folder? place = some id) : F.Echo (V.knowing (V.store.drive, place) id) where
  nodes := h.nodes
  folder place' id' hid' := by
    rw [folder?_knowing] at hid'
    split at hid'
    · rename_i hplace
      rw [← hplace, hid, hid']
    · exact h.folder place' id' hid'
  keys := h.keys
  calls := h.calls

/-- On the way to a folder that the first restore knew in the end all folders are there. -/
theorem toward (h : F.Echo V) (hF : F.Fresh d) (hV : V.Fresh d') {names : List String}
    (hknown : (F.folder? names).isSome) (hstep : V.Toward names W) : F.Echo W := by
  have hfolder {place : List String} {name parent : String} (hplace : place ++ [name] <+: names)
      (hparent : V.folder? place = some parent) : ∃ id, F.folder? (place ++ [name]) = some id ∧
        ⟨id, name, some parent, none⟩ ∈ V.store.nodes := by
    obtain ⟨id, hid⟩ := Option.isSome_iff_exists.1 (hF.sound.above hplace hknown)
    obtain ⟨parent', hparent', hnode⟩ := hF.sound.folder place name id hid
    rw [h.folder place parent hparent] at hparent'
    cases hparent'
    exact ⟨id, hid, h.nodes ▸ hnode⟩
  cases hstep with
  | look hcall => exact h.heard hcall
  | root _ =>
    obtain ⟨id, hid⟩ := Option.isSome_iff_exists.1 (hF.sound.above (List.nil_prefix) hknown)
    exact h.knowing (hF.sound.root id hid ▸ hid)
  | found hplace hparent _ hfind =>
    obtain ⟨id, hid, hnode⟩ := hfolder hplace hparent
    rw [hV.findFolder hnode] at hfind
    cases hfind
    exact h.knowing hid
  | created hplace hparent _ hfind _ =>
    obtain ⟨id, -, hnode⟩ := hfolder hplace hparent
    rw [hV.findFolder hnode] at hfind
    cases hfind
  | orphaned hparent hgone =>
    have hthere := hV.node?_folder hparent
    rw [hgone] at hthere
    cases hthere

theorem way (h : F.Echo V) (hF : F.Fresh d) (hV : V.Fresh d') {names : List String}
    (hknown : (F.folder? names).isSome) (hway : V.Way names W) : F.Echo W := by
  induction hway with
  | refl => exact h
  | tail hway hstep ih => exact ih.toward hF (hV.way hway).1 hknown hstep

theorem listed (h : F.Echo V) (folder : String) : F.Echo (V.listed folder) := by
  refine ⟨?_, ?_, ?_, ?_⟩
  · rw [store_listed, h.nodes]
  · intro place id hid
    rw [folder?_congr (folders_listed V folder) (drive_listed V folder)] at hid
    exact h.folder place id hid
  · intro folder' ks hks n hn name hfile
    unfold DriveView.listed at hks
    split at hks
    · exact h.keys folder' ks hks n hn name hfile
    · simp only [DriveView.keeping, Table.find?_insert] at hks
      split at hks
      · rename_i hfolder
        cases hks
        rw [← hfolder] at hfile
        exact DriveStore.contains_keys.2 ⟨n, h.nodes ▸ hn, hfile⟩
      · exact h.keys folder' ks hks n hn name hfile
  · intro x hx hchanges
    obtain ⟨xs, hxs, hquiet⟩ := trace_listed V folder
    rw [hxs] at hx
    rcases List.mem_append.1 hx with hx | hx
    · exact h.calls x hx hchanges
    · rw [hquiet x hx] at hchanges
      cases hchanges

/-- A file whose name is taken is not stored; if it is taken by a file, that is the conflict. -/
theorem files (h : F.Echo V) {file : DriveFile} {r : Except Fault (String × Bool)}
    (htaken : ∃ n ∈ F.store.nodes, n.parent = some folder ∧ n.name = file.name)
    (hfiles : V.Files .skip folder file r W) :
    F.Echo W ∧ ∃ f, r = .error f ∧ ((∃ n ∈ F.store.nodes, n.isFileAt folder file.name) →
      f = .itemAlreadyExists file.name) := by
  have hkeys {ks : Keys} (hks : V.keys.find? folder = some ks) (folder' : String) (ks' : Keys)
      (hks' : (V.keys.insert folder ks).find? folder' = some ks') :
      ∀ n ∈ F.store.nodes, ∀ name, n.isFileAt folder' name → ks'.contains name := by
    rw [Table.find?_insert] at hks'
    split at hks'
    · rename_i hfolder
      cases hks'
      exact h.keys folder' ks (hfolder ▸ hks)
    · exact h.keys folder' ks' hks'
  cases hfiles with
  | kept hks _ _ => exact ⟨⟨h.nodes, h.folder, hkeys hks, h.calls⟩, _, rfl, fun _ => rfl⟩
  | @refused ks f hks hname hupload =>
    refine ⟨⟨?_, ?_, hkeys hks, ?_⟩, _, rfl, ?_⟩
    · rw [store_keeping, store_refused hupload, h.nodes]
    · intro place id hid
      exact h.folder place id ((folder?_asked ..).symm.trans hid)
    · intro x hx hchanges
      change x ∈ (V.asked _).trace at hx
      rw [trace_uploaded hupload] at hx
      rcases List.mem_append.1 hx with hx | hx
      · exact h.calls x hx hchanges
      · rw [List.mem_singleton.1 hx]
        rfl
    · rintro ⟨n, hn, hfile⟩
      exact absurd ⟨h.keys folder ks hks n hn file.name hfile, rfl⟩ hname
  | added _ _ hupload _ =>
    obtain ⟨n, hn, hparent, hname⟩ := htaken
    exact absurd hname (DriveStore.child?_eq_none.1 (DriveStore.child?_of_upload_ok hupload) n
      (h.nodes ▸ hn) hparent)
  | replaced _ hreplace _ _ _ | stays _ hreplace _ _ _ => cases hreplace

/-- No entry is stored that the first restore has looked at. -/
theorem takes (h : F.Echo V) {σ : Type} {plan : Plan σ}
    (hpolicy : plan.options.onCollision = .skip) {c : Collection} {e : Entry}
    {r : Except Fault Unit} (htakes : V.Takes plan c folder e r W)
    (htaken : ∀ file, plan.recognise c e = .ok (.file file) →
      ∃ n ∈ F.store.nodes, n.parent = some folder ∧ n.name = file.name) :
    F.Echo W ∧ ∀ file, plan.recognise c e = .ok (.file file) →
      (∃ n ∈ F.store.nodes, n.isFileAt folder file.name) →
        r = .error (.itemAlreadyExists file.name) := by
  cases htakes with
  | unread hentry | nothing hentry => exact ⟨h, by simp [hentry]⟩
  | metadata hentry => exact ⟨h.remembering _ _, by simp [hentry]⟩
  | @failed file f _ hentry hfiles =>
    rw [hpolicy] at hfiles
    obtain ⟨hecho, _, hr, hconflict⟩ := (h.listed folder).files (htaken file hentry) hfiles
    refine ⟨hecho, fun file' hfile' hstored => ?_⟩
    rw [hentry] at hfile'
    cases hfile'
    cases hr
    rw [hconflict hstored]
  | stored hentry hfiles _ =>
    rw [hpolicy] at hfiles
    obtain ⟨_, _, hr, -⟩ := (h.listed folder).files (htaken _ hentry) hfiles
    cases hr

end Echo

end DriveView

/-! ## Entering the same collections -/

/-- Where a collection goes, with the metadata of its folder, if it can be entered. -/
def Plan.doorway {σ : Type} (plan : Plan σ) (drive : String) (metadata : Table String Metadata)
    (c : Collection) : Option (DriveAddress × Metadata) :=
  if c.path.category.handler = .drive then
    match c.path.drive with
    | .error _ => none
    | .ok address =>
      match plan.folderMetadata c address metadata with
      | .error _ => none
      | .ok m => if address.drive = drive then some (address, m) else none
  else none

/-- The metadata known after an entry. -/
def Plan.learning {σ : Type} (plan : Plan σ) (c : Collection) (e : Entry)
    (metadata : Table String Metadata) : Table String Metadata :=
  match plan.recognise c e with
  | .ok (.folderMetadata path m) => metadata.insert path.text m
  | _ => metadata

namespace DriveView

variable {d : DriveStore} {V W F : DriveView} {folder : String}

theorem Way.metadata {names : List String} (h : V.Way names W) : W.metadata = V.metadata := by
  induction h with
  | refl => rfl
  | tail _ hstep ih =>
    refine Eq.trans ?_ ih
    cases hstep <;> rfl

@[simp] theorem metadata_listed (V : DriveView) (folder : String) :
    (V.listed folder).metadata = V.metadata := by
  unfold listed
  split <;> rfl

theorem Files.metadata {policy : CollisionPolicy} {file : DriveFile}
    {r : Except Fault (String × Bool)} (h : V.Files policy folder file r W) :
    W.metadata = V.metadata := by
  cases h <;> rfl

theorem Takes.metadata_eq {σ : Type} {plan : Plan σ} {c : Collection} {e : Entry}
    {r : Except Fault Unit} (h : V.Takes plan c folder e r W) :
    W.metadata = plan.learning c e V.metadata := by
  unfold Plan.learning
  cases h with
  | unread hentry | nothing hentry => rw [hentry]
  | metadata hentry =>
    rw [hentry]
    rfl
  | failed hentry hfiles => rw [hentry, hfiles.metadata, metadata_listed]
  | stored hentry hfiles hshares =>
    rw [hentry, hshares.metadata, hfiles.metadata, metadata_listed]

section Entering

variable {σ : Type} {plan : Plan σ} {c : Collection} {r : Except Fault Entrance}

/-- A collection that has a doorway is entered, if no folder is gone. -/
theorem Enters.of_doorway (h : V.Enters plan c r W) (hW : ¬ W.Stranded) {address : DriveAddress}
    {m : Metadata} (hdoor : plan.doorway V.store.drive V.metadata c = some (address, m)) :
    ∃ folder, r = .ok (.drive address folder) ∧
      W.folder? (plan.options.destination address) = some folder ∧
      W.metadata = V.metadata.insert c.path.text m := by
  unfold Plan.doorway at hdoor
  cases h with
  | unserved hhandler => simp [hhandler] at hdoor
  | unplaced hhandler hpath => simp [hhandler, hpath] at hdoor
  | unread hhandler hpath hmetadata => simp [hhandler, hpath, hmetadata] at hdoor
  | elsewhere hhandler hpath hmetadata hdrive _ =>
    simp [hhandler, hpath, hmetadata, hdrive] at hdoor
  | lost _ _ _ _ _ hlost => exact absurd hlost hW
  | @entered _ _ folder _ X hhandler hpath hmetadata hdrive hway hfolder hshares =>
    simp only [hhandler, hpath, hmetadata, hdrive, ↓reduceIte, Option.some.injEq,
      Prod.mk.injEq] at hdoor
    obtain ⟨rfl, rfl⟩ := hdoor
    refine ⟨folder, rfl, (hshares.folder? _).trans hfolder, ?_⟩
    change X.metadata.insert _ _ = _
    rw [hshares.metadata, hway.metadata]

/-- A collection without a doorway is not entered. -/
theorem Enters.of_no_doorway (h : V.Enters plan c r W)
    (hdoor : plan.doorway V.store.drive V.metadata c = none) :
    (∃ f, r = .error f) ∧ W.metadata = V.metadata := by
  unfold Plan.doorway at hdoor
  cases h with
  | unserved _ | unplaced _ _ | unread _ _ _ | elsewhere _ _ _ _ _ => exact ⟨⟨_, rfl⟩, rfl⟩
  | lost hhandler hpath hmetadata hdrive _ _ | entered hhandler hpath hmetadata hdrive _ _ _ =>
    simp [hhandler, hpath, hmetadata, hdrive] at hdoor

/-- A second restore enters a collection if all folders on the way to it were known to the first
one. -/
theorem Echo.enters (h : F.Echo V) {d' : DriveStore} (hF : F.Fresh d) (hV : V.Fresh d')
    (hknown : ∀ address m, plan.doorway V.store.drive V.metadata c = some (address, m) →
      (F.folder? (plan.options.destination address)).isSome)
    (henters : V.Enters plan c r W) : F.Echo W := by
  cases henters with
  | unserved _ | unplaced _ _ | unread _ _ _ => exact h
  | elsewhere _ _ _ _ hcall => exact h.heard hcall
  | @lost address m _ _ hhandler hpath hmetadata hdrive hway _ =>
    refine h.way hF hV (hknown address m ?_) hway
    simp [Plan.doorway, hhandler, hpath, hmetadata, hdrive]
  | @entered address m _ _ _ hhandler hpath hmetadata hdrive hway _ hshares =>
    refine ((h.way hF hV (hknown address m ?_) hway).shares hshares).remembering _ _
    simp [Plan.doorway, hhandler, hpath, hmetadata, hdrive]

end Entering

/-- A step stores no file. -/
def StoresNothing (V W : DriveView) : Prop :=
  ∃ xs, W.trace = V.trace ++ xs ∧ ∀ x ∈ xs, ∀ name, ¬ x.Uploads name

namespace StoresNothing

theorem refl (V : DriveView) : V.StoresNothing V := ⟨[], (List.append_nil _).symm, by simp⟩

theorem trans {X : DriveView} (h : V.StoresNothing W) (h' : W.StoresNothing X) :
    V.StoresNothing X := by
  obtain ⟨xs, hxs, hnone⟩ := h
  obtain ⟨ys, hys, hnone'⟩ := h'
  refine ⟨xs ++ ys, by rw [hys, hxs, List.append_assoc], fun x hx => ?_⟩
  exact (List.mem_append.1 hx).elim (hnone x) (hnone' x)

theorem of_quiet {xs : List Exchange} (htrace : W.trace = V.trace ++ xs)
    (hquiet : ∀ x ∈ xs, x.call.changes = false) : V.StoresNothing W :=
  ⟨xs, htrace, fun x hx => Exchange.not_uploads (hquiet x hx)⟩

theorem toward {names : List String} (h : V.Toward names W) : V.StoresNothing W := by
  cases h with
  | look hcall => exact of_quiet rfl (by simpa using hcall)
  | root _ | found _ _ _ _ => exact ⟨[], (List.append_nil _).symm, by simp⟩
  | created _ _ _ _ _ | orphaned _ _ =>
    refine ⟨[_], rfl, ?_⟩
    rintro y hy name ⟨drive, folder, data, policy, new, rfl⟩
    cases List.mem_singleton.1 hy

theorem way {names : List String} (h : V.Way names W) : V.StoresNothing W := by
  induction h with
  | refl => exact refl V
  | tail _ hstep ih => exact ih.trans (toward hstep)

/-- Entering a collection stores no file. -/
theorem enters {σ : Type} {plan : Plan σ} {c : Collection} {r : Except Fault Entrance}
    (h : V.Enters plan c r W) : V.StoresNothing W := by
  cases h with
  | unserved _ | unplaced _ _ | unread _ _ _ => exact refl V
  | elsewhere _ _ _ _ hcall => exact of_quiet rfl (by simpa using hcall)
  | lost _ _ _ _ hway _ => exact way hway
  | entered _ _ _ _ hway _ hshares =>
    obtain ⟨xs, hxs, hquiet⟩ := hshares.trace
    exact (way hway).trans (of_quiet hxs hquiet)

end StoresNothing

end DriveView

/-! ## Two runs, boundary by boundary -/

/-- At a boundary a second run is where the first one was, and sees what that one has left. -/
structure Boundary.Echoes (F : DriveView) (b₁ b₂ : Boundary (DriveStore × ρ)) : Prop where
  current : b₂.current = b₁.current
  later : b₂.later = b₁.later
  metadata : b₂.session.view.metadata = b₁.session.view.metadata
  echo : F.Echo b₂.session.view

/-- Where a first run stores files on the way from one session to another, a second run reports
their names as conflicts. -/
def Plan.Reports (plan : Plan (DriveStore × ρ)) (s₁ t₁ s₂ t₂ : Session (DriveStore × ρ)) : Prop :=
  ∀ x ∈ t₁.trace.drop s₁.trace.length, ∀ name, x.Uploads name →
    t₂.faults = (plan.perform (.note (.itemAlreadyExists name)) s₂).faults

section Advance

variable {plan : Plan (DriveStore × ρ)} {desk : Remote ρ}
  (hremote : plan.remote = DriveStore.beside desk)
  (hpolicy : plan.options.onCollision = .skip) {d d' : DriveStore} {F : DriveView}

theorem Plan.Reports.of_storesNothing {s₁ t₁ s₂ t₂ : Session (DriveStore × ρ)}
    (h : s₁.view.StoresNothing t₁.view) : plan.Reports s₁ t₁ s₂ t₂ := by
  obtain ⟨xs, hxs, hnone⟩ := h
  intro x hx name hname
  have htrace : t₁.trace = s₁.trace ++ xs := hxs
  rw [htrace, List.drop_left] at hx
  exact absurd hname (hnone x hx name)

/-- Without an entry both runs do nothing to the drive. -/
theorem Plan.pass_echoes_nothing {p : Passage} {later : List Collection}
    {s₁ s₂ : Session (DriveStore × ρ)} (hrest : ∀ e rest, p.rest ≠ .ok e :: rest)
    (hecho : F.Echo s₂.view) (hmetadata : s₂.view.metadata = s₁.view.metadata) :
    (plan.pass p later s₁).Echoes F (plan.pass p later s₂) ∧
      plan.Reports s₁ (plan.pass p later s₁).session s₂ (plan.pass p later s₂).session := by
  have hview (s : Session (DriveStore × ρ)) : (plan.pass p later s).session.view = s.view :=
    Plan.pass_view_nothing p later s hrest
  refine ⟨⟨?_, ?_, by rw [hview, hview, hmetadata], by rw [hview]; exact hecho⟩,
    .of_storesNothing (by rw [hview]; exact .refl _)⟩
  · rcases p with ⟨c, entrance, _ | ⟨f | e, rest⟩⟩ <;> rfl
  · rcases p with ⟨c, entrance, _ | ⟨f | e, rest⟩⟩ <;> rfl

include hremote

/-- Both runs begin a collection. -/
theorem Plan.begin_echoes (hF : F.Fresh d) {c : Collection} {later : List Collection}
    {s₁ s₂ : Session (DriveStore × ρ)}
    (hc : plan.remote.serves c.path.category.handler → c.path.category.handler = .drive)
    (hs₁ : s₁.view.Fresh d) (hs₂ : s₂.view.Fresh d') (hecho : F.Echo s₂.view)
    (hdrive : s₂.view.store.drive = s₁.view.store.drive)
    (hmetadata : s₂.view.metadata = s₁.view.metadata)
    (hgrows : (plan.begin c later s₁).session.view.Grows F) :
    (plan.begin c later s₁).Echoes F (plan.begin c later s₂) ∧
      plan.Reports s₁ (plan.begin c later s₁).session s₂ (plan.begin c later s₂).session := by
  obtain ⟨r₁, W₁, henters₁, hview₁, hcurrent₁, hlater₁⟩ :=
    Plan.begin_view hremote hs₁.sound.home hc later
  obtain ⟨r₂, W₂, henters₂, hview₂, hcurrent₂, hlater₂⟩ :=
    Plan.begin_view hremote hs₂.sound.home hc later
  rw [hview₁] at hgrows
  have hdoors : plan.doorway s₂.view.store.drive s₂.view.metadata c =
      plan.doorway s₁.view.store.drive s₁.view.metadata c := by rw [hdrive, hmetadata]
  suffices h : r₂.toOption = r₁.toOption ∧ W₂.metadata = W₁.metadata ∧ F.Echo W₂ by
    obtain ⟨hr, hm, hecho'⟩ := h
    refine ⟨⟨?_, hlater₂.trans hlater₁.symm, ?_, ?_⟩,
      .of_storesNothing (hview₁ ▸ .enters henters₁)⟩
    · rw [hcurrent₁, hcurrent₂, hr]
    · rw [hview₁, hview₂, hm]
    · rw [hview₂]
      exact hecho'
  cases hdoor : plan.doorway s₁.view.store.drive s₁.view.metadata c with
  | none =>
    rw [hdoor] at hdoors
    obtain ⟨⟨f₁, rfl⟩, hm₁⟩ := henters₁.of_no_doorway hdoor
    obtain ⟨⟨f₂, rfl⟩, hm₂⟩ := henters₂.of_no_doorway hdoors
    exact ⟨rfl, by rw [hm₁, hm₂, hmetadata], hecho.enters hF hs₂ (by simp [hdoors]) henters₂⟩
  | some door =>
    obtain ⟨address, m⟩ := door
    rw [hdoor] at hdoors
    obtain ⟨folder₁, rfl, hfolder₁, hm₁⟩ :=
      henters₁.of_doorway (hs₁.enters henters₁).1.not_stranded hdoor
    obtain ⟨folder₂, rfl, hfolder₂, hm₂⟩ :=
      henters₂.of_doorway (hs₂.enters henters₂).1.not_stranded hdoors
    have hknown := hgrows.folder _ _ hfolder₁
    have hecho' : F.Echo W₂ := by
      refine hecho.enters hF hs₂ (fun address' m' hdoor' => ?_) henters₂
      rw [hdoors] at hdoor'
      cases hdoor'
      rw [hknown]
      rfl
    -- the second run finds the folder that the first one has found or created
    have hsame : some folder₂ = some folder₁ := (hecho'.folder _ _ hfolder₂).symm.trans hknown
    cases hsame
    exact ⟨rfl, by rw [hm₁, hm₂, hmetadata], hecho'⟩

include hpolicy

/-- Both runs take an entry. -/
theorem Plan.pass_echoes {c : Collection} {address : DriveAddress} {folder : String} {e : Entry}
    {rest : List (Except Failure Entry)} {later : List Collection}
    {s₁ s₂ : Session (DriveStore × ρ)} (hs₁ : s₁.view.Fresh d) {place : List String}
    (hfolder : s₁.view.folder? place = some folder) (hhome : address.drive = s₁.view.store.drive)
    (hecho : F.Echo s₂.view) (hdrive : s₂.view.store.drive = s₁.view.store.drive)
    (hmetadata : s₂.view.metadata = s₁.view.metadata)
    (hnodes : (plan.pass ⟨c, .drive address folder, .ok e :: rest⟩ later
      s₁).session.view.store.nodes ⊆ F.store.nodes) :
    (plan.pass ⟨c, .drive address folder, .ok e :: rest⟩ later s₁).Echoes F
        (plan.pass ⟨c, .drive address folder, .ok e :: rest⟩ later s₂) ∧
      plan.Reports s₁ (plan.pass ⟨c, .drive address folder, .ok e :: rest⟩ later s₁).session
        s₂ (plan.pass ⟨c, .drive address folder, .ok e :: rest⟩ later s₂).session := by
  obtain ⟨r₁, W₁, htakes₁, hview₁, -⟩ := Plan.pass_view hremote c folder e hhome rest later
  obtain ⟨r₂, W₂, htakes₂, hview₂, hfaults⟩ :=
    Plan.pass_view hremote c folder e (hhome.trans hdrive.symm) rest later
  rw [hview₁] at hnodes
  obtain ⟨-, hadds⟩ := hs₁.takes hpolicy hfolder htakes₁
  obtain ⟨hecho', hconflict⟩ := hecho.takes hpolicy htakes₂ fun file hfile => by
    obtain ⟨n, hn, htaken⟩ := hadds.taken file hfile
    exact ⟨n, hnodes hn, htaken⟩
  refine ⟨⟨rfl, rfl, ?_, ?_⟩, ?_⟩
  · rw [hview₁, hview₂, htakes₁.metadata_eq, htakes₂.metadata_eq, hmetadata]
  · rw [hview₂]
    exact hecho'
  · intro x hx name hname
    obtain ⟨xs, hxs, huploads⟩ := hadds.uploads
    have htrace : (plan.pass ⟨c, .drive address folder, .ok e :: rest⟩ later s₁).session.trace =
        s₁.trace ++ xs := by
      rw [← hview₁] at hxs
      exact hxs
    rw [htrace, List.drop_left] at hx
    obtain ⟨file, hfile, rfl, n, hn, hstored⟩ := huploads x hx name hname
    exact hfaults _ (hconflict file hfile ⟨n, hnodes hn, hstored⟩) rfl (by simp [hpolicy])

/-- Both runs go to the next boundary. -/
theorem Plan.advance_echoes (hF : F.Fresh d) {b₁ b₂ : Boundary (DriveStore × ρ)}
    (hechoes : b₁.Echoes F b₂)
    (hlater : ∀ c ∈ b₁.later,
      plan.remote.serves c.path.category.handler → c.path.category.handler = .drive)
    (hgoes₁ : b₁.session.goesOn) (hgoes₂ : b₂.session.goesOn)
    (hb₁ : b₁.session.view.Fresh d) (hb₂ : b₂.session.view.Fresh d')
    (hhosts : ∀ p, b₁.current = some p → b₁.session.view.Hosts plan p)
    (hdrive : b₂.session.view.store.drive = b₁.session.view.store.drive)
    (hnodes : (plan.advance b₁).session.view.store.nodes ⊆ F.store.nodes)
    (hgrows : (plan.advance b₁).session.view.Grows F) :
    (plan.advance b₁).Echoes F (plan.advance b₂) ∧
      plan.Reports b₁.session (plan.advance b₁).session b₂.session (plan.advance b₂).session := by
  obtain ⟨s₁, current, later⟩ := b₁
  obtain ⟨s₂, current₂, later₂⟩ := b₂
  obtain ⟨rfl, rfl, hmetadata, hecho⟩ := hechoes
  dsimp only at *
  simp only [Plan.advance, hgoes₁, hgoes₂, ↓reduceIte] at hnodes hgrows ⊢
  rcases current₂ with _ | p
  · rcases later₂ with _ | ⟨c, later⟩
    · exact ⟨⟨rfl, rfl, hmetadata, hecho⟩, .of_storesNothing (.refl _)⟩
    · exact Plan.begin_echoes hremote hF (hlater c (List.mem_cons_self ..)) hb₁ hb₂ hecho hdrive
        hmetadata hgrows
  · obtain ⟨address, folder, hentrance, -, hhome, hfolder⟩ := hhosts p rfl
    obtain ⟨c, entrance, rest⟩ := p
    dsimp only at hentrance
    subst hentrance
    rcases rest with _ | ⟨f | e, rest⟩
    · exact Plan.pass_echoes_nothing (by simp) hecho hmetadata
    · exact Plan.pass_echoes_nothing (by simp) hecho hmetadata
    · exact Plan.pass_echoes hremote hpolicy hb₁ hfolder hhome hecho hdrive hmetadata hnodes

end Advance

/-- It is the same drive at every boundary. -/
theorem Plan.drive_boundary {plan : Plan (DriveStore × ρ)} {desk : Remote ρ}
    (hremote : plan.remote = DriveStore.beside desk) (cs : List Collection)
    (start : Session (DriveStore × ρ)) (n : Nat) :
    (plan.boundary cs start n).session.view.store.drive = start.view.store.drive :=
  Plan.store_boundary hremote (I := fun t => t.drive = start.view.store.drive)
    (fun t c ht => (t.drive_respond c).trans ht) cs rfl n

/-- No effect takes faults back. -/
theorem Plan.recovered_perform {σ : Type} (plan : Plan σ) (e : Effect) (s : Session σ) :
    s.faults.recovered <+: (plan.perform e s).faults.recovered := by
  have hfail (f : Fault) : s.faults.recovered <+: (s.faults.fail f).recovered := by
    unfold FaultLog.fail
    split
    · exact List.prefix_append ..
    · exact List.prefix_refl _
  cases e with
  | note f =>
    change _ <+: (if plan.options.failFast then s.faults.fail f else s.faults.add f).recovered
    unfold FaultLog.add
    split
    · exact hfail f
    · split
      · exact hfail f
      · exact List.prefix_append ..
  | _ => exact List.prefix_refl _

/-- While a run is not interrupted, a fault that is noted is collected. -/
theorem Plan.Uninterrupted.recovered_note {σ : Type} {plan : Plan σ} {cs : List Collection}
    {start : Session σ} (h : plan.Uninterrupted cs start) {s : Session σ} (hs : s.faults.Patient)
    (f : Fault) : (plan.perform (.note f) s).faults.recovered = s.faults.recovered ++ [f] := by
  change (if plan.options.failFast then s.faults.fail f else s.faults.add f).recovered = _
  rw [h.not_failFast, FaultLog.add, hs.not_failFast]
  rfl

theorem Plan.recovered_boundary {σ : Type} (plan : Plan σ) (cs : List Collection)
    (start : Session σ) {m n : Nat} (h : m ≤ n) :
    (plan.boundary cs start m).session.faults.recovered <+:
      (plan.boundary cs start n).session.faults.recovered := by
  induction h with
  | refl => exact List.prefix_refl _
  | step _ ih =>
    rw [Plan.boundary_succ]
    exact Plan.advance_keeps (I := fun s : Session σ =>
      (plan.boundary cs start m).session.faults.recovered <+: s.faults.recovered)
      (fun e s hs => hs.trans (plan.recovered_perform e s)) ih

/-! ## Two whole runs -/

/-- A new drive. -/
theorem DriveView.Fresh.start (plan : Plan (DriveStore × ρ)) (log : FaultLog) (stopped : Bool)
    (drive : String) (keepsAll : Bool) (r : ρ) :
    (Session.start plan log stopped ({ drive, keepsAll }, r)).view.Fresh { drive, keepsAll } where
  sound := .start plan log stopped (.new drive keepsAll) r
  top := ⟨_, List.mem_singleton_self _, rfl⟩
  worded n hn := by
    rw [List.mem_singleton.1 hn]
    exact Or.inl rfl
  single m hm n hn _ _ _ _ _ _ := (List.mem_singleton.1 hm).trans (List.mem_singleton.1 hn).symm
  keys _ _ _ h := by cases h

/-- The session in which a restore starts again on the drive it has left. -/
def Plan.restart (plan : Plan (DriveStore × ρ)) (cs : List Collection)
    (start : Session (DriveStore × ρ)) (log : FaultLog) (stopped : Bool) (r : ρ) :
    Session (DriveStore × ρ) :=
  .start plan log stopped ((plan.run cs start).2.remote.1, r)

section Restart

variable (plan : Plan (DriveStore × ρ)) (cs : List Collection) (start : Session (DriveStore × ρ))
  (log : FaultLog) (stopped : Bool) (r : ρ)

theorem DriveView.Fresh.restart {d : DriveStore} (h : (plan.run cs start).2.view.Fresh d) :
    (plan.restart cs start log stopped r).view.Fresh (plan.run cs start).2.remote.1 where
  sound := .start plan log stopped h.sound.numbered r
  top := h.top
  worded := h.worded
  single := h.single
  keys _ _ _ h := by cases h

theorem DriveView.Echo.restart :
    (plan.run cs start).2.view.Echo (plan.restart cs start log stopped r).view where
  nodes := rfl
  folder _ _ h := by cases h
  keys _ _ h := by cases h
  calls _ h := by cases h

end Restart

section Runs

variable {plan : Plan (DriveStore × ρ)} {desk : Remote ρ}
  (hremote : plan.remote = DriveStore.beside desk)
  (hpolicy : plan.options.onCollision = .skip) {cs : List Collection}
  (hcs : plan.OnlyDrives cs) {d : DriveStore} {start : Session (DriveStore × ρ)}
include hremote hpolicy hcs

theorem Plan.fresh_boundary (hstart : start.view.Fresh d) (n : Nat) :
    (plan.boundary cs start n).session.view.Fresh d :=
  (Plan.boundary_view_start hremote hcs (fun _ h => h.sound.home)
    (fun _ _ _ _ _ h henters => (h.enters henters).1)
    (fun _ _ _ _ _ _ _ _ h _ _ hfolder htakes => (h.takes hpolicy hfolder htakes).1) hstart n).1

/-- Nothing gets lost. -/
theorem Plan.nodes_boundary (hstart : start.view.Fresh d) {m n : Nat} (h : m ≤ n) :
    (plan.boundary cs start m).session.view.store.nodes ⊆
      (plan.boundary cs start n).session.view.store.nodes := by
  have hkept := Plan.boundary_view hremote hcs (I := fun V => V.Fresh d ∧
    (plan.boundary cs start m).session.view.store.nodes ⊆ V.store.nodes)
    (fun _ h => h.1.sound.home)
    (fun _ _ _ _ _ h henters =>
      ⟨(h.1.enters henters).1, List.Subset.trans h.2 (h.1.enters henters).2⟩)
    (fun _ _ _ _ _ _ _ _ h _ _ hfolder htakes =>
      ⟨(h.1.takes hpolicy hfolder htakes).1,
        List.Subset.trans h.2 (h.1.takes hpolicy hfolder htakes).2.nodes⟩) h
    ⟨Plan.fresh_boundary hremote hpolicy hcs hstart m, List.Subset.refl _⟩
    (Plan.sound_boundary hremote hcs hstart.sound m).2
  exact hkept.1.2

theorem Plan.fresh_run (hstart : start.view.Fresh d) : (plan.run cs start).2.view.Fresh d := by
  obtain ⟨n, -, hview⟩ := plan.view_run cs start
  rw [hview]
  exact Plan.fresh_boundary hremote hpolicy hcs hstart n

theorem Plan.nodes_run (hstart : start.view.Fresh d) (n : Nat) :
    (plan.boundary cs start n).session.view.store.nodes ⊆
      (plan.run cs start).2.view.store.nodes := by
  obtain ⟨last, hover⟩ := plan.exists_over cs start
  have hlater : (plan.boundary cs start (max n last)).over := by
    rw [Plan.boundary_of_over hover (Nat.le_max_right ..)]
    exact hover
  rw [Plan.view_run_of_over hlater]
  exact Plan.nodes_boundary hremote hpolicy hcs hstart (Nat.le_max_left ..)

/-- A second run stays beside the first one, boundary by boundary. -/
theorem Plan.echoes_boundary (hstart : start.view.Fresh d) {d' : DriveStore}
    {start' : Session (DriveStore × ρ)} (hstart' : start'.view.Fresh d')
    (hdrive : start'.view.store.drive = start.view.store.drive)
    (hmetadata : start'.view.metadata = start.view.metadata)
    (hecho : (plan.run cs start).2.view.Echo start'.view) (hfirst : plan.Uninterrupted cs start)
    (hsecond : plan.Uninterrupted cs start') (n : Nat) :
    (plan.boundary cs start n).Echoes (plan.run cs start).2.view (plan.boundary cs start' n) ∧
      plan.Reports (plan.boundary cs start n).session (plan.boundary cs start (n + 1)).session
        (plan.boundary cs start' n).session (plan.boundary cs start' (n + 1)).session := by
  have hdrives (n : Nat) : (plan.boundary cs start' n).session.view.store.drive =
      (plan.boundary cs start n).session.view.store.drive := by
    rw [Plan.drive_boundary hremote, Plan.drive_boundary hremote, hdrive]
  have hstep (n : Nat) (h : (plan.boundary cs start n).Echoes (plan.run cs start).2.view
      (plan.boundary cs start' n)) :=
    Plan.advance_echoes hremote hpolicy (Plan.fresh_run hremote hpolicy hcs hstart) h
      (fun c hc => hcs c ((plan.mem_of_boundary cs start n).1 c hc)) (hfirst.goesOn_boundary n)
      (hsecond.goesOn_boundary n) (Plan.fresh_boundary hremote hpolicy hcs hstart n)
      (Plan.fresh_boundary hremote hpolicy hcs hstart' n)
      (Plan.sound_boundary hremote hcs hstart.sound n).2 (hdrives n)
      (Plan.boundary_succ plan cs start n ▸ Plan.nodes_run hremote hpolicy hcs hstart (n + 1))
      (Plan.boundary_succ plan cs start n ▸ Plan.grows_run hremote hcs hstart.sound (n + 1))
  have hechoes : (plan.boundary cs start n).Echoes (plan.run cs start).2.view
      (plan.boundary cs start' n) := by
    induction n with
    | zero => exact ⟨rfl, rfl, hmetadata, hecho⟩
    | succ n ih =>
      rw [Plan.boundary_succ, Plan.boundary_succ]
      exact (hstep n ih).1
  refine ⟨hechoes, ?_⟩
  rw [Plan.boundary_succ, Plan.boundary_succ]
  exact (hstep n hechoes).2

end Runs

/-- The calls a run makes on its way from a boundary to the next one. -/
def Plan.callsFrom {σ : Type} (plan : Plan σ) (cs : List Collection) (start : Session σ) (n : Nat) :
    List Exchange :=
  (plan.boundary cs start (n + 1)).session.trace.drop
    (plan.boundary cs start n).session.trace.length

/-- A second run changes nothing that a first one has left. -/
structure Plan.ChangesNothing (plan : Plan (DriveStore × ρ)) (cs : List Collection)
    (first second : Session (DriveStore × ρ)) : Prop where
  /-- The folders and files stay as they are. -/
  nodes : (plan.run cs second).2.view.store.nodes = (plan.run cs first).2.view.store.nodes
  /-- Nothing is created, stored, deleted or renamed. -/
  calls : ∀ x ∈ (plan.run cs second).2.trace, x.call.changes → x.answer.isOk = false
  /-- Where the first run has stored a file, the second one is at the same entry, and reports the
  conflict. -/
  conflicts : ∀ n, ∀ x ∈ plan.callsFrom cs first n, ∀ name, x.Uploads name →
    (plan.boundary cs second n).current = (plan.boundary cs first n).current ∧
      (plan.boundary cs second (n + 1)).session.faults.recovered =
        (plan.boundary cs second n).session.faults.recovered ++ [.itemAlreadyExists name]
  /-- What has been reported at a boundary is reported in the end. -/
  reported : ∀ n, (plan.boundary cs second n).session.faults.recovered <+:
    (plan.run cs second).2.faults.recovered

/-- A second run changes nothing if the first one started on a drive like a new one. -/
theorem Plan.changesNothing_of_fresh {plan : Plan (DriveStore × ρ)} {desk : Remote ρ}
    (hremote : plan.remote = DriveStore.beside desk)
    (hpolicy : plan.options.onCollision = .skip) {cs : List Collection}
    (hcs : plan.OnlyDrives cs) {d : DriveStore} {start : Session (DriveStore × ρ)}
    (hstart : start.view.Fresh d) (hmetadata : start.view.metadata = .empty) (log : FaultLog)
    (stopped : Bool) (r : ρ) (hfirst : plan.Uninterrupted cs start)
    (hsecond : plan.Uninterrupted cs (plan.restart cs start log stopped r)) :
    plan.ChangesNothing cs start (plan.restart cs start log stopped r) := by
  have hF := Plan.fresh_run hremote hpolicy hcs hstart
  have hdrive :
      (plan.restart cs start log stopped r).view.store.drive = start.view.store.drive := by
    obtain ⟨n, -, hview⟩ := plan.view_run cs start
    change (plan.run cs start).2.view.store.drive = _
    rw [hview, Plan.drive_boundary hremote]
  have hboundary := Plan.echoes_boundary hremote hpolicy hcs hstart
    (.restart plan cs start log stopped r hF) hdrive hmetadata.symm (.restart ..) hfirst hsecond
  generalize plan.restart cs start log stopped r = second at *
  obtain ⟨last, hover⟩ := plan.exists_over cs second
  have hecho := (hboundary last).1.echo
  refine ⟨?_, ?_, fun n x hx name hname => ⟨(hboundary n).1.current, ?_⟩, fun n => ?_⟩
  · rw [Plan.view_run_of_over hover]
    exact hecho.nodes
  · rw [hsecond.run_eq hover]
    exact hecho.calls
  · rw [(hboundary n).2 x hx name hname]
    exact hsecond.recovered_note (hsecond.patient_boundary n) _
  · have hlater : (plan.boundary cs second (max n last)).over := by
      rw [Plan.boundary_of_over hover (Nat.le_max_right ..)]
      exact hover
    rw [hsecond.run_eq hlater]
    exact plan.recovered_boundary cs _ (Nat.le_max_left ..)

/-- Run again on the drive it has left, a restore to a new drive that skips files changes
nothing. -/
theorem Plan.again {plan : Plan (DriveStore × ρ)} {desk : Remote ρ}
    (hremote : plan.remote = DriveStore.beside desk)
    (hpolicy : plan.options.onCollision = .skip) {cs : List Collection}
    (hcs : plan.OnlyDrives cs) (drive : String) (keepsAll : Bool) (log log' : FaultLog)
    (stopped stopped' : Bool) (r r' : ρ)
    (hfirst : plan.Uninterrupted cs (.start plan log stopped ({ drive, keepsAll }, r)))
    (hsecond : plan.Uninterrupted cs
      (plan.restart cs (.start plan log stopped ({ drive, keepsAll }, r)) log' stopped' r')) :
    plan.ChangesNothing cs (.start plan log stopped ({ drive, keepsAll }, r))
      (plan.restart cs (.start plan log stopped ({ drive, keepsAll }, r)) log' stopped' r') :=
  Plan.changesNothing_of_fresh hremote hpolicy hcs (.start plan log stopped drive keepsAll r) rfl
    log' stopped' r' hfirst hsecond

/-- A file in a folder of a drive. -/
def drafts : List Collection :=
  [.ofEntries ⟨"tenant", .onedrive, "user", .files, ["drives", "drive", "root:", "Drafts"]⟩
    [.ok ⟨"letter.txt", .empty⟩]]

/-- Restore a drive, skipping files that are there. -/
def skipping : Plan (DriveStore × Unit) where
  options := { onCollision := .skip }
  version := 0
  remote := DriveStore.beside .nobody

/-- The folder and the file are there once, and the second run reports the file. -/
theorem again_drafts :
    let first := Session.start skipping {} false ({ drive := "drive" }, ())
    let second := skipping.restart drafts first {} false ()
    skipping.ChangesNothing drafts first second ∧
      (skipping.run drafts second).2.view.store.nodes.map (·.name) =
        ["Drafts", "letter.txt", "root"] ∧
      (skipping.run drafts second).2.faults.recovered = [.itemAlreadyExists "letter.txt"] := by
  intro first second
  have hrun (s : Session (DriveStore × Unit)) :
      skipping.run drafts s = conclude (skipping.restoreAll drafts s).2 := by
    rw [Plan.run_eq, Collection.sort_of_pairwise (by decide +kernel)]
  have hsecond : second = Session.start skipping {} false
      ((conclude (skipping.restoreAll drafts first).2).2.remote.1, ()) := by
    rw [← hrun]
    rfl
  have hcs : skipping.OnlyDrives drafts := by
    intro c hc _
    rw [List.mem_singleton.1 hc]
    rfl
  refine ⟨Plan.again rfl rfl hcs "drive" false {} {} false false () () ⟨rfl, ⟨rfl, rfl⟩, ?_⟩
    ⟨rfl, ⟨rfl, rfl⟩, ?_⟩, ?_, ?_⟩
  · rw [hrun]
    decide +kernel
  · change (skipping.run drafts second).2.stopped = false
    rw [hrun, hsecond]
    decide +kernel
  · rw [hrun, hsecond]
    decide +kernel
  · rw [hrun, hsecond]
    decide +kernel

end TenantRestore
