/-
# Replacing files leaves nothing over

Under the policy to replace, a file is stored beside the one it replaces, under a name of its own;
then the replaced one is deleted, and the stored one gets its name.  If no file has the name of a
folder beside it, all this succeeds: the step takes over the name (`DriveView.TakesOver`), and
between two entries the known keys of a folder are the files in it, by name
(`DriveView.Mirrors`).  So in the end every stored name belongs to the file that was stored last
under it, and all other files are those from before: `Plan.replaces_all`.

What can't be replaced this way is a file whose name is that of a folder beside it, so this must
not happen during the whole run (`DriveView.Unambiguous`); the names are read off the drive at the
start and the calls of the run.
-/
import TenantRestore.Proofs.Drive.Sound
import TenantRestore.Proofs.Path

namespace TenantRestore

variable {ρ : Type}

/-- No two nodes of one folder have the same name. -/
def DriveStore.DistinctNames (s : DriveStore) : Prop :=
  ∀ m ∈ s.nodes, ∀ n ∈ s.nodes, ∀ p, m.parent = some p → n.parent = some p →
    m.name = n.name → m = n

/-- The keys of a folder in which no name is taken twice are its files. -/
theorem DriveStore.find?_keys {s : DriveStore} (h : s.DistinctNames) {folder name id : String} :
    (s.keys folder).find? name = some id ↔
      ∃ n ∈ s.nodes, n.isFileAt folder name ∧ n.id = id := by
  constructor
  · exact mem_of_find?_keys
  · rintro ⟨n, hn, hfile, rfl⟩
    obtain ⟨id, hid⟩ := Option.isSome_iff_exists.1 (contains_keys.2 ⟨n, hn, hfile⟩)
    obtain ⟨m, hm, hfile', hm'⟩ := mem_of_find?_keys hid
    have hsame := h m hm n hn folder hfile'.1 hfile.1 (hfile'.2.1.trans hfile.2.1.symm)
    rw [hid, ← hm', hsame]

/-- A file that is uploaded can be given its name once the only other file of that name is deleted:
it takes its place. -/
theorem DriveStore.DistinctNames.replaced {s : DriveStore} (h : s.DistinctNames) (hs : s.Numbered)
    {folder name new : String} {data : ByteArray} {o : Node} (ho : o ∈ s.nodes)
    (hofile : o.isFileAt folder name)
    (hupload : (s.upload folder name data .replace).1 = .ok new)
    (hdelete : ((s.upload folder name data .replace).2.delete o.id).1 = .ok ()) :
    (((s.upload folder name data .replace).2.delete o.id).2.rename new name).1 = .ok () ∧
      ∀ n, n ∈ (((s.upload folder name data .replace).2.delete o.id).2.rename new name).2.nodes ↔
        n = ⟨new, name, some folder, some data⟩ ∨ n ∈ s.nodes ∧ ¬ n.isFileAt folder name := by
  have hmem {n : Node} : n ∈ ((s.upload folder name data .replace).2.delete o.id).2.nodes ↔
      (n = ⟨new, s.freeName folder name s.nodes.length 0, some folder, some data⟩ ∨
        n ∈ s.nodes) ∧ n.id ≠ o.id := by
    rw [mem_delete hdelete, hs.mem_upload hupload]
  have hother {n : Node} (hn : n ∈ s.nodes) : n.id ≠ new := by
    rw [(upload_of_ok hupload).1]
    exact hs.newId_ne "item" hn
  -- the old file is the only one of its name
  have honly {n : Node} (hn : n ∈ s.nodes) : n.id ≠ o.id ↔ ¬ n.isFileAt folder name := by
    constructor
    · intro hid hfile
      refine hid (congrArg Node.id ?_)
      exact h n hn o ho folder hfile.1 hofile.1 (hfile.2.1.trans hofile.2.1.symm)
    · intro hfile hid
      rw [hs.unique hn ho hid] at hfile
      exact hfile hofile
  have hfree : ∀ m ∈ ((s.upload folder name data .replace).2.delete o.id).2.nodes,
      m.parent = some folder → m.name = name → m.id = new := by
    intro m hm hparent hname
    obtain ⟨rfl | hm, hid⟩ := hmem.1 hm
    · rfl
    · exact absurd (congrArg Node.id (h m hm o ho folder hparent hofile.1
        (hname.trans hofile.2.1.symm))) hid
  obtain ⟨hanswer, hnodes⟩ := ((hs.upload ..).delete _).rename_ok
    (hmem.2 ⟨Or.inl rfl, fun hid => hother ho hid.symm⟩) rfl hfree
  refine ⟨hanswer, fun n => ?_⟩
  rw [hnodes, hmem]
  refine or_congr_right ⟨?_, ?_⟩
  · rintro ⟨⟨rfl | hn, hid⟩, hne⟩
    · exact absurd rfl hne
    · exact ⟨hn, (honly hn).1 hid⟩
  · rintro ⟨hn, hfile⟩
    exact ⟨⟨Or.inr hn, (honly hn).2 hfile⟩, hother hn⟩

/-- Whether a call stores, deletes or renames a file. -/
def Call.altersFiles : Call → Bool
  | .drive (.upload _ _ _ _ _) | .drive (.delete _ _) | .drive (.rename _ _ _) => true
  | _ => false

theorem Call.not_altersFiles {c : Call} (h : c.changes = false) : c.altersFiles = false := by
  unfold changes at h
  unfold altersFiles
  split
  · cases h
  · cases h
  · cases h
  · rfl

namespace DriveView

/-- The keys a restore knows are the files of their folders. -/
def Mirrors (V : DriveView) : Prop :=
  ∀ folder ks, V.keys.find? folder = some ks → ∀ name id,
    ks.find? name = some id ↔ ∃ n ∈ V.store.nodes, n.isFileAt folder name ∧ n.id = id

/-- A folder had a file of a name at the start, or one has been stored in it. -/
def NamesFile (d : DriveStore) (V : DriveView) (folder name : String) : Prop :=
  (∃ n ∈ d.nodes, n.isFileAt folder name) ∨
    ∃ drive data policy new, ⟨.drive (.upload drive folder name data policy), .ok new⟩ ∈ V.trace

/-- A folder had a folder of a name in it at the start, or one has been created. -/
def NamesFolder (d : DriveStore) (V : DriveView) (folder name : String) : Prop :=
  (∃ n ∈ d.nodes, n.parent = some folder ∧ n.name = name ∧ n.content = none) ∨
    ∃ drive c, ⟨.drive (.createFolder drive folder name), .ok c⟩ ∈ V.trace

/-- In the folders the restore knows no file has the name of a folder beside it. -/
def Unambiguous (d : DriveStore) (V : DriveView) : Prop :=
  ∀ place folder name, V.folder? place = some folder →
    ¬ (V.NamesFile d folder name ∧ V.NamesFolder d folder name)

/-- What holds between two entries of a restore that replaces files. -/
structure Orderly (d : DriveStore) (V : DriveView) : Prop where
  sound : V.Sound d
  deletes : V.store.keepsAll = false
  distinct : V.store.DistinctNames
  mirrors : V.Mirrors
  files : ∀ n ∈ V.store.nodes, ∀ p, n.parent = some p → n.content.isSome → V.NamesFile d p n.name
  folders : ∀ n ∈ V.store.nodes, ∀ p, n.parent = some p → n.content = none →
    V.NamesFolder d p n.name
  calls : ∀ x ∈ V.trace, x.call.altersFiles → x.answer.isOk

variable {d : DriveStore} {V W E : DriveView} {folder name : String}

theorem NamesFile.grows (h : V.NamesFile d folder name) (hgrows : V.Grows W) :
    W.NamesFile d folder name := by
  refine h.imp_right ?_
  rintro ⟨drive, data, policy, new, hx⟩
  exact ⟨drive, data, policy, new, hgrows.trace.subset hx⟩

theorem NamesFolder.grows (h : V.NamesFolder d folder name) (hgrows : V.Grows W) :
    W.NamesFolder d folder name := by
  refine h.imp_right ?_
  rintro ⟨drive, c, hx⟩
  exact ⟨drive, c, hgrows.trace.subset hx⟩

namespace Orderly

/-- A step that stores nothing and leaves the nodes alone. -/
theorem of_same (h : V.Orderly d) (hsound : W.Sound d) (hgrows : V.Grows W)
    (hnodes : W.store.nodes = V.store.nodes) (hkeeps : W.store.keepsAll = V.store.keepsAll)
    (hmirrors : W.Mirrors)
    (hcalls : ∃ xs, W.trace = V.trace ++ xs ∧ ∀ x ∈ xs, x.call.altersFiles = false) :
    W.Orderly d where
  sound := hsound
  deletes := hkeeps.trans h.deletes
  distinct := by
    unfold DriveStore.DistinctNames
    rw [hnodes]
    exact h.distinct
  mirrors := hmirrors
  files n hn p hp hcontent := (h.files n (hnodes ▸ hn) p hp hcontent).grows hgrows
  folders n hn p hp hcontent := (h.folders n (hnodes ▸ hn) p hp hcontent).grows hgrows
  calls x hx halters := by
    obtain ⟨xs, hxs, hquiet⟩ := hcalls
    rw [hxs] at hx
    rcases List.mem_append.1 hx with hx | hx
    · exact h.calls x hx halters
    · rw [hquiet x hx] at halters
      cases halters

/-- A node comes in, and no other node of its folder has its name. -/
theorem of_new (h : V.Orderly d) (hsound : W.Sound d) (hgrows : V.Grows W) {n : Node}
    (hnodes : ∀ m ∈ W.store.nodes,
      m = n ∨ m ∈ V.store.nodes ∧ (m.parent = n.parent → m.name ≠ n.name))
    (hkeeps : W.store.keepsAll = V.store.keepsAll) (hmirrors : W.Mirrors)
    (hfile : ∀ p, n.parent = some p → n.content.isSome → W.NamesFile d p n.name)
    (hfolder : ∀ p, n.parent = some p → n.content = none → W.NamesFolder d p n.name)
    (hcalls : ∃ xs, W.trace = V.trace ++ xs ∧ ∀ x ∈ xs, x.call.altersFiles → x.answer.isOk) :
    W.Orderly d where
  sound := hsound
  deletes := hkeeps.trans h.deletes
  distinct m hm k hk p hmp hkp hname := by
    rcases hnodes m hm with rfl | ⟨hm, hmother⟩ <;> rcases hnodes k hk with rfl | ⟨hk, hkother⟩
    · rfl
    · exact absurd hname.symm (hkother (hkp.trans hmp.symm))
    · exact absurd hname (hmother (hmp.trans hkp.symm))
    · exact h.distinct m hm k hk p hmp hkp hname
  mirrors := hmirrors
  files m hm p hp hcontent := by
    rcases hnodes m hm with rfl | ⟨hm, -⟩
    · exact hfile p hp hcontent
    · exact (h.files m hm p hp hcontent).grows hgrows
  folders m hm p hp hcontent := by
    rcases hnodes m hm with rfl | ⟨hm, -⟩
    · exact hfolder p hp hcontent
    · exact (h.folders m hm p hp hcontent).grows hgrows
  calls x hx halters := by
    obtain ⟨xs, hxs, hok⟩ := hcalls
    rw [hxs] at hx
    rcases List.mem_append.1 hx with hx | hx
    · exact h.calls x hx halters
    · exact hok x hx halters

theorem mirrors_of_eq (h : V.Orderly d) (hnodes : W.store.nodes = V.store.nodes)
    (hkeys : W.keys = V.keys) : W.Mirrors := by
  unfold Mirrors
  rw [hnodes, hkeys]
  exact h.mirrors

theorem heard (h : V.Orderly d) {x : Exchange} (hx : x.call.changes = false) :
    (V.heard x).Orderly d :=
  h.of_same (h.sound.heard x) (.heard ..) rfl rfl h.mirrors
    ⟨[x], rfl, by simpa using Call.not_altersFiles hx⟩

theorem remembering (h : V.Orderly d) (path : String) (m : Metadata) :
    (V.remembering path m).Orderly d :=
  h.of_same (h.sound.remembering path m) (.remembering ..) rfl rfl h.mirrors
    ⟨[], by simp [DriveView.remembering], by simp⟩

theorem shares (h : V.Orderly d) {item : String} (hshares : V.Shares item W) : W.Orderly d := by
  obtain ⟨xs, hxs, hquiet⟩ := hshares.trace
  exact h.of_same (h.sound.shares hshares) (.shares hshares) hshares.nodes hshares.keepsAll
    (h.mirrors_of_eq hshares.nodes hshares.keys)
    ⟨xs, hxs, fun x hx => Call.not_altersFiles (hquiet x hx)⟩

/-- A folder is created only where its name is free. -/
theorem free_of_created (h : V.Orderly d) (hgrows : V.Grows E) (hE : E.Unambiguous d)
    {place : List String} (hfolder : V.folder? place = some folder)
    (hfind : V.store.findFolder folder name = none) (hcreated : E.NamesFolder d folder name) :
    ∀ n ∈ V.store.nodes, n.parent = some folder → n.name ≠ name := by
  intro n hn hparent hname
  cases hchild : V.store.child? folder name with
  | none => exact DriveStore.child?_eq_none.1 hchild n hn hparent hname
  | some m =>
    obtain ⟨hm, hmparent, hmname⟩ := DriveStore.mem_of_child? hchild
    have hcontent : m.content.isSome := by
      by_contra hnot
      have hfound := DriveStore.findFolder_eq_some.2
        ⟨m, hchild, by simpa using hnot, rfl⟩
      rw [hfind] at hfound
      cases hfound
    have hfileName := (h.files m hm folder hmparent hcontent).grows hgrows
    rw [hmname] at hfileName
    exact hE place folder name (hgrows.folder _ _ hfolder) ⟨hfileName, hcreated⟩

theorem toward (h : V.Orderly d) {names : List String} (hstep : V.Toward names W)
    (hend : W.Grows E) (hE : E.Unambiguous d) : W.Orderly d := by
  have hsound := h.sound.toward hstep
  have hgrows := Grows.toward hstep
  cases hstep with
  | look hcall => exact h.heard hcall
  | root _ | found _ _ _ _ =>
    exact h.of_same hsound hgrows rfl rfl h.mirrors ⟨[], by simp [DriveView.knowing], by simp⟩
  | @orphaned place name parent hparent hnode =>
    have hstore := store_orphaned hnode name
    exact h.of_same hsound hgrows (by rw [hstore]) (by rw [hstore])
      (h.mirrors_of_eq (by rw [hstore]) rfl) ⟨[_], rfl, by simp [Call.altersFiles]⟩
  | @created place name parent hplace hparent hnew hfind hnode =>
    have hmem {n : Node} := mem_created h.sound.numbered hnode name (n := n)
    have htrace := trace_created hnode name
    have hcreated : NamesFolder d ((V.asked (.createFolder V.store.drive parent name)).knowing
        (V.store.drive, place ++ [name]) (V.store.newId "folder")) parent name := by
      refine Or.inr ⟨V.store.drive, ⟨V.store.newId "folder", name, some parent⟩, ?_⟩
      change _ ∈ (V.asked _).trace
      rw [htrace]
      exact List.mem_append_right _ (List.mem_singleton_self _)
    have hfree := h.free_of_created (hgrows.trans hend) hE hparent hfind (hcreated.grows hend)
    refine h.of_new hsound hgrows (n := ⟨V.store.newId "folder", name, some parent, none⟩) ?_ ?_ ?_
      (fun _ _ hcontent => by cases hcontent) ?_ ⟨[_], htrace, by simp [Call.altersFiles]⟩
    · intro m hm
      exact (hmem.1 hm).imp_right fun hm => ⟨hm, hfree m hm⟩
    · rw [store_knowing, store_created hnode]
      rfl
    · -- the new node is no file
      intro folder ks hks name' id
      rw [h.mirrors folder ks hks name' id]
      constructor
      · rintro ⟨n, hn, hfile⟩
        exact ⟨n, hmem.2 (Or.inr hn), hfile⟩
      · rintro ⟨n, hn, hfile, hid⟩
        rcases hmem.1 hn with rfl | hn
        · cases hfile.2.2
        · exact ⟨n, hn, hfile, hid⟩
    · rintro _ ⟨⟩ -
      exact hcreated

theorem way (h : V.Orderly d) {names : List String} (hway : V.Way names W) (hend : W.Grows E)
    (hE : E.Unambiguous d) : W.Orderly d := by
  induction hway with
  | refl => exact h
  | tail _ hstep ih => exact (ih ((Grows.toward hstep).trans hend)).toward hstep hend hE

theorem listed (h : V.Orderly d) (folder : String) : (V.listed folder).Orderly d := by
  have hsound := h.sound.listed folder
  have hgrows := Grows.listed V folder
  unfold DriveView.listed at *
  split
  · exact h
  · rename_i hnew
    rw [if_neg hnew] at hsound hgrows
    have hstore : (V.asked (.listKeys V.store.drive folder)).store = V.store := by
      rw [asked_of_snd_eq (by rw [DriveStore.respond_listKeys]), store_heard]
    refine h.of_same hsound hgrows (by rw [store_keeping, hstore]) (by rw [store_keeping, hstore])
      ?_ ⟨[_], rfl, by simp [Call.altersFiles]⟩
    intro folder' ks hks name id
    simp only [DriveView.keeping, Table.find?_insert] at hks
    rw [store_keeping, hstore]
    split at hks
    · rename_i hfolder
      cases hks
      rw [← hfolder]
      exact DriveStore.find?_keys h.distinct
    · exact h.mirrors folder' ks hks name id

theorem enters (h : V.Orderly d) {σ : Type} {plan : Plan σ} {c : Collection}
    {r : Except Fault Entrance} (henters : V.Enters plan c r W) (hend : W.Grows E)
    (hE : E.Unambiguous d) : W.Orderly d := by
  cases henters with
  | unserved _ | unplaced _ _ | unread _ _ _ => exact h
  | elsewhere _ _ _ _ hcall => exact h.heard hcall
  | lost _ _ _ _ hway _ => exact h.way hway hend hE
  | entered _ _ _ _ hway _ hshares =>
    have hlater := ((Grows.shares hshares).trans (.remembering ..)).trans hend
    exact ((h.way hway hlater hE).shares hshares).remembering _ _

end Orderly

/-! ## Storing a file -/

/-- A file takes over its name in a folder: it is stored, and no other file of the folder has its
name afterwards. -/
structure TakesOver (folder : String) (file : DriveFile) (new : String) (V W : DriveView) :
    Prop where
  nodes : ∀ n, n ∈ W.store.nodes ↔ n = ⟨new, file.name, some folder, some file.data⟩ ∨
    n ∈ V.store.nodes ∧ ¬ n.isFileAt folder file.name
  keys : ∃ ks, V.keys.find? folder = some ks ∧ ∀ folder', W.keys.find? folder' =
    if folder = folder' then some (ks.insert file.name new) else V.keys.find? folder'
  keepsAll : W.store.keepsAll = V.store.keepsAll
  trace : ∃ xs, W.trace = V.trace ++ xs ∧ (∀ x ∈ xs, x.answer.isOk) ∧ ∃ drive policy,
    ⟨.drive (.upload drive folder file.name file.data policy), .ok new⟩ ∈ xs

/-- Where there is no file of its name, a file is simply added. -/
theorem Orderly.takesOver_free (h : V.Orderly d) {place : List String} {file : DriveFile}
    {new : String} {ks : Keys} (hfolder : V.folder? place = some folder)
    (hks : V.keys.find? folder = some ks) (hnew : ks.find? file.name = none)
    (hupload : (V.store.upload folder file.name file.data .replace).1 = .ok new)
    (hend : ((V.asked (.upload V.store.drive folder file.name file.data .replace)).keeping folder
      (ks.insert file.name new)).Grows E) (hE : E.Unambiguous d) :
    V.TakesOver folder file new
      ((V.asked (.upload V.store.drive folder file.name file.data .replace)).keeping folder
        (ks.insert file.name new)) := by
  have hnofile : ∀ n ∈ V.store.nodes, ¬ n.isFileAt folder file.name := by
    intro n hn hfile
    have hid := (h.mirrors folder ks hks file.name n.id).2 ⟨n, hn, hfile, rfl⟩
    rw [hnew] at hid
    cases hid
  have htrace := trace_uploaded hupload
  have hgrows : V.Grows E := ((Grows.asked ..).trans (.keeping ..)).trans hend
  -- nor is there a folder of its name, so the name is free
  have hfree : V.store.child? folder file.name = none := by
    refine DriveStore.child?_eq_none.2 fun n hn hparent hname => ?_
    cases hcontent : n.content with
    | some data => exact hnofile n hn ⟨hparent, hname, by rw [hcontent]; rfl⟩
    | none =>
      have hfolderName := (h.folders n hn folder hparent hcontent).grows hgrows
      rw [hname] at hfolderName
      refine hE place folder file.name (hgrows.folder _ _ hfolder) ⟨Or.inr ?_, hfolderName⟩
      refine ⟨V.store.drive, file.data, .replace, new, hend.trace.subset ?_⟩
      change _ ∈ (V.asked _).trace
      rw [htrace]
      exact List.mem_append_right _ (List.mem_singleton_self _)
  refine ⟨fun n => ?_, ⟨ks, hks, fun folder' => ?_⟩, ?_, [_], htrace, ?_, V.store.drive, .replace,
    List.mem_singleton_self _⟩
  · rw [store_keeping, store_asked_upload rfl, h.sound.numbered.mem_upload hupload,
      DriveStore.freeName_of_free hfree]
    refine or_congr_right ⟨fun hn => ⟨hn, hnofile n hn⟩, And.left⟩
  · simp [DriveView.keeping, DriveView.asked]
  · rw [store_keeping, store_asked_upload rfl, DriveStore.keepsAll_upload]
  · simp [Except.isOk, Except.toBool]

/-- Where there is a file of its name, a file takes the place of it. -/
theorem Orderly.takesOver_old (h : V.Orderly d) {file : DriveFile} {new old : String} {ks : Keys}
    (hks : V.keys.find? folder = some ks) (hold : ks.find? file.name = some old)
    (hupload : (V.store.upload folder file.name file.data .replace).1 = .ok new)
    (hdelete : ((V.store.upload folder file.name file.data .replace).2.delete old).1 = .ok ()) :
    V.TakesOver folder file new
      ((((V.asked (.upload V.store.drive folder file.name file.data .replace)).asked
        (.delete V.store.drive old)).keeping folder (ks.insert file.name new)).asked
        (.rename V.store.drive new file.name)) := by
  obtain ⟨o, ho, hofile, rfl⟩ := (h.mirrors folder ks hks file.name old).1 hold
  generalize hU : V.asked (.upload V.store.drive folder file.name file.data .replace) = U
  generalize hD :
    (U.asked (.delete V.store.drive o.id)).keeping folder (ks.insert file.name new) = D
  have hUdrive : V.store.drive = U.store.drive := by rw [← hU, drive_asked]
  have hDdrive : V.store.drive = D.store.drive := by
    rw [← hD, store_keeping, drive_asked, hUdrive]
  have hUstore : U.store = (V.store.upload folder file.name file.data .replace).2 := by
    rw [← hU, store_asked_upload rfl]
  have hDstore : D.store = (U.store.delete o.id).2 := by
    rw [← hD, store_keeping, store_asked_delete hUdrive]
  obtain ⟨hanswer, hnodes⟩ := h.distinct.replaced h.sound.numbered ho hofile hupload hdelete
  rw [← hUstore] at hdelete hanswer hnodes
  rw [← hDstore] at hanswer hnodes
  refine ⟨fun n => ?_, ⟨ks, hks, fun folder' => ?_⟩, ?_, ?_⟩
  · rw [store_asked_rename hDdrive, hnodes]
  · simp [← hD, ← hU, DriveView.keeping, DriveView.asked]
  · rw [store_asked_rename hDdrive, DriveStore.keepsAll_rename, hDstore,
      DriveStore.keepsAll_delete, hUstore, DriveStore.keepsAll_upload]
  · have hfirst : U.trace = V.trace ++
        [⟨.drive (.upload V.store.drive folder file.name file.data .replace), .ok new⟩] := by
      rw [← hU]
      exact trace_uploaded hupload
    have hsecond : D.trace = U.trace ++ [⟨.drive (.delete V.store.drive o.id), .ok ()⟩] := by
      rw [← hD]
      exact trace_asked (by rw [hUdrive, DriveStore.respond_delete]; exact hdelete)
    have hthird : (D.asked (.rename V.store.drive new file.name)).trace =
        D.trace ++ [⟨.drive (.rename V.store.drive new file.name), .ok ()⟩] :=
      trace_asked (by rw [hDdrive, DriveStore.respond_rename]; exact hanswer)
    refine ⟨_, by rw [hthird, hsecond, hfirst, List.append_assoc, List.append_assoc], ?_,
      V.store.drive, .replace, by simp⟩
    simp [Except.isOk, Except.toBool]

/-- A file that is stored under the policy to replace takes over its name. -/
theorem Orderly.takesOver (h : V.Orderly d) {place : List String} {file : DriveFile}
    {r : Except Fault (String × Bool)} (hfolder : V.folder? place = some folder)
    (hfiles : V.Files .replace folder file r W) (hend : W.Grows E) (hE : E.Unambiguous d) :
    ∃ new updated, r = .ok (new, updated) ∧ V.TakesOver folder file new W := by
  cases hfiles with
  | kept _ hskip _ => cases hskip
  | refused _ _ hupload => cases DriveStore.skip_of_upload hupload
  | added hks _ hupload hfree =>
    exact ⟨_, _, rfl, h.takesOver_free hfolder hks (hfree rfl) hupload hend hE⟩
  | replaced hks _ hold hupload hdelete =>
    exact ⟨_, _, rfl, h.takesOver_old hks hold hupload hdelete⟩
  | @stays ks new old f hks _ hold hupload hdelete =>
    -- what is to be replaced is there, so it can be deleted
    obtain ⟨o, ho, -, rfl⟩ := (h.mirrors folder ks hks file.name old).1 hold
    have hthere := (h.sound.numbered.mem_upload hupload).2 (Or.inr ho)
    rw [DriveStore.delete_ok (DriveStore.keepsAll_upload.trans h.deletes) hthere] at hdelete
    cases hdelete

/-- Then it is the file of its name. -/
theorem TakesOver.mem_self {file : DriveFile} {new : String} (h : V.TakesOver folder file new W)
    {n : Node} (hn : n.isFileAt folder file.name) :
    n ∈ W.store.nodes ↔ n = ⟨new, file.name, some folder, some file.data⟩ :=
  (h.nodes n).trans (or_iff_left fun hold => hold.2 hn)

/-- The files of other names are those from before. -/
theorem TakesOver.mem_other {file : DriveFile} {new : String} (h : V.TakesOver folder file new W)
    {n : Node} {p : String} (hn : n.isFileAt p name)
    (hother : ¬ (folder = p ∧ file.name = name)) : n ∈ W.store.nodes ↔ n ∈ V.store.nodes := by
  rw [h.nodes]
  constructor
  · rintro (rfl | ⟨hmem, -⟩)
    · exact absurd ⟨Option.some.inj hn.1, hn.2.1⟩ hother
    · exact hmem
  · refine fun hmem => Or.inr ⟨hmem, fun hsame => hother ⟨?_, ?_⟩⟩
    · exact Option.some.inj (hsame.1.symm.trans hn.1)
    · exact hsame.2.1.symm.trans hn.2.1

/-- The known keys are still the files. -/
theorem TakesOver.mirrors {file : DriveFile} {new : String} (h : V.TakesOver folder file new W)
    (hmirrors : V.Mirrors) : W.Mirrors := by
  obtain ⟨ks, hks, hkeys⟩ := h.keys
  have hother {p name id : String} (hne : ¬ (folder = p ∧ file.name = name)) :
      (∃ n ∈ V.store.nodes, n.isFileAt p name ∧ n.id = id) ↔
        ∃ n ∈ W.store.nodes, n.isFileAt p name ∧ n.id = id := by
    constructor
    · rintro ⟨n, hn, hfile, hid⟩
      exact ⟨n, (h.mem_other hfile hne).2 hn, hfile, hid⟩
    · rintro ⟨n, hn, hfile, hid⟩
      exact ⟨n, (h.mem_other hfile hne).1 hn, hfile, hid⟩
  intro p ks' hks' name id
  rw [hkeys] at hks'
  split at hks'
  · rename_i hfolder
    cases hks'
    subst hfolder
    rw [Table.find?_insert]
    split
    · rename_i hname
      subst hname
      constructor
      · rintro ⟨⟩
        exact ⟨_, (h.mem_self ⟨rfl, rfl, rfl⟩).2 rfl, ⟨rfl, rfl, rfl⟩, rfl⟩
      · rintro ⟨n, hn, hfile, rfl⟩
        rw [(h.mem_self hfile).1 hn]
    · rename_i hname
      rw [hmirrors folder ks hks, hother fun hsame => hname hsame.2]
  · rename_i hfolder
    rw [hmirrors p ks' hks', hother fun hsame => hfolder hsame.1]

/-- After a file has taken over its name, all is as it was before. -/
theorem Orderly.of_takesOver (h : V.Orderly d) (hsound : W.Sound d) (hgrows : V.Grows W)
    {place : List String} {file : DriveFile} {new : String}
    (hfolder : V.folder? place = some folder) (htakes : V.TakesOver folder file new W)
    (hend : W.Grows E) (hE : E.Unambiguous d) : W.Orderly d := by
  obtain ⟨xs, hxs, hok, drive, policy, hupload⟩ := htakes.trace
  have hnamed : W.NamesFile d folder file.name :=
    Or.inr ⟨drive, file.data, policy, new, by rw [hxs]; exact List.mem_append_right _ hupload⟩
  -- neither a file nor a folder that was there has the name of the new file
  have hother {n : Node} (hn : n ∈ V.store.nodes) (hnot : ¬ n.isFileAt folder file.name)
      (hparent : n.parent = some folder) : n.name ≠ file.name := by
    intro hname
    cases hcontent : n.content with
    | some data => exact hnot ⟨hparent, hname, by rw [hcontent]; rfl⟩
    | none =>
      have hfolderName := ((h.folders n hn folder hparent hcontent).grows hgrows).grows hend
      rw [hname] at hfolderName
      exact hE place folder file.name ((hgrows.trans hend).folder _ _ hfolder)
        ⟨hnamed.grows hend, hfolderName⟩
  refine h.of_new hsound hgrows (n := ⟨new, file.name, some folder, some file.data⟩)
    (fun m hm => ?_) htakes.keepsAll (htakes.mirrors h.mirrors) ?_
    (fun _ _ hcontent => by cases hcontent) ⟨xs, hxs, fun x hx _ => hok x hx⟩
  · exact ((htakes.nodes m).1 hm).imp_right fun hm => ⟨hm.1, hother hm.1 hm.2⟩
  · rintro _ ⟨⟩ -
    exact hnamed

end DriveView

/-! ## What has been stored last -/

/-- The file that has been stored last under a name of a folder, of files that have been stored
one after the other, each in a folder. -/
def lastStored (fs : List (String × DriveFile)) (folder name : String) : Option DriveFile :=
  (fs.reverse.find? fun x => x.1 = folder ∧ x.2.name = name).map Prod.snd

theorem lastStored_concat (fs : List (String × DriveFile)) (p : String) (file : DriveFile)
    (folder name : String) : lastStored (fs ++ [(p, file)]) folder name =
      if p = folder ∧ file.name = name then some file else lastStored fs folder name := by
  unfold lastStored
  rw [List.reverse_append, List.reverse_singleton, List.singleton_append, List.find?_cons]
  split <;> split <;> simp_all

namespace DriveView

/-- What the files of a drive are once files have been stored on it. -/
structure HoldsLast (d : DriveStore) (fs : List (String × DriveFile)) (V : DriveView) : Prop where
  stored : ∀ folder name file, lastStored fs folder name = some file →
    ∃ n ∈ V.store.nodes, n.isFileAt folder name ∧ n.content = some file.data
  others : ∀ n folder name, n.isFileAt folder name → lastStored fs folder name = none →
    (n ∈ V.store.nodes ↔ n ∈ d.nodes)

variable {d : DriveStore} {V W E : DriveView} {folder name : String}
  {fs : List (String × DriveFile)}

/-- Only files matter. -/
theorem HoldsLast.of_files (h : V.HoldsLast d fs)
    (hfiles : ∀ n, n.content.isSome → (n ∈ W.store.nodes ↔ n ∈ V.store.nodes)) :
    W.HoldsLast d fs where
  stored folder name file hlast := by
    obtain ⟨n, hn, hfile, hcontent⟩ := h.stored folder name file hlast
    exact ⟨n, (hfiles n hfile.2.2).2 hn, hfile, hcontent⟩
  others n folder name hfile hlast :=
    (hfiles n hfile.2.2).trans (h.others n folder name hfile hlast)

theorem HoldsLast.of_nodes (h : V.HoldsLast d fs) (hnodes : W.store.nodes = V.store.nodes) :
    W.HoldsLast d fs :=
  h.of_files fun n _ => by rw [hnodes]

/-- A file that takes over its name is the last one stored under it. -/
theorem HoldsLast.takesOver (h : V.HoldsLast d fs) {file : DriveFile} {new : String}
    (htakes : V.TakesOver folder file new W) : W.HoldsLast d (fs ++ [(folder, file)]) where
  stored p name file' hlast := by
    rw [lastStored_concat] at hlast
    split at hlast
    · rename_i hsame
      cases hlast
      obtain ⟨rfl, rfl⟩ := hsame
      exact ⟨_, (htakes.mem_self ⟨rfl, rfl, rfl⟩).2 rfl, ⟨rfl, rfl, rfl⟩, rfl⟩
    · rename_i hother
      obtain ⟨n, hn, hfile, hcontent⟩ := h.stored p name file' hlast
      exact ⟨n, (htakes.mem_other hfile hother).2 hn, hfile, hcontent⟩
  others n p name hfile hlast := by
    rw [lastStored_concat] at hlast
    split at hlast
    · cases hlast
    · rename_i hother
      rw [htakes.mem_other hfile hother, h.others n p name hfile hlast]

/-- On the way to a folder no files change. -/
theorem Sound.mem_toward (h : V.Sound d) {names : List String} (hstep : V.Toward names W) (n : Node)
    (hcontent : n.content.isSome) : n ∈ W.store.nodes ↔ n ∈ V.store.nodes := by
  cases hstep with
  | look _ | root _ | found _ _ _ _ => rfl
  | @orphaned place name parent hparent hnode =>
    rw [store_orphaned hnode]
  | @created place name parent _ _ _ _ hnode =>
    refine (mem_created h.numbered hnode name).trans (or_iff_right ?_)
    rintro rfl
    cases hcontent

theorem HoldsLast.way (h : V.HoldsLast d fs) (hsound : V.Sound d) {names : List String}
    (hway : V.Way names W) : W.HoldsLast d fs := by
  induction hway with
  | refl => exact h
  | tail hway hstep ih => exact ih.of_files ((hsound.way hway).mem_toward hstep)

theorem HoldsLast.enters (h : V.HoldsLast d fs) (hsound : V.Sound d) {σ : Type} {plan : Plan σ}
    {c : Collection} {r : Except Fault Entrance} (henters : V.Enters plan c r W) :
    W.HoldsLast d fs := by
  cases henters with
  | unserved _ | unplaced _ _ | unread _ _ _ => exact h
  | elsewhere _ _ _ _ _ => exact h.of_nodes rfl
  | lost _ _ _ _ hway _ => exact h.way hsound hway
  | entered _ _ _ _ hway _ hshares => exact (h.way hsound hway).of_nodes hshares.nodes

end DriveView

/-- The file an entry stores, with its folder. -/
def Plan.filed {σ : Type} (plan : Plan σ) (c : Collection) (folder : String) (e : Entry) :
    Option (String × DriveFile) :=
  match plan.recognise c e with
  | .ok (.file file) => some (folder, file)
  | _ => none

namespace DriveView

variable {d : DriveStore} {V W E : DriveView} {folder name : String}

/-- An entry that is a file is stored, whatever there was under its name. -/
theorem Orderly.takes (h : V.Orderly d) {σ : Type} {plan : Plan σ}
    (hpolicy : plan.options.onCollision = .replace) {c : Collection} {place : List String}
    {e : Entry} {r : Except Fault Unit} (hfolder : V.folder? place = some folder)
    (htakes : V.Takes plan c folder e r W) (hend : W.Grows E) (hE : E.Unambiguous d) :
    W.Orderly d ∧
      ∀ fs, V.HoldsLast d fs → W.HoldsLast d (fs ++ (plan.filed c folder e).toList) := by
  have hlisted : (V.listed folder).folder? place = some folder := by
    rw [folder?_congr (folders_listed V folder) (drive_listed V folder), hfolder]
  cases htakes with
  | unread hentry | nothing hentry =>
    refine ⟨h, fun fs hfs => ?_⟩
    simpa [Plan.filed, hentry] using hfs
  | metadata hentry =>
    refine ⟨h.remembering _ _, fun fs hfs => ?_⟩
    simpa [Plan.filed, hentry] using hfs.of_nodes (W := V.remembering _ _) rfl
  | failed _ hfiles =>
    rw [hpolicy] at hfiles
    obtain ⟨_, _, hr, -⟩ := (h.listed folder).takesOver hlisted hfiles hend hE
    cases hr
  | stored hentry hfiles hshares =>
    rw [hpolicy] at hfiles
    have hlater := (Grows.shares hshares).trans hend
    obtain ⟨new, _, -, htakes⟩ := (h.listed folder).takesOver hlisted hfiles hlater hE
    have hafter := (h.listed folder).of_takesOver ((h.listed folder).sound.files hlisted hfiles)
      (.files hfiles) hlisted htakes hlater hE
    refine ⟨hafter.shares hshares, fun fs hfs => ?_⟩
    have hlistedHolds : (V.listed folder).HoldsLast d fs := hfs.of_nodes (by rw [store_listed])
    simpa [Plan.filed, hentry] using (hlistedHolds.takesOver htakes).of_nodes hshares.nodes

end DriveView

/-! ## Whole restores -/

/-- The file a run stores on its way from a boundary to the next one, with its folder. -/
def Plan.filing {σ : Type} (plan : Plan σ) (b : Boundary σ) : Option (String × DriveFile) :=
  match b.session.goesOn, b.current with
  | true, some ⟨c, .drive _ folder, .ok e :: _⟩ => plan.filed c folder e
  | _, _ => none

theorem Plan.filing_of_over {σ : Type} {plan : Plan σ} {b : Boundary σ} (h : b.over) :
    plan.filing b = none := by
  unfold Plan.filing
  rcases h with hstays | ⟨hcurrent, -⟩
  · rw [hstays]
  · rw [hcurrent]
    cases b.session.goesOn <;> rfl

/-- The files a run has stored when it comes to a boundary, in order. -/
def Plan.filings {σ : Type} (plan : Plan σ) (cs : List Collection) (start : Session σ) :
    Nat → List (String × DriveFile)
  | 0 => []
  | n + 1 => plan.filings cs start n ++ (plan.filing (plan.boundary cs start n)).toList

/-- A restore that has only just started is in order if no name is taken twice. -/
theorem DriveView.Orderly.start (plan : Plan (DriveStore × ρ)) (log : FaultLog) (stopped : Bool)
    {d : DriveStore} (hd : d.Numbered) (hdeletes : d.keepsAll = false) (hnames : d.DistinctNames)
    (r : ρ) : (Session.start plan log stopped (d, r)).view.Orderly d where
  sound := .start plan log stopped hd r
  deletes := hdeletes
  distinct := hnames
  mirrors _ _ h := by cases h
  files n hn _ hp hcontent := Or.inl ⟨n, hn, hp, rfl, hcontent⟩
  folders n hn _ hp hcontent := Or.inl ⟨n, hn, hp, rfl, hcontent⟩
  calls _ h := by cases h

section Boundaries

variable {plan : Plan (DriveStore × ρ)} {desk : Remote ρ}
  (hremote : plan.remote = DriveStore.beside desk)
  (hpolicy : plan.options.onCollision = .replace) {cs : List Collection}
  (hcs : plan.OnlyDrives cs) {start : Session (DriveStore × ρ)} {d : DriveStore}
  (hstart : start.view.Orderly d) (hnodes : start.view.store.nodes = d.nodes)
  (hnames : (plan.run cs start).2.view.Unambiguous d)
include hremote hpolicy hcs hstart hnodes hnames

/-- All is in order at every boundary, and every file that came up has been stored. -/
theorem Plan.orderly_boundary (n : Nat) :
    (plan.boundary cs start n).session.view.Orderly d ∧
      (plan.boundary cs start n).session.view.HoldsLast d (plan.filings cs start n) := by
  induction n with
  | zero => exact ⟨hstart, by simp [lastStored, Plan.filings], by simp [hnodes]⟩
  | succ n ih =>
    obtain ⟨horderly, hholds⟩ := ih
    obtain ⟨-, hhosts⟩ := Plan.sound_boundary hremote hcs hstart.sound n
    obtain ⟨hlater, -⟩ := plan.mem_of_boundary cs start n
    have hend := Plan.grows_run hremote hcs hstart.sound (n + 1)
    rw [Plan.boundary_succ] at hend ⊢
    rw [Plan.filings]
    generalize plan.filings cs start n = fs at *
    generalize plan.boundary cs start n = b at *
    rcases plan.advance_cases b with ⟨p, hgoes, hp, heq⟩ | ⟨c, later, hgoes, hcurrent, hc, heq⟩ |
      ⟨hover, heq⟩ <;> rw [heq] at hend ⊢
    · obtain ⟨address, folder, hentrance, -, hdrive, hfolder⟩ := hhosts p hp
      obtain ⟨c, entrance, rest⟩ := p
      dsimp only at hentrance
      subst hentrance
      rcases rest with _ | ⟨f | e, rest⟩
      · rw [Plan.pass_view_nothing _ _ _ (by simp)]
        simpa [Plan.filing, hgoes, hp] using ⟨horderly, hholds⟩
      · rw [Plan.pass_view_nothing _ _ _ (by simp)]
        simpa [Plan.filing, hgoes, hp] using ⟨horderly, hholds⟩
      · obtain ⟨r, W, htakes, hview, -⟩ := Plan.pass_view hremote c folder e hdrive rest b.later
        rw [hview] at hend ⊢
        have hfiling : plan.filing b = plan.filed c folder e := by
          simp only [Plan.filing, hgoes, hp]
        obtain ⟨horderly', hholds'⟩ := horderly.takes hpolicy hfolder htakes hend hnames
        rw [hfiling]
        exact ⟨horderly', hholds' fs hholds⟩
    · obtain ⟨r, W, henters, hview, -⟩ :=
        Plan.begin_view hremote horderly.sound.home (hcs c (hlater c (by simp [hc]))) later
      rw [hview] at hend ⊢
      have hfiling : plan.filing b = none := by simp [Plan.filing, hgoes, hcurrent]
      simpa [hfiling] using
        ⟨horderly.enters henters hend hnames, hholds.enters horderly.sound henters⟩
    · simpa [Plan.filing_of_over hover] using ⟨horderly, hholds⟩

end Boundaries

/-- How a restore leaves a drive `d` on which it has stored some files, each in a folder. -/
structure DriveView.TookOver (d : DriveStore) (fs : List (String × DriveFile)) (V : DriveView) :
    Prop where
  /-- A name under which a file has been stored belongs to the last such file, and to no other. -/
  stored : ∀ folder name file, lastStored fs folder name = some file →
    ∃ n ∈ V.store.nodes, n.isFileAt folder name ∧ n.content = some file.data ∧
      ∀ m ∈ V.store.nodes, m.isFileAt folder name → m = n
  /-- The other files are those from before. -/
  others : ∀ n folder name, n.isFileAt folder name → lastStored fs folder name = none →
    (n ∈ V.store.nodes ↔ n ∈ d.nodes)
  /-- No name is taken twice. -/
  distinct : V.store.DistinctNames
  /-- Nothing that was to be stored, deleted or renamed has failed. -/
  calls : ∀ x ∈ V.trace, x.call.altersFiles → x.answer.isOk

/-- A restore that replaces files, in folders where no file has the name of a folder, knows the
files by their names at every boundary, and leaves nothing but them and what was there before. -/
theorem Plan.replaces_all {plan : Plan (DriveStore × ρ)} {desk : Remote ρ}
    (hremote : plan.remote = DriveStore.beside desk)
    (hpolicy : plan.options.onCollision = .replace) {cs : List Collection}
    (hcs : plan.OnlyDrives cs) {d : DriveStore} (hd : d.Reached) (hdeletes : d.keepsAll = false)
    (hdistinct : d.DistinctNames) (log : FaultLog) (stopped : Bool) (r : ρ)
    (hnames : (plan.run cs (Session.start plan log stopped (d, r))).2.view.Unambiguous d) :
    let start := Session.start plan log stopped (d, r)
    (∀ n, (plan.boundary cs start n).session.view.Mirrors) ∧
      ∃ n, (plan.boundary cs start n).over ∧
        (plan.run cs start).2.view.TookOver d (plan.filings cs start n) := by
  intro start
  have hboundary := Plan.orderly_boundary hremote hpolicy hcs
    (.start plan log stopped hd.numbered hdeletes hdistinct r) rfl hnames
  obtain ⟨n, hover⟩ := plan.exists_over cs start
  refine ⟨fun n => (hboundary n).1.mirrors, n, hover, ?_⟩
  obtain ⟨horderly, hholds⟩ := hboundary n
  rw [Plan.view_run_of_over hover]
  refine ⟨fun folder name file hlast => ?_, hholds.others, horderly.distinct, horderly.calls⟩
  obtain ⟨n, hn, hfile, hcontent⟩ := hholds.stored folder name file hlast
  refine ⟨n, hn, hfile, hcontent, fun m hm hm' => ?_⟩
  exact horderly.distinct m hm n hn folder hm'.1 hfile.1 (hm'.2.1.trans hfile.2.1.symm)

/-- Two versions of a file in the root of a drive, the older one first. -/
def twoLetters : List Collection :=
  [.ofEntries ⟨"tenant", .onedrive, "user", .files, ["drives", "drive", "root:"]⟩
    [.ok ⟨"letter.txt", ⟨#[1]⟩⟩, .ok ⟨"letter.txt", ⟨#[2]⟩⟩]]

/-- A drive that has the file already, and a file with the name of a copy of it. -/
def copiedDrive : DriveStore :=
  ((({ drive := "drive" } : DriveStore).addFile "letter.txt" .empty).2.addFile
    "letter.txt (1)" .empty).2

/-- Restore a drive, replacing files. -/
def replacing : Plan (DriveStore × Unit) where
  options := { onCollision := .replace }
  version := 0
  remote := DriveStore.beside .nobody

/-- Each version takes over the name of the file, the last one keeps it, and the other file
stays. -/
theorem replaces_twoLetters :
    let start := Session.start replacing {} false (copiedDrive, ())
    ((∀ n, (replacing.boundary twoLetters start n).session.view.Mirrors) ∧
      ∃ n, (replacing.boundary twoLetters start n).over ∧
        (replacing.run twoLetters start).2.view.TookOver copiedDrive
          (replacing.filings twoLetters start n)) ∧
      (replacing.run twoLetters start).2.view.store.nodes.map
        (fun n => (n.name, n.content.map (·.data.toList))) =
        [("letter.txt (1)", some []), ("letter.txt", some [2]), ("root", none)] := by
  intro start
  have hrun : replacing.run twoLetters start =
      conclude (replacing.restoreAll twoLetters start).2 := by
    rw [Plan.run_eq, Collection.sort_of_pairwise (by decide +kernel)]
  have hcs : replacing.OnlyDrives twoLetters := by
    intro c hc _
    rw [List.mem_singleton.1 hc]
    rfl
  have hreached : copiedDrive.Reached := ((DriveStore.Reached.new "drive").addFile _ _).addFile _ _
  have hdistinct : copiedDrive.DistinctNames := by
    intro m hm n hn p hmp hnp hname
    have hids : ∀ m ∈ copiedDrive.nodes, ∀ n ∈ copiedDrive.nodes, m.parent = n.parent →
        m.name = n.name → m.id = n.id := by decide +kernel
    exact hreached.numbered.unique hm hn (hids m hm n hn (hmp.trans hnp.symm) hname)
  -- there are no folders but the root, and none is created
  have hnames : (replacing.run twoLetters start).2.view.Unambiguous copiedDrive := by
    have hnodes : ∀ n ∈ copiedDrive.nodes, n.content = none → n.parent = none := by decide +kernel
    have htrace : ∀ x ∈ (replacing.run twoLetters start).2.trace,
        x.call.changes = x.call.altersFiles := by
      rw [hrun]
      decide +kernel
    rintro - folder name - ⟨-, ⟨n, hn, hparent, -, hcontent⟩ | ⟨_, _, hx⟩⟩
    · rw [hnodes n hn hcontent] at hparent
      cases hparent
    · cases htrace _ hx
  refine ⟨Plan.replaces_all rfl rfl hcs hreached rfl hdistinct {} false () hnames, ?_⟩
  rw [hrun]
  decide +kernel

end TenantRestore
