/-
# Two folders of one name

A folder of a drive is found by the first node of its name.  The ids of the nodes tell who comes
first: a file that was put on the drive when it was set up comes before all folders, and a file that
was uploaded comes after them.  So a folder is found unless a file of its name was put beside it
(`DriveStore.isSome_findFolder`).

A restore creates a folder it does not find.  Hence a drive on which no two folders beside each
other have the same name can only lose this when a restore comes to a folder that is hidden behind
such a file (`DriveStore.Overlooks`).  Both directions are shown for any sequence of restores:
`DriveStore.distinctFolders_restored_iff`.

What the drive is like after some calls is told by the calls alone, because folders never go and
files that were put on it only by being deleted (`DriveView.Housed`).
-/
import TenantRestore.Proofs.Drive.Again

namespace TenantRestore

/-- Whether a node is a folder of a name in a folder. -/
def Node.isFolderAt (n : Node) (parent name : String) : Prop :=
  n.parent = some parent ∧ n.name = name ∧ n.content = none

/-- Whether the id of a node is that of a file which was put on the drive, and not uploaded. -/
def Node.WasPut (n : Node) : Prop := ∃ number, n.id = "existing" ++ number

/-- Files that were put on a drive come before all that came about otherwise. -/
theorem Node.WasPut.id_lt {m n : Node} (hm : m.WasPut) (hn : n.Worded) {p : String}
    (hnp : n.parent = some p) : m.id < n.id := by
  obtain ⟨i, hi⟩ := hm
  rcases hn with hn | ⟨j, hj⟩
  · rw [hnp] at hn
    cases hn
  rw [hi, hj, String.lt_iff_toList_lt, String.toList_append, String.toList_append]
  split <;> exact List.cons_lt_cons_iff.2 (Or.inl (by decide))

/-- A file that is uploaded was not put on the drive. -/
theorem DriveStore.not_wasPut_of_newId {s : DriveStore} {n : Node} (hid : n.id = s.newId "item") :
    ¬ n.WasPut := by
  rintro ⟨i, hi⟩
  obtain ⟨j, hj⟩ := s.newId_eq "item"
  have hsame := congrArg String.toList (hi.symm.trans (hid.trans hj))
  rw [String.toList_append, String.toList_append] at hsame
  cases (List.cons.inj hsame).1

namespace DriveStore

variable {s t : DriveStore} {parent name : String}

/-- Whether there is a folder of a name in a folder. -/
def HasFolder (s : DriveStore) (parent name : String) : Prop :=
  ∃ n ∈ s.nodes, n.isFolderAt parent name

/-- Whether a file of a name was put into a folder when the drive was set up, and is still there. -/
def HasPut (s : DriveStore) (parent name : String) : Prop :=
  ∃ n ∈ s.nodes, n.isFileAt parent name ∧ n.WasPut

/-- No two folders have the same name and lie in the same folder. -/
def DistinctFolders (s : DriveStore) : Prop :=
  ∀ m ∈ s.nodes, ∀ n ∈ s.nodes, m.content = none → n.content = none → m.parent = n.parent →
    m.name = n.name → m.id = n.id

instance (s : DriveStore) : Decidable s.DistinctFolders :=
  inferInstanceAs (Decidable (∀ m ∈ s.nodes, ∀ n ∈ s.nodes, _))

theorem hasFolder_congr (h : ∀ n, n.content = none → (n ∈ t.nodes ↔ n ∈ s.nodes)) :
    t.HasFolder parent name ↔ s.HasFolder parent name := by
  refine exists_congr fun n => and_congr_left fun hn => h n hn.2.2

theorem distinctFolders_congr (h : ∀ n, n.content = none → (n ∈ t.nodes ↔ n ∈ s.nodes)) :
    t.DistinctFolders ↔ s.DistinctFolders := by
  constructor
  · intro ht m hm n hn hmc hnc
    exact ht m ((h m hmc).2 hm) n ((h n hnc).2 hn) hmc hnc
  · intro hs m hm n hn hmc hnc
    exact hs m ((h m hmc).1 hm) n ((h n hnc).1 hn) hmc hnc

/-- With one more folder, that one is there, too. -/
theorem hasFolder_insert {k : Node} (hk : k.isFolderAt parent name)
    (h : ∀ n, n ∈ t.nodes ↔ n = k ∨ n ∈ s.nodes) {parent' name' : String} :
    t.HasFolder parent' name' ↔ s.HasFolder parent' name' ∨ parent' = parent ∧ name' = name := by
  obtain ⟨hkparent, hkname, hkcontent⟩ := hk
  constructor
  · rintro ⟨n, hn, hparent, hname, hcontent⟩
    rcases (h n).1 hn with rfl | hn
    · rw [hkparent] at hparent
      cases hparent
      exact Or.inr ⟨rfl, hname.symm.trans hkname⟩
    · exact Or.inl ⟨n, hn, hparent, hname, hcontent⟩
  · rintro (⟨n, hn, hat⟩ | ⟨rfl, rfl⟩)
    · exact ⟨n, (h n).2 (Or.inr hn), hat⟩
    · exact ⟨k, (h k).2 (Or.inl rfl), hkparent, hkname, hkcontent⟩

/-- With one more folder, folders have distinct names if they had before, and there was none of the
name of the new one beside it. -/
theorem distinctFolders_insert {k : Node} (hk : k.isFolderAt parent name)
    (hnew : ∀ n ∈ s.nodes, n.id ≠ k.id) (h : ∀ n, n ∈ t.nodes ↔ n = k ∨ n ∈ s.nodes) :
    t.DistinctFolders ↔ s.DistinctFolders ∧ ¬ s.HasFolder parent name := by
  obtain ⟨hkparent, hkname, hkcontent⟩ := hk
  constructor
  · intro ht
    refine ⟨fun m hm n hn => ht m ((h m).2 (Or.inr hm)) n ((h n).2 (Or.inr hn)), ?_⟩
    rintro ⟨n, hn, hparent, hname, hcontent⟩
    exact hnew n hn (ht n ((h n).2 (Or.inr hn)) k ((h k).2 (Or.inl rfl)) hcontent hkcontent
      (hparent.trans hkparent.symm) (hname.trans hkname.symm))
  · rintro ⟨hs, hfree⟩ m hm n hn hmc hnc hparent hname
    rcases (h m).1 hm with rfl | hm <;> rcases (h n).1 hn with rfl | hn
    · rfl
    · exact absurd ⟨n, hn, hparent.symm.trans hkparent, hname.symm.trans hkname, hnc⟩ hfree
    · exact absurd ⟨m, hm, hparent.trans hkparent, hname.trans hkname, hmc⟩ hfree
    · exact hs m hm n hn hmc hnc hparent hname

/-! ## The ids of folders and files -/

/-- The ids of nodes tell whether they are folders, files that were uploaded, or files that were put
on the drive. -/
def Labelled (s : DriveStore) : Prop :=
  ∀ n ∈ s.nodes, n.Worded ∨ n.content.isSome ∧ n.WasPut

namespace Labelled

theorem new (drive : String) : Labelled { drive := drive } := by
  intro n hn
  rw [List.mem_singleton.1 hn]
  exact Or.inl (Or.inl rfl)

theorem addNode (h : s.Labelled) {word : String} {content : Option ByteArray}
    (hlabel : (⟨s.newId word, name, some parent, content⟩ : Node).Worded ∨
      content.isSome ∧ word = "existing") : (s.addNode word parent name content).Labelled := by
  intro n hn
  rcases mem_of_mem_insertNode hn with rfl | hn
  · exact hlabel.imp_right fun ⟨hfile, hword⟩ => ⟨hfile, hword ▸ s.newId_eq "existing"⟩
  · exact h n hn

theorem enter (h : s.Labelled) (parent : String) (names : List String) :
    (s.enter parent names).2.Labelled := by
  induction names generalizing s parent with
  | nil => exact h
  | cons name names ih =>
    unfold DriveStore.enter
    split
    · exact ih h _
    · exact ih (h.addNode (Or.inl (Or.inr (s.newId_eq "folder")))) _

theorem addFile (h : s.Labelled) (path : String) (data : ByteArray) :
    (s.addFile path data).2.Labelled :=
  Labelled.addNode (h.enter _ _) (Or.inr ⟨rfl, rfl⟩)

theorem createFolder (h : s.Labelled) (parent name : String) :
    (s.createFolder parent name).2.Labelled := by
  unfold DriveStore.createFolder
  split
  · exact h
  · exact h.addNode (Or.inl (Or.inr (s.newId_eq "folder")))

theorem upload (h : s.Labelled) (folder name : String) (data : ByteArray)
    (policy : CollisionPolicy) : (s.upload folder name data policy).2.Labelled := by
  unfold DriveStore.upload
  split
  · exact h
  · exact h.addNode (Or.inl (Or.inr (s.newId_eq "item")))

theorem delete (h : s.Labelled) (item : String) : (s.delete item).2.Labelled :=
  fun n hn => h n (mem_of_mem_delete hn)

theorem rename (h : s.Labelled) (item name : String) : (s.rename item name).2.Labelled := by
  intro n hn
  rcases mem_of_mem_rename hn with hn | ⟨m, hm, -, rfl⟩
  · exact h n hn
  · exact h m hm

theorem grant (h : s.Labelled) (item : String) (invitation : Invitation) :
    (s.grant item invitation).2.Labelled := by
  unfold DriveStore.grant
  split <;> exact h

theorem respond (h : s.Labelled) (call : DriveCall) : (s.respond call).2.Labelled :=
  respond_keeps h h.createFolder h.upload h.delete h.rename h.grant (fun _ _ => h) call

end Labelled

theorem Reached.labelled (h : s.Reached) : s.Labelled := by
  induction h with
  | new drive => exact .new drive
  | protect _ _ ih => exact ih
  | addFile _ path data ih => exact ih.addFile path data
  | call _ c ih => exact ih.respond c

/-- A folder is found if it is there, and no file of its name was put beside it. -/
theorem isSome_findFolder (hs : s.Numbered) (hlabelled : s.Labelled) :
    (s.findFolder parent name).isSome ↔ s.HasFolder parent name ∧ ¬ s.HasPut parent name := by
  constructor
  · intro hfound
    obtain ⟨c, hc⟩ := Option.isSome_iff_exists.1 hfound
    obtain ⟨m, hchild, hcontent, -⟩ := findFolder_eq_some.1 hc
    obtain ⟨hm, hparent, hname⟩ := mem_of_child? hchild
    refine ⟨⟨m, hm, hparent, hname, hcontent⟩, ?_⟩
    rintro ⟨n, hn, ⟨hnparent, hnname, hfile⟩, hput⟩
    rcases hs.eq_or_lt_of_child? hchild hn hnparent hnname with rfl | hlt
    · rw [hcontent] at hfile
      cases hfile
    · -- the file would come before the folder
      have hworded : m.Worded := (hlabelled m hm).resolve_right (by simp [hcontent])
      exact absurd (String.lt_trans hlt (hput.id_lt hworded hparent)) (String.lt_irrefl _)
  · rintro ⟨⟨n, hn, hparent, hname, hcontent⟩, hnone⟩
    have hworded : n.Worded := (hlabelled n hn).resolve_right (by simp [hcontent])
    cases hchild : s.child? parent name with
    | none => exact absurd hname (child?_eq_none.1 hchild n hn hparent)
    | some m =>
      obtain ⟨hm, hmparent, hmname⟩ := mem_of_child? hchild
      have hmcontent : m.content = none := by
        by_contra hfile
        have hfile : m.content.isSome := by simpa [Option.isSome_iff_ne_none] using hfile
        rcases hlabelled m hm with hmworded | ⟨-, hput⟩
        · -- the folder would come before the file
          have hlt := hworded.id_lt hmworded hparent hmparent hcontent hfile
          rcases hs.eq_or_lt_of_child? hchild hn hparent hname with rfl | hgt
          · rw [hcontent] at hfile
            cases hfile
          · exact absurd (String.lt_trans hlt hgt) (String.lt_irrefl _)
        · exact hnone ⟨m, hm, ⟨hmparent, hmname, hfile⟩, hput⟩
      rw [findFolder_eq_some.2 ⟨m, hchild, hmcontent, rfl⟩]
      rfl

end DriveStore

/-! ## Calls that create folders and delete files -/

/-- Whether a call has created a folder of a name in a folder. -/
def Exchange.MakesFolder (x : Exchange) (parent name : String) : Prop :=
  ∃ drive c, x = ⟨.drive (.createFolder drive parent name), .ok c⟩

/-- Whether a call has deleted a file or folder. -/
def Exchange.Removes (x : Exchange) (item : String) : Prop :=
  ∃ drive, x = ⟨.drive (.delete drive item), .ok ()⟩

/-- Whether a call has neither created a folder nor deleted anything. -/
def Exchange.Spares (x : Exchange) : Prop :=
  (∀ parent name, ¬ x.MakesFolder parent name) ∧ ∀ item, ¬ x.Removes item

theorem Exchange.spares_of_changes {x : Exchange} (h : x.call.changes = false) : x.Spares := by
  constructor
  · rintro parent name ⟨drive, c, rfl⟩
    cases h
  · rintro item ⟨drive, rfl⟩
    cases h

/-- A call that fails does nothing. -/
theorem Exchange.spares_error (call : Call) (f : Failure) : Exchange.Spares ⟨call, .error f⟩ := by
  constructor
  · rintro parent name ⟨drive, c, heq⟩
    cases heq
  · rintro item ⟨drive, heq⟩
    cases heq

theorem Exchange.spares_upload (drive folder name : String) (data : ByteArray)
    (policy : CollisionPolicy) (r : Except Failure String) :
    Exchange.Spares ⟨.drive (.upload drive folder name data policy), r⟩ := by
  constructor
  · rintro parent name ⟨drive, c, heq⟩
    cases heq
  · rintro item ⟨drive, heq⟩
    cases heq

theorem Exchange.spares_rename (drive item name : String) (r : Except Failure Unit) :
    Exchange.Spares ⟨.drive (.rename drive item name), r⟩ := by
  constructor
  · rintro parent name ⟨drive, c, heq⟩
    cases heq
  · rintro item ⟨drive, heq⟩
    cases heq

theorem Exchange.removes_delete {drive item item' : String} :
    Exchange.Removes ⟨.drive (.delete drive item), .ok ()⟩ item' ↔ item' = item := by
  constructor
  · rintro ⟨drive, heq⟩
    cases heq
    rfl
  · rintro rfl
    exact ⟨_, rfl⟩

theorem Exchange.makesFolder_createFolder {drive parent name parent' name' : String}
    {c : Container} :
    Exchange.MakesFolder ⟨.drive (.createFolder drive parent name), .ok c⟩ parent' name' ↔
      parent' = parent ∧ name' = name := by
  constructor
  · rintro ⟨drive, c, heq⟩
    cases heq
    exact ⟨rfl, rfl⟩
  · rintro ⟨rfl, rfl⟩
    exact ⟨_, _, rfl⟩

namespace DriveStore

variable {s : DriveStore} {xs ys : List Exchange}

/-- Whether, once some calls have been made, there is a folder of a name in a folder, but a file
that was put there hides it. -/
def Hides (s : DriveStore) (xs : List Exchange) (parent name : String) : Prop :=
  (s.HasFolder parent name ∨ ∃ x ∈ xs, x.MakesFolder parent name) ∧
    ∃ n ∈ s.nodes, n.isFileAt parent name ∧ n.WasPut ∧ ∀ x ∈ xs, ¬ x.Removes n.id

/-- Whether one of some calls creates a folder that is there, but hidden. -/
def Overlooks (s : DriveStore) (xs : List Exchange) : Prop :=
  ∃ before x parent name, before ++ [x] <+: xs ∧ x.MakesFolder parent name ∧
    s.Hides before parent name

theorem overlooks_concat {x : Exchange} : s.Overlooks (xs ++ [x]) ↔
    s.Overlooks xs ∨ ∃ parent name, x.MakesFolder parent name ∧ s.Hides xs parent name := by
  simp only [Overlooks, List.prefix_concat_iff, List.append_singleton_inj]
  constructor
  · rintro ⟨before, y, parent, name, ⟨rfl, rfl⟩ | hbefore, hcreates, hhides⟩
    · exact Or.inr ⟨parent, name, hcreates, hhides⟩
    · exact Or.inl ⟨before, y, parent, name, hbefore, hcreates, hhides⟩
  · rintro (⟨before, y, parent, name, hbefore, hy⟩ | ⟨parent, name, hx⟩)
    · exact ⟨before, y, parent, name, Or.inr hbefore, hy⟩
    · exact ⟨xs, x, parent, name, Or.inl ⟨rfl, rfl⟩, hx⟩

/-- Calls that create no folders overlook none. -/
theorem overlooks_append (hxs : ∀ x ∈ xs, ∀ parent name, ¬ x.MakesFolder parent name) :
    s.Overlooks (ys ++ xs) ↔ s.Overlooks ys := by
  induction xs using List.reverseRecOn with
  | nil => rw [List.append_nil]
  | append_singleton xs x ih =>
    rw [← List.append_assoc, overlooks_concat, ih fun y hy => hxs y (by simp [hy])]
    simp [hxs x (by simp)]

end DriveStore

/-! ## The folders of a drive during a restore -/

namespace DriveView

variable {d : DriveStore} {V W : DriveView} {parent folder name : String}

/-- What the calls of a restore that started from the drive `d` tell of the drive. -/
structure Housed (d : DriveStore) (V : DriveView) : Prop where
  labelled : V.store.Labelled
  folder : ∀ parent name, V.store.HasFolder parent name ↔
    d.HasFolder parent name ∨ ∃ x ∈ V.trace, x.MakesFolder parent name
  put : ∀ n : Node, n.content.isSome → n.WasPut →
    (n ∈ V.store.nodes ↔ n ∈ d.nodes ∧ ∀ x ∈ V.trace, ¬ x.Removes n.id)
  distinct : V.store.DistinctFolders ↔ d.DistinctFolders ∧ ¬ d.Overlooks V.trace

namespace Housed

/-- A folder is hidden if there is a file that was put beside it. -/
theorem hides (h : V.Housed d) : d.Hides V.trace parent name ↔
    V.store.HasFolder parent name ∧ V.store.HasPut parent name := by
  refine and_congr (h.folder parent name).symm (exists_congr fun n => ?_)
  constructor
  · rintro ⟨hn, hfile, hput, hstays⟩
    exact ⟨(h.put n hfile.2.2 hput).2 ⟨hn, hstays⟩, hfile, hput⟩
  · rintro ⟨hn, hfile, hput⟩
    obtain ⟨hn, hstays⟩ := (h.put n hfile.2.2 hput).1 hn
    exact ⟨hn, hfile, hput, hstays⟩

/-- No folder comes or goes, and files that were put on the drive go by being deleted. -/
theorem of_folders (h : V.Housed d) (hlabelled : W.store.Labelled) {xs : List Exchange}
    (htrace : W.trace = V.trace ++ xs) (hxs : ∀ x ∈ xs, ∀ parent name, ¬ x.MakesFolder parent name)
    (hfolders : ∀ n, n.content = none → (n ∈ W.store.nodes ↔ n ∈ V.store.nodes))
    (hput : ∀ n : Node, n.content.isSome → n.WasPut →
      (n ∈ W.store.nodes ↔ n ∈ V.store.nodes ∧ ∀ x ∈ xs, ¬ x.Removes n.id)) : W.Housed d where
  labelled := hlabelled
  folder parent name := by
    rw [DriveStore.hasFolder_congr hfolders, h.folder, htrace]
    simp only [List.mem_append, or_and_right, exists_or]
    refine or_congr_right (or_iff_left ?_).symm
    rintro ⟨x, hx, hcreates⟩
    exact hxs x hx parent name hcreates
  put n hfile hn := by
    rw [hput n hfile hn, h.put n hfile hn, htrace, and_assoc, List.forall_mem_append]
  distinct := by
    rw [DriveStore.distinctFolders_congr hfolders, h.distinct, htrace,
      DriveStore.overlooks_append hxs]

/-- Calls that neither create folders nor delete anything only change files that were uploaded. -/
theorem of_spared (h : V.Housed d) (hlabelled : W.store.Labelled) (xs : List Exchange)
    (htrace : W.trace = V.trace ++ xs) (hxs : ∀ x ∈ xs, x.Spares)
    (hnodes : ∀ n : Node, n.content = none ∨ n.WasPut →
      (n ∈ W.store.nodes ↔ n ∈ V.store.nodes)) : W.Housed d := by
  refine h.of_folders hlabelled htrace (fun x hx => (hxs x hx).1) (fun n hn => hnodes n (Or.inl hn))
    fun n _ hn => ?_
  rw [hnodes n (Or.inr hn), and_iff_left]
  exact fun x hx => (hxs x hx).2 n.id

/-- The drive is left alone. -/
theorem of_same (h : V.Housed d) (hnodes : W.store.nodes = V.store.nodes)
    (htrace : ∃ xs, W.trace = V.trace ++ xs ∧ ∀ x ∈ xs, x.Spares) : W.Housed d := by
  obtain ⟨xs, htrace, hxs⟩ := htrace
  refine h.of_spared ?_ xs htrace hxs fun n _ => by rw [hnodes]
  intro n hn
  exact h.labelled n (hnodes ▸ hn)

theorem of_quiet (h : V.Housed d) (hnodes : W.store.nodes = V.store.nodes)
    (htrace : ∃ xs, W.trace = V.trace ++ xs ∧ ∀ x ∈ xs, x.call.changes = false) : W.Housed d := by
  obtain ⟨xs, htrace, hxs⟩ := htrace
  exact h.of_same hnodes ⟨xs, htrace, fun x hx => Exchange.spares_of_changes (hxs x hx)⟩

theorem knowing (h : V.Housed d) (place : String × List String) (id : String) :
    (V.knowing place id).Housed d :=
  ⟨h.labelled, h.folder, h.put, h.distinct⟩

theorem keeping (h : V.Housed d) (folder : String) (ks : Keys) : (V.keeping folder ks).Housed d :=
  ⟨h.labelled, h.folder, h.put, h.distinct⟩

theorem remembering (h : V.Housed d) (path : String) (m : Metadata) :
    (V.remembering path m).Housed d :=
  ⟨h.labelled, h.folder, h.put, h.distinct⟩

theorem heard (h : V.Housed d) {x : Exchange} (hx : x.call.changes = false) :
    (V.heard x).Housed d :=
  h.of_quiet rfl ⟨[x], rfl, by simpa using hx⟩

theorem shares (h : V.Housed d) {item : String} (hshares : V.Shares item W) : W.Housed d :=
  h.of_quiet hshares.nodes hshares.trace

/-! ### Folders -/

/-- A folder is created that was not found: either there was none, or it is hidden. -/
theorem created (h : V.Housed d) (hnumbered : V.store.Numbered)
    (hfind : V.store.findFolder parent name = none) (hnode : (V.store.node? parent).isSome) :
    (V.asked (.createFolder V.store.drive parent name)).Housed d := by
  have hmem (n : Node) := mem_created hnumbered hnode name (n := n)
  have hhidden : ¬ V.store.HasFolder parent name ↔ ¬ d.Hides V.trace parent name := by
    rw [h.hides, not_and, iff_def, and_iff_right fun hno hhas => absurd hhas hno]
    intro hput hhas
    have hfound := (DriveStore.isSome_findFolder hnumbered h.labelled).2 ⟨hhas, hput hhas⟩
    rw [hfind] at hfound
    cases hfound
  have hstays {n : Node} : ¬ (Exchange.mk (.drive (.createFolder V.store.drive parent name))
      (.ok ⟨V.store.newId "folder", name, some parent⟩)).Removes n.id := by
    rintro ⟨drive, heq⟩
    cases heq
  refine ⟨h.labelled.respond _, fun parent' name' => ?_, fun n hfile hput => ?_, ?_⟩
  · rw [DriveStore.hasFolder_insert ⟨rfl, rfl, rfl⟩ hmem, h.folder, trace_created hnode]
    simp only [List.mem_append, List.mem_singleton, or_and_right, exists_or, exists_eq_left,
      Exchange.makesFolder_createFolder, or_assoc]
  · have hother : n ≠ ⟨V.store.newId "folder", name, some parent, none⟩ := by
      rintro rfl
      cases hfile
    rw [hmem, or_iff_right hother, h.put n hfile hput, trace_created hnode,
      List.forall_mem_append, List.forall_mem_singleton, and_iff_left hstays]
  · rw [DriveStore.distinctFolders_insert ⟨rfl, rfl, rfl⟩
      (fun n hn => hnumbered.newId_ne "folder" hn) hmem, h.distinct, hhidden, trace_created hnode,
      DriveStore.overlooks_concat, not_or, and_assoc]
    simp [Exchange.makesFolder_createFolder]

/-- Where the folder above is gone, none is created. -/
theorem orphaned (h : V.Housed d) (hnode : V.store.node? parent = none) (name : String) :
    (V.asked (.createFolder V.store.drive parent name)).Housed d := by
  refine h.of_same (by rw [store_orphaned hnode]) ⟨[_], rfl, ?_⟩
  intro x hx
  rw [List.mem_singleton.1 hx]
  cases hanswer : (V.store.respond (.createFolder V.store.drive parent name)).1 with
  | error f => exact Exchange.spares_error _ f
  | ok c => simp [DriveStore.createFolder, hnode] at hanswer

theorem toward (h : V.Housed d) (hsound : V.Sound d) {names : List String}
    (hstep : V.Toward names W) : W.Housed d := by
  cases hstep with
  | look hcall => exact h.heard hcall
  | root _ | found _ _ _ _ => exact h.knowing _ _
  | created _ _ _ hfind hnode => exact (h.created hsound.numbered hfind hnode).knowing _ _
  | orphaned _ hnode => exact h.orphaned hnode _

theorem way (h : V.Housed d) (hsound : V.Sound d) {names : List String} (hway : V.Way names W) :
    W.Housed d := by
  induction hway with
  | refl => exact h
  | tail hway hstep ih => exact ih.toward (hsound.way hway) hstep

/-! ### Files -/

theorem listed (h : V.Housed d) (folder : String) : (V.listed folder).Housed d :=
  h.of_quiet (by rw [store_listed]) (trace_listed V folder)

/-- A file is uploaded, or not. -/
theorem uploaded (h : V.Housed d) (hnumbered : V.store.Numbered) (folder name : String)
    (data : ByteArray) (policy : CollisionPolicy) :
    (V.asked (.upload V.store.drive folder name data policy)).Housed d := by
  refine h.of_spared (h.labelled.respond _) [_] rfl ?_ fun n hn => ?_
  · intro x hx
    rw [List.mem_singleton.1 hx]
    exact Exchange.spares_upload ..
  · rw [store_asked_upload rfl]
    cases hanswer : (V.store.upload folder name data policy).1 with
    | error f => rw [DriveStore.upload_of_error hanswer]
    | ok new =>
      rw [hnumbered.mem_upload hanswer, or_iff_right]
      rintro rfl
      rcases hn with hn | hput
      · cases hn
      · exact DriveStore.not_wasPut_of_newId (DriveStore.upload_of_ok hanswer).1 hput

/-- Files may be deleted. -/
theorem deleted (h : V.Housed d) {drive item : String} (hdrive : drive = V.store.drive)
    (hfile : ∀ n ∈ V.store.nodes, n.id = item → n.content.isSome) :
    (V.asked (.delete drive item)).Housed d := by
  have hstore := store_asked_delete hdrive item
  have hrespond : (V.store.respond (.delete drive item)).1 = (V.store.delete item).1 := by
    subst hdrive
    rw [DriveStore.respond_delete]
  cases hanswer : (V.store.delete item).1 with
  | error f =>
    refine h.of_same ?_ ⟨[_], trace_asked (hrespond.trans hanswer), ?_⟩
    · rw [hstore, DriveStore.delete_of_error hanswer]
    · intro x hx
      rw [List.mem_singleton.1 hx]
      exact Exchange.spares_error _ f
  | ok done =>
    have hmem (n : Node) : n ∈ (V.asked (.delete drive item)).store.nodes ↔
        n ∈ V.store.nodes ∧ n.id ≠ item := by
      rw [hstore]
      exact DriveStore.mem_delete hanswer
    refine h.of_folders (h.labelled.respond _) (trace_asked (hrespond.trans hanswer)) ?_
      (fun n hn => ?_) fun n _ _ => ?_
    · rintro x hx parent name ⟨_, _, rfl⟩
      cases List.mem_singleton.1 hx
    · rw [hmem, and_iff_left_iff_imp]
      rintro hnode rfl
      have hsome := hfile n hnode rfl
      rw [hn] at hsome
      cases hsome
    · rw [hmem, List.forall_mem_singleton]
      exact and_congr_right fun _ => not_congr Exchange.removes_delete.symm

/-- Files that were uploaded may be renamed. -/
theorem renamed (h : V.Housed d) {drive item : String} (hdrive : drive = V.store.drive)
    (hitem : ∀ n ∈ V.store.nodes, n.id = item → n.content.isSome ∧ ¬ n.WasPut) (name : String) :
    (V.asked (.rename drive item name)).Housed d := by
  refine h.of_spared (h.labelled.respond _) [_] rfl ?_ fun n hn => ?_
  · intro x hx
    rw [List.mem_singleton.1 hx]
    exact Exchange.spares_rename ..
  · have hother {m : Node} (hm : m ∈ V.store.nodes) (hkind : m.content = none ∨ m.WasPut) :
        m.id ≠ item := by
      intro hid
      obtain ⟨hfile, hput⟩ := hitem m hm hid
      rcases hkind with hfolder | hkind
      · rw [hfolder] at hfile
        cases hfile
      · exact hput hkind
    rw [store_asked_rename hdrive]
    constructor
    · intro hmem
      rcases DriveStore.mem_of_mem_rename hmem with hmem | ⟨m, hm, hid, rfl⟩
      · exact hmem
      · exact absurd hid (hother hm hn)
    · exact fun hmem => DriveStore.mem_rename_of_ne hmem (hother hmem hn)

/-- A file is stored, or not. -/
theorem files (h : V.Housed d) (hsound : V.Sound d) {policy : CollisionPolicy}
    {place : List String} {file : DriveFile} {r : Except Fault (String × Bool)}
    (hfolder : V.folder? place = some folder) (hfiles : V.Files policy folder file r W) :
    W.Housed d := by
  have hup := h.uploaded hsound.numbered folder file.name file.data policy
  cases hfiles with
  | kept hks _ _ => exact h.keeping ..
  | refused _ _ _ | added _ _ _ _ => exact hup.keeping ..
  | stays hks _ hold _ _ =>
    have hdeleted := hup.deleted (drive_asked ..).symm fun n hn => hsound.oldKey hks hold hn
    exact hdeleted.keeping ..
  | @replaced ks new old hks _ hold hupload _ =>
    have hdeleted := hup.deleted (drive_asked ..).symm fun n hn => hsound.oldKey hks hold hn
    have huploaded := hsound.uploaded hfolder hks hupload file.name
    refine (hdeleted.keeping folder (ks.insert file.name new)).renamed (by simp) ?_ file.name
    intro n hn hid
    rw [store_keeping, store_asked_delete (by simp)] at hn
    have hn := DriveStore.mem_of_mem_delete hn
    have hplace := (huploaded.key folder (ks.insert file.name new) file.name new
      (by simp [DriveView.keeping]) (by simp)).2 n hn hid
    refine ⟨hplace.2, DriveStore.not_wasPut_of_newId (s := V.store) ?_⟩
    rw [hid, (DriveStore.upload_of_ok hupload).1]

/-! ### Collections and their entries -/

theorem enters (h : V.Housed d) (hsound : V.Sound d) {σ : Type} {plan : Plan σ} {c : Collection}
    {r : Except Fault Entrance} (henters : V.Enters plan c r W) : W.Housed d := by
  cases henters with
  | unserved _ | unplaced _ _ | unread _ _ _ => exact h
  | elsewhere _ _ _ _ hcall => exact h.heard hcall
  | lost _ _ _ _ hway _ => exact h.way hsound hway
  | entered _ _ _ _ hway _ hshares => exact ((h.way hsound hway).shares hshares).remembering _ _

theorem takes (h : V.Housed d) (hsound : V.Sound d) {σ : Type} {plan : Plan σ} {c : Collection}
    {place : List String} {e : Entry} {r : Except Fault Unit}
    (hfolder : V.folder? place = some folder) (htakes : V.Takes plan c folder e r W) :
    W.Housed d := by
  have hlisted : (V.listed folder).folder? place = some folder := by
    rw [folder?_congr (folders_listed V folder) (drive_listed V folder), hfolder]
  cases htakes with
  | unread _ | nothing _ => exact h
  | metadata _ => exact h.remembering _ _
  | failed _ hfiles => exact (h.listed folder).files (hsound.listed folder) hlisted hfiles
  | stored _ hfiles hshares =>
    exact ((h.listed folder).files (hsound.listed folder) hlisted hfiles).shares hshares

end Housed

end DriveView

/-! ## Sequences of restores -/

section Runs

variable {ρ : Type} {plan : Plan (DriveStore × ρ)} {desk : Remote ρ}

/-- A restore that has only just started has created no folders. -/
theorem DriveView.Housed.start (plan : Plan (DriveStore × ρ)) (log : FaultLog) (stopped : Bool)
    {d : DriveStore} (hd : d.Labelled) (r : ρ) :
    (Session.start plan log stopped (d, r)).view.Housed d where
  labelled := hd
  folder parent name := by simp [Session.view, Session.start]
  put n _ _ := by simp [Session.view, Session.start]
  distinct := by simp [Session.view, Session.start, DriveStore.Overlooks]

/-- What the calls tell of the drive is true in the end. -/
theorem Plan.housed_run (hremote : plan.remote = DriveStore.beside desk) {cs : List Collection}
    (hcs : plan.OnlyDrives cs) {d : DriveStore} {start : Session (DriveStore × ρ)}
    (hsound : start.view.Sound d) (hstart : start.view.Housed d) :
    (plan.run cs start).2.view.Housed d := by
  obtain ⟨n, -, hview⟩ := plan.view_run cs start
  rw [hview]
  refine (Plan.boundary_view_start hremote hcs (I := fun V => V.Sound d ∧ V.Housed d)
    (fun _ h => h.1.home) ?_ ?_ ⟨hsound, hstart⟩ n).1.2
  · exact fun _ _ _ _ _ h henters => ⟨h.1.enters henters, h.2.enters h.1 henters⟩
  · exact fun _ _ _ _ _ _ _ _ h _ _ hfolder htakes =>
      ⟨h.1.takes hfolder htakes, h.2.takes h.1 hfolder htakes⟩

end Runs

/-- A restore of drive collections by itself: what is to be restored, and who sees the calls. -/
structure DriveRestore where
  /-- The states of who sees the calls. -/
  State : Type
  /-- The options and the version. -/
  plan : Plan (DriveStore × State)
  /-- Who sees the calls. -/
  desk : Remote State
  /-- The restore is one to a drive in memory. -/
  remote_eq : plan.remote = DriveStore.beside desk
  /-- The collections. -/
  collections : List Collection
  /-- They are those of drives. -/
  onlyDrives : plan.OnlyDrives collections
  /-- The log of the restore. -/
  log : FaultLog := {}
  /-- Whether the restore is stopped from the beginning. -/
  stopped : Bool := false
  /-- The state of who sees the calls. -/
  state : State

/-- The session in which a restore to a drive has ended. -/
def DriveRestore.session (r : DriveRestore) (s : DriveStore) : Session (DriveStore × r.State) :=
  (r.plan.run r.collections (Session.start r.plan r.log r.stopped (s, r.state))).2

namespace DriveStore

variable {s : DriveStore}

/-- The drive after some restores to it, one after the other. -/
def restored (s : DriveStore) (rs : List DriveRestore) : DriveStore :=
  rs.foldl (fun d r => (r.session d).remote.1) s

theorem restored_concat (s : DriveStore) (rs : List DriveRestore) (r : DriveRestore) :
    s.restored (rs ++ [r]) = (r.session (s.restored rs)).remote.1 :=
  List.foldl_append

/-- Restores reach the drives they leave by calls. -/
theorem Reached.restored (h : s.Reached) (rs : List DriveRestore) : (s.restored rs).Reached := by
  induction rs using List.reverseRecOn with
  | nil => exact h
  | append_singleton rs r ih =>
    rw [restored_concat]
    obtain ⟨n, -, hview⟩ := r.plan.view_run r.collections
      (Session.start r.plan r.log r.stopped (s.restored rs, r.state))
    change (r.session (s.restored rs)).view.store.Reached
    rw [DriveRestore.session, hview]
    exact Plan.store_boundary r.remote_eq (fun _ c h => h.call c) _ ih n

/-- A restore leaves no two folders of one name beside each other, if there were none before and it
overlooks none. -/
theorem Reached.distinctFolders_session (h : s.Reached) (r : DriveRestore) :
    (r.session s).remote.1.DistinctFolders ↔
      s.DistinctFolders ∧ ¬ s.Overlooks (r.session s).trace :=
  (Plan.housed_run r.remote_eq r.onlyDrives (.start _ _ _ h.numbered _)
    (.start _ _ _ h.labelled _)).distinct

/-- On a drive that can be reached, a folder is found if it is there and no file of its name was put
beside it.  After any restores no two folders beside each other have the same name if and only if
this was so before and none of the restores has created a folder that was there, but not found. -/
theorem distinctFolders_restored_iff (hs : s.Reached) (rs : List DriveRestore) :
    (∀ t : DriveStore, t.Reached → ∀ parent name, (t.findFolder parent name).isSome ↔
      t.HasFolder parent name ∧ ¬ t.HasPut parent name) ∧
    ((s.restored rs).DistinctFolders ↔ s.DistinctFolders ∧
      ∀ before r, before ++ [r] <+: rs →
        ¬ (s.restored before).Overlooks (r.session (s.restored before)).trace) := by
  refine ⟨fun t ht parent name => isSome_findFolder ht.numbered ht.labelled, ?_⟩
  induction rs using List.reverseRecOn with
  | nil => simp [restored]
  | append_singleton rs r ih =>
    rw [restored_concat, (hs.restored rs).distinctFolders_session, ih, and_assoc]
    refine and_congr_right fun _ => ?_
    simp only [List.prefix_concat_iff, List.append_singleton_inj]
    constructor
    · rintro ⟨hrs, hr⟩ before r' (⟨rfl, rfl⟩ | hbefore)
      · exact hr
      · exact hrs before r' hbefore
    · intro h
      exact ⟨fun before r' hbefore => h before r' (Or.inr hbefore), h rs r (Or.inl ⟨rfl, rfl⟩)⟩

end DriveStore

/-! ### A folder and a file of one name -/

/-- Restore a file to the folder `Plans` of a drive. -/
def restoreOfPlans : DriveRestore where
  State := Unit
  plan := { options := {}, version := 0, remote := DriveStore.beside .nobody }
  desk := .nobody
  remote_eq := rfl
  collections :=
    [.ofEntries ⟨"tenant", .onedrive, "user", .files, ["drives", "drive", "root:", "Plans"]⟩
      [.ok ⟨"new.txt", .empty⟩]]
  onlyDrives := by
    intro c hc _
    rw [List.mem_singleton.1 hc]
    rfl
  state := ()

theorem restored_plans (s : DriveStore) : s.restored [restoreOfPlans] =
    (conclude (restoreOfPlans.plan.restoreAll restoreOfPlans.collections
      (Session.start restoreOfPlans.plan {} false (s, ()))).2).2.remote.1 := by
  change (restoreOfPlans.plan.run _ _).2.remote.1 = _
  rw [Plan.run_eq, Collection.sort_of_pairwise (by decide +kernel)]
  rfl

/-- A drive with a file in the folder `Plans`. -/
def plansDrive : DriveStore :=
  (({ drive := "drive" } : DriveStore).addFile "Plans/old.txt" .empty).2

/-- The folder is found and used. -/
theorem distinctFolders_plans :
    (plansDrive.HasFolder rootId "Plans" ∧ ¬ plansDrive.HasPut rootId "Plans") ∧
      (plansDrive.restored [restoreOfPlans]).DistinctFolders ∧
      ¬ plansDrive.Overlooks (restoreOfPlans.session plansDrive).trace := by
  have hreached : plansDrive.Reached := (DriveStore.Reached.new "drive").addFile _ _
  have h := DriveStore.distinctFolders_restored_iff hreached [restoreOfPlans]
  have hdistinct : (plansDrive.restored [restoreOfPlans]).DistinctFolders := by
    rw [restored_plans]
    decide +kernel
  refine ⟨(h.1 plansDrive hreached rootId "Plans").1 (by decide +kernel), hdistinct, ?_⟩
  exact (h.2.1 hdistinct).2 [] restoreOfPlans (List.prefix_refl _)

/-- Beside the folder a file of its name is put: the folder is there, but it is not found, and a
restore creates another one. -/
theorem folder_besideFile_restored :
    let s := (plansDrive.addFile "Plans" .empty).2
    s.Reached ∧ s.DistinctFolders ∧ s.HasFolder rootId "Plans" ∧
      s.findFolder rootId "Plans" = none ∧ ¬ (s.restored [restoreOfPlans]).DistinctFolders := by
  intro s
  have hreached : s.Reached := ((DriveStore.Reached.new "drive").addFile _ _).addFile _ _
  refine ⟨hreached, by decide +kernel, ?_, by decide +kernel, ?_⟩
  · change ∃ n ∈ s.nodes, n.parent = some rootId ∧ n.name = "Plans" ∧ n.content = none
    decide +kernel
  · rw [restored_plans]
    decide +kernel

end TenantRestore
