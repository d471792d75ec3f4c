/-
# Free names

A file is uploaded under the first of its name and the names of its copies that is free in the
folder.  The names of copies are all different, so among more of them than there are nodes one is
free (`DriveStore.exists_free`), and the search comes to its end before its limit does.  The id of
the file is that of no node the drive has or has ever had, because ids are numbered and the count of
a drive never goes back.

As an upload takes a free name, and a node is only renamed to a name that is free or its own, no
name of a folder is taken twice by uploads, renamings and deletions if none was before:
`DriveStore.takes_free_names`.
-/
import Mathlib.Data.List.Perm.Subperm
import Mathlib.Data.Nat.Find
import Mathlib.Logic.Relation
import TenantRestore.Proofs.Drive.Replacement

namespace TenantRestore

namespace DriveStore

variable {s t : DriveStore} {folder name : String}

/-! ## The names of copies -/

theorem copyName_succ (name : String) (k : Nat) :
    copyName name (k + 1) = name ++ " (" ++ Progress.count (k + 1) ++ ")" :=
  if_neg (Nat.succ_ne_zero k)

/-- A copy has another name than what it is a copy of. -/
theorem copyName_succ_ne (name : String) (k : Nat) : copyName name (k + 1) ≠ name := by
  intro h
  have hlength := congrArg String.length h
  simp only [copyName_succ, String.length_append] at hlength
  have hmark : " (".length = 2 := rfl
  omega

/-- The names of copies are all different. -/
theorem copyName_injective (name : String) : Function.Injective (copyName name) := by
  intro i j h
  match i, j with
  | 0, 0 => rfl
  | 0, j + 1 => exact absurd h.symm (copyName_succ_ne name j)
  | i + 1, 0 => exact absurd h (copyName_succ_ne name i)
  | i + 1, j + 1 =>
    rw [copyName_succ, copyName_succ] at h
    have hlist := congrArg String.toList h
    simp only [String.toList_append, List.append_assoc, List.append_cancel_left_eq,
      List.append_cancel_right_eq] at hlist
    exact Progress.count_injective (String.toList_injective hlist)

/-! ## The search for a free name -/

/-- Whether there is a file or folder of a name in a folder. -/
def HasChild (s : DriveStore) (folder name : String) : Prop :=
  ∃ n ∈ s.nodes, n.parent = some folder ∧ n.name = name

instance (s : DriveStore) (folder name : String) : Decidable (s.HasChild folder name) :=
  inferInstanceAs (Decidable (∃ n ∈ s.nodes, _))

theorem isSome_child? : (s.child? folder name).isSome ↔ s.HasChild folder name := by
  rw [child?, List.find?_isSome]
  simp [HasChild]

/-- There are not more names in a folder than there are nodes, so one of the copies is free. -/
theorem exists_free (s : DriveStore) (folder name : String) :
    ∃ k ≤ s.nodes.length, ¬ s.HasChild folder (copyName name k) := by
  by_contra hall
  push Not at hall
  have hsubset : (List.range (s.nodes.length + 1)).map (copyName name) ⊆
      s.nodes.map fun n => n.name := by
    intro x hx
    obtain ⟨k, hk, rfl⟩ := List.mem_map.1 hx
    obtain ⟨n, hn, -, hname⟩ := hall k (by simpa [Nat.lt_succ_iff] using hk)
    exact List.mem_map.2 ⟨n, hn, hname⟩
  have hnodup : ((List.range (s.nodes.length + 1)).map (copyName name)).Nodup :=
    List.nodup_range.map (copyName_injective name)
  have hlength := (List.subperm_of_subset hnodup hsubset).length_le
  simp at hlength

/-- Whether the copy of a number is the first whose name is free in a folder. -/
def FirstFree (s : DriveStore) (folder name : String) (k : Nat) : Prop :=
  ¬ s.HasChild folder (copyName name k) ∧ ∀ j < k, s.HasChild folder (copyName name j)

/-- The search goes on to the first free name if its limit lets it. -/
theorem freeName_of_taken {k copy limit : Nat} (hk : k ≤ limit)
    (hfree : ¬ s.HasChild folder (copyName name (copy + k)))
    (htaken : ∀ j < k, s.HasChild folder (copyName name (copy + j))) :
    s.freeName folder name limit copy = copyName name (copy + k) := by
  induction k generalizing copy limit with
  | zero =>
    cases limit with
    | zero => rfl
    | succ limit => exact if_neg fun h => hfree (isSome_child?.1 h)
  | succ k ih =>
    obtain ⟨limit, rfl⟩ : ∃ l, limit = l + 1 := ⟨limit - 1, by omega⟩
    have hhere : (s.child? folder (copyName name copy)).isSome :=
      isSome_child?.2 (htaken 0 (Nat.succ_pos k))
    have hnext : copy + (k + 1) = copy + 1 + k := by omega
    rw [freeName, if_pos hhere, hnext]
    refine ih (by omega) (hnext ▸ hfree) fun j hj => ?_
    have hshift : copy + 1 + j = copy + (j + 1) := by omega
    rw [hshift]
    exact htaken (j + 1) (by omega)

/-- The name a file is uploaded under is the first one that is free. -/
theorem exists_firstFree (s : DriveStore) (folder name : String) :
    ∃ k, s.FirstFree folder name k ∧
      s.freeName folder name s.nodes.length 0 = copyName name k := by
  obtain ⟨k, hk, hfree⟩ := s.exists_free folder name
  have hexists : ∃ k, ¬ s.HasChild folder (copyName name k) := ⟨k, hfree⟩
  classical
  refine ⟨Nat.find hexists, ⟨Nat.find_spec hexists, fun j hj => ?_⟩, ?_⟩
  · exact not_not.1 (Nat.find_min hexists hj)
  · rw [freeName_of_taken (k := Nat.find hexists) ((Nat.find_min' hexists hfree).trans hk)
      (by simpa using Nat.find_spec hexists)
      fun j hj => by simpa using not_not.1 (Nat.find_min hexists hj), Nat.zero_add]

/-! ## Earlier states -/

/-- A change of a drive: it is set up further, or it answers a call. -/
inductive Step : DriveStore → DriveStore → Prop
  /-- Deleting is forbidden, or allowed again. -/
  | protect (s : DriveStore) (keepsAll : Bool) : Step s { s with keepsAll := keepsAll }
  /-- A file is put on it. -/
  | addFile (s : DriveStore) (path : String) (data : ByteArray) : Step s (s.addFile path data).2
  /-- It has answered a call. -/
  | call (s : DriveStore) (c : DriveCall) : Step s (s.respond c).2

theorem le_count_enter (s : DriveStore) (parent : String) (names : List String) :
    s.count ≤ (s.enter parent names).2.count := by
  induction names generalizing s parent with
  | nil => exact Nat.le_refl _
  | cons name names ih =>
    unfold enter
    split
    · exact ih s _
    · exact Nat.le_of_succ_le (ih (s.addNode "folder" parent name none) _)

/-- The count of the ids given never goes back. -/
theorem Step.le_count (h : Step s t) : s.count ≤ t.count := by
  cases h with
  | protect => exact Nat.le_refl _
  | addFile => exact Nat.le_succ_of_le (le_count_enter s _ _)
  | call c =>
    refine respond_keeps (I := fun t => s.count ≤ t.count) (Nat.le_refl _) ?_ ?_ ?_ ?_ ?_ ?_ c
    · intro parent name
      unfold createFolder
      split
      · exact Nat.le_refl _
      · exact Nat.le_succ _
    · intro folder name data policy
      unfold upload
      split
      · exact Nat.le_refl _
      · exact Nat.le_succ _
    · exact fun item => (count_delete s item).ge
    · exact fun item name => (count_rename s item name).ge
    · intro item invitation
      unfold grant
      split
      · exact Nat.le_refl _
      · exact Nat.le_succ _
    · exact fun item permission => Nat.le_refl _

/-- Whether a drive has come from a state to a later one. -/
def LeadsTo : DriveStore → DriveStore → Prop := Relation.ReflTransGen Step

theorem LeadsTo.le_count (h : s.LeadsTo t) : s.count ≤ t.count := by
  induction h with
  | refl => exact Nat.le_refl _
  | tail _ hstep ih => exact Nat.le_trans ih hstep.le_count

theorem Reached.leadsTo (hs : s.Reached) (h : s.LeadsTo t) : t.Reached := by
  induction h with
  | refl => exact hs
  | tail _ hstep ih =>
    cases hstep with
    | protect keepsAll => exact ih.protect keepsAll
    | addFile path data => exact ih.addFile path data
    | call c => exact ih.call c

/-- The drive after it has answered some calls. -/
def after (s : DriveStore) (calls : List DriveCall) : DriveStore :=
  calls.foldl (fun d c => (d.respond c).2) s

theorem leadsTo_after (s : DriveStore) (calls : List DriveCall) : s.LeadsTo (s.after calls) := by
  induction calls generalizing s with
  | nil => exact .refl
  | cons c calls ih => exact .head (.call s c) (ih (s.respond c).2)

/-- A new id is not that of a node the drive has ever had. -/
theorem Reached.newId_ne (hs : s.Reached) (h : s.LeadsTo t) (word : String) {n : Node}
    (hn : n ∈ s.nodes) : n.id ≠ t.newId word := by
  intro hid
  have hgiven := (hs.numbered.given n hn).mono h.le_count
  exact t.not_given_newId word (hid ▸ hgiven)

/-! ## Uploads -/

/-- How a drive takes in a file that is uploaded to a folder. -/
structure TakesIn (s : DriveStore) (folder name : String) (data : ByteArray) (new : String)
    (t : DriveStore) : Prop where
  /-- The file gets the first free name, and all other nodes stay as they are. -/
  nodes : ∃ k, s.FirstFree folder name k ∧ ∀ n, n ∈ t.nodes ↔
    n = ⟨new, copyName name k, some folder, some data⟩ ∨ n ∈ s.nodes
  /-- Its id is that of no node the drive has ever had. -/
  fresh : ∀ r : DriveStore, r.Reached → r.LeadsTo s → ∀ n ∈ r.nodes, n.id ≠ new
  /-- The upload is noted. -/
  changes : t.changes = s.changes ++ [.uploaded folder name]
  /-- The permissions stay as they are. -/
  grants : t.grants = s.grants
  /-- It is the same drive. -/
  drive : t.drive = s.drive
  /-- What can be deleted stays as it is. -/
  keepsAll : t.keepsAll = s.keepsAll

section Upload

variable {data : ByteArray} {policy : CollisionPolicy}

theorem upload_taken (h : s.HasChild folder name) :
    s.upload folder name data .skip =
      (.error (.because ("item `" ++ name ++ "` already exists")), s) :=
  if_pos ⟨isSome_child?.2 h, rfl⟩

theorem upload_free (h : policy = .skip → ¬ s.HasChild folder name) :
    s.upload folder name data policy = (.ok (s.newId "item"),
      (s.addNode "item" folder (s.freeName folder name s.nodes.length 0) (some data)).noting
        (.uploaded folder name)) :=
  if_neg fun ⟨htaken, hskip⟩ => h hskip (isSome_child?.1 htaken)

theorem Reached.takesIn_upload (hs : s.Reached) (data : ByteArray)
    (h : policy = .skip → ¬ s.HasChild folder name) :
    s.TakesIn folder name data (s.newId "item") (s.upload folder name data policy).2 := by
  obtain ⟨k, hk, hname⟩ := s.exists_firstFree folder name
  rw [upload_free h, hname]
  exact
    { nodes := ⟨k, hk, fun n => hs.numbered.mem_addNode⟩
      fresh := fun r hr hlater n hn => hr.newId_ne hlater "item" hn
      changes := rfl
      grants := rfl
      drive := rfl
      keepsAll := rfl }

end Upload

/-! ## Names that are taken once -/

theorem DistinctNames.new (drive : String) : DistinctNames { drive := drive } := by
  intro m hm n hn _ _ _ _
  rw [List.mem_singleton.1 hm, List.mem_singleton.1 hn]

theorem DistinctNames.of_subset (h : s.DistinctNames) (hsub : ∀ n ∈ t.nodes, n ∈ s.nodes) :
    t.DistinctNames :=
  fun m hm n hn => h m (hsub m hm) n (hsub n hn)

/-- A new node may have a name that is free. -/
theorem DistinctNames.insert (h : s.DistinctNames) {k : Node} {folder : String}
    (hparent : k.parent = some folder) (hfree : ¬ s.HasChild folder k.name)
    (ht : ∀ n, n ∈ t.nodes ↔ n = k ∨ n ∈ s.nodes) : t.DistinctNames := by
  have hother {n : Node} {p : String} (hn : n ∈ s.nodes) (hk : k.parent = some p)
      (hnp : n.parent = some p) : n.name ≠ k.name := by
    intro hname
    have hp : some p = some folder := hk.symm.trans hparent
    exact hfree ⟨n, hn, hnp.trans hp, hname⟩
  intro m hm n hn p hmp hnp hname
  rcases (ht m).1 hm with rfl | hm <;> rcases (ht n).1 hn with rfl | hn
  · rfl
  · exact absurd hname.symm (hother hn hmp hnp)
  · exact absurd hname (hother hm hnp hmp)
  · exact h m hm n hn p hmp hnp hname

theorem DistinctNames.upload (h : s.DistinctNames) (hs : s.Reached) (folder name : String)
    (data : ByteArray) (policy : CollisionPolicy) :
    (s.upload folder name data policy).2.DistinctNames := by
  by_cases htaken : policy = .skip ∧ s.HasChild folder name
  · obtain ⟨rfl, hchild⟩ := htaken
    rw [upload_taken hchild]
    exact h
  · obtain ⟨k, hk, hnodes⟩ :=
      (hs.takesIn_upload data fun hskip hchild => htaken ⟨hskip, hchild⟩).nodes
    exact h.insert (k := ⟨s.newId "item", copyName name k, some folder, some data⟩) rfl hk.1 hnodes

theorem DistinctNames.delete (h : s.DistinctNames) (item : String) :
    (s.delete item).2.DistinctNames :=
  h.of_subset fun _ hn => mem_of_mem_delete hn

/-- Renaming either leaves the nodes alone, or nothing but the node itself has the name. -/
theorem rename_cases (hs : s.Numbered) (item name : String) :
    (s.rename item name).2.nodes = s.nodes ∨
      ∃ n ∈ s.nodes, n.id = item ∧
        (∀ p, n.parent = some p → ∀ m, s.child? p name = some m → m = n) ∧
        (s.rename item name).2.nodes =
          s.nodes.map fun m => if m.id = item then { m with name := name } else m := by
  cases hnode : s.node? item with
  | none => exact Or.inl (by simp [rename, hnode])
  | some n =>
    obtain ⟨hn, hid⟩ := (node?_eq_some hs).1 hnode
    by_cases htaken : (s.child? (n.parent.getD "") name).any fun m => m.id ≠ item
    · refine Or.inl ?_
      simp only [rename, hnode]
      rw [if_pos htaken]
    · refine Or.inr ⟨n, hn, hid, fun p hp m hchild => ?_, ?_⟩
      · rw [hp, Option.getD_some, hchild, Option.any_some] at htaken
        have hsame : m.id = item := by simpa using htaken
        exact hs.unique (mem_of_child? hchild).1 hn (hsame.trans hid.symm)
      · simp only [rename, hnode]
        rw [if_neg htaken]
        rfl

theorem DistinctNames.rename (h : s.DistinctNames) (hs : s.Numbered) (item name : String) :
    (s.rename item name).2.DistinctNames := by
  rcases rename_cases hs item name with hnodes | ⟨n, hn, hid, honly, hnodes⟩
  · exact h.of_subset fun m hm => hnodes ▸ hm
  -- what has the name beside the renamed node is that node
  have hnamed {m : Node} (hm : m ∈ s.nodes) {p : String} (hmp : m.parent = some p)
      (hnp : n.parent = some p) (hname : m.name = name) : m = n := by
    obtain ⟨c, hc⟩ := Option.isSome_iff_exists.1 (isSome_child?.2 ⟨m, hm, hmp, hname⟩)
    obtain ⟨hcs, hcp, hcname⟩ := mem_of_child? hc
    rw [← honly p hnp c hc]
    exact h m hm c hcs p hmp hcp (hname.trans hcname.symm)
  rw [DistinctNames, hnodes]
  intro a' ha' b' hb' p hap hbp hname
  obtain ⟨a, ha, rfl⟩ := List.mem_map.1 ha'
  obtain ⟨b, hb, rfl⟩ := List.mem_map.1 hb'
  by_cases hai : a.id = item <;> by_cases hbi : b.id = item
  · rw [hs.unique ha hb (hai.trans hbi.symm)]
  · rw [if_pos hai] at hap hname
    rw [if_neg hbi] at hbp hname
    have han : a = n := hs.unique ha hn (hai.trans hid.symm)
    exact absurd (hnamed hb hbp (han ▸ hap) hname.symm ▸ hid) hbi
  · rw [if_neg hai] at hap hname
    rw [if_pos hbi] at hbp hname
    have hbn : b = n := hs.unique hb hn (hbi.trans hid.symm)
    exact absurd (hnamed ha hap (hbn ▸ hbp) hname ▸ hid) hai
  · rw [if_neg hai] at hap hname ⊢
    rw [if_neg hbi] at hbp hname ⊢
    exact h a ha b hb p hap hbp hname

/-- Calls that store, delete or rename files take no name twice. -/
theorem DistinctNames.respond (h : s.DistinctNames) (hs : s.Reached) {c : DriveCall}
    (hc : (Call.drive c).altersFiles) : (s.respond c).2.DistinctNames := by
  have hdrive {α : Type} (d : String) {answer : Except Failure α × DriveStore}
      (hanswer : answer.2.DistinctNames) : (respond.onDrive s d answer).2.DistinctNames := by
    unfold respond.onDrive
    split
    · exact hanswer
    · exact h
  cases c with
  | upload d folder name data policy => exact hdrive d (h.upload hs folder name data policy)
  | delete d item => exact hdrive d (h.delete item)
  | rename d item name => exact hdrive d (h.rename hs.numbered item name)
  | rootFolder _ | findFolder _ _ _ | createFolder _ _ _ | listKeys _ _ | grant _ _ _
  | revoke _ _ _ => cases hc

theorem DistinctNames.after (h : s.DistinctNames) (hs : s.Reached) {calls : List DriveCall}
    (hcalls : ∀ c ∈ calls, (Call.drive c).altersFiles) : (s.after calls).DistinctNames := by
  induction calls generalizing s with
  | nil => exact h
  | cons c calls ih =>
    obtain ⟨hc, hcalls⟩ := List.forall_mem_cons.1 hcalls
    exact ih (h.respond hs hc) (hs.call c) hcalls

/-- An upload to a drive is refused just if its name must be free and is not, and then changes
nothing.  Else the file gets the first free name and a new id.  So no name of a folder is ever taken
twice by uploads, deletions and renamings. -/
theorem takes_free_names (hs : s.Reached) :
    (∀ folder name data policy,
      (policy = .skip → s.HasChild folder name →
        s.respond (.upload s.drive folder name data policy) =
          (.error (.because ("item `" ++ name ++ "` already exists")), s)) ∧
      ((policy = .skip → ¬ s.HasChild folder name) →
        ∃ new t, s.respond (.upload s.drive folder name data policy) = (.ok new, t) ∧
          s.TakesIn folder name data new t)) ∧
    (s.DistinctNames → ∀ calls : List DriveCall, (∀ c ∈ calls, (Call.drive c).altersFiles) →
      (s.after calls).DistinctNames) := by
  have hrespond (folder name data policy) :
      s.respond (.upload s.drive folder name data policy) = s.upload folder name data policy :=
    if_pos rfl
  refine ⟨fun folder name data policy => ⟨?_, fun hfree => ?_⟩, fun h calls => h.after hs⟩
  · rintro rfl htaken
    exact (hrespond ..).trans (upload_taken htaken)
  · refine ⟨s.newId "item", (s.upload folder name data policy).2, ?_, hs.takesIn_upload data hfree⟩
    exact (hrespond ..).trans (by rw [upload_free hfree]; rfl)

/-- A drive to which a letter has been uploaded twice, so that the second one is a copy. -/
def lettersDrive : DriveStore :=
  ({ drive := "drive" } : DriveStore).after
    [.upload "drive" rootId "letter.txt" .empty .skip,
      .upload "drive" rootId "letter.txt" .empty .replace]

/-- The letter can't be uploaded once more under its own name; as a copy it gets a name that is
free, while the other letters can neither be renamed to one that is not nor lose theirs. -/
theorem takes_free_names_letters :
    lettersDrive.Reached ∧ lettersDrive.DistinctNames ∧
      lettersDrive.nodes.map (fun n => n.name) = ["letter.txt", "letter.txt (1)", "root"] ∧
      (lettersDrive.respond (.upload "drive" rootId "letter.txt" .empty .skip)).1 =
        .error (.because "item `letter.txt` already exists") ∧
      (∃ new t, lettersDrive.respond (.upload "drive" rootId "letter.txt" .empty .copy) =
        (.ok new, t) ∧ lettersDrive.TakesIn rootId "letter.txt" .empty new t) ∧
      (lettersDrive.after
        [.upload "drive" rootId "letter.txt" .empty .copy, .rename "drive" "item-3" "letter.txt",
          .delete "drive" "item-1"]).DistinctNames := by
  have hreached : lettersDrive.Reached := (Reached.new "drive").leadsTo (leadsTo_after _ _)
  have hdistinct : lettersDrive.DistinctNames :=
    (DistinctNames.new "drive").after (.new "drive") (by decide)
  obtain ⟨huploads, hnames⟩ := takes_free_names hreached
  refine ⟨hreached, hdistinct, by decide +kernel, ?_, ?_, hnames hdistinct _ (by decide)⟩
  · have hrefused := (huploads rootId "letter.txt" .empty .skip).1 rfl (by decide +kernel)
    exact congrArg Prod.fst hrefused
  · exact (huploads rootId "letter.txt" .empty .copy).2 (by decide)

end DriveStore

end TenantRestore
