/-
# The nodes of a drive in memory

An id of a drive is made of a word and a running number, so an id that has not been given yet
is that of no node; and the nodes are kept in the order of their ids, so an id is that of one
node at most.  This is `DriveStore.Numbered`, and it holds of every drive that can be reached by
putting files on a new one and by calls.

The lemmas below say which nodes a drive has after a change, and what the lookups of a drive find,
in terms of its nodes.
-/
import TenantRestore.Proofs.Ids

namespace TenantRestore

/-- Whether a node is a file of a name in a folder. -/
def Node.isFileAt (n : Node) (folder name : String) : Prop :=
  n.parent = some folder ∧ n.name = name ∧ n.content.isSome

namespace DriveStore

variable {s : DriveStore}

/-! ## New ids -/

theorem given_newId (s : DriveStore) (word : String) : Given (s.count + 1) (s.newId word) :=
  given_next s.count word

theorem not_given_newId (s : DriveStore) (word : String) : ¬ Given s.count (s.newId word) :=
  not_given_next s.count word

/-! ## Nodes in the order of their ids -/

theorem mem_of_mem_insertNode {n m : Node} {ns : List Node} (h : m ∈ insertNode n ns) :
    m = n ∨ m ∈ ns := by
  induction ns with
  | nil => exact Or.inl (List.mem_singleton.1 h)
  | cons k ns ih =>
    unfold insertNode at h
    split at h
    · exact List.mem_cons.1 h
    · split at h
      · rcases List.mem_cons.1 h with h | h
        · exact Or.inl h
        · exact Or.inr (List.mem_cons_of_mem _ h)
      · rcases List.mem_cons.1 h with rfl | h
        · exact Or.inr (List.mem_cons_self ..)
        · rcases ih h with h | h
          · exact Or.inl h
          · exact Or.inr (List.mem_cons_of_mem _ h)

theorem mem_insertNode {n m : Node} {ns : List Node} (h : ∀ m ∈ ns, m.id ≠ n.id) :
    m ∈ insertNode n ns ↔ m = n ∨ m ∈ ns := by
  induction ns with
  | nil => simp [insertNode]
  | cons k ns ih =>
    have hk : n.id ≠ k.id := fun heq => h k (List.mem_cons_self ..) heq.symm
    have ih := ih fun m hm => h m (List.mem_cons_of_mem _ hm)
    unfold insertNode
    rw [if_neg hk]
    split
    · exact List.mem_cons
    · rw [List.mem_cons, ih, List.mem_cons]
      constructor
      · rintro (h | h | h)
        · exact Or.inr (Or.inl h)
        · exact Or.inl h
        · exact Or.inr (Or.inr h)
      · rintro (h | h | h)
        · exact Or.inr (Or.inl h)
        · exact Or.inl h
        · exact Or.inr (Or.inr h)

theorem pairwise_insertNode {n : Node} {ns : List Node}
    (h : ns.Pairwise fun m n => m.id < n.id) :
    (insertNode n ns).Pairwise fun m n => m.id < n.id := by
  induction ns with
  | nil => exact List.pairwise_singleton _ _
  | cons k ns ih =>
    obtain ⟨hk, hns⟩ := List.pairwise_cons.1 h
    unfold insertNode
    split
    · rename_i hlt
      refine List.pairwise_cons.2 ⟨?_, h⟩
      intro m hm
      rcases List.mem_cons.1 hm with rfl | hm
      · exact hlt
      · exact String.lt_trans hlt (hk m hm)
    · split
      · rename_i heq
        refine List.pairwise_cons.2 ⟨?_, hns⟩
        rw [heq]
        exact hk
      · rename_i hlt hne
        refine List.pairwise_cons.2 ⟨?_, ih hns⟩
        intro m hm
        rcases mem_of_mem_insertNode hm with rfl | hm
        · by_contra hnot
          exact hne (Std.Trichotomous.trichotomous _ _ hlt hnot)
        · exact hk m hm

/-- Two members of an ordered list are the same, or one of them comes first. -/
theorem eq_or_rel_of_pairwise {α : Type} {r : α → α → Prop} {l : List α} (h : l.Pairwise r)
    {a b : α} (ha : a ∈ l) (hb : b ∈ l) : a = b ∨ r a b ∨ r b a := by
  induction l with
  | nil => cases ha
  | cons c l ih =>
    obtain ⟨hc, hl⟩ := List.pairwise_cons.1 h
    rcases List.mem_cons.1 ha with hac | hal
    · rcases List.mem_cons.1 hb with hbc | hbl
      · exact Or.inl (hac.trans hbc.symm)
      · exact Or.inr (Or.inl (hac ▸ hc b hbl))
    · rcases List.mem_cons.1 hb with hbc | hbl
      · exact Or.inr (Or.inr (hbc ▸ hc a hal))
      · exact ih hl hal hbl

/-! ## Answering calls -/

/-- What the operations of a drive keep is kept whichever call it answers. -/
theorem respond_keeps {I : DriveStore → Prop} (h : I s)
    (hcreate : ∀ parent name, I (s.createFolder parent name).2)
    (hupload : ∀ folder name data policy, I (s.upload folder name data policy).2)
    (hdelete : ∀ item, I (s.delete item).2) (hrename : ∀ item name, I (s.rename item name).2)
    (hgrant : ∀ item invitation, I (s.grant item invitation).2)
    (hrevoke : ∀ item permission, I (s.revoke item permission)) (call : DriveCall) :
    I (s.respond call).2 := by
  have hdrive {α : Type} (d : String) {answer : Except Failure α × DriveStore}
      (hanswer : I answer.2) : I (respond.onDrive s d answer).2 := by
    unfold respond.onDrive
    split
    · exact hanswer
    · exact h
  cases call with
  | rootFolder d | findFolder d _ _ | listKeys d _ => exact hdrive d h
  | createFolder d parent name => exact hdrive d (hcreate parent name)
  | upload d folder name data policy => exact hdrive d (hupload folder name data policy)
  | delete d item => exact hdrive d (hdelete item)
  | rename d item name => exact hdrive d (hrename item name)
  | grant d item invitation => exact hdrive d (hgrant item invitation)
  | revoke d item permission => exact hdrive d (hrevoke item permission)

/-! ## Numbered drives -/

/-- The nodes of a drive are in the order of their ids, and these have been given. -/
structure Numbered (s : DriveStore) : Prop where
  sorted : s.nodes.Pairwise fun m n => m.id < n.id
  given : ∀ n ∈ s.nodes, Given s.count n.id

namespace Numbered

theorem new (drive : String) (keepsAll : Bool) :
    Numbered { drive := drive, keepsAll := keepsAll } where
  sorted := List.pairwise_singleton _ _
  given n hn := by
    rw [List.mem_singleton.1 hn]
    exact Or.inl rfl

/-- A node is determined by its id. -/
theorem unique (h : s.Numbered) {m n : Node} (hm : m ∈ s.nodes) (hn : n ∈ s.nodes)
    (hid : m.id = n.id) : m = n := by
  rcases eq_or_rel_of_pairwise h.sorted hm hn with heq | hlt | hlt
  · exact heq
  · exact absurd hlt (hid ▸ String.lt_irrefl n.id)
  · exact absurd hlt (hid ▸ String.lt_irrefl n.id)

/-- A new id is not that of a node. -/
theorem newId_ne (h : s.Numbered) (word : String) {m : Node} (hm : m ∈ s.nodes) :
    m.id ≠ s.newId word := by
  intro hid
  exact s.not_given_newId word (hid ▸ h.given m hm)

theorem mem_addNode (h : s.Numbered) {word parent name : String} {content : Option ByteArray}
    {m : Node} : m ∈ (s.addNode word parent name content).nodes ↔
      m = ⟨s.newId word, name, some parent, content⟩ ∨ m ∈ s.nodes :=
  mem_insertNode fun _ hm => h.newId_ne word hm

theorem addNode (h : s.Numbered) (word parent name : String) (content : Option ByteArray) :
    (s.addNode word parent name content).Numbered where
  sorted := pairwise_insertNode h.sorted
  given m hm := by
    rcases h.mem_addNode.1 hm with rfl | hm
    · exact s.given_newId word
    · exact (h.given m hm).mono (Nat.le_succ _)

/-- Only the nodes and the number of ids matter. -/
theorem of_eq (h : s.Numbered) {t : DriveStore} (hnodes : t.nodes = s.nodes)
    (hcount : s.count ≤ t.count) : t.Numbered where
  sorted := by
    rw [hnodes]
    exact h.sorted
  given n hn := by
    rw [hnodes] at hn
    exact (h.given n hn).mono hcount

theorem noting (h : s.Numbered) (change : DriveChange) : (s.noting change).Numbered :=
  h.of_eq rfl (Nat.le_refl _)

theorem filter (h : s.Numbered) (p : Node → Bool) :
    Numbered { s with nodes := s.nodes.filter p } where
  sorted := h.sorted.filter p
  given n hn := h.given n (List.mem_filter.1 hn).1

/-- Nodes may be changed if they keep their ids. -/
theorem map (h : s.Numbered) {f : Node → Node} (hf : ∀ n, (f n).id = n.id) :
    Numbered { s with nodes := s.nodes.map f } where
  sorted := by
    refine List.pairwise_map.2 (h.sorted.imp ?_)
    intro a b hab
    rw [hf, hf]
    exact hab
  given n hn := by
    obtain ⟨m, hm, rfl⟩ := List.mem_map.1 hn
    rw [hf]
    exact h.given m hm

/-! ### Calls -/

theorem createFolder (h : s.Numbered) (parent name : String) :
    (s.createFolder parent name).2.Numbered := by
  unfold DriveStore.createFolder
  split
  · exact h
  · exact (h.addNode ..).noting _

theorem upload (h : s.Numbered) (folder name : String) (data : ByteArray)
    (policy : CollisionPolicy) : (s.upload folder name data policy).2.Numbered := by
  unfold DriveStore.upload
  split
  · exact h
  · exact (h.addNode ..).noting _

theorem delete (h : s.Numbered) (item : String) : (s.delete item).2.Numbered := by
  unfold DriveStore.delete
  split
  · exact h
  · split
    · exact h
    · exact (h.filter _).noting _

theorem rename (h : s.Numbered) (item name : String) : (s.rename item name).2.Numbered := by
  unfold DriveStore.rename
  split
  · exact h
  · split
    · exact h
    · refine (h.map fun n => ?_).noting _
      split <;> rfl

theorem grant (h : s.Numbered) (item : String) (invitation : Invitation) :
    (s.grant item invitation).2.Numbered := by
  unfold DriveStore.grant
  split
  · exact h
  · exact h.of_eq rfl (Nat.le_succ _)

theorem revoke (h : s.Numbered) (item permission : String) :
    (s.revoke item permission).Numbered :=
  h.of_eq rfl (Nat.le_refl _)

theorem respond (h : s.Numbered) (call : DriveCall) : (s.respond call).2.Numbered :=
  respond_keeps h h.createFolder h.upload h.delete h.rename h.grant h.revoke call

/-! ### Setting up -/

theorem enter (h : s.Numbered) (parent : String) (names : List String) :
    (s.enter parent names).2.Numbered := by
  induction names generalizing s parent with
  | nil => exact h
  | cons name names ih =>
    unfold DriveStore.enter
    split
    · exact ih h _
    · exact ih (h.addNode ..) _

theorem addFile (h : s.Numbered) (path : String) (data : ByteArray) :
    (s.addFile path data).2.Numbered :=
  Numbered.addNode (h.enter _ _) ..

end Numbered

/-- The drives that can be reached from a new one by putting files on it and by any calls. -/
inductive Reached : DriveStore → Prop
  /-- A new drive. -/
  | new (drive : String) : Reached { drive := drive }
  /-- Deleting is forbidden, or allowed again. -/
  | protect {s : DriveStore} (h : Reached s) (keepsAll : Bool) :
      Reached { s with keepsAll := keepsAll }
  /-- A file is put on it. -/
  | addFile {s : DriveStore} (h : Reached s) (path : String) (data : ByteArray) :
      Reached (s.addFile path data).2
  /-- It has answered a call. -/
  | call {s : DriveStore} (h : Reached s) (c : DriveCall) : Reached (s.respond c).2

theorem Reached.numbered (h : s.Reached) : s.Numbered := by
  induction h with
  | new drive => exact .new drive false
  | protect _ keepsAll ih => exact ih.of_eq rfl (Nat.le_refl _)
  | addFile _ path data ih => exact ih.addFile path data
  | call _ c ih => exact ih.respond c

/-! ## What the lookups find -/

theorem node?_eq_some (h : s.Numbered) {id : String} {n : Node} :
    s.node? id = some n ↔ n ∈ s.nodes ∧ n.id = id := by
  constructor
  · intro hfind
    have hid := List.find?_some hfind
    exact ⟨List.mem_of_find?_eq_some hfind, by simpa using hid⟩
  · rintro ⟨hn, rfl⟩
    cases hfind : s.node? n.id with
    | none =>
      have hnone := List.find?_eq_none.1 hfind n hn
      simp at hnone
    | some m =>
      have hid := List.find?_some hfind
      have hsame := h.unique (List.mem_of_find?_eq_some hfind) hn (by simpa using hid)
      rw [hsame]

theorem node?_eq_none {id : String} : s.node? id = none ↔ ∀ n ∈ s.nodes, n.id ≠ id := by
  rw [node?, List.find?_eq_none]
  simp

theorem mem_of_child? {parent name : String} {n : Node} (h : s.child? parent name = some n) :
    n ∈ s.nodes ∧ n.parent = some parent ∧ n.name = name := by
  have hfound := List.find?_some h
  have hplace : n.parent = some parent ∧ n.name = name := by simpa using hfound
  exact ⟨List.mem_of_find?_eq_some h, hplace⟩

/-- The first node of a name in a folder comes before the others. -/
theorem Numbered.eq_or_lt_of_child? (h : s.Numbered) {parent name : String} {m n : Node}
    (hchild : s.child? parent name = some m) (hn : n ∈ s.nodes) (hparent : n.parent = some parent)
    (hname : n.name = name) : n = m ∨ m.id < n.id := by
  obtain ⟨-, before, after, hnodes, hbefore⟩ := List.find?_eq_some_iff_append.1 hchild
  have hsorted := h.sorted
  rw [hnodes] at hn hsorted
  rcases List.mem_append.1 hn with hn | hn
  · exact absurd (hbefore n hn) (by simp [hparent, hname])
  · refine (List.mem_cons.1 hn).imp_right fun hn => ?_
    exact (List.pairwise_cons.1 (List.pairwise_append.1 hsorted).2.1).1 n hn

theorem child?_eq_none {parent name : String} :
    s.child? parent name = none ↔ ∀ n ∈ s.nodes, n.parent = some parent → n.name ≠ name := by
  rw [child?, List.find?_eq_none]
  simp

/-! ## What a call changes -/

theorem createFolder_of_none {parent : String} (h : s.node? parent = none) (name : String) :
    (s.createFolder parent name).2 = s := by
  simp [createFolder, h]

theorem createFolder_of_some {parent : String} (h : (s.node? parent).isSome) (name : String) :
    s.createFolder parent name = (.ok ⟨s.newId "folder", name, some parent⟩,
      (s.addNode "folder" parent name none).noting (.createdFolder parent name)) := by
  unfold createFolder
  rw [if_neg]
  simpa [Option.isSome_iff_ne_none] using h

section Upload

variable {folder name : String} {data : ByteArray} {policy : CollisionPolicy}

theorem upload_of_error {f : Failure} (h : (s.upload folder name data policy).1 = .error f) :
    (s.upload folder name data policy).2 = s := by
  unfold upload at h ⊢
  split at h
  · rename_i htaken
    rw [if_pos htaken]
  · cases h

theorem upload_of_ok {new : String} (h : (s.upload folder name data policy).1 = .ok new) :
    new = s.newId "item" ∧ (s.upload folder name data policy).2 =
      (s.addNode "item" folder (s.freeName folder name s.nodes.length 0) (some data)).noting
        (.uploaded folder name) := by
  unfold upload at h ⊢
  split at h
  · cases h
  · rename_i hfree
    cases h
    rw [if_neg hfree]
    exact ⟨rfl, rfl⟩

theorem Numbered.mem_upload (hs : s.Numbered) {new : String}
    (h : (s.upload folder name data policy).1 = .ok new) {m : Node} :
    m ∈ (s.upload folder name data policy).2.nodes ↔
      m = ⟨new, s.freeName folder name s.nodes.length 0, some folder, some data⟩ ∨
        m ∈ s.nodes := by
  obtain ⟨rfl, hstore⟩ := upload_of_ok h
  rw [hstore]
  exact hs.mem_addNode

/-- Under the policy to skip an upload is refused if and only if its name is taken. -/
theorem child?_of_upload_ok {new : String} (h : (s.upload folder name data .skip).1 = .ok new) :
    s.child? folder name = none := by
  unfold upload at h
  split at h
  · cases h
  · rename_i hfree
    simpa using hfree

theorem child?_of_upload_error {f : Failure}
    (h : (s.upload folder name data policy).1 = .error f) : (s.child? folder name).isSome := by
  unfold upload at h
  split at h
  · rename_i htaken
    exact htaken.1
  · cases h

/-- Only under the policy to skip an upload is refused. -/
theorem skip_of_upload {f : Failure} (h : (s.upload folder name data policy).1 = .error f) :
    policy = .skip := by
  unfold upload at h
  split at h
  · rename_i htaken
    exact htaken.2
  · cases h

@[simp] theorem keepsAll_upload : (s.upload folder name data policy).2.keepsAll = s.keepsAll := by
  unfold upload
  split <;> rfl

/-- An upload does not touch the nodes there are. -/
theorem Numbered.mem_of_mem_upload (hs : s.Numbered) {m : Node}
    (hm : m ∈ (s.upload folder name data policy).2.nodes) (hid : Given s.count m.id) :
    m ∈ s.nodes := by
  cases h : (s.upload folder name data policy).1 with
  | error f => rwa [upload_of_error h] at hm
  | ok new =>
    rcases (hs.mem_upload h).1 hm with rfl | hm
    · obtain ⟨rfl, -⟩ := upload_of_ok h
      exact absurd hid (s.not_given_newId "item")
    · exact hm

end Upload

theorem delete_of_error {item : String} {f : Failure} (h : (s.delete item).1 = .error f) :
    (s.delete item).2 = s := by
  unfold delete at h ⊢
  split at h
  · rename_i hkeeps
    rw [if_pos hkeeps]
  · rename_i hkeeps
    rw [if_neg hkeeps]
    split at h
    · rename_i hnone
      rw [if_pos hnone]
    · cases h

theorem mem_delete {item : String} (h : (s.delete item).1 = .ok ()) {m : Node} :
    m ∈ (s.delete item).2.nodes ↔ m ∈ s.nodes ∧ m.id ≠ item := by
  unfold delete at h ⊢
  split at h
  · cases h
  · rename_i hkeeps
    rw [if_neg hkeeps]
    split at h
    · cases h
    · rename_i hsome
      rw [if_neg hsome]
      simp [noting]

theorem mem_of_mem_delete {item : String} {m : Node} (h : m ∈ (s.delete item).2.nodes) :
    m ∈ s.nodes := by
  cases hanswer : (s.delete item).1 with
  | error f => rwa [delete_of_error hanswer] at h
  | ok done => exact ((mem_delete hanswer).1 h).1

/-- What is there can be deleted, if anything can be. -/
theorem delete_ok (hkeeps : s.keepsAll = false) {n : Node} (hn : n ∈ s.nodes) :
    (s.delete n.id).1 = .ok () := by
  have hfound : s.node? n.id ≠ none := fun hnone => node?_eq_none.1 hnone n hn rfl
  simp [delete, hkeeps, hfound]

@[simp] theorem keepsAll_delete (s : DriveStore) (item : String) :
    (s.delete item).2.keepsAll = s.keepsAll := by
  unfold delete
  split
  · rfl
  · split <;> rfl

@[simp] theorem count_delete (s : DriveStore) (item : String) :
    (s.delete item).2.count = s.count := by
  unfold delete
  split
  · rfl
  · split <;> rfl

/-- Renaming changes the name of one node at most. -/
theorem nodes_rename (s : DriveStore) (item name : String) :
    (s.rename item name).2.nodes = s.nodes ∨
      (s.rename item name).2.nodes =
        s.nodes.map fun m => if m.id = item then { m with name := name } else m := by
  unfold rename
  split
  · exact Or.inl rfl
  · split
    · exact Or.inl rfl
    · exact Or.inr rfl

theorem mem_of_mem_rename {item name : String} {m : Node}
    (h : m ∈ (s.rename item name).2.nodes) :
    m ∈ s.nodes ∨ ∃ n ∈ s.nodes, n.id = item ∧ m = { n with name := name } := by
  rcases nodes_rename s item name with hnodes | hnodes <;> rw [hnodes] at h
  · exact Or.inl h
  · obtain ⟨n, hn, rfl⟩ := List.mem_map.1 h
    split
    · rename_i hid
      exact Or.inr ⟨n, hn, hid, rfl⟩
    · exact Or.inl hn

theorem mem_rename_of_ne {item name : String} {m : Node} (hm : m ∈ s.nodes) (hid : m.id ≠ item) :
    m ∈ (s.rename item name).2.nodes := by
  rcases nodes_rename s item name with hnodes | hnodes <;> rw [hnodes]
  · exact hm
  · exact List.mem_map.2 ⟨m, hm, if_neg hid⟩

@[simp] theorem keepsAll_rename (s : DriveStore) (item name : String) :
    (s.rename item name).2.keepsAll = s.keepsAll := by
  unfold rename
  split
  · rfl
  · split <;> rfl

/-- What is there can be renamed, if nothing else in its folder has the name. -/
theorem Numbered.rename_ok (hs : s.Numbered) {n : Node} (hn : n ∈ s.nodes) {folder name : String}
    (hparent : n.parent = some folder)
    (hfree : ∀ m ∈ s.nodes, m.parent = some folder → m.name = name → m.id = n.id) :
    (s.rename n.id name).1 = .ok () ∧ ∀ m, m ∈ (s.rename n.id name).2.nodes ↔
      m = { n with name := name } ∨ m ∈ s.nodes ∧ m.id ≠ n.id := by
  have hfound : s.node? n.id = some n := (node?_eq_some hs).2 ⟨hn, rfl⟩
  have hchild : ((s.child? folder name).any fun m => m.id ≠ n.id) = false := by
    cases hchild : s.child? folder name with
    | none => rfl
    | some m =>
      obtain ⟨hm, hmparent, hmname⟩ := mem_of_child? hchild
      simp [hfree m hm hmparent hmname]
  have hstep : s.rename n.id name = (.ok (), DriveStore.noting { s with
      nodes := s.nodes.map fun m : Node => if m.id = n.id then { m with name := name } else m }
      (.renamed n.id name)) := by
    unfold DriveStore.rename
    rw [hfound]
    dsimp only
    rw [hparent, Option.getD_some, hchild]
    rfl
  rw [hstep]
  refine ⟨rfl, fun m => ?_⟩
  change m ∈ s.nodes.map _ ↔ _
  rw [List.mem_map]
  constructor
  · rintro ⟨k, hk, rfl⟩
    split
    · rename_i hid
      rw [hs.unique hk hn hid]
      exact Or.inl rfl
    · rename_i hid
      exact Or.inr ⟨hk, hid⟩
  · rintro (rfl | ⟨hm, hid⟩)
    · exact ⟨n, hn, if_pos rfl⟩
    · exact ⟨m, hm, if_neg hid⟩

@[simp] theorem count_rename (s : DriveStore) (item name : String) :
    (s.rename item name).2.count = s.count := by
  unfold rename
  split
  · rfl
  · split <;> rfl

/-! ### Permissions are left alone -/

@[simp] theorem grants_delete (s : DriveStore) (item : String) :
    (s.delete item).2.grants = s.grants := by
  unfold delete
  split
  · rfl
  · split <;> rfl

@[simp] theorem grants_rename (s : DriveStore) (item name : String) :
    (s.rename item name).2.grants = s.grants := by
  unfold rename
  split
  · rfl
  · split <;> rfl

/-! ## What the restore is told -/

/-- A folder that is found is the first node of its name. -/
theorem findFolder_eq_some {parent name : String} {c : Container} :
    s.findFolder parent name = some c ↔
      ∃ n, s.child? parent name = some n ∧ n.content = none ∧ c = ⟨n.id, name, some parent⟩ := by
  constructor
  · intro h
    obtain ⟨n, hn, rfl⟩ := Option.map_eq_some_iff.1 h
    obtain ⟨hchild, hcontent⟩ := Option.filter_eq_some_iff.1 hn
    obtain ⟨-, hparent, hname⟩ := mem_of_child? hchild
    refine ⟨n, hchild, by simpa using hcontent, ?_⟩
    rw [Node.container, hparent, hname]
  · rintro ⟨n, hchild, hcontent, rfl⟩
    obtain ⟨-, hparent, hname⟩ := mem_of_child? hchild
    simp [findFolder, hchild, Option.filter, hcontent, Node.container, hparent, hname]

theorem mem_of_find?_keys {folder name id : String} (h : (s.keys folder).find? name = some id) :
    ∃ n ∈ s.nodes, n.isFileAt folder name ∧ n.id = id := by
  have hmem := Table.mem_of_find?_ofList h
  simp only [nodesIn, List.mem_map, List.mem_filter] at hmem
  obtain ⟨n, ⟨⟨hn, hparent⟩, hcontent⟩, heq⟩ := hmem
  cases heq
  exact ⟨n, hn, ⟨by simpa using hparent, rfl, hcontent⟩, rfl⟩

theorem contains_keys {folder name : String} :
    (s.keys folder).contains name ↔ ∃ n ∈ s.nodes, n.isFileAt folder name := by
  rw [keys, Table.contains_ofList]
  simp only [nodesIn, List.mem_map, List.mem_filter]
  constructor
  · rintro ⟨id, n, ⟨⟨hn, hparent⟩, hcontent⟩, heq⟩
    cases heq
    exact ⟨n, hn, by simpa using hparent, rfl, hcontent⟩
  · rintro ⟨n, hn, hparent, rfl, hcontent⟩
    exact ⟨n.id, n, ⟨⟨hn, by simpa using hparent⟩, hcontent⟩, rfl⟩

/-- A name that is free is taken as it is. -/
theorem freeName_of_free {parent name : String} (h : s.child? parent name = none)
    (limit : Nat) : s.freeName parent name limit 0 = name := by
  cases limit with
  | zero => rfl
  | succ limit => simp [freeName, copyName, h]

end DriveStore

end TenantRestore
