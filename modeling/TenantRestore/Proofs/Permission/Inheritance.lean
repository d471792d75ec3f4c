/-
# What is inherited from the folders above

The folders above a file or folder of a drive are named by how many folders lie between them
and the root: the ancestor 0 is the root, and the last one is the folder the path lies in.  The
search for permissions goes down these numbers, from the last ancestor to the first, and stops
before it comes to the root: `inheritedMetadata_of_drive`.  From this follows at which of them
it stops, and that the root is never looked up: `inheritedMetadata_walk`.
-/
import TenantRestore.Proofs.Hierarchy

namespace TenantRestore

variable {known known' : Table String Metadata} {p : BackupPath} {a : DriveAddress} {j k n : Nat}

namespace BackupPath

/-! ## Ancestors -/

/-- The path of the folder one comes to from the root of a drive by the first `k` folders of a
path; three elements stand for the root itself. -/
def ancestor (p : BackupPath) (k : Nat) : BackupPath :=
  { p with elements := p.elements.take (3 + k) }

theorem ancestor_ancestor (h : j ≤ k) : (p.ancestor k).ancestor j = p.ancestor j := by
  simp only [ancestor, List.take_take]
  rw [Nat.min_eq_left (by omega)]

theorem elements_ancestor (h : p.drive = .ok a) (k : Nat) :
    (p.ancestor k).elements = [drivesElement, a.drive, rootElement] ++ a.folders.take k := by
  change p.elements.take ([drivesElement, a.drive, rootElement].length + k) = _
  rw [elements_of_drive h, List.take_length_add_append]

theorem drive_ancestor (h : p.drive = .ok a) (k : Nat) :
    (p.ancestor k).drive = .ok ⟨a.drive, a.folders.take k⟩ :=
  drive_of_elements (elements_ancestor h k)

/-- Above a path of a drive is its last ancestor, and what is above that. -/
theorem above_eq_ancestor (h : p.drive = .ok a) (hn : a.folders.length = n + 1) :
    p.above = p.ancestor n :: (p.ancestor n).above := by
  have hes := elements_of_drive h
  have hlength : p.elements.length = 3 + n + 1 := by
    rw [hes, List.length_append, hn]
    simp only [List.length_cons, List.length_nil]
    omega
  -- the last element is the only one the ancestor does not have
  obtain ⟨e, he⟩ := List.length_eq_one_iff.1
    (show (p.elements.drop (3 + n)).length = 1 by rw [List.length_drop, hlength]; omega)
  refine above_of_concat (e := e) ?_
  rw [← he, List.take_append_drop]

/-- The text of a folder below the root is longer than that of the root. -/
theorem text_ancestor_ne (h : p.drive = .ok a) (hk : 0 < k) (hka : k < a.folders.length) :
    (p.ancestor k).text ≠ (p.ancestor 0).text := by
  have hlonger (es : List String) (t : String) :
      t.length + es.length ≤ (es.foldl (fun t e => t ++ "/" ++ e) t).length := by
    induction es generalizing t with
    | nil => simp
    | cons e es ih =>
      have hrest := ih (t ++ "/" ++ e)
      have hslash : ("/" : String).length = 1 := rfl
      simp only [String.length_append, List.length_cons, List.foldl_cons] at hrest ⊢
      omega
  intro heq
  have htext : (p.ancestor k).text =
      (a.folders.take k).foldl (fun t e => t ++ "/" ++ e) (p.ancestor 0).text := by
    rw [text, text, elements_ancestor h, elements_ancestor h, List.take_zero, List.append_nil,
      List.foldl_append]
    rfl
  have hlength := hlonger (a.folders.take k) (p.ancestor 0).text
  rw [← htext, heq, List.length_take] at hlength
  omega

end BackupPath

/-! ## The search -/

/-- What is found by a search from the ancestor `k` of a path on, towards the root. -/
def nearestAncestor (known : Table String Metadata) (p : BackupPath) : Nat → Except Fault Metadata
  | 0 => .ok {}
  | k + 1 =>
    match known.find? (p.ancestor (k + 1)).text with
    | none => .error (.missingParentMetadata (p.ancestor (k + 1)).text)
    | some m => if m.sharing = .custom then .ok m else nearestAncestor known p k

theorem nearestAncestor_ancestor (h : k ≤ n) :
    nearestAncestor known (p.ancestor n) k = nearestAncestor known p k := by
  induction k with
  | zero => rfl
  | succ k ih =>
    rw [nearestAncestor, nearestAncestor, BackupPath.ancestor_ancestor h, ih (by omega)]

/-- The search up the directories of a path is the one down the numbers of its ancestors. -/
theorem inheritedMetadata_of_drive (h : p.drive = .ok a) (hn : a.folders.length = n + 1) :
    inheritedMetadata known p = nearestAncestor known p n := by
  have hne : p.elements ≠ [] := by simp [BackupPath.elements_of_drive h]
  rw [inheritedMetadata, if_neg (by simpa using hne)]
  induction n generalizing p a with
  | zero =>
    rw [BackupPath.above_eq_ancestor h hn, nearestCustom, BackupPath.drive_ancestor h]
    rfl
  | succ n ih =>
    have hdrive := BackupPath.drive_ancestor h (n + 1)
    have hlength : (a.folders.take (n + 1)).length = n + 1 := by
      rw [List.length_take]
      omega
    have hbelow : (p.ancestor (n + 1)).isBelowRoot := by
      refine BackupPath.isBelowRoot_iff.2 ⟨_, hdrive, ?_⟩
      cases htake : a.folders.take (n + 1) with
      | nil => simp [htake] at hlength
      | cons _ _ => rfl
    have hdir : (p.ancestor (n + 1)).elements ≠ [] := by
      simp [BackupPath.elements_of_drive hdrive]
    rw [BackupPath.above_eq_ancestor h hn, nearestCustom_of_isBelowRoot hbelow,
      ih hdrive hlength hdir, nearestAncestor_ancestor (Nat.le_succ n)]
    rfl

/-- A folder is known to share the permissions of those above it. -/
def Table.Shares (known : Table String Metadata) (folder : BackupPath) : Prop :=
  ∃ m, known.find? folder.text = some m ∧ m.sharing = .inherited

/-- The search passes over the folders that share the permissions of those above them. -/
theorem nearestAncestor_of_shares (hkn : k ≤ n)
    (h : ∀ j, k < j → j ≤ n → known.Shares (p.ancestor j)) :
    nearestAncestor known p n = nearestAncestor known p k := by
  induction n, hkn using Nat.le_induction with
  | base => rfl
  | succ n hkn ih =>
    obtain ⟨m, hm, hshares⟩ := h (n + 1) (by omega) le_rfl
    rw [nearestAncestor, hm]
    simp only [hshares, reduceCtorEq, ↓reduceIte]
    exact ih fun j hkj hjn => h j hkj (by omega)

/-- The search depends on nothing but the folders below the root. -/
theorem nearestAncestor_congr (h : ∀ j, 0 < j → j ≤ n →
      known'.find? (p.ancestor j).text = known.find? (p.ancestor j).text) :
    nearestAncestor known' p n = nearestAncestor known p n := by
  induction n with
  | zero => rfl
  | succ n ih =>
    rw [nearestAncestor, nearestAncestor, h (n + 1) (by omega) le_rfl,
      ih fun j hj hjn => h j hj (by omega)]

/-- A path that is not below the root of a drive inherits nothing: it has no directory, or its
directory does not belong to a drive. -/
theorem inheritedMetadata_eq_error (h : ∀ a, p.drive = .ok a → a.folders = []) :
    ∃ e, inheritedMetadata known p = .error (.path e) := by
  rw [inheritedMetadata]
  rcases List.eq_nil_or_concat p.elements with hes | ⟨es, e, hes⟩
  · exact ⟨.noParent p.text, by simp [hes]⟩
  · rw [if_neg (by simp [hes]), BackupPath.above_of_concat (by simpa using hes), nearestCustom]
    cases hdrive : BackupPath.drive { p with elements := es } with
    | error e => exact ⟨e, rfl⟩
    | ok b =>
      -- what lies in a directory of a drive would be below the root
      have hbelow : p.drive = .ok ⟨b.drive, b.folders ++ [e]⟩ := by
        have hdir := BackupPath.elements_of_drive hdrive
        refine BackupPath.drive_of_elements ?_
        rw [hes, List.concat_eq_append, show es = _ from hdir, List.append_assoc]
      simpa using h _ hbelow

/-- What a path inherits.  Below the root of a drive the ancestors of the path are asked one
after the other, from the folder it lies in to the first one below the root.  The first one that
does not share the permissions of those above it decides: if it has its own, these are
inherited, and if nothing is known about it, that is the fault.  If there is none, nothing is
inherited, and what is known about the root makes no difference.  Any other path is at fault
itself. -/
theorem inheritedMetadata_walk (known : Table String Metadata) (p : BackupPath) :
    (∀ a, p.drive = .ok a → a.folders ≠ [] →
      (∀ k, (p.ancestor k).drive = .ok ⟨a.drive, a.folders.take k⟩) ∧
      (∀ k, 0 < k → k < a.folders.length →
        (∀ j, k < j → j < a.folders.length → known.Shares (p.ancestor j)) →
        (∀ m, known.find? (p.ancestor k).text = some m → m.sharing = .custom →
          inheritedMetadata known p = .ok m) ∧
        (known.find? (p.ancestor k).text = none →
          inheritedMetadata known p = .error (.missingParentMetadata (p.ancestor k).text))) ∧
      ((∀ j, 0 < j → j < a.folders.length → known.Shares (p.ancestor j)) →
        inheritedMetadata known p = .ok {}) ∧
      ∀ known', (∀ t, t ≠ (p.ancestor 0).text → known'.find? t = known.find? t) →
        inheritedMetadata known' p = inheritedMetadata known p) ∧
    ((∀ a, p.drive = .ok a → a.folders = []) →
      ∃ e, inheritedMetadata known p = .error (.path e)) := by
  refine ⟨fun a hdrive hne => ?_, inheritedMetadata_eq_error⟩
  obtain ⟨n, hn⟩ := Nat.exists_eq_add_one_of_ne_zero (mt List.length_eq_zero_iff.1 hne)
  rw [inheritedMetadata_of_drive hdrive hn, hn]
  refine ⟨BackupPath.drive_ancestor hdrive, fun k hk hkn hshares => ?_, fun hshares => ?_,
    fun known' hknown' => ?_⟩
  · rw [nearestAncestor_of_shares (by omega) fun j hkj hjn => hshares j hkj (by omega)]
    obtain ⟨k, rfl⟩ := Nat.exists_eq_add_one_of_ne_zero hk.ne'
    constructor
    · intro m hm hcustom
      simp only [nearestAncestor, hm, hcustom, ↓reduceIte]
    · intro hnone
      simp only [nearestAncestor, hnone]
  · exact nearestAncestor_of_shares (Nat.zero_le n) fun j hj hjn => hshares j hj (by omega)
  · rw [inheritedMetadata_of_drive hdrive hn]
    exact nearestAncestor_congr fun j hj hjn =>
      hknown' _ (BackupPath.text_ancestor_ne hdrive hj (by omega))

/-- What lies in the root inherits nothing, whatever is known about the root. -/
example :
    inheritedMetadata
      (.ofList [("t/onedrive/u/files/drives/d/root:", { permissions := [{ entityId := "ann" }] })])
      ⟨"t", .onedrive, "u", .files, ["drives", "d", "root:", "x"]⟩ = .ok {} := by
  rfl

end TenantRestore
