/-
# Attempts to find destinations

A destination is a folder of a drive, told by the names from the root of the drive, or a container
of an owner.  An attempt is made to find out the id of a destination: it consists of one or two
calls, and may fail.  The id of a destination is what the attempts so far have found (`idOf`).

The calls do not tell by themselves which destination they are for, since nothing keeps two folders
from having the same id.  So an attempt names its destination, and attempts are orderly if they do
so rightly: the calls of each are made in the folder whose id has been found for the names but the
last, and nothing has been found for its destination before (`Orderly`).  Then each destination is
found once at most, and no folder is found before those around it.
-/
import Mathlib.Data.List.Induction
import Mathlib.Data.List.Nodup
import TenantRestore.Remote.Call

namespace TenantRestore

/-- Where files and items are put. -/
inductive Destination
  /-- The folder with some names from the root of a drive. -/
  | folder (drive : String) (names : List String)
  /-- A container for items of a kind. -/
  | container (kind : ItemKind) (owner name : String)
deriving DecidableEq

/-- An attempt to find out the id of a destination. -/
structure Attempt where
  /-- The destination. -/
  destination : Destination
  /-- The calls that are made for it, with what came back. -/
  exchanges : List Exchange
  /-- The id, if one is found. -/
  id? : Option String

/-- The id that some attempts have found for a destination. -/
def idOf (as : List Attempt) (p : Destination) : Option String :=
  as.findSome? fun a => if a.destination = p then a.id? else none

/-- The calls of an attempt are those for its destination, in the folder whose id is known for the
names but the last, and its id is the one that came back. -/
inductive Attempt.Proper (known : Destination → Option String) : Attempt → Prop
  /-- The root folder of a drive is asked for. -/
  | root (drive : String) (r : Except Failure Container) :
      Proper known ⟨.folder drive [], [⟨.drive (.rootFolder drive), r⟩], r.toOption.map (·.id)⟩
  /-- A folder is found. -/
  | found {drive parent name : String} {names : List String}
      (hparent : known (.folder drive names) = some parent) (folder : Container) :
      Proper known ⟨.folder drive (names ++ [name]),
        [⟨.drive (.findFolder drive parent name), .ok (some folder)⟩], some folder.id⟩
  /-- Looking for a folder fails. -/
  | lost {drive parent name : String} {names : List String}
      (hparent : known (.folder drive names) = some parent) (f : Failure) :
      Proper known ⟨.folder drive (names ++ [name]),
        [⟨.drive (.findFolder drive parent name), .error f⟩], none⟩
  /-- A folder that is missing is to be created. -/
  | created {drive parent name : String} {names : List String}
      (hparent : known (.folder drive names) = some parent) (r : Except Failure Container) :
      Proper known ⟨.folder drive (names ++ [name]),
        [⟨.drive (.findFolder drive parent name), .ok none⟩,
          ⟨.drive (.createFolder drive parent name), r⟩], r.toOption.map (·.id)⟩
  /-- A container is asked for. -/
  | container (kind : ItemKind) (owner name : String) (r : Except Failure Container) :
      Proper known ⟨.container kind owner name,
        [⟨.items kind (.container owner name), r⟩], r.toOption.map (·.id)⟩

/-- Every attempt is made for a destination that has not been found yet, with the calls for it. -/
def Orderly (as : List Attempt) : Prop :=
  ∀ before a after, as = before ++ a :: after →
    idOf before a.destination = none ∧ a.Proper (idOf before)

/-- Those destinations that some attempts have not found. -/
def unfound (as : List Attempt) (ps : List Destination) : List Destination :=
  ps.filter fun p => (idOf as p).isNone

/-- How destinations are attempted one after the other: the first failure is the end. -/
inductive InTurn : List Destination → List Attempt → Prop
  /-- None is left. -/
  | nil : InTurn [] []
  /-- The first one is found. -/
  | found {ps : List Destination} {a : Attempt} {as : List Attempt} (h : a.id?.isSome)
      (hrest : InTurn ps as) : InTurn (a.destination :: ps) (a :: as)
  /-- The first one is not found. -/
  | failed {ps : List Destination} {a : Attempt} (h : a.id? = none) :
    InTurn (a.destination :: ps) [a]

/-! ## The way to a destination -/

/-- The folders on the way down from a folder by some names. -/
def foldersBelow (drive : String) (place : List String) : List String → List Destination
  | [] => []
  | name :: names =>
    .folder drive (place ++ [name]) :: foldersBelow drive (place ++ [name]) names

/-- What has to be found for a destination: for a folder all those from the root. -/
def Destination.way : Destination → List Destination
  | .folder drive names => .folder drive [] :: foldersBelow drive [] names
  | .container kind owner name => [.container kind owner name]

theorem mem_foldersBelow {drive : String} {place names : List String} {p : Destination} :
    p ∈ foldersBelow drive place names ↔
      ∃ below, below ≠ [] ∧ below <+: names ∧ p = .folder drive (place ++ below) := by
  induction names generalizing place with
  | nil => simp [foldersBelow]
  | cons name names ih =>
    rw [foldersBelow, List.mem_cons, ih]
    constructor
    · rintro (rfl | ⟨below, -, hbelow, rfl⟩)
      · exact ⟨[name], by simp, by simp, rfl⟩
      · exact ⟨name :: below, by simp, (List.prefix_cons_inj name).2 hbelow, by simp⟩
    · rintro ⟨_ | ⟨first, below⟩, hne, hbelow, rfl⟩
      · exact absurd rfl hne
      obtain ⟨rfl, hrest⟩ := List.cons_prefix_cons.1 hbelow
      by_cases hnil : below = []
      · exact Or.inl (by rw [hnil])
      · exact Or.inr ⟨below, hnil, hrest, by simp⟩

/-- A folder is not below itself. -/
theorem not_mem_foldersBelow (drive : String) (place names : List String) :
    .folder drive place ∉ foldersBelow drive place names := by
  intro h
  obtain ⟨below, hne, -, heq⟩ := mem_foldersBelow.1 h
  exact hne (List.self_eq_append_right.1 (Destination.folder.inj heq).2)

/-- On the way to a folder are those told by the beginnings of its names. -/
theorem mem_way_folder {drive : String} {names : List String} {p : Destination} :
    p ∈ (Destination.folder drive names).way ↔
      ∃ beginning, beginning <+: names ∧ p = .folder drive beginning := by
  rw [Destination.way, List.mem_cons, mem_foldersBelow]
  constructor
  · rintro (rfl | ⟨below, -, hbelow, rfl⟩)
    · exact ⟨[], List.nil_prefix, rfl⟩
    · exact ⟨below, hbelow, rfl⟩
  · rintro ⟨beginning, hbeginning, rfl⟩
    by_cases hnil : beginning = []
    · exact Or.inl (by rw [hnil])
    · exact Or.inr ⟨beginning, hnil, hbeginning, rfl⟩

example : (Destination.folder "drive" ["a", "b"]).way =
    [.folder "drive" [], .folder "drive" ["a"], .folder "drive" ["a", "b"]] := rfl

/-! ## What attempts have found -/

section IdOf

variable {as bs : List Attempt} {a : Attempt} {p : Destination} {id : String}

theorem idOf_append (as bs : List Attempt) (p : Destination) :
    idOf (as ++ bs) p = (idOf as p).or (idOf bs p) :=
  List.findSome?_append

theorem idOf_concat (as : List Attempt) (a : Attempt) (p : Destination) :
    idOf (as ++ [a]) p = (idOf as p).or (if a.destination = p then a.id? else none) := by
  rw [idOf_append]
  congr 1
  exact List.findSome?_singleton

/-- What has been found stays. -/
theorem idOf_append_of_some (h : idOf as p = some id) (bs : List Attempt) :
    idOf (as ++ bs) p = some id := by
  rw [idOf_append, h, Option.some_or]

/-- An attempt does not concern other destinations. -/
theorem idOf_concat_of_ne (h : a.destination ≠ p) : idOf (as ++ [a]) p = idOf as p := by
  rw [idOf_concat, if_neg h, Option.or_none]

theorem idOf_concat_self (h : idOf as a.destination = none) :
    idOf (as ++ [a]) a.destination = a.id? := by
  rw [idOf_concat, h, if_pos rfl, Option.none_or]

theorem exists_of_idOf (h : idOf as p = some id) :
    ∃ before a after, as = before ++ a :: after ∧ a.destination = p ∧ a.id? = some id := by
  obtain ⟨before, a, after, heq, ha, -⟩ := List.findSome?_eq_some_iff.1 h
  by_cases hp : a.destination = p
  · rw [if_pos hp] at ha
    exact ⟨before, a, after, heq, hp, ha⟩
  · rw [if_neg hp] at ha
    cases ha

theorem unfound_cons_of_some {ps : List Destination} (h : idOf as p = some id) :
    unfound as (p :: ps) = unfound as ps :=
  List.filter_cons_of_neg (by simp [h])

theorem unfound_cons_of_none {ps : List Destination} (h : idOf as p = none) :
    unfound as (p :: ps) = p :: unfound as ps :=
  List.filter_cons_of_pos (by simp [h])

theorem unfound_concat {ps : List Destination} (h : a.destination ∉ ps) :
    unfound (as ++ [a]) ps = unfound as ps := by
  refine List.filter_congr fun p hp => ?_
  rw [idOf_concat_of_ne]
  rintro rfl
  exact h hp

end IdOf

namespace Orderly

variable {as : List Attempt} {a : Attempt}

theorem nil : Orderly [] := by
  intro before a after h
  cases before <;> cases h

theorem concat (h : Orderly as) (hnew : idOf as a.destination = none) (ha : a.Proper (idOf as)) :
    Orderly (as ++ [a]) := by
  intro before b after heq
  -- the attempt in question is the last one, or one of those before
  rcases List.eq_nil_or_concat after with rfl | ⟨after, c, rfl⟩
  · obtain ⟨rfl, hab⟩ := List.append_inj' heq rfl
    cases hab
    exact ⟨hnew, ha⟩
  · rw [List.concat_eq_append, ← List.cons_append, ← List.append_assoc] at heq
    exact h before b after (List.append_inj' heq rfl).1

theorem of_append {bs : List Attempt} (h : Orderly (as ++ bs)) : Orderly as :=
  fun before a after heq => h before a (after ++ bs) (by rw [heq, List.append_assoc]; rfl)

/-- Nothing is found twice. -/
theorem nodup (h : Orderly as) : ((as.filter (·.id?.isSome)).map Attempt.destination).Nodup := by
  induction as using List.reverseRecOn with
  | nil => exact List.nodup_nil
  | append_singleton as a ih =>
    rw [List.filter_append, List.map_append]
    refine List.nodup_append.2 ⟨ih h.of_append, ?_, ?_⟩
    · exact List.Nodup.sublist (List.filter_sublist.map _) (List.nodup_singleton _)
    · -- the last attempt is made for a destination that none before has found
      rintro p hp _ hlast rfl
      obtain ⟨b, hb, rfl⟩ := List.mem_map.1 hp
      obtain ⟨c, hc, hdestination⟩ := List.mem_map.1 hlast
      have hca : c = a := List.mem_singleton.1 (List.mem_filter.1 hc).1
      subst hca
      have hnone := (h as c [] rfl).1
      obtain ⟨hb, hsome⟩ := List.mem_filter.1 hb
      have hskip := List.findSome?_eq_none_iff.1 hnone b hb
      rw [if_pos hdestination.symm] at hskip
      rw [hskip] at hsome
      cases hsome

/-- A folder is not found before the one around it. -/
theorem parent (h : Orderly as) {drive name : String} {names : List String}
    (hsome : (idOf as (.folder drive (names ++ [name]))).isSome) :
    (idOf as (.folder drive names)).isSome := by
  obtain ⟨id, hid⟩ := Option.isSome_iff_exists.1 hsome
  obtain ⟨before, a, after, rfl, hdestination, hfound⟩ := exists_of_idOf hid
  -- when the folder was found, the id of the one around it was known
  have hparent {parent : String} (hparent : idOf before (.folder drive names) = some parent) :
      (idOf (before ++ a :: after) (.folder drive names)).isSome :=
    Option.isSome_of_eq_some (idOf_append_of_some hparent _)
  cases (h before a after rfl).2 with
  | root _ _ =>
    have hnames := (Destination.folder.inj hdestination).2
    exact absurd hnames.symm (by simp)
  | found hknown _ | created hknown _ =>
    obtain ⟨rfl, hnames⟩ := Destination.folder.inj hdestination
    obtain ⟨rfl, -⟩ := List.append_inj' hnames rfl
    exact hparent hknown
  | lost _ _ => cases hfound
  | container _ _ _ _ => cases hdestination

/-- If a folder has been found, so have all those around it. -/
theorem above (h : Orderly as) {drive : String} {names more : List String}
    (hsome : (idOf as (.folder drive (names ++ more))).isSome) :
    (idOf as (.folder drive names)).isSome := by
  induction more using List.reverseRecOn with
  | nil => rwa [List.append_nil] at hsome
  | append_singleton more name ih =>
    rw [← List.append_assoc] at hsome
    exact ih (h.parent hsome)

/-- If a destination has been found, nothing is left to be found on the way to it. -/
theorem unfound_way (h : Orderly as) {p : Destination} (hp : (idOf as p).isSome) :
    unfound as p.way = [] := by
  refine List.filter_eq_nil_iff.2 fun q hq => ?_
  suffices hsome : (idOf as q).isSome by simpa [Option.isSome_iff_ne_none] using hsome
  cases p with
  | container kind owner name => rwa [List.mem_singleton.1 hq]
  | folder drive names =>
    obtain ⟨beginning, ⟨more, rfl⟩, rfl⟩ := mem_way_folder.1 hq
    exact h.above hp

end Orderly

end TenantRestore
