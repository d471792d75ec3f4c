/-
# Items side by side

In what ways a list of items grows when others are put to it under a collision policy, and what
has become of it after many of them.  Under the policy to copy all of them come behind the list;
under the policy to skip only the first ones of their keys do, if the keys are not in the list
already (`novelties`); under the policy to replace the last one of every key stays.

`Stocked` says this of any number of items.  It is kept by one more (`Stocked.shelves`), and this
is all a restore has to show.
-/
import Mathlib.Data.List.Nodup
import TenantRestore.Store.Items

namespace TenantRestore

/-- An item as it is to be stored, with its children. -/
structure Shelved where
  /-- The item, without its children. -/
  item : Item
  /-- The children of the item. -/
  children : List Json
deriving DecidableEq

/-- The key of an item that is to be stored. -/
def Shelved.key (e : Shelved) : String := e.item.key

/-- What is stored, but for its id and its place. -/
def StoredItem.shelved (i : StoredItem) : Shelved := ⟨i.item, i.children⟩

/-- The key of a stored item. -/
def StoredItem.key (i : StoredItem) : String := i.item.key

@[simp] theorem StoredItem.key_shelved (i : StoredItem) : i.shelved.key = i.key := rfl

/-- How an item is put to some others, with the fault in which this may end. -/
inductive Shelves (policy : CollisionPolicy) (l : List StoredItem) (e : Shelved) :
    Except Fault Unit → List StoredItem → Prop
  /-- There is an item of the key, which is kept. -/
  | kept (hskip : policy = .skip) (htaken : ∃ i ∈ l, i.key = e.key) :
      Shelves policy l e (.error (.itemAlreadyExists e.key)) l
  /-- The item comes behind the others. -/
  | added (hfree : policy = .copy ∨ ∀ i ∈ l, i.key ≠ e.key) {new : StoredItem}
      (hnew : new.shelved = e) : Shelves policy l e (.ok ()) (l ++ [new])
  /-- The item takes the place of another one. -/
  | replaced (hreplace : policy = .replace) {old new : StoredItem} (hold : old ∈ l)
      (hkey : old.key = e.key) (hnew : new.shelved = e) :
      Shelves policy l e (.ok ()) (l.filter (fun i => i.id ≠ old.id) ++ [new])

/-! ## First and last ones -/

/-- The items whose keys are neither among `seen` nor those of earlier ones. -/
def novelties (seen : List String) : List Shelved → List Shelved
  | [] => []
  | e :: es =>
    if e.key ∈ seen then novelties (seen ++ [e.key]) es
    else e :: novelties (seen ++ [e.key]) es

theorem novelties_concat (seen : List String) (es : List Shelved) (e : Shelved) :
    novelties seen (es ++ [e]) =
      novelties seen es ++ if e.key ∈ seen ++ es.map Shelved.key then [] else [e] := by
  induction es generalizing seen with
  | nil =>
    by_cases h : e.key ∈ seen <;> simp [novelties, h]
  | cons d es ih =>
    have hseen : seen ++ [d.key] ++ es.map Shelved.key = seen ++ (d :: es).map Shelved.key := by
      simp
    rw [List.cons_append, novelties, novelties, ih, hseen]
    split
    · rfl
    · rw [List.cons_append]

/-- No key is lost by leaving out items that are not new. -/
theorem mem_keys_novelties {seen : List String} {es : List Shelved} {key : String} :
    key ∈ seen ++ (novelties seen es).map Shelved.key ↔ key ∈ seen ++ es.map Shelved.key := by
  induction es generalizing seen with
  | nil => rfl
  | cons e es ih =>
    have ih := @ih (seen ++ [e.key])
    rw [novelties]
    split
    · -- a key that is left out has been seen
      rename_i hseen
      simp only [List.mem_append, List.map_cons, List.mem_cons] at ih ⊢
      grind
    · simpa using ih

/-- The last item of a key. -/
def lastOf (key : String) (es : List Shelved) : Option Shelved :=
  (es.filter fun e => e.key = key).getLast?

theorem lastOf_concat (key : String) (es : List Shelved) (e : Shelved) :
    lastOf key (es ++ [e]) = if e.key = key then some e else lastOf key es := by
  by_cases h : e.key = key <;> simp [lastOf, List.filter_append, h]

theorem key_of_lastOf {key : String} {es : List Shelved} {e : Shelved}
    (h : lastOf key es = some e) : e.key = key := by
  have hmem := (List.mem_filter.1 (List.mem_of_getLast? h)).2
  exact of_decide_eq_true hmem

/-! ## Many items -/

/-- No two items have the same key. -/
def DistinctKeys (l : List StoredItem) : Prop := (l.map StoredItem.key).Nodup

/-- How a list of items with distinct keys is changed by others that replace them. -/
structure Superseded (before : List StoredItem) (es : List Shelved) (after : List StoredItem) :
    Prop where
  distinct : DistinctKeys after
  /-- The last one of a key is there, and no other. -/
  stored : ∀ key e, lastOf key es = some e →
    ∃ i ∈ after, i.shelved = e ∧ ∀ j ∈ after, j.key = key → j = i
  /-- Items of other keys are as they were. -/
  others : after.filter (fun i => i.key ∉ es.map Shelved.key) =
    before.filter fun i => i.key ∉ es.map Shelved.key

/-- What has become of a list of items after others have been put to it. -/
structure Stocked (policy : CollisionPolicy) (before : List StoredItem) (es : List Shelved)
    (after : List StoredItem) : Prop where
  copied : policy = .copy → ∃ new, after = before ++ new ∧ new.map StoredItem.shelved = es
  skipped : policy = .skip → ∃ new, after = before ++ new ∧
    new.map StoredItem.shelved = novelties (before.map StoredItem.key) es
  replaced : policy = .replace → DistinctKeys before → Superseded before es after
  idle : es = [] → after = before

theorem DistinctKeys.eq {l : List StoredItem} (h : DistinctKeys l) {i j : StoredItem} (hi : i ∈ l)
    (hj : j ∈ l) (hkey : i.key = j.key) : i = j :=
  List.inj_on_of_nodup_map h hi hj hkey

/-- Where ids and keys are distinct, all items but one are those with another key. -/
theorem DistinctKeys.filter_id_ne {l : List StoredItem} (h : DistinctKeys l)
    (hids : (l.map StoredItem.id).Nodup) {old : StoredItem} (hold : old ∈ l) :
    l.filter (fun i => i.id ≠ old.id) = l.filter fun i => i.key ≠ old.key := by
  refine List.filter_congr fun i hi => ?_
  have hsame : i.id = old.id ↔ i.key = old.key :=
    ⟨fun hid => congrArg _ (List.inj_on_of_nodup_map hids hi hold hid),
      fun hkey => congrArg _ (h.eq hi hold hkey)⟩
  simp only [ne_eq, hsame]

theorem DistinctKeys.filter {l : List StoredItem} (h : DistinctKeys l) (p : StoredItem → Bool) :
    DistinctKeys (l.filter p) :=
  List.Nodup.sublist (List.filter_sublist.map _) h

theorem DistinctKeys.concat {l : List StoredItem} (h : DistinctKeys l) {new : StoredItem}
    (hnew : ∀ i ∈ l, i.key ≠ new.key) : DistinctKeys (l ++ [new]) := by
  unfold DistinctKeys
  rw [List.map_append, List.map_singleton]
  refine List.nodup_append.2 ⟨h, List.nodup_singleton _, ?_⟩
  rintro key hkey _ hlast rfl
  obtain ⟨i, hi, rfl⟩ := List.mem_map.1 hkey
  exact hnew i hi (List.mem_singleton.1 hlast)

namespace Superseded

variable {before l : List StoredItem} {es : List Shelved} {e : Shelved}

theorem refl (h : DistinctKeys before) : Superseded before [] before where
  distinct := h
  stored key e he := by
    cases he
  others := rfl

/-- One more item takes the place of those of its key. -/
theorem concat (h : Superseded before es l) {new : StoredItem} (hnew : new.shelved = e) :
    Superseded before (es ++ [e]) (l.filter (fun i => i.key ≠ e.key) ++ [new]) where
  distinct := by
    refine (h.distinct.filter _).concat fun i hi => ?_
    rw [← StoredItem.key_shelved new, hnew]
    simpa using (List.mem_filter.1 hi).2
  stored key d hd := by
    have hnewKey : new.key = e.key := by rw [← hnew, StoredItem.key_shelved]
    rw [lastOf_concat] at hd
    split at hd
    · -- no other item of the key of the new one is left
      rename_i hkey
      cases hd
      refine ⟨new, by simp, hnew, fun j hj hjkey => ?_⟩
      rcases List.mem_append.1 hj with hj | hj
      · have hother := (List.mem_filter.1 hj).2
        simp only [ne_eq, decide_not, Bool.not_eq_true', decide_eq_false_iff_not] at hother
        exact absurd (hjkey.trans hkey.symm) hother
      · exact List.mem_singleton.1 hj
    · -- items of other keys are not touched
      rename_i hkey
      obtain ⟨i, hi, hshelved, hunique⟩ := h.stored key d hd
      have hikey : i.key ≠ e.key := by
        rw [← StoredItem.key_shelved, hshelved, key_of_lastOf hd]
        exact Ne.symm hkey
      refine ⟨i, List.mem_append_left _ (List.mem_filter.2 ⟨hi, by simpa using hikey⟩), hshelved,
        fun j hj hjkey => ?_⟩
      rcases List.mem_append.1 hj with hj | hj
      · exact hunique j (List.mem_filter.1 hj).1 hjkey
      · rw [List.mem_singleton.1 hj, hnewKey] at hjkey
        exact absurd hjkey hkey
  others := by
    have hnewKey : new.key = e.key := by rw [← hnew, StoredItem.key_shelved]
    have hsplit (l : List StoredItem) :
        l.filter (fun i => i.key ∉ (es ++ [e]).map Shelved.key) =
          (l.filter fun i => i.key ∉ es.map Shelved.key).filter fun i => i.key ≠ e.key := by
      rw [List.filter_filter]
      refine List.filter_congr fun i _ => ?_
      simp [Bool.and_comm]
    -- the items that are gone have the key of the new one, and so are left out on both sides
    have hothers : (l.filter fun i => i.key ≠ e.key).filter
        (fun i => i.key ∉ (es ++ [e]).map Shelved.key) =
        l.filter fun i => i.key ∉ (es ++ [e]).map Shelved.key := by
      rw [List.filter_filter]
      refine List.filter_congr fun i _ => ?_
      simp
    have hgone : [new].filter (fun i => i.key ∉ (es ++ [e]).map Shelved.key) = [] := by
      simp [hnewKey]
    rw [List.filter_append, hothers, hgone, List.append_nil, hsplit, h.others, ← hsplit]

end Superseded

namespace Stocked

variable {policy : CollisionPolicy} {before l l' : List StoredItem} {es : List Shelved}
  {e : Shelved} {r : Except Fault Unit}

theorem refl (policy : CollisionPolicy) (before : List StoredItem) :
    Stocked policy before [] before where
  copied _ := ⟨[], by simp⟩
  skipped _ := ⟨[], by simp [novelties]⟩
  replaced _ h := .refl h
  idle _ := rfl

/-- The keys under the policy to skip are those from before and those of all items since. -/
theorem exists_key_iff (h : Stocked .skip before es l) (key : String) :
    (∃ i ∈ l, i.key = key) ↔ key ∈ before.map StoredItem.key ++ es.map Shelved.key := by
  obtain ⟨new, rfl, hnew⟩ := h.skipped rfl
  have hkeys : new.map StoredItem.key =
      (novelties (before.map StoredItem.key) es).map Shelved.key := by
    rw [← hnew, List.map_map]
    rfl
  rw [← mem_keys_novelties, ← hkeys, ← List.map_append, List.mem_map]

/-- All of this is kept when one more item is put to the others. -/
theorem shelves (h : Stocked policy before es l) (hids : (l.map StoredItem.id).Nodup)
    (hshelves : Shelves policy l e r l') : Stocked policy before (es ++ [e]) l' where
  copied := by
    rintro rfl
    obtain ⟨earlier, rfl, hearlier⟩ := h.copied rfl
    cases hshelves with
    | kept hskip _ => cases hskip
    | replaced hreplace _ _ _ => cases hreplace
    | @added _ new hnew =>
      exact ⟨earlier ++ [new], by rw [List.append_assoc], by simp [hearlier, hnew]⟩
  skipped := by
    rintro rfl
    have hkeys := h.exists_key_iff e.key
    obtain ⟨earlier, rfl, hearlier⟩ := h.skipped rfl
    rw [novelties_concat]
    cases hshelves with
    | kept _ htaken =>
      rw [if_pos (hkeys.1 htaken), List.append_nil]
      exact ⟨earlier, rfl, hearlier⟩
    | replaced hreplace _ _ _ => cases hreplace
    | @added hfree new hnew =>
      have hnone : ¬ ∃ i ∈ before ++ earlier, i.key = e.key := by
        rintro ⟨i, hi, hkey⟩
        rcases hfree with hcopy | hfree
        · cases hcopy
        · exact hfree i hi hkey
      rw [if_neg (hnone ∘ hkeys.2)]
      exact ⟨earlier ++ [new], by rw [List.append_assoc], by simp [hearlier, hnew]⟩
  replaced := by
    rintro rfl hdistinct
    have hbefore := h.replaced rfl hdistinct
    cases hshelves with
    | kept hskip _ => cases hskip
    | @added hfree new hnew =>
      -- no item has the key, so that none is gone
      have hall : l.filter (fun i => i.key ≠ e.key) = l := by
        refine List.filter_eq_self.2 fun i hi => ?_
        rcases hfree with hcopy | hfree
        · cases hcopy
        · simpa using hfree i hi
      have hafter := hbefore.concat hnew
      rwa [hall] at hafter
    | @replaced _ old new hold hkey hnew =>
      rw [hbefore.distinct.filter_id_ne hids hold, hkey]
      exact hbefore.concat hnew
  idle hes := absurd hes (by simp)

end Stocked

end TenantRestore
