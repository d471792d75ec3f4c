/-
# Settling an item, deed by deed

An item that is settled under a collision policy is kept out, refused, added, or takes the place
of another one, which may fail to be deleted.  What is done to items meanwhile is noted down as
a list of deeds, from which one reads off which items are live and which ones a key has had.

Settling an item makes at most two deeds, the creation of the item and the deletion of the one
that had its key, in this order: `Candidate.settle_does`.
-/
import Mathlib.Data.Finset.Erase
import Mathlib.Data.Finset.Insert
import Mathlib.Data.List.Induction
import Mathlib.Tactic.Common
import TenantRestore.Collision.Policy

namespace TenantRestore

variable {σ : Type}

/-! ## The ways in which an item is settled -/

section Settle

variable {policy : CollisionPolicy} {key : String} {ks : Keys}
  {create : StateM σ (Except Failure String)} {delete : String → StateM σ (Except Failure Unit)}
  {s t u : σ} {new old : String} {f : Failure}

theorem settle_kept (h : ks.contains key ∧ policy = .skip) :
    policy.settle key ks create delete s = ((.error (.itemAlreadyExists key), ks), s) := by
  rw [CollisionPolicy.settle, if_pos h]
  rfl

theorem settle_refused (h : ¬ (ks.contains key ∧ policy = .skip))
    (hcreate : create s = (.error f, t)) :
    policy.settle key ks create delete s = ((.error (.remote f), ks), t) := by
  rw [CollisionPolicy.settle, if_neg h]
  simp only [bind, StateT.bind, hcreate]
  rfl

theorem settle_added (h : ¬ (ks.contains key ∧ policy = .skip))
    (hcreate : create s = (.ok new, t)) (hfree : policy = .replace → ks.find? key = none) :
    policy.settle key ks create delete s = ((.ok new, ks.insert key new), t) := by
  rw [CollisionPolicy.settle, if_neg h]
  simp only [bind, StateT.bind, hcreate]
  cases policy with
  | skip | copy => rfl
  | replace =>
    rw [hfree rfl]
    rfl

theorem settle_replaced (hreplace : policy = .replace) (hold : ks.find? key = some old)
    (hcreate : create s = (.ok new, t)) (hdelete : delete old t = (.ok (), u)) :
    policy.settle key ks create delete s = ((.ok new, ks.insert key new), u) := by
  rw [CollisionPolicy.settle, if_neg (by simp [hreplace]), hold, hreplace]
  simp only [bind, StateT.bind, hcreate, hdelete]
  rfl

theorem settle_stays (hreplace : policy = .replace) (hold : ks.find? key = some old)
    (hcreate : create s = (.ok new, t)) (hdelete : delete old t = (.error f, u)) :
    policy.settle key ks create delete s =
      ((.error (.deletingReplacedItemFailed new old f), ks.insert key new), u) := by
  rw [CollisionPolicy.settle, if_neg (by simp [hreplace]), hold, hreplace]
  simp only [bind, StateT.bind, hcreate, hdelete]
  rfl

end Settle

/-! ## Deeds -/

/-- What is done to an item, given by its key and its id. -/
inductive Deed
  /-- It is created. -/
  | created (key id : String)
  /-- It is deleted. -/
  | deleted (key id : String)
  /-- It should be deleted, but stays. -/
  | stayed (key id : String)
deriving DecidableEq

/-- The key and id of an item that is created. -/
def Deed.created? : Deed → Option (String × String)
  | .created key id => some (key, id)
  | .deleted _ _ => none
  | .stayed _ _ => none

/-- The items that are live after a deed. -/
def Deed.liveAfter (live : Finset String) : Deed → Finset String
  | .created _ id => insert id live
  | .deleted _ id => live.erase id
  | .stayed _ _ => live

/-- The items that are live after some deeds. -/
def liveAfter (live : Finset String) (deeds : List Deed) : Finset String :=
  deeds.foldl Deed.liveAfter live

/-- The items that have been created, with their keys. -/
def createdItems (deeds : List Deed) : List (String × String) :=
  deeds.filterMap Deed.created?

/-- The items a key has had: the one it had at first, and those created for it. -/
def itemsOf (held : Keys) (deeds : List Deed) (key : String) : List String :=
  (held.find? key).toList ++ ((createdItems deeds).filter fun c => c.1 = key).map Prod.snd

variable {held keys : Keys} {live : Finset String} {deeds deeds' : List Deed}
  {key key' id new old : String}

@[simp] theorem liveAfter_append :
    liveAfter live (deeds ++ deeds') = liveAfter (liveAfter live deeds) deeds' :=
  List.foldl_append

@[simp] theorem createdItems_append :
    createdItems (deeds ++ deeds') = createdItems deeds ++ createdItems deeds' :=
  List.filterMap_append

theorem itemsOf_append : itemsOf held (deeds ++ deeds') key =
    itemsOf held deeds key ++ ((createdItems deeds').filter fun c => c.1 = key).map Prod.snd := by
  simp [itemsOf, List.append_assoc]

theorem itemsOf_created : itemsOf held (deeds ++ [.created key new]) key' =
    if key = key' then itemsOf held deeds key' ++ [new] else itemsOf held deeds key' := by
  rw [itemsOf_append]
  by_cases h : key = key' <;> simp [createdItems, Deed.created?, h]

theorem itemsOf_deleted :
    itemsOf held (deeds ++ [.deleted key old]) key' = itemsOf held deeds key' := by
  rw [itemsOf_append]
  exact List.append_nil _

theorem mem_itemsOf :
    id ∈ itemsOf held deeds key ↔ held.find? key = some id ∨ (key, id) ∈ createdItems deeds := by
  simp [itemsOf]

/-- A live item was live at first, or has been created. -/
theorem mem_of_mem_liveAfter (h : id ∈ liveAfter live deeds) :
    id ∈ live ∨ id ∈ (createdItems deeds).map Prod.snd := by
  induction deeds using List.reverseRecOn with
  | nil => exact Or.inl h
  | append_singleton deeds d ih =>
    rw [liveAfter_append] at h
    rw [createdItems_append, List.map_append, List.mem_append]
    cases d with
    | created key new =>
      rcases Finset.mem_insert.1 h with rfl | h
      · exact Or.inr (Or.inr (List.mem_singleton_self _))
      · exact (ih h).imp_right Or.inl
    | deleted key old => exact (ih (Finset.mem_of_mem_erase h)).imp_right Or.inl
    | stayed key old => exact (ih h).imp_right Or.inl

/-! ## Steps -/

/-- An item that is to be settled at a destination. -/
structure Candidate (σ : Type) where
  /-- What to do if there is an item of its key. -/
  policy : CollisionPolicy
  /-- The key of the item. -/
  key : String
  /-- Create the item. -/
  create : StateM σ (Except Failure String)
  /-- Delete an item. -/
  delete : String → StateM σ (Except Failure Unit)

/-- A destination, with the keys that are known of it and what has been done there. -/
structure Holding (σ : Type) where
  /-- The keys of the items. -/
  keys : Keys
  /-- The destination. -/
  place : σ
  /-- What has been done, in order. -/
  deeds : List Deed := []

namespace Candidate

/-- Create the item and note it down. -/
def createNoting (c : Candidate σ) : StateM (σ × List Deed) (Except Failure String) := fun s =>
  match c.create s.1 with
  | (.ok id, t) => (.ok id, (t, s.2 ++ [.created c.key id]))
  | (.error f, t) => (.error f, (t, s.2))

/-- Delete an item and note down whether it stays. -/
def deleteNoting (c : Candidate σ) (id : String) :
    StateM (σ × List Deed) (Except Failure Unit) := fun s =>
  match c.delete id s.1 with
  | (.ok (), t) => (.ok (), (t, s.2 ++ [.deleted c.key id]))
  | (.error f, t) => (.error f, (t, s.2 ++ [.stayed c.key id]))

/-- Settle the item under its policy, noting down what is done. -/
def settle (c : Candidate σ) (h : Holding σ) : Except Fault String × Holding σ :=
  let (r, s) := c.policy.settle c.key h.keys c.createNoting c.deleteNoting (h.place, h.deeds)
  (r.1, ⟨r.2, s.1, s.2⟩)

/-- Creating and deleting change the items that can be seen at a destination as they should. -/
structure ShowsOn (c : Candidate σ) (seen : σ → Finset String) : Prop where
  created : ∀ s t id, c.create s = (.ok id, t) → seen t = insert id (seen s)
  refused : ∀ s t f, c.create s = (.error f, t) → seen t = seen s
  deleted : ∀ s t id, c.delete id s = (.ok (), t) → seen t = (seen s).erase id
  stayed : ∀ s t id f, c.delete id s = (.error f, t) → seen t = seen s

/-- How an item is settled, with the result, the keys afterwards and what is done. -/
inductive Does (c : Candidate σ) (keys : Keys) : Except Fault String → Keys → List Deed → Prop
  /-- There is an item of its key, and it is kept. -/
  | kept (hkey : keys.contains c.key) : c.Does keys (.error (.itemAlreadyExists c.key)) keys []
  /-- It can't be created. -/
  | refused (f : Failure) : c.Does keys (.error (.remote f)) keys []
  /-- It is created, as a copy or as the first one of its key. -/
  | added (new : String) (hfree : c.policy = .copy ∨ keys.find? c.key = none) :
      c.Does keys (.ok new) (keys.insert c.key new) [.created c.key new]
  /-- It is created, and the one it replaces is deleted. -/
  | replaced (new old : String) (hold : keys.find? c.key = some old) :
      c.Does keys (.ok new) (keys.insert c.key new) [.created c.key new, .deleted c.key old]
  /-- It is created, and the one it replaces stays. -/
  | stays (new old : String) (f : Failure) (hold : keys.find? c.key = some old) :
      c.Does keys (.error (.deletingReplacedItemFailed new old f)) (keys.insert c.key new)
        [.created c.key new, .stayed c.key old]

section Noting

variable {c : Candidate σ} {s t : σ} {f : Failure}

theorem createNoting_ok (h : c.create s = (.ok new, t)) :
    c.createNoting (s, deeds) = (.ok new, (t, deeds ++ [.created c.key new])) := by
  rw [createNoting, h]

theorem createNoting_error (h : c.create s = (.error f, t)) :
    c.createNoting (s, deeds) = (.error f, (t, deeds)) := by
  rw [createNoting, h]

theorem deleteNoting_ok (h : c.delete old s = (.ok (), t)) :
    c.deleteNoting old (s, deeds) = (.ok (), (t, deeds ++ [.deleted c.key old])) := by
  rw [deleteNoting, h]

theorem deleteNoting_error (h : c.delete old s = (.error f, t)) :
    c.deleteNoting old (s, deeds) = (.error f, (t, deeds ++ [.stayed c.key old])) := by
  rw [deleteNoting, h]

end Noting

/-- Where nothing is replaced, the policy is to copy or the key is free. -/
theorem copy_or_free {c : Candidate σ} (hnew : ¬ (keys.contains c.key ∧ c.policy = .skip))
    (hfree : c.policy = .replace → keys.find? c.key = none) :
    c.policy = .copy ∨ keys.find? c.key = none := by
  cases hpolicy : c.policy with
  | copy => exact Or.inl rfl
  | replace => exact Or.inr (hfree hpolicy)
  | skip =>
    have hnone : ¬ keys.contains c.key := fun hkey => hnew ⟨hkey, hpolicy⟩
    exact Or.inr (by simpa [Table.contains] using hnone)

/-- An item is settled in one of these ways, as it is without noting anything down, and what is
noted down is what can be seen. -/
theorem settle_does (c : Candidate σ) (h : Holding σ) :
    ∃ r keys place made,
      c.settle h = (r, ⟨keys, place, h.deeds ++ made⟩) ∧
      c.policy.settle c.key h.keys c.create c.delete h.place = ((r, keys), place) ∧
      (∀ seen : σ → Finset String, c.ShowsOn seen → seen place = liveAfter (seen h.place) made) ∧
      c.Does h.keys r keys made := by
  by_cases hskip : h.keys.contains c.key ∧ c.policy = .skip
  · refine ⟨_, _, h.place, [], ?_, settle_kept hskip, fun _ _ => rfl, .kept hskip.1⟩
    rw [settle, settle_kept hskip, List.append_nil]
  rcases hcreate : c.create h.place with ⟨f | new, t⟩
  · refine ⟨_, _, t, [], ?_, settle_refused hskip hcreate,
      fun seen hseen => hseen.refused _ _ _ hcreate, .refused f⟩
    rw [settle, settle_refused hskip (createNoting_error hcreate), List.append_nil]
  by_cases hfree : c.policy = .replace → h.keys.find? c.key = none
  · refine ⟨_, _, t, [.created c.key new], ?_, settle_added hskip hcreate hfree,
      fun seen hseen => hseen.created _ _ _ hcreate, .added new (copy_or_free hskip hfree)⟩
    rw [settle, settle_added hskip (createNoting_ok hcreate) hfree]
  obtain ⟨hreplace, hsome⟩ := Classical.not_imp.1 hfree
  obtain ⟨old, hold⟩ := Option.ne_none_iff_exists'.1 hsome
  rcases hdelete : c.delete old t with ⟨f | ⟨⟩, u⟩
  · refine ⟨_, _, u, [.created c.key new, .stayed c.key old], ?_,
      settle_stays hreplace hold hcreate hdelete, fun seen hseen => ?_, .stays new old f hold⟩
    · rw [settle, settle_stays hreplace hold (createNoting_ok hcreate)
        (deleteNoting_error hdelete), List.append_assoc]
      rfl
    · rw [hseen.stayed _ _ _ _ hdelete, hseen.created _ _ _ hcreate]
      rfl
  · refine ⟨_, _, u, [.created c.key new, .deleted c.key old], ?_,
      settle_replaced hreplace hold hcreate hdelete, fun seen hseen => ?_, .replaced new old hold⟩
    · rw [settle, settle_replaced hreplace hold (createNoting_ok hcreate)
        (deleteNoting_ok hdelete), List.append_assoc]
      rfl
    · rw [hseen.deleted _ _ _ hdelete, hseen.created _ _ _ hcreate]
      rfl

namespace Does

variable {c : Candidate σ} {r : Except Fault String} {keys' : Keys} {made : List Deed}

theorem contains (h : c.Does keys r keys' made) (key : String) (hkey : keys.contains key) :
    keys'.contains key := by
  cases h with
  | kept | refused => exact hkey
  | added | replaced | stays =>
    rw [Table.contains_insert, hkey, Bool.or_true]

theorem deletes (h : c.Does keys r keys' made) (key id : String)
    (hmade : .deleted key id ∈ made ∨ .stayed key id ∈ made) :
    key = c.key ∧ keys.find? c.key = some id := by
  cases h with
  | kept | refused | added => simp at hmade
  | replaced new old hold | stays new old f hold =>
    obtain ⟨rfl, rfl⟩ : key = c.key ∧ id = old := by simpa using hmade
    exact ⟨rfl, hold⟩

/-- The result tells which item has been created. -/
theorem created_iff (h : c.Does keys r keys' made) (id : String) :
    .created c.key id ∈ made ↔ r = .ok id ∨ ∃ f, r = .error f ∧ f.createdItem? = some id := by
  cases h <;> simp [Fault.createdItem?, eq_comm]

theorem unchanged (h : c.Does keys r keys' made) {f : Fault} (hr : r = .error f)
    (hnone : f.createdItem? = none) : keys' = keys ∧ made = [] := by
  cases h with
  | kept | refused => exact ⟨rfl, rfl⟩
  | added | replaced => cases hr
  | stays =>
    cases hr
    cases hnone

end Does

end Candidate

end TenantRestore
