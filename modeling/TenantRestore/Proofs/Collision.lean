/-
# Keys and live items

At a destination items are settled one after the other, each under a key and a policy of its
own, and any of them may fail to be created, or to take the place of the one before it.

The keys of the destination are never at a loss: they lead to live items, to the last one of
each key, and no item is deleted before the one that takes its place is there.  This is
`Candidate.keys_follow`.  It rests on `Tended`, which every step keeps up because the id of a
new item has never been used before; where no copies are made and nothing stays that should be
deleted, on `Single` as well.
-/
import TenantRestore.Proofs.Collision.Steps

namespace TenantRestore

variable {σ : Type} {held keys : Keys} {live : Finset String} {deeds deeds' : List Deed}
  {key key' id new old : String}

/-! ## New ids, keys and live items -/

/-- No created item has got an id that was in use before. -/
structure Fresh (live : Finset String) (deeds : List Deed) : Prop where
  distinct : ((createdItems deeds).map Prod.snd).Nodup
  unused : ∀ c ∈ createdItems deeds, c.2 ∉ live

/-- All keys lead to live items, and different ones to different items. -/
structure Sound (live : Finset String) (keys : Keys) : Prop where
  live : ∀ key id, keys.find? key = some id → id ∈ live
  distinct : ∀ key key' id, keys.find? key = some id → keys.find? key' = some id → key = key'

/-- Every key that has had items has a live one. -/
def Attended (held : Keys) (live : Finset String) (deeds : List Deed) : Prop :=
  ∀ key, itemsOf held deeds key ≠ [] →
    ∃ id ∈ itemsOf held deeds key, id ∈ liveAfter live deeds

namespace Fresh

theorem of_prefix (h : Fresh live deeds') (hearlier : deeds <+: deeds') : Fresh live deeds := by
  obtain ⟨later, rfl⟩ := hearlier
  obtain ⟨hdistinct, hunused⟩ := h
  rw [createdItems_append] at hdistinct hunused
  rw [List.map_append] at hdistinct
  exact ⟨hdistinct.of_append_left, fun c hc => hunused c (List.mem_append_left _ hc)⟩

/-- A new item has an id that no other item has had. -/
theorem not_used (h : Fresh live (deeds ++ [.created key new])) :
    new ∉ live ∧ new ∉ (createdItems deeds).map Prod.snd := by
  obtain ⟨hdistinct, hunused⟩ := h
  rw [createdItems_append] at hdistinct hunused
  rw [List.map_append] at hdistinct
  constructor
  · exact hunused (key, new) (List.mem_append_right _ (List.mem_singleton_self _))
  · intro hmem
    exact (List.nodup_append.1 hdistinct).2.2 new hmem new (List.mem_singleton_self _) rfl

theorem not_live (h : Fresh live (deeds ++ [.created key new])) : new ∉ liveAfter live deeds :=
  fun hlive => (mem_of_mem_liveAfter hlive).elim h.not_used.1 h.not_used.2

theorem not_mem_itemsOf (h : Fresh live (deeds ++ [.created key new])) (hheld : Sound live held) :
    new ∉ itemsOf held deeds key' := by
  intro hmem
  rcases mem_itemsOf.1 hmem with hfirst | hcreated
  · exact h.not_used.1 (hheld.live key' new hfirst)
  · exact h.not_used.2 (List.mem_map_of_mem hcreated)

end Fresh

namespace Sound

theorem insert (h : Sound live keys) (hnew : new ∉ live) :
    Sound (insert new live) (keys.insert key new) where
  live key' id hid := by
    rw [Table.find?_insert] at hid
    split at hid
    · cases hid
      exact Finset.mem_insert_self ..
    · exact Finset.mem_insert_of_mem (h.live key' id hid)
  distinct key₁ key₂ id h₁ h₂ := by
    have hother {key' : String} (hid : keys.find? key' = some new) : False :=
      hnew (h.live key' new hid)
    rw [Table.find?_insert] at h₁ h₂
    split at h₁ <;> split at h₂
    · rename_i hkey₁ hkey₂
      exact hkey₁.symm.trans hkey₂
    · cases h₁
      exact (hother h₂).elim
    · cases h₂
      exact (hother h₁).elim
    · exact h.distinct key₁ key₂ id h₁ h₂

theorem erase (h : Sound live keys) (hold : ∀ key, keys.find? key ≠ some old) :
    Sound (live.erase old) keys where
  live key id hid := by
    refine Finset.mem_erase.2 ⟨?_, h.live key id hid⟩
    rintro rfl
    exact hold key hid
  distinct := h.distinct

/-- No key leads to an item another one has taken the place of. -/
theorem find?_insert_ne (h : Sound live keys) (hnew : new ∉ live)
    (hold : keys.find? key = some old) (key' : String) :
    (keys.insert key new).find? key' ≠ some old := by
  rw [Table.find?_insert]
  split
  · intro hsame
    cases hsame
    exact hnew (h.live key new hold)
  · rename_i hne
    intro hold'
    exact hne (h.distinct key key' old hold hold')

end Sound

/-- A new item leaves no key without a live one. -/
theorem Attended.created (h : Attended held live deeds) :
    Attended held live (deeds ++ [.created key new]) := by
  intro key' hitems
  rw [itemsOf_created] at hitems ⊢
  rw [liveAfter_append]
  split
  · exact ⟨new, List.mem_append_right _ (List.mem_singleton_self _), Finset.mem_insert_self ..⟩
  · rename_i hne
    rw [if_neg hne] at hitems
    obtain ⟨id, hid, hlive⟩ := h key' hitems
    exact ⟨id, hid, Finset.mem_insert_of_mem hlive⟩

/-! ## What every step keeps up -/

/-- The keys lead to the last item of each key, these items are live and different, and no key
has been without a live item at any time. -/
structure Tended (held : Keys) (live : Finset String) (keys : Keys) (deeds : List Deed) :
    Prop where
  sound : Sound (liveAfter live deeds) keys
  last : ∀ key, keys.find? key = (itemsOf held deeds key).getLast?
  attended : ∀ earlier, earlier <+: deeds → Attended held live earlier

/-- The live items of a key are those its key leads to. -/
def Single (held : Keys) (live : Finset String) (keys : Keys) (deeds : List Deed) : Prop :=
  ∀ key id, id ∈ itemsOf held deeds key → id ∈ liveAfter live deeds → keys.find? key = some id

theorem attended_of_last (hsound : Sound (liveAfter live deeds) keys)
    (hlast : ∀ key, keys.find? key = (itemsOf held deeds key).getLast?) :
    Attended held live deeds := by
  intro key hitems
  cases hid : keys.find? key with
  | none => exact absurd (List.getLast?_eq_none_iff.1 ((hlast key).symm.trans hid)) hitems
  | some id =>
    exact ⟨id, List.mem_of_getLast? ((hlast key).symm.trans hid), hsound.live key id hid⟩

namespace Tended

theorem start (hheld : Sound live held) : Tended held live held [] := by
  have hlast : ∀ key, held.find? key = (itemsOf held [] key).getLast? := by
    intro key
    change _ = ((held.find? key).toList ++ []).getLast?
    cases held.find? key <;> rfl
  refine ⟨hheld, hlast, fun earlier hearlier => ?_⟩
  rw [List.prefix_nil.1 hearlier]
  exact attended_of_last hheld hlast

/-- After an item has been created, its key leads to it. -/
theorem created (h : Tended held live keys deeds)
    (hfresh : Fresh live (deeds ++ [.created key new])) :
    Tended held live (keys.insert key new) (deeds ++ [.created key new]) where
  sound := by
    rw [liveAfter_append]
    exact h.sound.insert hfresh.not_live
  last key' := by
    rw [Table.find?_insert, itemsOf_created]
    split
    · exact List.getLast?_concat.symm
    · exact h.last key'
  attended earlier hearlier := by
    rcases List.prefix_concat_iff.1 hearlier with rfl | hearlier
    · exact (h.attended deeds (List.prefix_refl deeds)).created
    · exact h.attended earlier hearlier

/-- What is done without creating an item need only leave alone the items the keys lead to. -/
theorem concat (h : Tended held live keys deeds) {d : Deed} (hd : d.created? = none)
    (hsound : Sound (liveAfter live (deeds ++ [d])) keys) :
    Tended held live keys (deeds ++ [d]) := by
  have hlast : ∀ key, keys.find? key = (itemsOf held (deeds ++ [d]) key).getLast? := by
    intro key
    rw [h.last, itemsOf_append, createdItems, List.filterMap_cons_none hd]
    simp
  refine ⟨hsound, hlast, fun earlier hearlier => ?_⟩
  rcases List.prefix_concat_iff.1 hearlier with rfl | hearlier
  · exact attended_of_last hsound hlast
  · exact h.attended earlier hearlier

/-- However an item is settled, its destination is tended, if the id of a new item has never
been used. -/
theorem does (h : Tended held live keys deeds) {c : Candidate σ} {r : Except Fault String}
    {keys' : Keys} {made : List Deed} (hdoes : c.Does keys r keys' made)
    (hfresh : Fresh live (deeds ++ made)) : Tended held live keys' (deeds ++ made) := by
  cases hdoes with
  | kept | refused => rwa [List.append_nil]
  | added new => exact h.created hfresh
  | replaced new old hold =>
    rw [List.append_cons] at hfresh ⊢
    have hnew : Fresh live (deeds ++ [.created c.key new]) := hfresh.of_prefix ⟨_, rfl⟩
    refine (h.created hnew).concat rfl ?_
    rw [liveAfter_append]
    exact (h.created hnew).sound.erase (h.sound.find?_insert_ne hnew.not_live hold)
  | stays new old =>
    rw [List.append_cons] at hfresh ⊢
    have hnew : Fresh live (deeds ++ [.created c.key new]) := hfresh.of_prefix ⟨_, rfl⟩
    refine (h.created hnew).concat rfl ?_
    rw [liveAfter_append]
    exact (h.created hnew).sound

end Tended

namespace Single

theorem start (held : Keys) (live : Finset String) : Single held live held [] := by
  intro key id hid _
  simpa [itemsOf, createdItems] using hid

/-- When an item has been created, the only other live item of its key is the one its key has
led to. -/
theorem created (h : Single held live keys deeds) (hheld : Sound live held)
    (hfresh : Fresh live (deeds ++ [.created key new]))
    (hid : id ∈ itemsOf held (deeds ++ [.created key new]) key')
    (hlive : id ∈ liveAfter live (deeds ++ [.created key new])) :
    (keys.insert key new).find? key' = some id ∨ keys.find? key = some id := by
  rw [liveAfter_append] at hlive
  have hother (hmem : id ∈ itemsOf held deeds key') : keys.find? key' = some id := by
    refine h key' id hmem ((Finset.mem_insert.1 hlive).resolve_left ?_)
    rintro rfl
    exact hfresh.not_mem_itemsOf hheld hmem
  rw [Table.find?_insert]
  rw [itemsOf_created] at hid
  by_cases hkey : key = key'
  · subst hkey
    rw [if_pos rfl] at hid ⊢
    rcases List.mem_append.1 hid with hid | hid
    · exact Or.inr (hother hid)
    · exact Or.inl (congrArg some (List.mem_singleton.1 hid).symm)
  · rw [if_neg hkey] at hid ⊢
    exact Or.inl (hother hid)

/-- Without copies, and if nothing stays that should be deleted, no key gets a second live
item. -/
theorem does (h : Single held live keys deeds) (hheld : Sound live held) {c : Candidate σ}
    (hcopy : c.policy ≠ .copy) {r : Except Fault String} {keys' : Keys} {made : List Deed}
    (hdoes : c.Does keys r keys' made) (hgone : ∀ key id, .stayed key id ∉ made)
    (hfresh : Fresh live (deeds ++ made)) : Single held live keys' (deeds ++ made) := by
  cases hdoes with
  | kept | refused => rwa [List.append_nil]
  | added new hfree =>
    intro key' id hid hlive
    rcases h.created hheld hfresh hid hlive with hfound | hbefore
    · exact hfound
    · rw [hfree.resolve_left hcopy] at hbefore
      cases hbefore
  | replaced new old hold =>
    rw [List.append_cons] at hfresh ⊢
    have hnew : Fresh live (deeds ++ [.created c.key new]) := hfresh.of_prefix ⟨_, rfl⟩
    intro key' id hid hlive
    rw [itemsOf_deleted] at hid
    rw [liveAfter_append] at hlive
    obtain ⟨hne, hlive⟩ := Finset.mem_erase.1 hlive
    rcases h.created hheld hnew hid hlive with hfound | hbefore
    · exact hfound
    · rw [hold] at hbefore
      exact absurd (Option.some.inj hbefore).symm hne
  | stays new old => exact absurd (List.mem_cons_of_mem _ (List.mem_singleton_self _)) (hgone _ _)

end Single

/-! ## Runs -/

namespace Holding

/-- A destination of which some keys are known, before anything is done. -/
def start (held : Keys) (place : σ) : Holding σ := ⟨held, place, []⟩

/-- Settle items one after the other, whatever comes of each. -/
def settleAll (h : Holding σ) (cs : List (Candidate σ)) : Holding σ :=
  cs.foldl (fun h c => (c.settle h).2) h

theorem settleAll_append (h : Holding σ) (cs cs' : List (Candidate σ)) :
    h.settleAll (cs ++ cs') = (h.settleAll cs).settleAll cs' :=
  List.foldl_append

theorem settleAll_concat (h : Holding σ) (cs : List (Candidate σ)) (c : Candidate σ) :
    h.settleAll (cs ++ [c]) = (c.settle (h.settleAll cs)).2 :=
  h.settleAll_append cs [c]

theorem deeds_settleAll (h : Holding σ) (cs : List (Candidate σ)) :
    h.deeds <+: (h.settleAll cs).deeds := by
  induction cs using List.reverseRecOn with
  | nil => exact List.prefix_refl _
  | append_singleton cs c ih =>
    obtain ⟨r, keys, place, made, hsettle, -⟩ := c.settle_does (h.settleAll cs)
    rw [settleAll_concat, hsettle]
    exact ih.trans (List.prefix_append _ made)

variable {s : σ} {cs : List (Candidate σ)}

theorem tended_settleAll (hheld : Sound live held)
    (hfresh : Fresh live ((start held s).settleAll cs).deeds) :
    Tended held live ((start held s).settleAll cs).keys ((start held s).settleAll cs).deeds := by
  induction cs using List.reverseRecOn with
  | nil => exact .start hheld
  | append_singleton cs c ih =>
    obtain ⟨r, keys, place, made, hsettle, -, -, hdoes⟩ :=
      c.settle_does ((start held s).settleAll cs)
    rw [settleAll_concat, hsettle] at hfresh ⊢
    exact (ih (hfresh.of_prefix (List.prefix_append _ made))).does hdoes hfresh

theorem single_settleAll (hheld : Sound live held)
    (hfresh : Fresh live ((start held s).settleAll cs).deeds)
    (hcopy : ∀ c ∈ cs, c.policy ≠ .copy)
    (hgone : ∀ key id, .stayed key id ∉ ((start held s).settleAll cs).deeds) :
    Single held live ((start held s).settleAll cs).keys ((start held s).settleAll cs).deeds := by
  induction cs using List.reverseRecOn with
  | nil => exact .start held live
  | append_singleton cs c ih =>
    obtain ⟨r, keys, place, made, hsettle, -, -, hdoes⟩ :=
      c.settle_does ((start held s).settleAll cs)
    rw [settleAll_concat, hsettle] at hfresh hgone ⊢
    have hbefore : Single held live _ _ := ih (hfresh.of_prefix (List.prefix_append _ made))
      (fun b hb => hcopy b (List.mem_append_left _ hb))
      fun key id hmem => hgone key id (List.mem_append_left _ hmem)
    exact hbefore.does hheld (hcopy c (List.mem_append_right _ (List.mem_singleton_self c)))
      hdoes (fun key id hmem => hgone key id (List.mem_append_right _ hmem)) hfresh

theorem seen_settleAll {seen : σ → Finset String} (h : ∀ c ∈ cs, c.ShowsOn seen) :
    seen ((start held s).settleAll cs).place =
      liveAfter (seen s) ((start held s).settleAll cs).deeds := by
  induction cs using List.reverseRecOn with
  | nil => rfl
  | append_singleton cs c ih =>
    obtain ⟨r, keys, place, made, hsettle, -, hseen, -⟩ :=
      c.settle_does ((start held s).settleAll cs)
    rw [settleAll_concat, hsettle, liveAfter_append,
      ← ih fun b hb => h b (List.mem_append_left _ hb)]
    exact hseen seen (h c (List.mem_append_right _ (List.mem_singleton_self c)))

end Holding

/-- What holds after one of some items has been settled, `cs` being the items up to this one. -/
structure Candidate.Follows (held : Keys) (live : Finset String) (s : σ)
    (cs : List (Candidate σ)) (c : Candidate σ) (before : Holding σ) (r : Except Fault String)
    (after : Holding σ) : Prop where
  /-- Noting down what is done changes nothing. -/
  runs : c.policy.settle c.key before.keys c.create c.delete before.place =
    ((r, after.keys), after.place)
  /-- The items that can be seen are those that are live by what is noted down. -/
  seen : ∀ seen : σ → Finset String, seen s = live → (∀ b ∈ cs, b.ShowsOn seen) →
    seen after.place = liveAfter live after.deeds
  /-- Keys lead to live items, and different ones to different items. -/
  sound : Sound (liveAfter live after.deeds) after.keys
  /-- No key is lost. -/
  remains : ∀ key, before.keys.contains key → after.keys.contains key
  /-- Each key leads to the last item created for it, or else to the one it had at first. -/
  last : ∀ key, after.keys.find? key = (itemsOf held after.deeds key).getLast?
  /-- At no time is a key that has had items without a live one. -/
  attended : ∀ deeds, deeds <+: after.deeds → Attended held live deeds
  /-- The result tells which item has been created, and nothing is to be deleted but the item the
  key led to before. -/
  made : ∃ made, after.deeds = before.deeds ++ made ∧
    (∀ id, .created c.key id ∈ made ↔ r = .ok id ∨ ∃ f, r = .error f ∧ f.createdItem? = some id) ∧
    ∀ key id, .deleted key id ∈ made ∨ .stayed key id ∈ made →
      key = c.key ∧ before.keys.find? c.key = some id
  /-- Where no item has been created, everything is as before. -/
  unchanged : ∀ f, r = .error f → f.createdItem? = none →
    after.keys = before.keys ∧ liveAfter live after.deeds = liveAfter live before.deeds
  /-- Without copies, and if nothing has stayed, each key has just one live item. -/
  single : (∀ b ∈ cs, b.policy ≠ .copy) → (∀ key id, .stayed key id ∉ after.deeds) →
    ∀ key, after.keys.contains key →
      ∃! id, id ∈ itemsOf held after.deeds key ∧ id ∈ liveAfter live after.deeds

/-- The keys of a destination follow its items through every run. -/
theorem Candidate.keys_follow (held : Keys) (live : Finset String) (s : σ)
    (cs : List (Candidate σ)) (hheld : Sound live held)
    (hfresh : Fresh live ((Holding.start held s).settleAll cs).deeds)
    (earlier later : List (Candidate σ)) (c : Candidate σ) (hcs : cs = earlier ++ c :: later) :
    let before := (Holding.start held s).settleAll earlier
    c.Follows held live s (earlier ++ [c]) before (c.settle before).1 (c.settle before).2 := by
  intro before
  subst hcs
  have hafter : (Holding.start held s).settleAll (earlier ++ [c]) = (c.settle before).2 :=
    Holding.settleAll_concat ..
  rw [List.append_cons, Holding.settleAll_append] at hfresh
  replace hfresh : Fresh live ((Holding.start held s).settleAll (earlier ++ [c])).deeds :=
    hfresh.of_prefix (Holding.deeds_settleAll _ later)
  have htended := Holding.tended_settleAll hheld hfresh
  have hsingle := Holding.single_settleAll hheld hfresh
  have hseen {seen : σ → Finset String} (h : ∀ b ∈ earlier ++ [c], b.ShowsOn seen) :
      seen ((Holding.start held s).settleAll (earlier ++ [c])).place = _ :=
    Holding.seen_settleAll h
  rw [hafter] at htended hsingle hseen
  obtain ⟨r, keys, place, made, hsettle, hruns, -, hdoes⟩ := c.settle_does before
  rw [hsettle] at htended hsingle hseen ⊢
  refine ⟨hruns, ?_, htended.sound, hdoes.contains, htended.last, htended.attended,
    ⟨made, rfl, hdoes.created_iff, hdoes.deletes⟩, ?_, ?_⟩
  · rintro seen rfl hshows
    exact hseen hshows
  · intro f hf hnone
    obtain ⟨rfl, rfl⟩ := hdoes.unchanged hf hnone
    exact ⟨rfl, by rw [List.append_nil]⟩
  · intro hcopy hgone key hkey
    obtain ⟨id, hid⟩ := Option.isSome_iff_exists.1 hkey
    have hlast : id ∈ itemsOf held (before.deeds ++ made) key :=
      List.mem_of_getLast? ((htended.last key).symm.trans hid)
    refine ⟨id, ⟨hlast, htended.sound.live key id hid⟩, fun id' hid' => ?_⟩
    have hsame : keys.find? key = some id' := hsingle hcopy hgone key id' hid'.1 hid'.2
    exact Option.some.inj (hsame.symm.trans hid)

/-- An item of which it is known what comes of creating it and of deleting another one. -/
def Candidate.answered (policy : CollisionPolicy) (key : String)
    (created : Except Failure String) (deleted : Except Failure Unit) : Candidate Unit :=
  ⟨policy, key, fun s => (created, s), fun _ s => (deleted, s)⟩

/-- An item that can't be deleted and a copy are left behind, and the next item takes the place
of the copy. -/
theorem Candidate.keys_follow_copy :
    let held : Keys := .ofList [("a", "old")]
    let live : Finset String := {"old", "other"}
    let earlier := [answered .replace "a" (.ok "n1") (.error (.because "locked")),
      answered .copy "a" (.ok "n2") (.ok ())]
    let c := answered .replace "a" (.ok "n3") (.ok ())
    let later := [answered .skip "a" (.ok "n4") (.ok ()),
      answered .skip "b" (.error (.because "quota exceeded")) (.ok ())]
    let before := (Holding.start held ()).settleAll earlier
    Sound live held ∧
      Fresh live ((Holding.start held ()).settleAll (earlier ++ c :: later)).deeds ∧
      c.Follows held live () (earlier ++ [c]) before (c.settle before).1 (c.settle before).2 := by
  intro held live earlier c later before
  have hfind (key : String) : held.find? key = if "a" = key then some "old" else none := by
    rw [show held = Table.empty.insert "a" "old" from rfl, Table.find?_insert]
    rfl
  have hheld : Sound live held := by
    constructor
    · intro key id hid
      rw [hfind] at hid
      split at hid <;> cases hid
      decide
    · intro key key' id hid hid'
      rw [hfind] at hid hid'
      split at hid <;> cases hid
      split at hid' <;> cases hid'
      rename_i hkey hkey'
      exact hkey.symm.trans hkey'
  have hfresh : Fresh live
      ((Holding.start held ()).settleAll (earlier ++ c :: later)).deeds :=
    ⟨by decide, by decide⟩
  exact ⟨hheld, hfresh,
    keys_follow held live () (earlier ++ c :: later) hheld hfresh earlier later c rfl⟩

end TenantRestore
