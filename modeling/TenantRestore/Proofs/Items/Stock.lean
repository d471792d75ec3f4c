/-
# The items of a store after a restore

What a restore leaves in a container is told by what was there and by the entries of all
collections with this container, in the order in which they are taken: `Plan.restocked`.  For each
policy it is a closed form over these entries, whatever else comes in between: entries that can't
be read, other containers, and the keys a restore asks for when it needs them.

Which items these are follows from the location and the entries alone (`ItemStore.Receives`): it
says how an item is called at the location, and which container its collection has there.

The closed form of a container is kept by one more entry since the keys a restore knows mirror the
container; to the other containers nothing happens.  No entry is counted for a container before
its collection has been entered, so the containers that are found on the way do not disturb it.
-/
import TenantRestore.Proofs.Drive.View
import TenantRestore.Proofs.Items.Course
import TenantRestore.Proofs.Location

namespace TenantRestore

variable {ρ σ : Type}

/-! ## The items for a container -/

/-- A container of a store is the one for the items of the collection at a path, if they are
restored to a location. -/
def ItemStore.Houses (s : ItemStore) (location : String) (path : BackupPath) (container : String) :
    Prop :=
  ∃ name, path.ContainerAt location name ∧ s.containerId? path.owner name = some container

/-- The items of a kind that are put into a container of a store, in their order, if what comes
when collections are read is restored to a location. -/
inductive ItemStore.Receives (s : ItemStore) (kind : ItemKind) (location container : String) :
    List Offer → List Shelved → Prop
  /-- Nothing comes. -/
  | nil : Receives s kind location container [] []
  /-- An entry for the container is an item of the kind. -/
  | item {c : Collection} {entry : Entry} {item : Item} {e : Shelved} {os : List Offer}
      {es : List Shelved} (hhouses : s.Houses location c.path container)
      (hread : Item.ofData entry.data = .ok item) (hkind : item.kind = kind)
      (hprepared : item.Prepared location entry.name e.item e.children)
      (hrest : Receives s kind location container os es) :
      Receives s kind location container ((c, .ok entry) :: os) (e :: es)
  /-- An entry is no item of the kind. -/
  | foreign {c : Collection} {entry : Entry} {os : List Offer} {es : List Shelved}
      (hforeign : ∀ item, Item.ofData entry.data = .ok item → item.kind ≠ kind)
      (hrest : Receives s kind location container os es) :
      Receives s kind location container ((c, .ok entry) :: os) es
  /-- An entry can't be read. -/
  | unread {c : Collection} {f : Failure} {os : List Offer} {es : List Shelved}
      (hrest : Receives s kind location container os es) :
      Receives s kind location container ((c, .error f) :: os) es
  /-- An entry is for another container. -/
  | elsewhere {o : Offer} {os : List Offer} {es : List Shelved}
      (helsewhere : ¬ s.Houses location o.1.path container)
      (hrest : Receives s kind location container os es) :
      Receives s kind location container (o :: os) es

theorem ItemStore.houses_iff {s : ItemStore} {o : Options} {path : BackupPath}
    {container : String} :
    s.Houses o.location path container ↔ s.home? o path = some container := by
  unfold Houses home?
  simp only [Options.containerAt_iff, exists_eq_left]

theorem Item.ofEntry_eq_ok_iff {kind : ItemKind} {entry : Entry} {item : Item} :
    Item.ofEntry kind entry = .ok item ↔ Item.ofData entry.data = .ok item ∧ item.kind = kind := by
  unfold Item.ofEntry
  rcases Item.ofData entry.data with p | read
  · simp
  · dsimp only
    split <;> grind

theorem Plan.shelved_eq_ok_iff {plan : Plan σ} {kind : ItemKind} {entry : Entry} {e : Shelved} :
    plan.shelved kind entry = .ok e ↔ ∃ item, Item.ofData entry.data = .ok item ∧
      item.kind = kind ∧ item.Prepared plan.options.location entry.name e.item e.children := by
  unfold Plan.shelved
  simp only [← and_assoc, ← Item.ofEntry_eq_ok_iff, Item.prepared_iff]
  obtain ⟨stored, children⟩ := e
  rcases Item.ofEntry kind entry with f | item
  · simp [Except.map]
  · simp [Except.map, eq_comm]

/-- The items a restore of some entries puts into a container of a store, in their order. -/
def Plan.shelvedIn (plan : Plan σ) (kind : ItemKind) (s : ItemStore) (container : String)
    (os : List Offer) : List Shelved :=
  os.filterMap fun o =>
    if s.home? plan.options o.1.path = some container then (plan.offered kind o).toOption else none

section Shelved

variable {plan : Plan σ} {kind : ItemKind} {s t : ItemStore} {container : String} {o : Offer}

theorem Plan.shelvedIn_append (os os' : List Offer) :
    plan.shelvedIn kind s container (os ++ os') =
      plan.shelvedIn kind s container os ++ plan.shelvedIn kind s container os' :=
  List.filterMap_append

theorem Plan.shelvedIn_cons (o : Offer) (os : List Offer) :
    plan.shelvedIn kind s container (o :: os) =
      plan.shelvedIn kind s container [o] ++ plan.shelvedIn kind s container os :=
  Plan.shelvedIn_append [o] os

/-- An item that is offered for a container is put there. -/
theorem Plan.shelvedIn_singleton {e : Shelved}
    (hhome : s.home? plan.options o.1.path = some container) (ho : plan.offered kind o = .ok e) :
    plan.shelvedIn kind s container [o] = [e] := by
  simp [Plan.shelvedIn, hhome, ho, Except.toOption]

/-- What is for another container is not. -/
theorem Plan.shelvedIn_singleton_of_ne
    (hhome : s.home? plan.options o.1.path ≠ some container) :
    plan.shelvedIn kind s container [o] = [] := by
  simp [Plan.shelvedIn, hhome]

/-- Neither is what can't be read. -/
theorem Plan.shelvedIn_singleton_of_error {f : Fault} (ho : plan.offered kind o = .error f) :
    plan.shelvedIn kind s container [o] = [] := by
  simp [Plan.shelvedIn, ho, Except.toOption]

/-- Only the containers of the entries matter. -/
theorem Plan.shelvedIn_congr {os : List Offer}
    (h : ∀ o ∈ os, t.home? plan.options o.1.path = s.home? plan.options o.1.path) :
    plan.shelvedIn kind t container os = plan.shelvedIn kind s container os :=
  List.filterMap_congr fun o ho => by rw [h o ho]

end Shelved

/-- An entry that is no item of the kind can't be shelved. -/
theorem Plan.shelved_eq_error_iff {plan : Plan σ} {kind : ItemKind} {entry : Entry} :
    (∃ f, plan.shelved kind entry = .error f) ↔
      ∀ item, Item.ofData entry.data = .ok item → item.kind ≠ kind := by
  have hread (item : Item) : Item.ofData entry.data = .ok item → item.kind = kind →
      Item.ofEntry kind entry = .ok item :=
    fun hdata hkind => Item.ofEntry_eq_ok_iff.2 ⟨hdata, hkind⟩
  unfold Plan.shelved
  rcases hentry : Item.ofEntry kind entry with f | item
  · refine ⟨fun _ item hdata hkind => ?_, fun _ => ⟨f, rfl⟩⟩
    rw [hread item hdata hkind] at hentry
    cases hentry
  · obtain ⟨hdata, hkind⟩ := Item.ofEntry_eq_ok_iff.1 hentry
    exact ⟨by rintro ⟨_, ⟨⟩⟩, fun hforeign => absurd hkind (hforeign item hdata)⟩

/-- The items a restore puts into a container are those that the location and the entries tell. -/
theorem Plan.receives_iff {plan : Plan σ} {kind : ItemKind} {s : ItemStore} {container : String}
    {os : List Offer} {es : List Shelved} :
    s.Receives kind plan.options.location container os es ↔
      es = plan.shelvedIn kind s container os := by
  constructor
  · intro h
    induction h with
    | nil => rfl
    | @item c entry item e os es hhouses hread hkind hprepared _ ih =>
      have hoffered : plan.offered kind (c, .ok entry) = .ok e :=
        Plan.shelved_eq_ok_iff.2 ⟨item, hread, hkind, hprepared⟩
      rw [Plan.shelvedIn_cons, Plan.shelvedIn_singleton (ItemStore.houses_iff.1 hhouses) hoffered,
        ih, List.singleton_append]
    | @foreign c entry os es hforeign _ ih =>
      obtain ⟨f, hoffered⟩ : ∃ f, plan.offered kind (c, .ok entry) = .error f :=
        Plan.shelved_eq_error_iff.2 hforeign
      rw [Plan.shelvedIn_cons, Plan.shelvedIn_singleton_of_error hoffered, ih, List.nil_append]
    | unread _ ih =>
      rw [Plan.shelvedIn_cons, Plan.shelvedIn_singleton_of_error rfl, ih, List.nil_append]
    | elsewhere helsewhere _ ih =>
      have hhome := helsewhere ∘ ItemStore.houses_iff.2
      rw [Plan.shelvedIn_cons, Plan.shelvedIn_singleton_of_ne hhome, ih, List.nil_append]
  · rintro rfl
    induction os with
    | nil => exact .nil
    | cons o os ih =>
      obtain ⟨c, x⟩ := o
      rw [Plan.shelvedIn_cons]
      by_cases hhome : s.home? plan.options c.path = some container
      · rcases x with f | entry
        · rw [Plan.shelvedIn_singleton_of_error rfl]
          exact .unread ih
        · rcases hoffered : plan.offered kind (c, .ok entry) with f | e
          · rw [Plan.shelvedIn_singleton_of_error hoffered]
            exact .foreign (Plan.shelved_eq_error_iff.1 ⟨f, hoffered⟩) ih
          · rw [Plan.shelvedIn_singleton hhome hoffered]
            obtain ⟨item, hread, hkind, hprepared⟩ := Plan.shelved_eq_ok_iff.1 hoffered
            exact .item (ItemStore.houses_iff.2 hhome) hread hkind hprepared ih
      · rw [Plan.shelvedIn_singleton_of_ne hhome]
        exact .elsewhere (hhome ∘ ItemStore.houses_iff.1) ih

/-- What a restore has made of a store `s` when it leaves it as `t`. -/
structure Plan.Restocked (plan : Plan σ) (kind : ItemKind) (cs : List Collection)
    (s t : ItemStore) : Prop where
  /-- The containers that were there are still found. -/
  kept : ∀ owner name container, s.containerId? owner name = some container →
    t.containerId? owner name = some container
  /-- Every collection has its container. -/
  found : ∀ c ∈ cs, ∃ container, t.Houses plan.options.location c.path container
  /-- To the items of a container those of its entries have been put. -/
  stocked : ∀ container, ∃ es,
    t.Receives kind plan.options.location container (Collection.offersOf cs) es ∧
      Stocked plan.options.onCollision (s.contents container) es (t.contents container)
  /-- Containers that belong to no collection are as they were. -/
  others : ∀ container, (∀ c ∈ cs, ¬ t.Houses plan.options.location c.path container) →
    t.contents container = s.contents container

/-- What holds of a store `s` and a view of it after some entries have been dealt with. -/
structure Plan.Restocking (plan : Plan σ) (kind : ItemKind) (s : ItemStore) (done : List Offer)
    (V : ItemView) : Prop where
  kept : ∀ owner name container, s.containerId? owner name = some container →
    V.store.containerId? owner name = some container
  entered : ∀ o ∈ done, (V.store.home? plan.options o.1.path).isSome
  stocked : ∀ container, Stocked plan.options.onCollision (s.contents container)
    (plan.shelvedIn kind V.store container done) (V.contents container)

/-! ## One entry more -/

section Restocking

variable {plan : Plan (ItemStore × ρ)} {kind : ItemKind} {s : ItemStore} {done : List Offer}
  {V W : ItemView} {o : Offer}

namespace Plan.Restocking

theorem refl (plan : Plan (ItemStore × ρ)) (kind : ItemKind) {s : ItemStore} (hV : V.store = s) :
    plan.Restocking kind s [] V where
  kept owner name container h := by rw [hV, h]
  entered o ho := by cases ho
  stocked container := by
    rw [ItemView.contents, hV]
    exact .refl _ _

/-- A container that is found has no items of the entries so far. -/
theorem opens (h : plan.Restocking kind s done V) {owner name container : String}
    (hopens : V.Opens kind owner name container W) : plan.Restocking kind s done W where
  kept owner' name' container' hs := hopens.keeps (h.kept _ _ _ hs)
  entered o ho := by
    obtain ⟨id, hid⟩ := Option.isSome_iff_exists.1 (h.entered o ho)
    exact Option.isSome_of_eq_some (hopens.keeps hid)
  stocked other := by
    rw [hopens.contents, Plan.shelvedIn_congr (s := V.store)]
    · exact h.stocked other
    · intro o ho
      obtain ⟨id, hid⟩ := Option.isSome_iff_exists.1 (h.entered o ho)
      rw [hid]
      exact hopens.keeps hid

/-- The collection of the next entry has been entered, too. -/
theorem entered_concat (h : plan.Restocking kind s done V) {container : String}
    (hhome : V.store.home? plan.options o.1.path = some container) :
    ∀ o' ∈ done ++ [o], (V.store.home? plan.options o'.1.path).isSome := by
  intro o' ho'
  rcases List.mem_append.1 ho' with ho' | ho'
  · exact h.entered o' ho'
  · rw [List.mem_singleton.1 ho', hhome]
    rfl

/-- What can't be read adds nothing. -/
theorem unread (h : plan.Restocking kind s done V) {container : String} {f : Fault}
    (hhome : V.store.home? plan.options o.1.path = some container)
    (ho : plan.offered kind o = .error f) :
    plan.Restocking kind s (done ++ [o]) (V.noting plan f) where
  kept := h.kept
  entered := h.entered_concat hhome
  stocked other := by
    have hsame : plan.shelvedIn kind V.store other (done ++ [o]) =
        plan.shelvedIn kind V.store other done := by
      rw [Plan.shelvedIn_append, Plan.shelvedIn_singleton_of_error ho, List.append_nil]
    exact hsame ▸ h.stocked other

/-- An item is put to those of its container. -/
theorem puts (h : plan.Restocking kind s done V) (hV : V.Sound kind) {container : String}
    {e : Shelved} {r : Except Fault Unit}
    (hhome : V.store.home? plan.options o.1.path = some container)
    (ho : plan.offered kind o = .ok e)
    (hputs : V.Puts plan.options.onCollision container e r W) :
    plan.Restocking kind s (done ++ [o]) (W.ending plan r) where
  kept owner name container' hs := by
    rw [ItemView.store_ending, hputs.containerId?]
    exact h.kept owner name container' hs
  entered o' ho' := by
    rw [ItemView.store_ending, ItemStore.home?, hputs.containerId?]
    exact h.entered_concat hhome o' ho'
  stocked other := by
    have hsame (os : List Offer) : plan.shelvedIn kind W.store other os =
        plan.shelvedIn kind V.store other os :=
      Plan.shelvedIn_congr fun o' _ => hputs.containerId? ..
    rw [ItemView.store_ending, ItemView.contents_ending, hsame, Plan.shelvedIn_append]
    -- the entry counts for its own container only
    by_cases hother : other = container
    · subst hother
      rw [Plan.shelvedIn_singleton hhome ho]
      exact (h.stocked other).shelves (hV.nodup other) hputs.shelves
    · have hhome' : V.store.home? plan.options o.1.path ≠ some other := by
        rw [hhome]
        exact fun heq => hother (Option.some.inj heq).symm
      rw [Plan.shelvedIn_singleton_of_ne hhome', List.append_nil, hputs.contents_of_ne hother]
      exact h.stocked other

theorem upholds (plan : Plan (ItemStore × ρ)) (kind : ItemKind) (cs : List Collection)
    (s : ItemStore) : plan.Upholds kind cs (plan.Restocking kind s) where
  opens _ _ _ _ _ _ h hopens := h.opens hopens
  unread _ _ _ _ _ _ h hhome ho := h.unread hhome ho
  puts _ _ _ _ _ _ _ _ h hV hhome ho hputs := h.puts hV hhome ho hputs

end Plan.Restocking

end Restocking

/-! ## Whole runs -/

section Runs

variable {plan : Plan (ItemStore × ρ)} {kind : ItemKind} {desk : Remote ρ}
  {cs : List Collection} {s : ItemStore}

theorem ItemView.Sound.start (plan : Plan (ItemStore × ρ)) (kind : ItemKind) (log : FaultLog)
    (stopped : Bool) (hs : s.Numbered) (r : ρ) :
    (Session.start plan log stopped (s, r)).itemView.Sound kind where
  numbered := hs
  known _ _ _ h := by cases h
  mirrors _ _ h := by cases h

/-- When a run that has not been interrupted is over, all that comes has been dealt with. -/
theorem Plan.dealt_run {start : Session (ItemStore × ρ)}
    (hremote : plan.remote = ItemStore.beside kind desk)
    (hcs : ∀ c ∈ cs, c.path.category = kind.category) {J : List Offer → ItemView → Prop}
    (hJ : plan.Upholds kind cs J) (hsound : start.itemView.Sound kind)
    (hstart : J [] start.itemView) (hrun : plan.Uninterrupted cs start) :
    (plan.run cs start).2.itemView.Sound kind ∧
      J (Collection.offersOf cs) (plan.run cs start).2.itemView ∧
      ∀ c ∈ cs, ((plan.run cs start).2.itemView.store.home? plan.options c.path).isSome := by
  obtain ⟨n, hover⟩ := plan.exists_over cs start
  obtain ⟨done, hmidway, hdone⟩ := Plan.boundary_offers hremote hcs hJ hsound hstart n
  have hall : Collection.offersOf cs = done := by
    rw [hmidway.offers, hrun.offers_eq_nil hover, List.append_nil]
  rw [hrun.run_eq hover, hall]
  refine ⟨hmidway.sound, hdone, fun c hc => ?_⟩
  rcases hmidway.entered c hc with hlater | hsome
  · rw [(hrun.exhausted hover).2] at hlater
    cases hlater
  · exact hsome

/-- A restore of items puts those of its entries into their containers as the policy wants it. -/
theorem Plan.restocked (hremote : plan.remote = ItemStore.beside kind desk)
    (hcs : ∀ c ∈ cs, c.path.category = kind.category) (hs : s.Reached) (log : FaultLog)
    (stopped : Bool) (r : ρ)
    (hrun : plan.Uninterrupted cs (.start plan log stopped (s, r))) :
    plan.Restocked kind cs s (plan.run cs (.start plan log stopped (s, r))).2.remote.1 := by
  obtain ⟨-, hdone, hfound⟩ := Plan.dealt_run hremote hcs
    (Plan.Restocking.upholds plan kind cs s)
    (.start plan kind log stopped hs.numbered r) (.refl plan kind rfl) hrun
  refine ⟨hdone.kept, fun c hc => ?_,
    fun container => ⟨_, Plan.receives_iff.2 rfl, hdone.stocked container⟩, ?_⟩
  · obtain ⟨container, hhome⟩ := Option.isSome_iff_exists.1 (hfound c hc)
    exact ⟨container, ItemStore.houses_iff.2 hhome⟩
  · intro container hnone
    refine (hdone.stocked container).idle (List.filterMap_eq_nil_iff.2 fun o ho => if_neg ?_)
    obtain ⟨c, hc, hoc⟩ := List.mem_flatMap.1 ho
    obtain ⟨x, -, rfl⟩ := List.mem_map.1 hoc
    exact fun hhome => hnone c (Collection.mem_sort.1 hc) (ItemStore.houses_iff.2 hhome)

end Runs

/-- Two versions of a list, with an entry in between that can't be read. -/
def listVersions : List Collection :=
  [.ofEntries ⟨"tenant", .sharepoint, "site", .lists, ["root"]⟩
    [.ok ⟨"older", "\x7b\"kind\":\"list\",\"displayName\":\"tasks\",\"items\":[1]\x7d".toUTF8⟩,
      .error (.because "gone"),
      .ok ⟨"newer", "\x7b\"kind\":\"list\",\"displayName\":\"tasks\",\"items\":[2]\x7d".toUTF8⟩]]

theorem sort_listVersions : Collection.sort listVersions = listVersions :=
  Collection.sort_of_pairwise (by decide +kernel)

theorem category_listVersions : ∀ c ∈ listVersions, c.path.category = ItemKind.list.category := by
  intro c hc
  rw [List.mem_singleton.1 hc]
  rfl

/-- Restore lists with some policy. -/
def restoringLists (policy : CollisionPolicy) : Plan (ItemStore × Unit) where
  options := { onCollision := policy }
  version := 0
  remote := ItemStore.beside .list .nobody

/-- Restore lists to a location, in place of those that are there. -/
def archivingLists : Plan (ItemStore × Unit) where
  options := { location := "Archive", onCollision := .replace }
  version := 0
  remote := ItemStore.beside .list .nobody

/-- The versions of a list, and two lists without a name in another collection. -/
def listsOfSite : List Collection :=
  listVersions ++ [.ofEntries ⟨"tenant", .sharepoint, "site", .lists, ["team"]⟩
    [.ok ⟨"unnamed", "\x7b\"kind\":\"list\",\"items\":[3,4]\x7d".toUTF8⟩,
      .ok ⟨"blank", "\x7b\"kind\":\"list\",\"displayName\":\"\"\x7d".toUTF8⟩]]

theorem sort_listsOfSite : Collection.sort listsOfSite = listsOfSite :=
  Collection.sort_of_pairwise (by decide +kernel)

theorem category_listsOfSite : ∀ c ∈ listsOfSite, c.path.category = ItemKind.list.category := by
  decide +kernel

/-- A store that has the list already at its place and in the archive, with another one there. -/
def archivedSite : ItemStore :=
  let place (name : String) (s : ItemStore) (list : String) : ItemStore :=
    (s.addExisting "site" name (.list { displayName := some list })).2
  place "Archive" (place "Archive" (place "root" {} "tasks") "Archive_tasks") "Archive_notes"

/-- In the archive each version takes the place of the one before, with its children, and a list
without a name is called by its entry; all other lists stay. -/
theorem restocked_listsOfSite :
    let start := Session.start archivingLists {} false (archivedSite, ())
    let t := (archivingLists.run listsOfSite start).2.remote.1
    archivingLists.Uninterrupted listsOfSite start ∧
      archivingLists.Restocked .list listsOfSite archivedSite t ∧
      t.containers.entries =
        [(("site", "root"), "container-1"), (("site", "Archive"), "container-3")] ∧
      t.items.map (fun i => (i.id, i.container, i.key, i.children.length)) =
        [("existing-2", "container-1", "tasks", 0),
          ("existing-6", "container-3", "Archive_notes", 0),
          ("item-9", "container-3", "Archive_tasks", 1),
          ("item-10", "container-3", "Archive_unnamed", 2),
          ("item-11", "container-3", "Archive", 0)] := by
  intro start t
  have hrun : archivingLists.Uninterrupted listsOfSite start := by
    refine ⟨rfl, ⟨rfl, rfl⟩, ?_⟩
    rw [Plan.run_eq, sort_listsOfSite]
    decide +kernel
  have hreached : archivedSite.Reached :=
    ((ItemStore.Reached.new.addExisting ..).addExisting ..).addExisting ..
  refine ⟨hrun, Plan.restocked rfl category_listsOfSite hreached {} false () hrun, ?_⟩
  simp only [t, Plan.run_eq, sort_listsOfSite]
  decide +kernel

end TenantRestore
