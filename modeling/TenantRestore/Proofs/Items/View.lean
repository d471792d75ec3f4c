/-
# What a restore sees of a store of items

A restore works on a store in memory; someone beside the store takes the receipts, sees every call
and may stop the restore during any of them.  What matters between the two is the store, the
containers and keys the restore has come to know, and the faults so far: this is an `ItemView`.

Two steps change it.  Entering a collection finds its container (`ItemView.Opens`), and taking an
entry that can be read stores an item, or keeps it out (`ItemView.Puts`).  What the restore knows
stays true of the store (`ItemView.Sound`).
-/
import TenantRestore.Proofs.Boundary
import TenantRestore.Proofs.Entries
import TenantRestore.Proofs.Items.Store

namespace TenantRestore

variable {ρ : Type}

/-- A store of items of a kind, beside someone who sees all calls, answers those that are not
about these items, and may stop the restore. -/
def ItemStore.beside (kind : ItemKind) (desk : Remote ρ) : Remote (ItemStore × ρ) where
  serves h := decide (h = .items kind) || desk.serves h
  respond
    | .drive c, s =>
      let (response, r) := desk.respond (.drive c) s.2
      (response, (s.1, r))
    | .items k c, s =>
      let (response, r) := desk.respond (.items k c) s.2
      if k = kind then
        let (answer, store) := s.1.respond kind c
        (⟨answer, response.stops⟩, (store, r))
      else (response, (s.1, r))
    | .receipt receipt, s =>
      let (response, r) := desk.respond (.receipt receipt) s.2
      (response, (s.1, r))

/-- An entry as it is to be stored: read, adapted to the location, and apart from its children. -/
def Plan.shelved {σ : Type} (plan : Plan σ) (kind : ItemKind) (entry : Entry) :
    Except Fault Shelved :=
  (Item.ofEntry kind entry).map fun stored =>
    let located := stored.locate plan.options.location entry.name
    ⟨located.withoutChildren, located.children⟩

/-! ## Views -/

/-- What a restore sees of a store of items. -/
structure ItemView where
  /-- The store. -/
  store : ItemStore
  /-- The ids of the containers the restore knows. -/
  containers : Table (Category × String × String) String
  /-- The keys of the items it knows. -/
  keys : Table String Keys
  /-- The faults so far. -/
  faults : FaultLog

/-- What a restore sees of the store. -/
def Session.itemView (s : Session (ItemStore × ρ)) : ItemView :=
  ⟨s.remote.1, s.registry.containers, s.registry.keys, s.faults⟩

namespace ItemView

/-- The view after a call about items. -/
def asked (V : ItemView) (kind : ItemKind) (c : ItemCall) : ItemView :=
  { V with store := (V.store.respond kind c).2 }

/-- The view after the id of a container has been learnt. -/
def knowing (V : ItemView) (place : Category × String × String) (id : String) : ItemView :=
  { V with containers := V.containers.insert place id }

/-- The view after the keys of a container have been learnt. -/
def keeping (V : ItemView) (container : String) (ks : Keys) : ItemView :=
  { V with keys := V.keys.insert container ks }

/-- The view after an item has been stored, and the one it replaces deleted, in a container of
which some keys are known. -/
def storing (V : ItemView) (container : String) (e : Shelved) (old : Option String) (ks : Keys) :
    ItemView :=
  { V with
    store := V.store.put container e old
    keys := V.keys.insert container (ks.insert e.key (V.store.newId "item")) }

/-- The items in a container. -/
def contents (V : ItemView) (container : String) : List StoredItem := V.store.contents container

theorem keeping_keeping (V : ItemView) (container : String) (ks ks' : Keys) :
    (V.keeping container ks).keeping container ks' = V.keeping container ks' :=
  congrArg (fun keys => { V with keys := keys }) (Table.insert_insert ..)

theorem storing_keeping (V : ItemView) (container : String) (e : Shelved) (old : Option String)
    (ks ks' : Keys) :
    (V.keeping container ks).storing container e old ks' = V.storing container e old ks' :=
  congrArg (fun keys => { V with store := V.store.put container e old, keys := keys })
    (Table.insert_insert ..)

theorem contents_storing_none (V : ItemView) (container : String) (e : Shelved) (ks : Keys) :
    (V.storing container e none ks).contents container =
      V.contents container ++ [⟨V.store.newId "item", container, e.item, e.children⟩] :=
  ItemStore.contents_put_none ..

theorem contents_storing_some (V : ItemView) (container : String) (e : Shelved) (old : String)
    (ks : Keys) :
    (V.storing container e (some old) ks).contents container =
      (V.contents container).filter (fun i => i.id ≠ old) ++
        [⟨V.store.newId "item", container, e.item, e.children⟩] :=
  ItemStore.contents_put_some ..

/-! ## How a view changes -/

/-- How the container of an owner and name is found, with its id. -/
inductive Opens (kind : ItemKind) (owner name : String) (V : ItemView) :
    String → ItemView → Prop
  /-- The restore knows it. -/
  | known {id : String} (h : V.containers.find? (kind.category, owner, name) = some id) :
      Opens kind owner name V id V
  /-- The store is asked for it. -/
  | asked (h : V.containers.find? (kind.category, owner, name) = none) :
      Opens kind owner name V (V.store.containerOf owner name).1
        ((V.asked kind (.container owner name)).knowing (kind.category, owner, name)
          (V.store.containerOf owner name).1)

/-- How an item is stored in a container, with the fault in which this may end. -/
inductive Puts (policy : CollisionPolicy) (container : String) (e : Shelved) (V : ItemView) :
    Except Fault Unit → ItemView → Prop
  /-- There is an item of the key, which is kept. -/
  | kept {ks : Keys} (hks : Mirrors ks (V.contents container)) (hskip : policy = .skip)
      (htaken : ∃ i ∈ V.contents container, i.key = e.key) :
      Puts policy container e V (.error (.itemAlreadyExists e.key)) (V.keeping container ks)
  /-- The item comes behind the others. -/
  | added {ks : Keys} (hks : Mirrors ks (V.contents container))
      (hfree : policy = .copy ∨ ∀ i ∈ V.contents container, i.key ≠ e.key) :
      Puts policy container e V (.ok ()) (V.storing container e none ks)
  /-- The item takes the place of another one. -/
  | replaced {ks : Keys} (hks : Mirrors ks (V.contents container)) (hreplace : policy = .replace)
      {old : StoredItem} (hold : old ∈ V.contents container) (hkey : old.key = e.key) :
      Puts policy container e V (.ok ()) (V.storing container e (some old.id) ks)

/-- Learning the keys of the container before makes no difference. -/
theorem Puts.of_keeping {policy : CollisionPolicy} {container : String} {e : Shelved} {ks : Keys}
    {V W : ItemView} {r : Except Fault Unit}
    (h : (V.keeping container ks).Puts policy container e r W) :
    V.Puts policy container e r W := by
  cases h with
  | kept hks hskip htaken =>
    rw [keeping_keeping]
    exact .kept hks hskip htaken
  | added hks hfree =>
    rw [storing_keeping]
    exact .added hks hfree
  | @replaced ks' hks hreplace old hold hkey =>
    rw [storing_keeping]
    exact Puts.replaced (V := V) hks hreplace hold hkey

/-- An item is stored in the same way whatever its children are. -/
theorem Puts.stored {policy : CollisionPolicy} {container : String} {e : Shelved}
    {V W : ItemView} (h : V.Puts policy container e (.ok ()) W) :
    ∃ old ks, W = V.storing container e old ks ∧ ∀ children,
      V.Puts policy container ⟨e.item, children⟩ (.ok ())
        (V.storing container ⟨e.item, children⟩ old ks) := by
  cases h with
  | added hks hfree => exact ⟨none, _, rfl, fun _ => .added hks hfree⟩
  | replaced hks hreplace hold hkey =>
    exact ⟨_, _, rfl, fun _ => .replaced hks hreplace hold hkey⟩

/-- So is it kept out. -/
theorem Puts.refused {policy : CollisionPolicy} {container : String} {e : Shelved} {f : Fault}
    {V W : ItemView} (h : V.Puts policy container e (.error f) W) (children : List Json) :
    V.Puts policy container ⟨e.item, children⟩ (.error f) W := by
  cases h with
  | kept hks hskip htaken => exact .kept hks hskip htaken

/-- What a restore knows of a store is true of it. -/
structure Sound (kind : ItemKind) (V : ItemView) : Prop where
  numbered : V.store.Numbered
  known : ∀ owner name id, V.containers.find? (kind.category, owner, name) = some id →
    V.store.containerId? owner name = some id
  mirrors : ∀ container ks, V.keys.find? container = some ks → Mirrors ks (V.contents container)

/-! ### Consequences -/

section Consequences

variable {kind : ItemKind} {policy : CollisionPolicy} {owner name container id : String}
  {e : Shelved} {V W : ItemView} {r : Except Fault Unit}

theorem Opens.contents (h : V.Opens kind owner name id W) (other : String) :
    W.contents other = V.contents other := by
  cases h <;> rfl

theorem Opens.items (h : V.Opens kind owner name id W) : W.store.items = V.store.items := by
  cases h <;> rfl

theorem Opens.faults (h : V.Opens kind owner name id W) : W.faults = V.faults := by
  cases h <;> rfl

/-- The container that is found is the one of its owner and name. -/
theorem Opens.found (h : V.Opens kind owner name id W) (hV : V.Sound kind) :
    W.store.containerId? owner name = some id := by
  cases h with
  | known h => exact hV.known owner name id h
  | asked _ => exact (ItemStore.containerId?_containerOf ..).trans (if_pos rfl)

/-- Containers keep their ids. -/
theorem Opens.keeps (h : V.Opens kind owner name id W) {owner' name' id' : String}
    (hid : V.store.containerId? owner' name' = some id') :
    W.store.containerId? owner' name' = some id' := by
  cases h with
  | known _ => exact hid
  | asked _ => exact ItemStore.containerId?_containerOf_of_some hid

theorem Opens.sound (h : V.Opens kind owner name id W) (hV : V.Sound kind) : W.Sound kind where
  numbered := by
    cases h with
    | known _ => exact hV.numbered
    | asked _ => exact hV.numbered.respond kind _
  known owner' name' id' hid := by
    have hfound := h.found hV
    cases h with
    | known _ => exact hV.known owner' name' id' hid
    | asked hnew =>
      rw [knowing, Table.find?_insert] at hid
      split at hid
      · rename_i heq
        cases heq
        cases hid
        exact hfound
      · exact (Opens.asked hnew).keeps (hV.known owner' name' id' hid)
  mirrors other ks hks := by
    rw [h.contents]
    cases h <;> exact hV.mirrors other ks hks

theorem Puts.faults (h : V.Puts policy container e r W) : W.faults = V.faults := by
  cases h <;> rfl

theorem Puts.containerId? (h : V.Puts policy container e r W) (owner name : String) :
    W.store.containerId? owner name = V.store.containerId? owner name := by
  cases h <;> rfl

theorem Puts.contents_of_ne (h : V.Puts policy container e r W) {other : String}
    (hother : other ≠ container) : W.contents other = V.contents other := by
  cases h with
  | kept _ _ _ => rfl
  | added _ _ => exact ItemStore.contents_put_of_ne hother e _
  | replaced _ _ _ _ => exact ItemStore.contents_put_of_ne hother e _

/-- In its container an item is put to the others as the policy wants it. -/
theorem Puts.shelves (h : V.Puts policy container e r W) :
    Shelves policy (V.contents container) e r (W.contents container) := by
  cases h with
  | kept _ hskip htaken => exact .kept hskip htaken
  | added _ hfree =>
    rw [contents_storing_none]
    exact .added hfree rfl
  | replaced _ hreplace hold hkey =>
    rw [contents_storing_some]
    exact .replaced hreplace hold hkey rfl

theorem Sound.nodup (h : V.Sound kind) (container : String) :
    ((V.contents container).map StoredItem.id).Nodup :=
  List.Nodup.sublist (List.filter_sublist.map _) h.numbered.distinct

theorem Puts.sound (h : V.Puts policy container e r W) (hV : V.Sound kind) : W.Sound kind where
  numbered := by
    cases h with
    | kept _ _ _ => exact hV.numbered
    | added _ _ => exact hV.numbered.put ..
    | replaced _ _ _ _ => exact hV.numbered.put ..
  known owner name id hid := by
    rw [h.containerId?]
    refine hV.known owner name id ?_
    cases h <;> exact hid
  mirrors other ks hks := by
    -- of the keys that are known only those of this container change
    by_cases hother : other = container
    · subst hother
      cases h with
      | kept hmirrors _ _ =>
        rw [keeping, Table.find?_insert, if_pos rfl] at hks
        cases hks
        exact hmirrors
      | added hmirrors _ =>
        rw [storing, Table.find?_insert, if_pos rfl] at hks
        cases hks
        rw [contents_storing_none]
        exact hmirrors.concat ⟨V.store.newId "item", other, e.item, e.children⟩
      | replaced hmirrors _ hold hkey =>
        rw [storing, Table.find?_insert, if_pos rfl] at hks
        cases hks
        rw [contents_storing_some]
        -- the one item that is gone had the key of the new one
        refine hmirrors.insert ⟨V.store.newId "item", other, e.item, e.children⟩ ?_
        intro i hi hid
        rw [List.inj_on_of_nodup_map (hV.nodup other) hi hold (by simpa using hid)]
        exact hkey
    · rw [h.contents_of_ne hother]
      refine hV.mirrors other ks ?_
      cases h <;> exact (by simpa [keeping, storing, Ne.symm hother] using hks)

end Consequences

end ItemView

/-! ## Calls -/

section Calls

variable {plan : Plan (ItemStore × ρ)} {kind : ItemKind} {desk : Remote ρ}
  (hremote : plan.remote = ItemStore.beside kind desk)
include hremote

/-- A call about the items is answered by the store. -/
theorem Plan.askItems_itemView (c : ItemCall) (s : Session (ItemStore × ρ)) :
    ∃ t, plan.askItems kind c s = ((s.itemView.store.respond kind c).1, t) ∧
      t.itemView = s.itemView.asked kind c := by
  unfold Plan.askItems Plan.ask
  rw [hremote]
  simp only [ItemStore.beside, ↓reduceIte]
  exact ⟨_, rfl, rfl⟩

/-- Accounting for something leaves the store alone. -/
theorem Plan.credit_itemView (r : Receipt) (s : Session (ItemStore × ρ)) :
    (plan.credit r s).itemView = s.itemView := by
  unfold Plan.credit Plan.perform Plan.ask
  rw [hremote]
  rfl

/-! ## Finding a container -/

/-- The container of a collection is found, and asked for at most once. -/
theorem Plan.containerFor_itemView (path : BackupPath) (s : Session (ItemStore × ρ)) :
    ∃ id t, (plan.containerFor kind path).run s = (.ok id, t) ∧
      s.itemView.Opens kind path.owner (plan.options.containerName path) id t.itemView := by
  obtain ⟨t, hask, hview⟩ := Plan.askItems_itemView hremote
    (.container path.owner (plan.options.containerName path)) s
  rw [Plan.containerFor_run]
  dsimp only
  rw [hask]
  rcases hfind : s.registry.containers.find? _ with _ | id
  · refine ⟨_, _, rfl, ?_⟩
    have hasked := ItemView.Opens.asked (V := s.itemView) hfind
    rw [← hview] at hasked
    exact hasked
  · exact ⟨id, s, rfl, .known hfind⟩

/-! ## Storing an item -/

/-- The keys of a container are known after they have been asked for, and mirror it. -/
theorem Plan.knownKeys_itemView {s : Session (ItemStore × ρ)} (hs : s.itemView.Sound kind)
    (container : String) :
    ∃ ks t, (knownKeys container (plan.askItems kind (.listKeys container))).run s = (.ok ks, t) ∧
      Mirrors ks (s.itemView.contents container) ∧
      (t.itemView = s.itemView ∨ t.itemView = s.itemView.keeping container ks) := by
  rcases hfind : s.registry.keys.find? container with _ | ks
  · obtain ⟨t, hask, hview⟩ := Plan.askItems_itemView hremote (.listKeys container) s
    refine ⟨_, _, plan.knownKeys_of_none hfind hask, s.itemView.store.mirrors_keys container,
      Or.inr ?_⟩
    change t.itemView.keeping container _ = _
    rw [hview]
    rfl
  · exact ⟨ks, s, knownKeys_of_some hfind, hs.mirrors container ks hfind, Or.inl rfl⟩

/-- An item is created in a container that exists. -/
theorem Plan.create_itemView {s : Session (ItemStore × ρ)} {owner name container : String}
    (hcontainer : s.itemView.store.containerId? owner name = some container) (item : Item) :
    ∃ t, plan.askItems kind (.create container item) s =
        (.ok (s.itemView.store.newId "item"), t) ∧
      t.itemView = { s.itemView with store := s.itemView.store.put container ⟨item, []⟩ none } := by
  obtain ⟨t, hask, hview⟩ := Plan.askItems_itemView hremote (.create container item) s
  have hcreate : s.itemView.store.respond kind (.create container item) = _ :=
    ItemStore.create_of_containerId? hcontainer item
  rw [hcreate] at hask
  refine ⟨t, hask, hview.trans ?_⟩
  rw [ItemView.asked, hcreate]

/-- The item that is replaced is deleted after another one has been created. -/
theorem Plan.delete_itemView {s : Session (ItemStore × ρ)} {V : ItemView}
    (hV : V.store.Numbered) {container : String} {old : StoredItem}
    (hold : old ∈ V.contents container) {e : Shelved}
    (hs : s.itemView = { V with store := V.store.put container e none }) :
    ∃ t, plan.askItems kind (.delete container old.id) s = (.ok (), t) ∧
      t.itemView = { V with store := V.store.put container e (some old.id) } := by
  obtain ⟨t, hask, hview⟩ := Plan.askItems_itemView hremote (.delete container old.id) s
  have hdelete : s.itemView.store.respond kind (.delete container old.id) =
      (.ok (), V.store.put container e (some old.id)) := by
    rw [hs]
    exact ItemStore.delete_put hV hold e
  rw [hdelete] at hask
  refine ⟨t, hask, hview.trans ?_⟩
  rw [ItemView.asked, hdelete, hs]

/-- An item is placed in a container of which some keys are known. -/
theorem Plan.place_itemView {s : Session (ItemStore × ρ)} (hnumbered : s.itemView.store.Numbered)
    {owner name container : String}
    (hcontainer : s.itemView.store.containerId? owner name = some container) {ks : Keys}
    (hks : Mirrors ks (s.itemView.contents container)) (item : Item) :
    ∃ r t, plan.place container item.key ks (plan.askItems kind (.create container item))
        (fun old => plan.askItems kind (.delete container old)) s = (r, t) ∧
      s.itemView.Puts plan.options.onCollision container ⟨item, []⟩ (r.map fun _ => ())
        t.itemView ∧
      (∀ f, r = .error f → f.createdItem? = none) ∧
      ∀ id, r = .ok id → id = s.itemView.store.newId "item" := by
  obtain ⟨t, hcreate, hcreated⟩ := Plan.create_itemView hremote hcontainer item
  by_cases hskip : ks.contains item.key ∧ plan.options.onCollision = .skip
  · -- the item is kept out
    refine ⟨_, _, plan.place_eq container (settle_kept hskip), ?_, ?_, by simp⟩
    · exact .kept hks hskip.2 (hks.contains_iff.1 hskip.1)
    · rintro _ ⟨⟩
      rfl
  by_cases hreplace : plan.options.onCollision = .replace ∧ (ks.find? item.key).isSome
  · -- the item takes the place of the one whose id is known
    obtain ⟨hpolicy, hsome⟩ := hreplace
    obtain ⟨id, hid⟩ := Option.isSome_iff_exists.1 hsome
    obtain ⟨old, hold, rfl, hkey⟩ := hks.held _ _ hid
    obtain ⟨u, hdelete, hdeleted⟩ := Plan.delete_itemView hremote hnumbered hold hcreated
    refine ⟨_, _, plan.place_eq container (settle_replaced hpolicy hid hcreate hdelete), ?_,
      by simp, by rintro _ ⟨⟩; rfl⟩
    have hputs : s.itemView.Puts plan.options.onCollision container ⟨item, []⟩ (.ok ()) _ :=
      .replaced hks hpolicy hold hkey
    have hview : (plan.perform (.keys container (ks.insert item.key
        (s.itemView.store.newId "item"))) u).itemView = u.itemView.keeping container _ := rfl
    rw [hview, hdeleted]
    exact hputs
  · -- the item is put to the others
    have hnone : plan.options.onCollision = .replace → ks.find? item.key = none := by
      intro hpolicy
      by_contra hsome
      exact hreplace ⟨hpolicy, Option.isSome_iff_ne_none.2 hsome⟩
    refine ⟨_, _, plan.place_eq container (settle_added hskip hcreate hnone), ?_,
      by simp, by rintro _ ⟨⟩; rfl⟩
    have hfree : plan.options.onCollision = .copy ∨
        ∀ i ∈ s.itemView.contents container, i.key ≠ item.key := by
      cases hpolicy : plan.options.onCollision with
      | copy => exact Or.inl rfl
      | skip =>
        refine Or.inr fun i hi hkey => hskip ⟨?_, hpolicy⟩
        exact hks.contains_iff.2 ⟨i, hi, hkey⟩
      | replace => exact Or.inr (hks.find?_eq_none (hnone hpolicy))
    have hputs : s.itemView.Puts plan.options.onCollision container ⟨item, []⟩ (.ok ()) _ :=
      .added hks hfree
    have hview : (plan.perform (.keys container (ks.insert item.key
        (s.itemView.store.newId "item"))) t).itemView = t.itemView.keeping container _ := rfl
    rw [hview, hcreated]
    exact hputs

/-- An item is created in a container as the policy wants it. -/
theorem Plan.createItem_itemView {s : Session (ItemStore × ρ)} (hs : s.itemView.Sound kind)
    {owner name container : String}
    (hcontainer : s.itemView.store.containerId? owner name = some container) (item : Item) :
    ∃ r t, (plan.createItem kind container item).run s = (r, t) ∧
      s.itemView.Puts plan.options.onCollision container ⟨item, []⟩ (r.map fun _ => ())
        t.itemView ∧
      ∀ created, r = .ok created → created.1 = s.itemView.store.newId "item" := by
  obtain ⟨ks, u, hknown, hks, hview⟩ := Plan.knownKeys_itemView hremote hs container
  have hstore : u.itemView.store = s.itemView.store := by
    rcases hview with hview | hview <;> rw [hview]
    rfl
  have hnumbered := hs.numbered
  rw [← hstore] at hnumbered hcontainer
  have hmirrors : Mirrors ks (u.itemView.contents container) := by
    rw [ItemView.contents, hstore]
    exact hks
  obtain ⟨r, t, hplace, hputs, hplain, hid⟩ :=
    Plan.place_itemView hremote hnumbered hcontainer hmirrors item
  have hputs : s.itemView.Puts plan.options.onCollision container ⟨item, []⟩
      (r.map fun _ => ()) t.itemView := by
    rcases hview with hview | hview <;> rw [hview] at hputs
    · exact hputs
    · exact hputs.of_keeping
  rw [hstore] at hid
  unfold Plan.createItem
  rw [Restoring.run_bind_ok hknown]
  dsimp only
  rw [Restoring.run_always_bind hplace]
  cases r with
  | error f =>
    dsimp only
    rw [hplain f rfl]
    exact ⟨_, _, rfl, hputs, by simp⟩
  | ok id => exact ⟨_, _, rfl, hputs, by rintro _ ⟨⟩; exact hid id rfl⟩

/-- The view after the children of an item have been created. -/
theorem Plan.addChildren_itemView {s : Session (ItemStore × ρ)} {V : ItemView}
    (hV : V.store.Numbered) {container : String} {item : Item} {old : Option String} {ks : Keys}
    (hs : s.itemView = V.storing container ⟨item, []⟩ old ks) (children : List Json) :
    ∃ t, plan.askItems kind (.addChildren container (V.store.newId "item") children) s =
        (.ok (), t) ∧ t.itemView = V.storing container ⟨item, children⟩ old ks := by
  obtain ⟨t, hask, hview⟩ := Plan.askItems_itemView hremote
    (.addChildren container (V.store.newId "item") children) s
  have hadd : s.itemView.store.respond kind
      (.addChildren container (V.store.newId "item") children) =
      (.ok (), V.store.put container ⟨item, children⟩ old) := by
    rw [hs]
    exact (ItemStore.respond_addChildren (hV.put container ⟨item, []⟩ old).keepsChildren ..).trans
      (ItemStore.addChildren_put hV container item children old)
  rw [hadd] at hask
  refine ⟨t, hask, hview.trans ?_⟩
  rw [ItemView.asked, hadd, hs]
  rfl

omit hremote in
/-- An entry that can't be read changes nothing. -/
theorem Plan.restoreItem_unread (c : Collection) (container : String) {entry : Entry} {f : Fault}
    (h : plan.shelved kind entry = .error f) (s : Session (ItemStore × ρ)) :
    ∃ t, (plan.restoreItem kind c container entry).run s = (.error f, t) ∧
      t.itemView = s.itemView := by
  unfold Plan.shelved at h
  rw [Plan.restoreItem_run]
  rcases hread : Item.ofEntry kind entry with f' | stored <;> rw [hread] at h
  · cases h
    exact ⟨_, rfl, rfl⟩
  · cases h

/-- An entry that can be read is stored as the policy wants it. -/
theorem Plan.restoreItem_itemView {s : Session (ItemStore × ρ)} (hs : s.itemView.Sound kind)
    {owner name container : String}
    (hcontainer : s.itemView.store.containerId? owner name = some container) (c : Collection)
    {entry : Entry} {e : Shelved} (he : plan.shelved kind entry = .ok e) :
    ∃ r t, (plan.restoreItem kind c container entry).run s = (r, t) ∧
      s.itemView.Puts plan.options.onCollision container e r t.itemView := by
  unfold Plan.shelved at he
  rw [Plan.restoreItem_run]
  rcases hread : Item.ofEntry kind entry with f | stored <;> rw [hread] at he
  · cases he
  have he := Except.ok.inj he
  dsimp only at he ⊢
  generalize stored.locate plan.options.location entry.name = located at he ⊢
  subst he
  obtain ⟨r, t, hcreate, hputs, hid⟩ := Plan.createItem_itemView hremote
    (s := plan.perform (.tally Tally.see) s) hs hcontainer located.withoutChildren
  have hview : (plan.perform (.tally Tally.see) s).itemView = s.itemView := rfl
  rw [hview] at hputs hid
  rw [hcreate]
  rcases r with f | ⟨id, updated⟩
  · exact ⟨_, t, rfl, hputs.refused located.children⟩
  obtain rfl : id = s.itemView.store.newId "item" := hid _ rfl
  dsimp only
  -- the item has been stored without its children, which follow if there are any
  obtain ⟨old, ks, hstored, hchildren⟩ := hputs.stored
  have hputs := hchildren located.children
  split
  · rename_i hnone
    refine ⟨_, _, rfl, ?_⟩
    rw [Plan.credit_itemView hremote]
    rw [List.isEmpty_iff.1 hnone] at hputs ⊢
    rw [← hstored] at hputs
    exact hputs
  · obtain ⟨u, hadd, hadded⟩ :=
      Plan.addChildren_itemView hremote hs.numbered hstored located.children
    rw [hadd]
    refine ⟨_, _, rfl, ?_⟩
    rw [Plan.credit_itemView hremote]
    rw [← hadded] at hputs
    exact hputs

end Calls

end TenantRestore
