/-
# The items of a store

An id of a store is made of a word and a running number, so no two items have the same id; this
is `ItemStore.Numbered`, and it holds of every store that can be reached by putting items into a
new one and by calls.

An item is stored by up to three calls: it is created, the item it replaces is deleted, and its
children are created.  Together they are `ItemStore.put`, which is what the rest of the
development speaks of.  The keys that a store lists for a container mirror what is in it, and so
do the keys a restore keeps by itself (`Mirrors`).
-/
import TenantRestore.Proofs.Ids
import TenantRestore.Proofs.Items.Shelf

namespace TenantRestore

/-! ## Keys that mirror a container -/

/-- The keys of some items, each with the id of such an item. -/
structure Mirrors (ks : Keys) (l : List StoredItem) : Prop where
  held : ∀ key id, ks.find? key = some id → ∃ i ∈ l, i.id = id ∧ i.key = key
  known : ∀ i ∈ l, ks.contains i.key

namespace Mirrors

variable {ks : Keys} {l : List StoredItem}

theorem ofList (l : List StoredItem) : Mirrors (.ofList (l.map fun i => (i.key, i.id))) l where
  held key id h := by
    obtain ⟨i, hi, heq⟩ := List.mem_map.1 (Table.mem_of_find?_ofList h)
    cases heq
    exact ⟨i, hi, rfl, rfl⟩
  known i hi := Table.contains_ofList.2 ⟨i.id, List.mem_map_of_mem hi⟩

theorem contains_iff (h : Mirrors ks l) {key : String} :
    ks.contains key ↔ ∃ i ∈ l, i.key = key := by
  constructor
  · intro hkey
    obtain ⟨id, hid⟩ := Option.isSome_iff_exists.1 hkey
    obtain ⟨i, hi, -, hkey⟩ := h.held key id hid
    exact ⟨i, hi, hkey⟩
  · rintro ⟨i, hi, rfl⟩
    exact h.known i hi

theorem find?_eq_none (h : Mirrors ks l) {key : String} (hkey : ks.find? key = none) :
    ∀ i ∈ l, i.key ≠ key := by
  rintro i hi rfl
  have hknown := h.known i hi
  rw [Table.contains, hkey] at hknown
  cases hknown

/-- Items without the new key, or all items, may stay beside a new item. -/
theorem insert (h : Mirrors ks l) {p : StoredItem → Bool} (new : StoredItem)
    (hp : ∀ i ∈ l, p i = false → i.key = new.key) :
    Mirrors (ks.insert new.key new.id) (l.filter p ++ [new]) where
  held key id hid := by
    rw [Table.find?_insert] at hid
    split at hid
    · rename_i hkey
      cases hid
      exact ⟨new, by simp, rfl, hkey⟩
    · rename_i hkey
      obtain ⟨i, hi, hiid, hikey⟩ := h.held key id hid
      refine ⟨i, List.mem_append_left _ (List.mem_filter.2 ⟨hi, ?_⟩), hiid, hikey⟩
      by_contra hgone
      exact hkey ((hp i hi (by simpa using hgone)).symm.trans hikey)
  known i hi := by
    rw [Table.contains_insert]
    rcases List.mem_append.1 hi with hi | hi
    · simp [h.known i (List.mem_filter.1 hi).1]
    · simp [List.mem_singleton.1 hi]

theorem concat (h : Mirrors ks l) (new : StoredItem) :
    Mirrors (ks.insert new.key new.id) (l ++ [new]) := by
  have hall := h.insert (p := fun _ => true) new (by simp)
  rwa [List.filter_true] at hall

end Mirrors

namespace ItemStore

variable {s : ItemStore}

/-- The items in a container, in the order of their creation. -/
def contents (s : ItemStore) (container : String) : List StoredItem :=
  s.items.filter fun i => i.container = container

/-- The keys a store lists mirror the container. -/
theorem mirrors_keys (s : ItemStore) (container : String) :
    Mirrors (s.keys container) (s.contents container) :=
  .ofList _

/-! ## Stores that can be reached -/

/-- The items of a store have distinct ids, which have been given, and can have children. -/
structure Numbered (s : ItemStore) : Prop where
  distinct : (s.items.map StoredItem.id).Nodup
  given : ∀ i ∈ s.items, Given s.count i.id
  keepsChildren : s.keepsChildren

theorem map_id_putChildren (item : String) (children : List Json) (l : List StoredItem) :
    (putChildren item children l).map StoredItem.id = l.map StoredItem.id := by
  induction l with
  | nil => rfl
  | cons i l ih =>
    rw [putChildren]
    split
    · rfl
    · rw [List.map_cons, ih, List.map_cons]

/-- A store that keeps children takes those of an item. -/
theorem respond_addChildren (h : s.keepsChildren) (kind : ItemKind) (container item : String)
    (children : List Json) :
    s.respond kind (.addChildren container item children) = s.addChildren item children :=
  if_pos h

namespace Numbered

/-- Only the ids and their number matter. -/
theorem of_ids (h : s.Numbered) {t : ItemStore}
    (hids : t.items.map StoredItem.id = s.items.map StoredItem.id) (hcount : s.count ≤ t.count)
    (hchildren : t.keepsChildren = s.keepsChildren) : t.Numbered where
  distinct := by
    rw [hids]
    exact h.distinct
  given i hi := by
    have hid : i.id ∈ s.items.map StoredItem.id := hids ▸ List.mem_map_of_mem hi
    obtain ⟨j, hj, hji⟩ := List.mem_map.1 hid
    exact hji ▸ (h.given j hj).mono hcount
  keepsChildren := hchildren.trans h.keepsChildren

theorem filter (h : s.Numbered) (p : StoredItem → Bool) :
    Numbered { s with items := s.items.filter p } where
  distinct := List.Nodup.sublist (List.filter_sublist.map _) h.distinct
  given i hi := h.given i (List.mem_filter.1 hi).1
  keepsChildren := h.keepsChildren

/-- A new id is not that of an item. -/
theorem newId_ne (h : s.Numbered) (word : String) : ∀ i ∈ s.items, i.id ≠ s.newId word := by
  intro i hi hid
  have hgiven := h.given i hi
  rw [hid] at hgiven
  exact not_given_next s.count word hgiven

theorem concat (h : s.Numbered) (word : String) {new : StoredItem} (hnew : new.id = s.newId word) :
    Numbered { s with items := s.items ++ [new], count := s.count + 1 } where
  distinct := by
    rw [List.map_append, List.map_singleton, hnew]
    refine List.nodup_append.2 ⟨h.distinct, List.nodup_singleton _, ?_⟩
    rintro id hid _ hlast rfl
    obtain ⟨i, hi, rfl⟩ := List.mem_map.1 hid
    exact h.newId_ne word i hi (List.mem_singleton.1 hlast)
  given i hi := by
    rcases List.mem_append.1 hi with hi | hi
    · exact (h.given i hi).mono (Nat.le_succ _)
    · rw [List.mem_singleton.1 hi, hnew]
      exact given_next s.count word
  keepsChildren := h.keepsChildren

theorem containerOf (h : s.Numbered) (owner name : String) :
    (s.containerOf owner name).2.Numbered :=
  h.of_ids rfl (Nat.le_succ _) rfl

theorem addExisting (h : s.Numbered) (owner name : String) (item : Item) :
    (s.addExisting owner name item).2.Numbered :=
  (h.containerOf owner name).concat "existing" rfl

theorem create (h : s.Numbered) (container : String) (item : Item) :
    (s.create container item).2.Numbered := by
  unfold ItemStore.create
  split
  · exact h.concat "item" rfl
  · exact h

theorem addChildren (h : s.Numbered) (item : String) (children : List Json) :
    (s.addChildren item children).2.Numbered := by
  unfold ItemStore.addChildren
  split
  · exact h.of_ids (map_id_putChildren item children s.items) (Nat.le_refl _) rfl
  · exact h

theorem delete (h : s.Numbered) (container item : String) :
    (s.delete container item).2.Numbered := by
  unfold ItemStore.delete
  split
  · exact h.filter _
  · exact h

theorem respond (h : s.Numbered) (kind : ItemKind) (c : ItemCall) :
    (s.respond kind c).2.Numbered := by
  cases c with
  | container owner name => exact (h.containerOf owner name).of_ids rfl (Nat.le_refl _) rfl
  | listKeys _ => exact h
  | create container item => exact h.create container item
  | addChildren _ item children =>
    rw [respond_addChildren h.keepsChildren]
    exact h.addChildren item children
  | delete container item => exact h.delete container item

end Numbered

/-- A store that can come about. -/
inductive Reached : ItemStore → Prop
  /-- A new store. -/
  | new : Reached {}
  /-- An item is put into it. -/
  | addExisting {s : ItemStore} (h : Reached s) (owner name : String) (item : Item) :
      Reached (s.addExisting owner name item).2
  /-- It has answered a call. -/
  | call {s : ItemStore} (h : Reached s) (kind : ItemKind) (c : ItemCall) :
      Reached (s.respond kind c).2

theorem Reached.numbered (h : s.Reached) : s.Numbered := by
  induction h with
  | new => exact ⟨List.nodup_nil, by simp, rfl⟩
  | addExisting _ owner name item ih => exact ih.addExisting owner name item
  | call _ kind c ih => exact ih.respond kind c

/-! ## Containers -/

theorem containerId?_containerOf (s : ItemStore) (owner name owner' name' : String) :
    (s.containerOf owner name).2.containerId? owner' name' =
      if (owner, name) = (owner', name') then some (s.containerOf owner name).1
      else s.containerId? owner' name' :=
  Table.find?_insert ..

/-- A container that exists keeps its id when it, or another one, is asked for. -/
theorem containerId?_containerOf_of_some {owner name owner' name' container : String}
    (h : s.containerId? owner' name' = some container) :
    (s.containerOf owner name).2.containerId? owner' name' = some container := by
  rw [containerId?_containerOf]
  split
  · rename_i heq
    cases heq
    have hfind : s.containers.find? (owner, name) = some container := h
    rw [containerOf, hfind]
    rfl
  · exact h

/-! ## Storing an item -/

/-- The store after an item with its children has been stored, and the one it replaces deleted. -/
def put (s : ItemStore) (container : String) (e : Shelved) (old : Option String) : ItemStore :=
  { s with
    items := s.items.filter (fun i => ¬ (i.container = container ∧ some i.id = old)) ++
      [⟨s.newId "item", container, e.item, e.children⟩]
    count := s.count + 1 }

@[simp] theorem containers_put (s : ItemStore) (container : String) (e : Shelved)
    (old : Option String) : (s.put container e old).containers = s.containers := rfl

theorem Numbered.put (h : s.Numbered) (container : String) (e : Shelved) (old : Option String) :
    (s.put container e old).Numbered :=
  (h.filter _).concat "item" rfl

theorem contents_put (s : ItemStore) (container : String) (e : Shelved) (old : Option String) :
    (s.put container e old).contents container =
      (s.contents container).filter (fun i => some i.id ≠ old) ++
        [⟨s.newId "item", container, e.item, e.children⟩] := by
  unfold contents put
  rw [List.filter_append, List.filter_filter, List.filter_filter]
  congr 1
  · refine List.filter_congr fun i _ => ?_
    by_cases hi : i.container = container <;> simp [hi]
  · simp

theorem contents_put_of_ne {container other : String} (h : other ≠ container) (e : Shelved)
    (old : Option String) : (s.put container e old).contents other = s.contents other := by
  unfold contents put
  rw [List.filter_append, List.filter_filter]
  have hnew : List.filter (fun i : StoredItem => decide (i.container = other))
      [⟨s.newId "item", container, e.item, e.children⟩] = [] := by
    simp [Ne.symm h]
  rw [hnew, List.append_nil]
  refine List.filter_congr fun i _ => ?_
  by_cases hi : i.container = other
  · simp [hi, h]
  · simp [hi]

/-- Without one to be replaced, all other items stay. -/
theorem put_none (s : ItemStore) (container : String) (e : Shelved) :
    s.put container e none =
      { s with
        items := s.items ++ [⟨s.newId "item", container, e.item, e.children⟩]
        count := s.count + 1 } := by
  simp [put]

theorem contents_put_none (s : ItemStore) (container : String) (e : Shelved) :
    (s.put container e none).contents container =
      s.contents container ++ [⟨s.newId "item", container, e.item, e.children⟩] := by
  rw [contents_put]
  simp

theorem contents_put_some (s : ItemStore) (container : String) (e : Shelved) (old : String) :
    (s.put container e (some old)).contents container =
      (s.contents container).filter (fun i => i.id ≠ old) ++
        [⟨s.newId "item", container, e.item, e.children⟩] := by
  rw [contents_put]
  simp

/-! ### The calls that store an item -/

/-- An item is created in a container that exists. -/
theorem create_of_containerId? {owner name container : String}
    (h : s.containerId? owner name = some container) (item : Item) :
    s.create container item = (.ok (s.newId "item"), s.put container ⟨item, []⟩ none) := by
  have hany : s.containers.entries.any fun e => e.2 = container := by
    obtain ⟨e, he, heq⟩ := Option.map_eq_some_iff.1 h
    exact List.any_eq_true.2 ⟨e, List.mem_of_find?_eq_some he, by simpa using heq⟩
  rw [put_none]
  exact if_pos hany

/-- An item that is to be replaced is deleted once the other one is there. -/
theorem delete_put (h : s.Numbered) {container : String} {old : StoredItem}
    (hold : old ∈ s.contents container) (e : Shelved) :
    (s.put container e none).delete container old.id =
      (.ok (), s.put container e (some old.id)) := by
  obtain ⟨hmem, hcontainer⟩ := List.mem_filter.1 hold
  have hnew := h.newId_ne "item" old hmem
  rw [put_none]
  unfold delete
  rw [if_pos]
  · -- the new item has another id, so that it stays
    simp [put, Ne.symm hnew]
  · exact List.any_eq_true.2 ⟨old, List.mem_append_left _ hmem, by simpa using hcontainer⟩

/-- The children of an item are put to it if it is the last one. -/
theorem putChildren_concat {l : List StoredItem} (new : StoredItem)
    (h : ∀ i ∈ l, i.id ≠ new.id) (children : List Json) : putChildren new.id children (l ++ [new]) =
      l ++ [{ new with children := new.children ++ children }] := by
  induction l with
  | nil => simp [putChildren]
  | cons i l ih =>
    rw [List.cons_append, putChildren, if_neg (h i (List.mem_cons_self ..)),
      ih fun j hj => h j (List.mem_cons_of_mem _ hj), List.cons_append]

/-- The children of an item are created after it. -/
theorem addChildren_put (h : s.Numbered) (container : String) (item : Item)
    (children : List Json) (old : Option String) :
    (s.put container ⟨item, []⟩ old).addChildren (s.newId "item") children =
      (.ok (), s.put container ⟨item, children⟩ old) := by
  have hany : (s.put container ⟨item, []⟩ old).items.any fun i => i.id = s.newId "item" := by
    simp [put]
  have hnew : ∀ i ∈ s.items.filter (fun i => ¬ (i.container = container ∧ some i.id = old)),
      i.id ≠ s.newId "item" :=
    fun i hi => h.newId_ne "item" i (List.mem_filter.1 hi).1
  unfold addChildren
  rw [if_pos hany]
  unfold put
  dsimp only
  rw [putChildren_concat ⟨s.newId "item", container, item, []⟩ hnew]
  rfl

end ItemStore

end TenantRestore
