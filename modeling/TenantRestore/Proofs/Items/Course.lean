/-
# From boundary to boundary, as seen from a store of items

What comes of the entries of its collections is offered to a run one after the other, and at every
boundary some of it has been dealt with: its items have been stored or kept out, and faults have
been noted.  What this keeps up is said of the offers dealt with so far and of the view of the
store (`Plan.Upholds`), and holds at every boundary: `Plan.boundary_offers` is the only induction
over a run.
-/
import TenantRestore.Proofs.Items.View
import TenantRestore.Proofs.Path

namespace TenantRestore

/-! ## Offers -/

/-- What comes when a collection is read, together with the collection. -/
abbrev Offer := Collection × Except Failure Entry

/-- All that comes when a collection is read. -/
def Collection.offers (c : Collection) : List Offer := c.entries.map (Prod.mk c)

/-- All that comes when collections are read, in the order in which they are restored. -/
def Collection.offersOf (cs : List Collection) : List Offer :=
  (Collection.sort cs).flatMap Collection.offers

/-- What is still to come of the entries of a collection that has been entered. -/
def Passage.offers (p : Passage) : List Offer := p.rest.map (Prod.mk p.collection)

section

variable {σ : Type}

/-- What is still to come at a boundary. -/
def Boundary.offers (b : Boundary σ) : List Offer :=
  (b.current.elim [] Passage.offers) ++ b.later.flatMap Collection.offers

/-- An item to be stored, or else the fault to be noted. -/
def Plan.offered (plan : Plan σ) (kind : ItemKind) (o : Offer) : Except Fault Shelved :=
  match o.2 with
  | .error f => .error (.readingFailed o.1.path.text f)
  | .ok e => plan.shelved kind e

/-- At the last boundary of a run that is not interrupted nothing is to come. -/
theorem Plan.Uninterrupted.offers_eq_nil {plan : Plan σ} {cs : List Collection}
    {start : Session σ} (h : plan.Uninterrupted cs start) {n : Nat}
    (hn : (plan.boundary cs start n).over) : (plan.boundary cs start n).offers = [] := by
  obtain ⟨hcurrent, hlater⟩ := h.exhausted hn
  simp [Boundary.offers, hcurrent, hlater]

end

/-- The container for the items of a collection, if it exists. -/
def ItemStore.home? (s : ItemStore) (o : Options) (path : BackupPath) : Option String :=
  s.containerId? path.owner (o.containerName path)

namespace ItemView

variable {ρ : Type}

/-- The view after a fault has been noted. -/
def noting (V : ItemView) (plan : Plan (ItemStore × ρ)) (f : Fault) : ItemView :=
  { V with faults := plan.record V.faults f }

/-- The view after the end of a step has been dealt with: its fault is noted. -/
def ending (V : ItemView) (plan : Plan (ItemStore × ρ)) : Except Fault Unit → ItemView
  | .ok () => V
  | .error f => V.noting plan f

theorem Sound.noting {kind : ItemKind} {V : ItemView} (h : V.Sound kind)
    (plan : Plan (ItemStore × ρ)) (f : Fault) : (V.noting plan f).Sound kind :=
  ⟨h.numbered, h.known, h.mirrors⟩

theorem Sound.ending {kind : ItemKind} {V : ItemView} (h : V.Sound kind)
    (plan : Plan (ItemStore × ρ)) (r : Except Fault Unit) : (V.ending plan r).Sound kind := by
  rcases r with f | ⟨⟩
  · exact h.noting plan f
  · exact h

@[simp] theorem store_ending (V : ItemView) (plan : Plan (ItemStore × ρ)) (r : Except Fault Unit) :
    (V.ending plan r).store = V.store := by
  rcases r with f | ⟨⟩ <;> rfl

@[simp] theorem contents_ending (V : ItemView) (plan : Plan (ItemStore × ρ))
    (r : Except Fault Unit) (container : String) :
    (V.ending plan r).contents container = V.contents container := by
  rw [contents, store_ending, contents]

end ItemView

/-! ## What a run keeps up -/

variable {ρ : Type} {plan : Plan (ItemStore × ρ)} {kind : ItemKind}

/-- A property of what has been dealt with and of the view is kept up by all steps of a run. -/
structure Plan.Upholds (plan : Plan (ItemStore × ρ)) (kind : ItemKind) (cs : List Collection)
    (J : List Offer → ItemView → Prop) : Prop where
  /-- A container is found. -/
  opens : ∀ done V owner name container W, J done V → V.Opens kind owner name container W →
    J done W
  /-- What comes can't be read. -/
  unread : ∀ o ∈ Collection.offersOf cs, ∀ done V container f, J done V →
    V.store.home? plan.options o.1.path = some container → plan.offered kind o = .error f →
    J (done ++ [o]) (V.noting plan f)
  /-- An item is stored, or kept out. -/
  puts : ∀ o ∈ Collection.offersOf cs, ∀ done V container e r W, J done V → V.Sound kind →
    V.store.home? plan.options o.1.path = some container → plan.offered kind o = .ok e →
    V.Puts plan.options.onCollision container e r W → J (done ++ [o]) (W.ending plan r)

/-- Where a run that restores items is at a boundary: some of what comes has been dealt with, and
every collection that has been entered has its container. -/
structure Boundary.Midway (b : Boundary (ItemStore × ρ)) (plan : Plan (ItemStore × ρ))
    (kind : ItemKind) (cs : List Collection) (done : List Offer) : Prop where
  offers : Collection.offersOf cs = done ++ b.offers
  sound : b.session.itemView.Sound kind
  current : ∀ p, b.current = some p → ∃ container, p.entrance = .items kind container ∧
    b.session.itemView.store.home? plan.options p.collection.path = some container
  entered : ∀ c ∈ cs, c ∈ b.later ∨
    (b.session.itemView.store.home? plan.options c.path).isSome

namespace Boundary.Midway

variable {cs : List Collection} {b : Boundary (ItemStore × ρ)} {done : List Offer}

/-- The next thing that comes is among all that comes. -/
theorem mem_offersOf (h : b.Midway plan kind cs done) {c : Collection} {entrance : Entrance}
    {x : Except Failure Entry} {rest : List (Except Failure Entry)}
    (hp : b.current = some ⟨c, entrance, x :: rest⟩) : (c, x) ∈ Collection.offersOf cs := by
  rw [h.offers, Boundary.offers, hp]
  exact List.mem_append_right _ (List.mem_append_left _ (List.mem_cons_self ..))

/-- The next thing that comes has been dealt with, and the containers are as before. -/
theorem deal (h : b.Midway plan kind cs done) {c : Collection} {entrance : Entrance}
    {x : Except Failure Entry} {rest : List (Except Failure Entry)}
    (hp : b.current = some ⟨c, entrance, x :: rest⟩) {s : Session (ItemStore × ρ)}
    (hs : s.itemView.Sound kind) (hstore : ∀ owner name,
      s.itemView.store.containerId? owner name = b.session.itemView.store.containerId? owner name) :
    Boundary.Midway ⟨s, some ⟨c, entrance, rest⟩, b.later⟩ plan kind cs (done ++ [(c, x)]) where
  offers := by
    rw [h.offers, Boundary.offers, hp, List.append_assoc]
    rfl
  sound := hs
  current p hp' := by
    obtain ⟨container, hentrance, hhome⟩ := h.current _ hp
    cases hp'
    exact ⟨container, hentrance, (hstore _ _).trans hhome⟩
  entered c' hc' := by
    rw [ItemStore.home?, hstore]
    exact h.entered c' hc'

/-- A collection without more entries has been left. -/
theorem leave (h : b.Midway plan kind cs done) {c : Collection} {entrance : Entrance}
    (hp : b.current = some ⟨c, entrance, []⟩) {s : Session (ItemStore × ρ)}
    (hs : s.itemView = b.session.itemView) :
    Boundary.Midway ⟨s, none, b.later⟩ plan kind cs done where
  offers := by
    rw [h.offers, Boundary.offers, hp]
    rfl
  sound := by
    rw [hs]
    exact h.sound
  current p hp' := by cases hp'
  entered c' hc' := by
    rw [hs]
    exact h.entered c' hc'

/-- The next collection has been entered. -/
theorem enter (h : b.Midway plan kind cs done) (hcurrent : b.current = none) {c : Collection}
    {later : List Collection} (hlater : b.later = c :: later) {container : String}
    {s : Session (ItemStore × ρ)}
    (hopens : b.session.itemView.Opens kind c.path.owner (plan.options.containerName c.path)
      container s.itemView) :
    Boundary.Midway ⟨s, some ⟨c, .items kind container, c.entries⟩, later⟩ plan kind cs done where
  offers := by
    rw [h.offers, Boundary.offers, hcurrent, hlater]
    rfl
  sound := hopens.sound h.sound
  current p hp := by
    cases hp
    exact ⟨container, rfl, hopens.found h.sound⟩
  entered c' hc' := by
    rcases h.entered c' hc' with hmem | hsome
    · rw [hlater] at hmem
      rcases List.mem_cons.1 hmem with rfl | hmem
      · exact Or.inr (Option.isSome_of_eq_some (hopens.found h.sound))
      · exact Or.inl hmem
    · obtain ⟨id, hid⟩ := Option.isSome_iff_exists.1 hsome
      exact Or.inr (Option.isSome_of_eq_some (hopens.keeps hid))

end Boundary.Midway

theorem ItemKind.handler_category (kind : ItemKind) : kind.category.handler = .items kind := by
  cases kind <;> rfl

section Steps

variable {desk : Remote ρ} (hremote : plan.remote = ItemStore.beside kind desk)
include hremote

/-- A collection is entered between two boundaries. -/
theorem Plan.begin_items {c : Collection} (hc : c.path.category = kind.category)
    (later : List Collection) (s : Session (ItemStore × ρ)) :
    ∃ container t, plan.begin c later s = ⟨t, some ⟨c, .items kind container, c.entries⟩, later⟩ ∧
      s.itemView.Opens kind c.path.owner (plan.options.containerName c.path) container
        t.itemView := by
  obtain ⟨container, t, hrun, hopens⟩ := Plan.containerFor_itemView hremote c.path s
  have hhandler : c.path.category.handler = .items kind := by rw [hc, kind.handler_category]
  have hserves : plan.remote.serves (.items kind) := by simp [hremote, ItemStore.beside]
  refine ⟨container, t, ?_, hopens⟩
  unfold Plan.begin
  rw [Plan.enter_items hhandler hserves, hrun]

/-- An entry is taken between two boundaries. -/
theorem Plan.pass_items {s : Session (ItemStore × ρ)} (hs : s.itemView.Sound kind)
    {c : Collection} {container : String}
    (hcontainer : s.itemView.store.home? plan.options c.path = some container) {e : Entry}
    {x : Shelved} (hx : plan.shelved kind e = .ok x) (rest : List (Except Failure Entry))
    (later : List Collection) :
    ∃ r W t, s.itemView.Puts plan.options.onCollision container x r W ∧
      plan.pass ⟨c, .items kind container, .ok e :: rest⟩ later s =
        ⟨t, some ⟨c, .items kind container, rest⟩, later⟩ ∧ t.itemView = W.ending plan r := by
  obtain ⟨r, t, hrun, hputs⟩ := Plan.restoreItem_itemView hremote hs hcontainer c hx
  have htake : (plan.take c (.items kind container) e).run s = (r, t) := hrun
  refine ⟨r, t.itemView, plan.afterEntry (r, t), hputs, ?_, ?_⟩
  · dsimp only [Plan.pass]
    rw [htake]
  · rcases r with f | ⟨⟩
    · have hgoing := Plan.not_isCancelled_of_take htake
      simp only [Plan.afterEntry, hgoing, Bool.false_eq_true, ↓reduceIte]
      rfl
    · rfl

omit hremote in
/-- The fault of an entry that can't be read is noted. -/
theorem Plan.pass_items_unread (c : Collection) (container : String) {e : Entry} {f : Fault}
    (hf : plan.shelved kind e = .error f) (rest : List (Except Failure Entry))
    (later : List Collection) (s : Session (ItemStore × ρ)) :
    ∃ t, plan.pass ⟨c, .items kind container, .ok e :: rest⟩ later s =
        ⟨t, some ⟨c, .items kind container, rest⟩, later⟩ ∧
      t.itemView = s.itemView.noting plan f := by
  obtain ⟨t, hrun, hview⟩ := Plan.restoreItem_unread c container hf s
  have htake : (plan.take c (.items kind container) e).run s = (.error f, t) := hrun
  have hgoing := Plan.not_isCancelled_of_take htake
  refine ⟨plan.perform (.note f) t, ?_, ?_⟩
  · dsimp only [Plan.pass]
    rw [htake]
    simp only [Plan.afterEntry, hgoing, Bool.false_eq_true, ↓reduceIte]
  · rw [← hview]
    rfl

variable {cs : List Collection} {J : List Offer → ItemView → Prop}
  (hcs : ∀ c ∈ cs, c.path.category = kind.category) (hJ : plan.Upholds kind cs J)
include hcs hJ

theorem Boundary.Midway.advance {b : Boundary (ItemStore × ρ)} {done : List Offer}
    (h : b.Midway plan kind cs done) (hb : J done b.session.itemView)
    (hlater : ∀ c ∈ b.later, c ∈ cs) :
    ∃ done', (plan.advance b).Midway plan kind cs done' ∧
      J done' (plan.advance b).session.itemView := by
  rcases plan.advance_cases b with ⟨p, -, hp, heq⟩ | ⟨c, later, -, hnone, hnext, heq⟩ | ⟨-, heq⟩ <;>
    rw [heq]
  · obtain ⟨container, hentrance, hhome⟩ := h.current p hp
    obtain ⟨c, entrance, rest⟩ := p
    dsimp only at hentrance hhome
    subst hentrance
    rcases rest with _ | ⟨f | e, rest⟩
    · have hview : (plan.pass ⟨c, .items kind container, []⟩ b.later b.session).session.itemView =
          b.session.itemView := by
        dsimp only [Plan.pass]
        split <;> rfl
      exact ⟨done, h.leave hp hview, hview ▸ hb⟩
    · exact ⟨_, h.deal hp (h.sound.noting plan _) fun _ _ => rfl,
        hJ.unread (c, .error f) (h.mem_offersOf hp) done _ container _ hb hhome rfl⟩
    · rcases hx : plan.shelved kind e with f | x
      · obtain ⟨t, hpass, hview⟩ :=
          Plan.pass_items_unread c container hx rest b.later b.session
        rw [hpass]
        refine ⟨done ++ [(c, .ok e)], h.deal hp ?_ ?_, ?_⟩ <;> rw [hview]
        · exact h.sound.noting plan f
        · exact fun _ _ => rfl
        · exact hJ.unread (c, .ok e) (h.mem_offersOf hp) done _ container f hb hhome hx
      · obtain ⟨r, W, t, hputs, hpass, hview⟩ :=
          Plan.pass_items hremote h.sound hhome hx rest b.later
        rw [hpass]
        refine ⟨done ++ [(c, .ok e)], h.deal hp ?_ ?_, ?_⟩ <;> rw [hview]
        · exact (hputs.sound h.sound).ending plan r
        · intro owner name
          rw [ItemView.store_ending]
          exact hputs.containerId? owner name
        · exact hJ.puts (c, .ok e) (h.mem_offersOf hp) done _ container x r W hb h.sound hhome hx
            hputs
  · obtain ⟨container, t, hbegin, hopens⟩ :=
      Plan.begin_items hremote (hcs c (hlater c (by simp [hnext]))) later b.session
    rw [hbegin]
    exact ⟨done, h.enter hnone hnext hopens, hJ.opens done _ _ _ _ _ hb hopens⟩
  · exact ⟨done, h, hb⟩

/-- What all steps keep up holds at every boundary. -/
theorem Plan.boundary_offers {start : Session (ItemStore × ρ)} (hsound : start.itemView.Sound kind)
    (hstart : J [] start.itemView) (n : Nat) :
    ∃ done, (plan.boundary cs start n).Midway plan kind cs done ∧
      J done (plan.boundary cs start n).session.itemView := by
  induction n with
  | zero =>
    refine ⟨[], ⟨rfl, hsound, by simp, fun c hc => Or.inl (Collection.mem_sort.2 hc)⟩, hstart⟩
  | succ n ih =>
    obtain ⟨done, hmidway, hdone⟩ := ih
    rw [Plan.boundary_succ]
    exact hmidway.advance hremote hcs hJ hdone (plan.mem_of_boundary cs start n).1

end Steps

end TenantRestore
