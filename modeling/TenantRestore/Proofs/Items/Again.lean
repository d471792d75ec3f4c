/-
# Restoring the same items again

Under the policy to skip, every entry that can be read has its key in its container when a restore
is over: it has been stored, or there was such an item before.  Run once more on the store it has
left, the restore finds the key of every entry it can read taken, so it stores nothing, and the
fault it notes for each of them says so: `Plan.restocks_nothing`.
-/
import TenantRestore.Proofs.Faults
import TenantRestore.Proofs.Items.Stock

namespace TenantRestore

variable {ρ σ : Type}

/-- The fault of what comes if every key is taken. -/
def Plan.refusal (plan : Plan σ) (kind : ItemKind) (o : Offer) : Fault :=
  match plan.offered kind o with
  | .error f => f
  | .ok e => .itemAlreadyExists e.key

/-- Every entry that can be read has its key in its container. -/
def Plan.Covers (plan : Plan σ) (kind : ItemKind) (cs : List Collection) (t : ItemStore) : Prop :=
  ∀ o ∈ Collection.offersOf cs, ∀ container e, t.home? plan.options o.1.path = some container →
    plan.offered kind o = .ok e → ∃ i ∈ t.contents container, i.key = e.key

/-- What holds of a view of a store that was `t` when the second run started, whose log was `log`,
after some entries have been dealt with. -/
structure Plan.Repeating (plan : Plan σ) (kind : ItemKind) (cs : List Collection) (t : ItemStore)
    (log : FaultLog) (done : List Offer) (V : ItemView) : Prop where
  items : V.store.items = t.items
  homes : ∀ o ∈ Collection.offersOf cs,
    V.store.home? plan.options o.1.path = t.home? plan.options o.1.path
  faults : V.faults = (done.map (plan.refusal kind)).foldl plan.record log

/-- A restore that skips items leaves a store which has the keys of all entries it can read. -/
theorem Plan.Restocking.covers {plan : Plan σ} {kind : ItemKind} {cs : List Collection}
    {s : ItemStore} {V : ItemView} (hpolicy : plan.options.onCollision = .skip)
    (h : plan.Restocking kind s (Collection.offersOf cs) V) : plan.Covers kind cs V.store := by
  intro o ho container e hhome he
  have hstocked := h.stocked container
  rw [hpolicy] at hstocked
  refine (hstocked.exists_key_iff _).2 (List.mem_append_right _ (List.mem_map_of_mem ?_))
  exact List.mem_filterMap.2 ⟨o, ho, by rw [if_pos hhome, he]; rfl⟩

namespace Plan.Repeating

variable {plan : Plan (ItemStore × ρ)} {kind : ItemKind} {cs : List Collection} {t : ItemStore}
  {log : FaultLog} {done : List Offer} {V W : ItemView}

theorem faults_concat (h : plan.Repeating kind cs t log done V) (o : Offer) :
    plan.record V.faults (plan.refusal kind o) =
      ((done ++ [o]).map (plan.refusal kind)).foldl plan.record log := by
  rw [h.faults, List.map_append, List.foldl_append]
  rfl

/-- A container that is known to the store is found as it is. -/
theorem opens (h : plan.Repeating kind cs t log done V)
    (hhomes : ∀ o ∈ Collection.offersOf cs, (t.home? plan.options o.1.path).isSome)
    {owner name container : String} (hopens : V.Opens kind owner name container W) :
    plan.Repeating kind cs t log done W where
  items := hopens.items.trans h.items
  homes o ho := by
    obtain ⟨id, hid⟩ := Option.isSome_iff_exists.1 (hhomes o ho)
    rw [hid]
    exact hopens.keeps ((h.homes o ho).trans hid)
  faults := hopens.faults.trans h.faults

theorem unread (h : plan.Repeating kind cs t log done V) {o : Offer} {f : Fault}
    (ho : plan.offered kind o = .error f) :
    plan.Repeating kind cs t log (done ++ [o]) (V.noting plan f) where
  items := h.items
  homes := h.homes
  faults := by
    rw [← h.faults_concat o, Plan.refusal, ho]
    rfl

/-- An item whose key is taken is kept out. -/
theorem puts (h : plan.Repeating kind cs t log done V)
    (hpolicy : plan.options.onCollision = .skip) (hcovers : plan.Covers kind cs t) {o : Offer}
    (hmem : o ∈ Collection.offersOf cs) {container : String} {e : Shelved} {r : Except Fault Unit}
    (hhome : V.store.home? plan.options o.1.path = some container)
    (ho : plan.offered kind o = .ok e)
    (hputs : V.Puts plan.options.onCollision container e r W) :
    plan.Repeating kind cs t log (done ++ [o]) (W.ending plan r) := by
  rw [h.homes o hmem] at hhome
  obtain ⟨i, hi, hkey⟩ := hcovers o hmem container e hhome ho
  have hcontents : V.contents container = t.contents container := by
    rw [ItemView.contents, ItemStore.contents, h.items, ItemStore.contents]
  rw [hpolicy] at hputs
  cases hputs with
  | kept _ _ _ =>
    refine ⟨h.items, h.homes, ?_⟩
    rw [← h.faults_concat o, Plan.refusal, ho]
    rfl
  | added _ hfree =>
    rcases hfree with hcopy | hfree
    · cases hcopy
    · exact absurd hkey (hfree i (hcontents ▸ hi))
  | replaced _ hreplace _ _ => cases hreplace

theorem upholds (hpolicy : plan.options.onCollision = .skip) (hcovers : plan.Covers kind cs t)
    (hhomes : ∀ o ∈ Collection.offersOf cs, (t.home? plan.options o.1.path).isSome)
    (log : FaultLog) : plan.Upholds kind cs (plan.Repeating kind cs t log) where
  opens _ _ _ _ _ _ h hopens := h.opens hhomes hopens
  unread _ _ _ _ _ _ h _ ho := h.unread ho
  puts _ hmem _ _ _ _ _ _ h _ hhome ho hputs := h.puts hpolicy hcovers hmem hhome ho hputs

end Plan.Repeating

/-- Run again on the store it has left, a restore that skips items stores nothing, and notes for
each entry it can read that its key is taken. -/
theorem Plan.restocks_nothing {plan : Plan (ItemStore × ρ)} {kind : ItemKind} {desk : Remote ρ}
    (hremote : plan.remote = ItemStore.beside kind desk)
    (hpolicy : plan.options.onCollision = .skip) {cs : List Collection}
    (hcs : ∀ c ∈ cs, c.path.category = kind.category) {s : ItemStore} (hs : s.Reached)
    (log log' : FaultLog) (stopped stopped' : Bool) (r r' : ρ)
    (hfirst : plan.Uninterrupted cs (.start plan log stopped (s, r)))
    (hsecond : plan.Uninterrupted cs (.start plan log' stopped'
      ((plan.run cs (.start plan log stopped (s, r))).2.remote.1, r'))) :
    let t := (plan.run cs (.start plan log stopped (s, r))).2.remote.1
    let again := plan.run cs (.start plan log' stopped' (t, r'))
    again.2.remote.1.items = t.items ∧
      again.2.faults.recovered =
        log'.recovered ++ (Collection.offersOf cs).map (plan.refusal kind) := by
  intro t again
  obtain ⟨hsound, hstocked, -⟩ := Plan.dealt_run hremote hcs
    (Plan.Restocking.upholds plan kind cs s)
    (.start plan kind log stopped hs.numbered r) (.refl plan kind rfl) hfirst
  obtain ⟨-, hrepeated, -⟩ := Plan.dealt_run hremote hcs
    (Plan.Repeating.upholds hpolicy (hstocked.covers hpolicy) hstocked.entered log')
    (.start plan kind log' stopped' hsound.numbered r') ⟨rfl, fun _ _ => rfl, rfl⟩ hsecond
  refine ⟨hrepeated.items, ?_⟩
  -- a log that does not fail fast keeps all faults
  have hpatient : plan.failsFast log' = false :=
    Bool.or_eq_false_iff.2 ⟨hsecond.not_failFast, hsecond.patient.not_failFast⟩
  exact (congrArg FaultLog.recovered hrepeated.faults).trans
    (Plan.foldl_record_of_patient hpatient _).2

/-- Of the two versions of a list the first one is stored, and the second run stores none. -/
theorem restocks_nothing_listVersions :
    let start := Session.start (restoringLists .skip) {} false (({} : ItemStore), ())
    let t := ((restoringLists .skip).run listVersions start).2.remote.1
    let second := Session.start (restoringLists .skip) {} false (t, ())
    let again := (restoringLists .skip).run listVersions second
    ((restoringLists .skip).Uninterrupted listVersions start ∧
      (restoringLists .skip).Uninterrupted listVersions second) ∧
      (again.2.remote.1.items = t.items ∧ again.2.faults.recovered =
        [] ++ (Collection.offersOf listVersions).map ((restoringLists .skip).refusal .list)) ∧
      t.items.map (fun i => (i.key, i.children.length)) = [("tasks", 1)] := by
  intro start t second again
  have hfirst : (restoringLists .skip).Uninterrupted listVersions start := by
    refine ⟨rfl, ⟨rfl, rfl⟩, ?_⟩
    rw [Plan.run_eq, sort_listVersions]
    decide +kernel
  have hsecond : (restoringLists .skip).Uninterrupted listVersions second := by
    refine ⟨rfl, ⟨rfl, rfl⟩, ?_⟩
    simp only [second, t, Plan.run_eq, sort_listVersions]
    decide +kernel
  refine ⟨⟨hfirst, hsecond⟩,
    Plan.restocks_nothing rfl rfl category_listVersions .new {} {} false false () () hfirst hsecond,
    ?_⟩
  simp only [t, Plan.run_eq, sort_listVersions]
  decide +kernel

end TenantRestore
