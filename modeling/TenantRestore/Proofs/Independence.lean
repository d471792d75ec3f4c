/-
# Categories and each other

The collections of the different categories share one restore.  This file says when the calls
made on the handler of one of them do not depend on the collections of the others, for handlers
that know nothing of each other.

All that could make a difference is the table of keys, in which a container is known by its id
alone, whichever handler it belongs to.  So independence holds as long as the other handlers do
not disturb the keys of a container by the time an item is to be stored in it
(`Plan.independent_iff`), and fails if two handlers give the same id to containers of theirs.
-/
import TenantRestore.Proofs.Keys
import TenantRestore.Proofs.Lockstep
import TenantRestore.Proofs.Path
import TenantRestore.Store.Items

namespace TenantRestore

/-! ## Where keys are asked for -/

section Places

variable {σ : Type}

/-- In the session `u`, a run that starts with `start` is about to ask for the keys of a
container of the handler `h`, to store an item in it; `ask` is the call that lists them, if it
has to be made. -/
inductive Plan.Consults (plan : Plan σ) (cs : List Collection) (start : Session σ) :
    (h : Handler) → (container : String) → (ask : Steps σ (Except Failure Keys)) →
      (u : Session σ) → Prop
  /-- A file is to be uploaded. -/
  | file {pre post : List Collection} {c : Collection} {address : DriveAddress} {folder : String}
      {t : Session σ} {before after : List (Except Failure Entry)} {e : Entry} {file : DriveFile}
      (hsort : Collection.sort cs = pre ++ c :: post)
      (hhandler : c.path.category.handler = .drive) (hserves : plan.remote.serves .drive)
      (hgoes : (plan.restoreAll pre start).2.goesOn)
      (hentered : (plan.enterFolder c).run (plan.restoreAll pre start).2 =
        (.ok (address, folder), t))
      (hentries : c.entries = before ++ .ok e :: after)
      (hgoes' : ((plan.forEach c.path.text false (plan.restoreDriveEntry c address folder)
        before).run t).2.goesOn)
      (hfile : plan.recognise c e = .ok (.file file)) :
      Consults plan cs start .drive folder (plan.askDrive (.listKeys address.drive folder))
        (plan.perform (.tally Tally.see) ((plan.forEach c.path.text false
          (plan.restoreDriveEntry c address folder) before).run t).2)
  /-- An item is to be created. -/
  | item {pre post : List Collection} {c : Collection} {kind : ItemKind} {container : String}
      {t : Session σ} {before after : List (Except Failure Entry)} {e : Entry} {item : Item}
      (hsort : Collection.sort cs = pre ++ c :: post)
      (hhandler : c.path.category.handler = .items kind)
      (hserves : plan.remote.serves (.items kind))
      (hgoes : (plan.restoreAll pre start).2.goesOn)
      (hentered : (plan.containerFor kind c.path).run (plan.restoreAll pre start).2 =
        (.ok container, t))
      (hentries : c.entries = before ++ .ok e :: after)
      (hgoes' : ((plan.forEach c.path.text false (plan.restoreItem kind c container)
        before).run t).2.goesOn)
      (hitem : Item.ofEntry kind e = .ok item) :
      Consults plan cs start (.items kind) container (plan.askItems kind (.listKeys container))
        (plan.perform (.tally Tally.see) ((plan.forEach c.path.text false
          (plan.restoreItem kind c container) before).run t).2)

/-- Whether a collection belongs to a handler. -/
def Collection.isOf (h : Handler) (c : Collection) : Bool := c.path.category.handler = h

/-- A run makes the same exchanges with a handler as a run without the collections of all other
handlers.  The keys consulted for an item are those its own handler has listed, with the items
that were created there since. -/
structure Plan.Independent (plan : Plan σ) (cs : List Collection) (start : Session σ)
    (h : Handler) : Prop where
  exchanges : exchangesWith h (plan.run cs start).2.trace =
    exchangesWith h (plan.run (cs.filter (Collection.isOf h)) start).2.trace
  keys : ∀ container ask u, plan.Consults cs start h container ask u →
    ∀ keys v, (knownKeys container ask).run u = (.ok keys, v) →
      ∃ own, keysOf container (exchangesWith h v.trace) = some own ∧ keys.find? = own.find?

/-- Whenever the keys of a container are asked for, all exchanges so far tell the same of them
as the exchanges with the handler of the container. -/
def Plan.KeysUndisturbed (plan : Plan σ) (cs : List Collection) (start : Session σ)
    (h : Handler) : Prop :=
  ∀ container ask u, plan.Consults cs start h container ask u →
    (keysOf container u.trace).map Table.find? =
      (keysOf container (exchangesWith h u.trace)).map Table.find?

theorem Plan.keysOf_exchangesWith_ask {plan : Plan σ} {h : Handler} {c : Call}
    (hc : c.handler? = some h) {s : Session σ} {r : Except Failure c.Answer}
    (hr : (plan.ask c s).1 = r) (container : String) :
    keysOf container (exchangesWith h (plan.ask c s).2.trace) =
      (⟨c, r⟩ : Exchange).keysAfter container (keysOf container (exchangesWith h s.trace)) := by
  change keysOf container (exchangesWith h (s.trace ++ [⟨c, (plan.ask c s).1⟩])) = _
  rw [exchangesWith_append_singleton, if_pos hc, keysOf_append_singleton, hr]

namespace Plan.Consults

variable {plan : Plan σ} {cs : List Collection} {start u : Session σ} {h : Handler}
  {container : String} {ask : Steps σ (Except Failure Keys)}

/-- The keys known when they are asked for are those the trace tells. -/
theorem keysFollow (hconsults : plan.Consults cs start h container ask u)
    (hstart : start.KeysFollow) : u.KeysFollow := by
  have hpre (pre : List Collection) := (plan.restoreAll_keysFollow pre start hstart).1
  cases hconsults with
  | file _ _ _ _ hentered _ _ _ =>
    have ht := (plan.enterFolder_keysFollow _).ok hentered (hpre _)
    exact (plan.forEach_keysFollow
      (plan.restoreDriveEntry_keysFollow _ _ _) _ false _).snd ht
  | item _ _ _ _ hentered _ _ _ =>
    have ht := (plan.containerFor_keysFollow _ _).ok hentered (hpre _)
    exact (plan.forEach_keysFollow (plan.restoreItem_keysFollow _ _ _) _ false _).snd ht

/-- The keys that are listed are listed by the handler itself. -/
theorem keysOf_ask (hconsults : plan.Consults cs start h container ask u) {s : Session σ}
    {keys : Keys} (hanswer : (ask s).1 = .ok keys) :
    keysOf container (exchangesWith h (ask s).2.trace) = some keys := by
  cases hconsults with
  | file => exact (Plan.keysOf_exchangesWith_ask rfl hanswer container).trans (if_pos rfl)
  | item => exact (Plan.keysOf_exchangesWith_ask rfl hanswer container).trans (if_pos rfl)

end Plan.Consults

/-- Keys that are known are those in the table; others are listed and then known. -/
theorem knownKeys_run {container : String} {ask : Steps σ (Except Failure Keys)} {u v : Session σ}
    {keys : Keys} (h : (knownKeys container ask).run u = (.ok keys, v)) :
    (u.registry.keys.find? container = some keys ∧ v = u) ∨
      (u.registry.keys.find? container = none ∧ (ask u).1 = .ok keys ∧
        v.trace = (ask u).2.trace) := by
  unfold knownKeys at h
  rw [Restoring.run_bind_ok (Restoring.run_get u)] at h
  rcases hfind : u.registry.keys.find? container with _ | known <;> rw [hfind] at h
  · refine Or.inr ⟨rfl, ?_⟩
    dsimp only at h
    rw [Restoring.run_bind, Restoring.run_need] at h
    rcases hanswer : (ask u).1 with f | listed <;> rw [hanswer] at h
    · cases h
    · cases h
      exact ⟨rfl, rfl⟩
  · cases h
    exact Or.inl ⟨rfl, rfl⟩

variable {plan : Plan σ} {cs : List Collection} {start : Session σ} {h : Handler}

/-- Where a run consults the keys a handler has told, the others have not disturbed them. -/
theorem Plan.Independent.keysUndisturbed (hindependent : plan.Independent cs start h)
    (hstart : start.KeysFollow) : plan.KeysUndisturbed cs start h := by
  intro container ask u hconsults
  have hfollow := hconsults.keysFollow hstart container
  rcases hfind : u.registry.keys.find? container with _ | keys
  · -- what no exchange has told, the handler has not told either
    rw [hfind] at hfollow
    rw [← hfollow, exchangesWith, keysOf_filter_eq_none hfollow.symm]
  · have hrun : (knownKeys container ask).run u = (.ok keys, u) := by
      unfold knownKeys
      rw [Restoring.run_bind_ok (Restoring.run_get u), hfind]
      rfl
    obtain ⟨own, hown, hkeys⟩ := hindependent.keys container ask u hconsults keys u hrun
    rw [← hfollow, hfind, hown, Option.map_some, Option.map_some, hkeys]

/-- Where the others have not disturbed the keys, a run consults those its handler has told. -/
theorem Plan.KeysUndisturbed.consulted (hundisturbed : plan.KeysUndisturbed cs start h)
    (hstart : start.KeysFollow) {container : String} {ask : Steps σ (Except Failure Keys)}
    {u v : Session σ} (hconsults : plan.Consults cs start h container ask u) {keys : Keys}
    (hrun : (knownKeys container ask).run u = (.ok keys, v)) :
    ∃ own, keysOf container (exchangesWith h v.trace) = some own ∧ keys.find? = own.find? := by
  rcases knownKeys_run hrun with ⟨hfind, rfl⟩ | ⟨-, hanswer, htrace⟩
  · have hsame := hundisturbed container ask v hconsults
    rw [← hconsults.keysFollow hstart container, hfind] at hsame
    obtain ⟨own, hown, hkeys⟩ := Option.map_eq_some_iff.1 hsame.symm
    exact ⟨own, hown, hkeys.symm⟩
  · rw [htrace]
    exact ⟨keys, hconsults.keysOf_ask hanswer, rfl⟩

/-! ## Runs of a single handler -/

/-- All calls so far have been made on one handler, or on none. -/
def Session.OnlyOf (h : Handler) (s : Session σ) : Prop :=
  ∀ x ∈ s.trace, x.call.handler? = some h ∨ x.call.handler? = none

theorem Session.OnlyOf.perform {s : Session σ} {e : Effect} (hs : s.OnlyOf h) (he : e.isOf h) :
    (plan.perform e s).OnlyOf h := by
  cases e with
  | call c =>
    intro x hx
    rcases List.mem_append.1 (show x ∈ s.trace ++ [⟨c, (plan.ask c s).1⟩] from hx) with hx | hx
    · exact hs x hx
    · rw [List.mem_singleton.1 hx]
      cases c <;> simp_all [Effect.isOf, Call.handler?]
  | metadata _ _ | permissionIds _ | keys _ _ | folder _ _ | container _ _ | tally _ | note _
  | stop | countCollection => exact hs

/-- If all calls have been made on one handler, its exchanges tell all there is to tell. -/
theorem Session.OnlyOf.keysOf_eq {s : Session σ} (hs : s.OnlyOf h) (container : String) :
    keysOf container (exchangesWith h s.trace) = keysOf container s.trace := by
  refine keysOf_filter fun x hx hother => ?_
  have hnone := (hs x hx).resolve_left (by simpa using hother)
  rcases x with ⟨_ | _ | r, answer⟩
  · cases hnone
  · cases hnone
  · rintro ⟨⟩

theorem Plan.onlyOf_restoreAll {cs : List Collection}
    (hcs : ∀ c ∈ cs, c.path.category.handler = h) (hstart : start.OnlyOf h) :
    (plan.restoreAll cs start).2.OnlyOf h := by
  have hkeep (e : Effect) (s : Session σ) (he : e.isOf h) (hs : s.OnlyOf h) :
      (plan.perform e s).OnlyOf h := hs.perform he
  refine ((upkeep_going hkeep).restoreAll tolerates_isOf rfl (fun c hc => ?_) start hstart).1
  refine Plan.restoreCollection_keeps fun e s he hs => ?_
  rw [hcs c hc] at he
  exact hs.perform he

/-- Keys are not disturbed if no other handler lists the keys of a container of that id, or
creates an item in it. -/
theorem Plan.keysUndisturbed_of_apart
    (hapart : ∀ container ask u, plan.Consults cs start h container ask u →
      ∀ x ∈ u.trace, x.call.container? = some container → x.call.handler? = some h) :
    plan.KeysUndisturbed cs start h := by
  intro container ask u hconsults
  refine congrArg _ (keysOf_filter fun x hx hother hplace => ?_).symm
  have howner := hapart container ask u hconsults x hx hplace
  simp [howner] at hother

/-! ## How collections are restored -/

/-- A step keeps what all effects of a handler keep. -/
def Plan.StaysWith {α : Type} (plan : Plan σ) (h : Handler) (x : Restoring σ α) : Prop :=
  ∀ I : Session σ → Prop, (∀ e s, e.isOf h → I s → I (plan.perform e s)) →
    Restoring.Keeps I x Going

/-- A collection is restored by entering it and taking its entries, with effects of the handler
alone, and what is known of keys keeps following the calls. -/
structure Plan.Takes {α : Type} (plan : Plan σ) (h : Handler) (c : Collection)
    (enter : Restoring σ α) (act : α → Entry → Restoring σ Unit) : Prop where
  collection : plan.restoreCollection c = enter >>= fun a => plan.forEachEntry c (act a)
  enters : plan.StaysWith h enter
  acts : ∀ a e, plan.StaysWith h (act a e)
  entersKeys : Restoring.Keeps Session.KeysFollow enter Going
  actsKeys : ∀ a e, Restoring.Keeps Session.KeysFollow (act a e) Going

theorem Plan.takes_drive {c : Collection} (hhandler : c.path.category.handler = .drive)
    (hserves : plan.remote.serves .drive) :
    plan.Takes .drive c (plan.enterFolder c)
      fun entered => plan.restoreDriveEntry c entered.1 entered.2 where
  collection := Plan.restoreCollection_eq_restoreDrive hhandler hserves
  enters _ hkeep := Plan.enterFolder_keeps hkeep c
  acts entered e _ hkeep :=
    Plan.restoreDriveEntry_keeps (fun e s he => hkeep e s he.1) c entered.1 entered.2 e
  entersKeys := plan.enterFolder_keysFollow c
  actsKeys entered e := plan.restoreDriveEntry_keysFollow c entered.1 entered.2 e

theorem Plan.takes_items {c : Collection} {kind : ItemKind}
    (hhandler : c.path.category.handler = .items kind)
    (hserves : plan.remote.serves (.items kind)) :
    plan.Takes (.items kind) c (plan.containerFor kind c.path) (plan.restoreItem kind c) where
  collection := Plan.restoreCollection_eq_restoreItems hhandler hserves
  enters _ hkeep := Plan.containerFor_keeps hkeep c.path
  acts container e _ hkeep := Plan.restoreItem_keeps hkeep c container e
  entersKeys := plan.containerFor_keysFollow kind c.path
  actsKeys := plan.restoreItem_keysFollow kind c

namespace Plan.Takes

variable {α : Type} {c : Collection} {enter : Restoring σ α} {act : α → Entry → Restoring σ Unit}
  {pre post : List Collection} {a : α} {t : Session σ}

/-- When a collection has been entered, what remains is to take its entries. -/
theorem entered (htakes : plan.Takes h c enter act) {s : Session σ}
    (hrun : enter.run s = (.ok a, t)) :
    (plan.restoreCollection c).run s = (plan.forEachEntry c (act a)).run t := by
  rw [htakes.collection, Restoring.run_bind_ok hrun]

/-- An uninterrupted run goes on between the entries. -/
theorem goesOn (htakes : plan.Takes h c enter act) (huninterrupted : plan.Uninterrupted cs start)
    (hsort : Collection.sort cs = pre ++ c :: post)
    (hrun : enter.run (plan.restoreAll pre start).2 = (.ok a, t))
    (es es' : List (Except Failure Entry)) (hentries : c.entries = es ++ es') :
    ((plan.forEach c.path.text false (act a) es).run t).2.goesOn := by
  have hpatient (e : Effect) (s : Session σ) (_ : e.isOf h) := huninterrupted.keeps_patient e s
  have ht : t.faults.Patient :=
    (htakes.enters _ hpatient).ok hrun (huninterrupted.patient_restoreAll pre)
  exact huninterrupted.goesOn_entries hsort ht (htakes.entered hrun)
    (fun s e => htakes.acts a e _ (plan.before_step s h)) (fun e => htakes.acts a e _ hpatient)
    hentries

/-- What is known of keys between the entries is what the trace tells. -/
theorem keysFollow (htakes : plan.Takes h c enter act) (hstart : start.KeysFollow)
    (hrun : enter.run (plan.restoreAll pre start).2 = (.ok a, t))
    (es : List (Except Failure Entry)) :
    ((plan.forEach c.path.text false (act a) es).run t).2.KeysFollow := by
  have ht : t.KeysFollow :=
    htakes.entersKeys.ok hrun (plan.restoreAll_keysFollow pre start hstart).1
  exact (plan.forEach_keysFollow (htakes.actsKeys a) _ false es).snd ht

/-- No other handler is called between the entries. -/
theorem onlyOf (htakes : plan.Takes h c enter act) {s : Session σ} (hs : s.OnlyOf h)
    (hrun : enter.run s = (.ok a, t)) (es : List (Except Failure Entry)) :
    ((plan.forEach c.path.text false (act a) es).run t).2.OnlyOf h := by
  have hkeep (e : Effect) (s : Session σ) (he : e.isOf h) (hs : s.OnlyOf h) :
      (plan.perform e s).OnlyOf h := hs.perform he
  have hkeeps : Restoring.Keeps _ (plan.forEach c.path.text false (act a) es) (Stopping Going) :=
    Plan.forEach_keeps (fun f s => hkeep (.note f) s rfl) (fun s => hkeep .stop s rfl)
      fun e => htakes.acts a e _ hkeep
  exact hkeeps.snd ((htakes.enters _ hkeep).ok hrun hs)

end Plan.Takes

end Places

/-! ## Two runs -/

section Runs

variable {τ : Handler → Type} {ρ : Type} {plan : Plan (HandlerStates τ ρ)}
  {machine : (h : Handler) → Remote (τ h)} {desk : Remote ρ}
  {h : Handler} {s s' u u' : Session (HandlerStates τ ρ)}

namespace Session.Alike

/-- Sessions that are alike for a handler know the same keys of a container of its, if one of
them has made no other calls and those of the other have not disturbed the keys. -/
theorem sameKeys (hs : s.Alike h s') (hfollow : s.KeysFollow) (hfollow' : s'.KeysFollow)
    (honly : s'.OnlyOf h) {container : String}
    (hkeys : (keysOf container s.trace).map Table.find? =
      (keysOf container (exchangesWith h s.trace)).map Table.find?) :
    s.SameKeys container s' := by
  rw [Session.SameKeys, hfollow container, hfollow' container, hkeys, hs.exchanges,
    honly.keysOf_eq]

theorem afterEntry_left {r : Except Fault Unit × Session (HandlerStates τ ρ)}
    (hs : r.2.Alike h s') : (plan.afterEntry r).Alike h s' :=
  Plan.afterEntry_keeps (I := fun t => t.Alike h s') (fun _ _ ht => { ht with }) r hs

theorem afterEntry {r r' : Except Fault Unit × Session (HandlerStates τ ρ)}
    (hs : r.2.Alike h r'.2) : (plan.afterEntry r).Alike h (plan.afterEntry r') :=
  hs.afterEntry_left.symm.afterEntry_left.symm

theorem afterCollection_left {r : Except Fault Unit × Session (HandlerStates τ ρ)}
    (hs : r.2.Alike h s') : (plan.afterCollection r).Alike h s' :=
  Plan.afterCollection_keeps (I := fun t => t.Alike h s') (fun _ ht => { ht with })
    (fun _ _ ht => { ht with }) r hs

theorem afterCollection {r r' : Except Fault Unit × Session (HandlerStates τ ρ)}
    (hs : r.2.Alike h r'.2) : (plan.afterCollection r).Alike h (plan.afterCollection r') :=
  hs.afterCollection_left.symm.afterCollection_left.symm

end Session.Alike

/-- Entries are taken alike if each of them is and the runs go on between them. -/
theorem Plan.forEach_alike {path : String} {act : Entry → Restoring (HandlerStates τ ρ) Unit}
    {entries : List (Except Failure Entry)} (hs : s.Alike h s')
    (hgoing : ∀ e, Restoring.Keeps (fun _ => True) (act e) Going)
    (hgoes : ∀ es es', entries = es ++ es' → ((plan.forEach path false act es).run s).2.goesOn)
    (hgoes' : ∀ es es', entries = es ++ es' → ((plan.forEach path false act es).run s').2.goesOn)
    (hact : ∀ before e after, entries = before ++ .ok e :: after →
      let u := ((plan.forEach path false act before).run s).2
      let u' := ((plan.forEach path false act before).run s').2
      u.Alike h u' → ((act e).run u).2.Alike h ((act e).run u').2)
    (es es' : List (Except Failure Entry)) (hentries : entries = es ++ es') :
    ((plan.forEach path false act es).run s).2.Alike h
      ((plan.forEach path false act es).run s').2 := by
  induction es using List.reverseRecOn generalizing es' with
  | nil =>
    rw [Plan.forEach_nil_snd, Plan.forEach_nil_snd]
    exact hs
  | append_singleton es x ih =>
    have hentries : entries = es ++ x :: es' := by rw [hentries, List.append_assoc]; rfl
    have halike := ih (x :: es') hentries
    have hgo := hgoes es (x :: es') hentries
    have hgo' := hgoes' es (x :: es') hentries
    rw [Plan.forEach_append_of_goesOn hgoing hgo, Plan.forEach_append_of_goesOn hgoing hgo']
    cases x with
    | error f =>
      rw [Plan.forEach_error hgo, Plan.forEach_error hgo', Plan.forEach_nil_snd,
        Plan.forEach_nil_snd]
      exact { halike with }
    | ok e =>
      rw [Plan.forEach_singleton hgo, Plan.forEach_singleton hgo']
      exact (hact es e es' hentries halike).afterEntry

section Lockstep

variable (hremote : plan.remote = Remote.combine machine desk)
include hremote

/-- An entry of a drive is taken alike, if the same keys are known in case it is a file. -/
theorem Plan.restoreDriveEntry_alike (hs : u.Alike .drive u') {c : Collection}
    {address : DriveAddress} {folder : String} {e : Entry}
    (hkeys : ∀ file, plan.recognise c e = .ok (.file file) → u.SameKeys folder u') :
    ((plan.restoreDriveEntry c address folder e).run u).2.Alike .drive
      ((plan.restoreDriveEntry c address folder e).run u').2 := by
  rcases hentry : plan.recognise c e with f | ⟨file⟩ | ⟨path, m⟩ | _
  · unfold Plan.restoreDriveEntry
    rw [hentry]
    exact hs
  · rw [Plan.restoreDriveEntry_run hentry, Plan.restoreDriveEntry_run hentry]
    exact (Plan.restoreFile_lockstep hremote c address folder file u u' ⟨hs, hkeys file hentry⟩).2
  · unfold Plan.restoreDriveEntry
    rw [hentry]
    exact hs.perform hremote (.metadata path.text m)
  · unfold Plan.restoreDriveEntry
    rw [hentry]
    exact hs

/-- An item is restored alike, if the same keys are known in case it can be read. -/
theorem Plan.restoreItem_alike {kind : ItemKind} (hs : u.Alike (.items kind) u') {c : Collection}
    {container : String} {e : Entry}
    (hkeys : ∀ item, Item.ofEntry kind e = .ok item → u.SameKeys container u') :
    ((plan.restoreItem kind c container e).run u).2.Alike (.items kind)
      ((plan.restoreItem kind c container e).run u').2 := by
  rcases hitem : Item.ofEntry kind e with f | item
  · have hrun (w : Session (HandlerStates τ ρ)) : (plan.restoreItem kind c container e).run w =
        (.error f, plan.perform (.tally Tally.see) w) := by
      rw [Plan.restoreItem_run, hitem]
    rw [hrun, hrun]
    exact hs.perform hremote (.tally Tally.see)
  · exact (Plan.restoreItem_lockstep hremote c container e u u' ⟨hs, hkeys item hitem⟩).2

/-- What two runs share when they come to a collection of the handler `h`: one over all
collections, and one over those of the handler alone. -/
structure Plan.Abreast (plan : Plan (HandlerStates τ ρ)) (cs : List Collection)
    (start : Session (HandlerStates τ ρ)) (h : Handler) (pre post : List Collection)
    (c : Collection) : Prop where
  full : plan.Uninterrupted cs start
  own : plan.Uninterrupted (cs.filter (Collection.isOf h)) start
  keysFollow : start.KeysFollow
  onlyOf : start.OnlyOf h
  undisturbed : plan.KeysUndisturbed cs start h
  sort : Collection.sort cs = pre ++ c :: post
  handler : c.path.category.handler = h
  alike : (plan.restoreAll pre start).2.Alike h
    (plan.restoreAll (pre.filter (Collection.isOf h)) start).2

namespace Plan.Abreast

variable {cs pre post : List Collection} {c : Collection} {start : Session (HandlerStates τ ρ)}

omit hremote in
theorem sort_own (ha : plan.Abreast cs start h pre post c) :
    Collection.sort (cs.filter (Collection.isOf h)) =
      pre.filter (Collection.isOf h) ++ c :: post.filter (Collection.isOf h) := by
  have hc : Collection.isOf h c := by simp [Collection.isOf, ha.handler]
  rw [Collection.sort_filter, ha.sort, List.filter_append, List.filter_cons_of_pos hc]

omit hremote in
theorem onlyOf_own (ha : plan.Abreast cs start h pre post c) :
    (plan.restoreAll (pre.filter (Collection.isOf h)) start).2.OnlyOf h :=
  Plan.onlyOf_restoreAll (fun c hc => by simpa [Collection.isOf] using (List.mem_filter.1 hc).2)
    ha.onlyOf

section Entries

variable {α : Type} {enter : Restoring (HandlerStates τ ρ) α}
  {act : α → Entry → Restoring (HandlerStates τ ρ) Unit}

/-- Each entry of a collection is taken alike where the keys consulted for it are the same. -/
def EntriesAlike (plan : Plan (HandlerStates τ ρ)) (cs : List Collection)
    (start : Session (HandlerStates τ ρ)) (h : Handler) (pre : List Collection) (c : Collection)
    (enter : Restoring (HandlerStates τ ρ) α)
    (act : α → Entry → Restoring (HandlerStates τ ρ) Unit) : Prop :=
  ∀ a t before e after, enter.run (plan.restoreAll pre start).2 = (.ok a, t) →
    c.entries = before ++ .ok e :: after →
    let u := ((plan.forEach c.path.text false (act a) before).run t).2
    u.goesOn → ∀ u', u.Alike h u' →
      (∀ container ask, plan.Consults cs start h container ask (plan.perform (.tally Tally.see) u) →
        u.SameKeys container u') →
      ((act a e).run u).2.Alike h ((act a e).run u').2

omit hremote in
/-- When a collection has been entered alike, its entries are taken alike. -/
theorem entries_alike (ha : plan.Abreast cs start h pre post c) (htakes : plan.Takes h c enter act)
    (halike : EntriesAlike plan cs start h pre c enter act) {a : α}
    {t t' : Session (HandlerStates τ ρ)}
    (hrun : enter.run (plan.restoreAll pre start).2 = (.ok a, t))
    (hrun' : enter.run (plan.restoreAll (pre.filter (Collection.isOf h)) start).2 = (.ok a, t'))
    (ht : t.Alike h t') :
    ((plan.forEach c.path.text false (act a) c.entries).run t).2.Alike h
      ((plan.forEach c.path.text false (act a) c.entries).run t').2 := by
  have hgoes := htakes.goesOn ha.full ha.sort hrun
  have hgoes' := htakes.goesOn ha.own ha.sort_own hrun'
  refine Plan.forEach_alike ht (fun e => htakes.acts a e _ fun _ _ _ _ => trivial) hgoes hgoes' ?_
    c.entries [] (List.append_nil _).symm
  intro before e after hentries u u' hu
  refine halike a t before e after hrun hentries (hgoes before _ hentries) u' hu ?_
  -- where the keys are consulted, they are undisturbed, and so the same in both runs
  intro container ask hconsults
  have hundisturbed := ha.undisturbed container ask _ hconsults
  exact hu.sameKeys (htakes.keysFollow ha.keysFollow hrun before)
    (htakes.keysFollow ha.keysFollow hrun' before) (htakes.onlyOf ha.onlyOf_own hrun' before)
    hundisturbed

omit hremote in
/-- A collection is restored alike if it is entered alike, and so are its entries taken. -/
theorem restoreCollection_alike (ha : plan.Abreast cs start h pre post c)
    (htakes : plan.Takes h c enter act)
    (htogether : Restoring.Together (Session.Alike h) enter)
    (halike : EntriesAlike plan cs start h pre c enter act) :
    ((plan.restoreCollection c).run (plan.restoreAll pre start).2).2.Alike h
      ((plan.restoreCollection c).run
        (plan.restoreAll (pre.filter (Collection.isOf h)) start).2).2 := by
  obtain ⟨hsame, ht⟩ := htogether _ _ ha.alike
  rcases hrun : enter.run (plan.restoreAll pre start).2 with ⟨r, t⟩
  rcases hrun' : enter.run (plan.restoreAll (pre.filter (Collection.isOf h)) start).2 with ⟨r', t'⟩
  rw [hrun, hrun'] at hsame ht
  obtain rfl := hsame.eq
  cases r with
  | error f =>
    rw [htakes.collection, Restoring.run_bind_error hrun, Restoring.run_bind_error hrun']
    exact ht
  | ok a =>
    have hentries := entries_alike ha htakes halike hrun hrun' ht
    rw [htakes.entered hrun, htakes.entered hrun']
    -- that a collection may stop the run after its entries concerns no handler
    obtain ⟨stopped, hend⟩ := plan.forEach_driesUp c.path.text c.driesUp (act a) c.entries t
    obtain ⟨stopped', hend'⟩ := plan.forEach_driesUp c.path.text c.driesUp (act a) c.entries t'
    rw [Plan.forEachEntry, hend, hend']
    exact { hentries with }

end Entries

theorem restoreDrive_alike (ha : plan.Abreast cs start .drive pre post c)
    (hserves : plan.remote.serves .drive) :
    ((plan.restoreCollection c).run (plan.restoreAll pre start).2).2.Alike .drive
      ((plan.restoreCollection c).run
        (plan.restoreAll (pre.filter (Collection.isOf .drive)) start).2).2 := by
  refine restoreCollection_alike ha (Plan.takes_drive ha.handler hserves)
    (Plan.enterFolder_together hremote c) ?_
  rintro ⟨address, folder⟩ t before e after hentered hentries u hgoes u' hu hkeys
  refine Plan.restoreDriveEntry_alike hremote hu fun file hfile =>
    hkeys folder (plan.askDrive (.listKeys address.drive folder)) ?_
  exact .file ha.sort ha.handler hserves (ha.full.goesOn ha.sort) hentered hentries hgoes hfile

theorem restoreItems_alike {kind : ItemKind} (ha : plan.Abreast cs start (.items kind) pre post c)
    (hserves : plan.remote.serves (.items kind)) :
    ((plan.restoreCollection c).run (plan.restoreAll pre start).2).2.Alike (.items kind)
      ((plan.restoreCollection c).run
        (plan.restoreAll (pre.filter (Collection.isOf (.items kind))) start).2).2 := by
  refine restoreCollection_alike ha (Plan.takes_items ha.handler hserves)
    (Plan.containerFor_together hremote c.path) ?_
  intro container t before e after hentered hentries u hgoes u' hu hkeys
  refine Plan.restoreItem_alike hremote hu fun item hitem =>
    hkeys container (plan.askItems kind (.listKeys container)) ?_
  exact .item ha.sort ha.handler hserves (ha.full.goesOn ha.sort) hentered hentries hgoes hitem

/-- A collection of the handler is restored alike. -/
theorem after_own (ha : plan.Abreast cs start h pre post c) :
    (plan.restoreAll (pre ++ [c]) start).2.Alike h
      (plan.restoreAll ((pre ++ [c]).filter (Collection.isOf h)) start).2 := by
  have hc : Collection.isOf h c := by simp [Collection.isOf, ha.handler]
  rw [List.filter_append, List.filter_cons_of_pos hc, List.filter_nil, Plan.restoreAll_append,
    Plan.restoreAll_append, Plan.restoreAll_singleton (ha.full.goesOn ha.sort),
    Plan.restoreAll_singleton (ha.own.goesOn ha.sort_own)]
  refine Session.Alike.afterCollection ?_
  by_cases hserves : plan.remote.serves h = true
  · cases h with
    | drive => exact restoreDrive_alike hremote ha hserves
    | items kind => exact restoreItems_alike hremote ha hserves
  · have hserves : plan.remote.serves c.path.category.handler = false := by
      rw [ha.handler]
      simpa using hserves
    rw [Plan.restoreCollection_noHandler hserves, Plan.restoreCollection_noHandler hserves]
    exact ha.alike

end Plan.Abreast

/-- A collection of another handler makes no difference. -/
theorem Plan.after_other {cs pre post : List Collection} {c : Collection}
    {start : Session (HandlerStates τ ρ)} (hfull : plan.Uninterrupted cs start)
    (hsort : Collection.sort cs = pre ++ c :: post) (hc : c.path.category.handler ≠ h)
    (halike : (plan.restoreAll pre start).2.Alike h s') :
    (plan.restoreAll (pre ++ [c]) start).2.Alike h s' := by
  rw [Plan.restoreAll_append, Plan.restoreAll_singleton (hfull.goesOn hsort)]
  refine Session.Alike.afterCollection_left ?_
  have hkeeps : Restoring.Keeps (fun t : Session (HandlerStates τ ρ) => t.Alike h s')
      (plan.restoreCollection c) (Stopping Going) :=
    Plan.restoreCollection_keeps fun e s he hs => hs.perform_other hremote hc he
  exact hkeeps.snd halike

/-- A run and the run over the collections of one handler are alike for this handler whenever
they have come to the same collection. -/
theorem Plan.restoreAll_alike {cs : List Collection} {start : Session (HandlerStates τ ρ)}
    (hfull : plan.Uninterrupted cs start)
    (hown : plan.Uninterrupted (cs.filter (Collection.isOf h)) start)
    (hfollow : start.KeysFollow) (honly : start.OnlyOf h)
    (hundisturbed : plan.KeysUndisturbed cs start h) (pre post : List Collection)
    (hsort : Collection.sort cs = pre ++ post) :
    (plan.restoreAll pre start).2.Alike h
      (plan.restoreAll (pre.filter (Collection.isOf h)) start).2 := by
  induction pre using List.reverseRecOn generalizing post with
  | nil => exact .refl h start
  | append_singleton pre c ih =>
    have hsort : Collection.sort cs = pre ++ c :: post := by
      rw [hsort, List.append_assoc]
      rfl
    have halike := ih (c :: post) hsort
    by_cases hc : c.path.category.handler = h
    · exact Plan.Abreast.after_own hremote
        ⟨hfull, hown, hfollow, honly, hundisturbed, hsort, hc, halike⟩
    · rw [List.filter_append, List.filter_cons_of_neg (by simpa [Collection.isOf] using hc),
        List.filter_nil, List.append_nil]
      exact Plan.after_other hremote hfull hsort hc halike

/-- A run depends on the collections of other handlers in nothing that concerns a handler, just
if these do not disturb the keys which the run consults for its items. -/
theorem Plan.independent_iff {cs : List Collection} {log : FaultLog} {stopped : Bool}
    {remote : HandlerStates τ ρ} (hoptions : plan.options.failFast = false)
    (hlog : log.failFast = false)
    (hfull : (plan.run cs (Session.start plan log stopped remote)).2.stopped = false)
    (hown : (plan.run (cs.filter (Collection.isOf h))
      (Session.start plan log stopped remote)).2.stopped = false) :
    plan.Independent cs (Session.start plan log stopped remote) h ↔
      plan.KeysUndisturbed cs (Session.start plan log stopped remote) h := by
  let start := Session.start plan log stopped remote
  have hfollow : start.KeysFollow := Session.keysFollow_start plan log stopped remote
  refine ⟨fun hindependent => hindependent.keysUndisturbed hfollow, fun hundisturbed => ?_⟩
  refine ⟨?_, fun container ask u hconsults keys v hrun =>
    hundisturbed.consulted hfollow hconsults hrun⟩
  rw [Plan.run_eq, Plan.run_eq, conclude_trace, conclude_trace, Collection.sort_filter]
  by_cases hfailed : log.failure = none
  · have hstart : start.OnlyOf h := fun x hx => absurd hx List.not_mem_nil
    exact (Plan.restoreAll_alike hremote ⟨hoptions, ⟨hlog, hfailed⟩, hfull⟩
      ⟨hoptions, ⟨hlog, hfailed⟩, hown⟩ hfollow hstart hundisturbed (Collection.sort cs) []
      (List.append_nil _).symm).exchanges
  · -- a run that has failed before makes no calls at all
    have hgoes : start.goesOn = false := by
      cases hfailure : log.failure with
      | none => exact absurd hfailure hfailed
      | some f => simp [start, Session.goesOn, Session.start, FaultLog.hasFailed, hfailure]
    rw [Plan.restoreAll_of_not_goesOn hgoes, Plan.restoreAll_of_not_goesOn hgoes]

end Lockstep

end Runs

/-! ## A site with lists and pages -/

/-- A store of items on its own, which takes receipts as well. -/
def ItemStore.remote : Remote ItemStore where
  serves h := h ≠ .drive
  respond
    | .drive _, s => (⟨.error (.because "no drive"), false⟩, s)
    | .items kind c, s =>
      let (answer, s) := s.respond kind c
      (⟨answer, false⟩, s)
    | .receipt _, s => (⟨.ok (), false⟩, s)

/-- Restore the items of every kind into a store of their own. -/
def restoreApart : Plan (HandlerStates (fun _ => ItemStore) ItemStore) where
  options := {}
  version := FormatVersion.current
  remote := .combine (fun _ => ItemStore.remote) ItemStore.remote

/-- A list and a page of the same name. -/
def siteContent : List Collection :=
  [.ofEntries ⟨"tenant", .sharepoint, "site", .lists, ["Lists"]⟩
      [.ok ⟨"1", "\x7b\"kind\":\"list\",\"displayName\":\"Home\"\x7d".toUTF8⟩],
    .ofEntries ⟨"tenant", .sharepoint, "site", .pages, ["Pages"]⟩
      [.ok ⟨"2", "\x7b\"kind\":\"page\",\"name\":\"Home\"\x7d".toUTF8⟩]]

/-- The start of a restore into empty stores. -/
def startApart : Session (HandlerStates (fun _ => ItemStore) ItemStore) :=
  Session.start restoreApart {} false (fun _ => {}, {})

theorem run_siteContent : (restoreApart.run siteContent startApart).2.stopped = false ∧
    (exchangesWith (.items .page)
      (restoreApart.run siteContent startApart).2.trace).length = 1 := by
  rw [Plan.run_eq, Collection.sort_of_pairwise (by decide +kernel)]
  decide +kernel

theorem run_sitePages :
    let pages := siteContent.filter (Collection.isOf (.items .page))
    (restoreApart.run pages startApart).2.stopped = false ∧
      (exchangesWith (.items .page) (restoreApart.run pages startApart).2.trace).length = 3 := by
  dsimp only
  rw [Plan.run_eq, Collection.sort_of_pairwise (by decide +kernel)]
  decide +kernel

theorem sitePages_ne :
    exchangesWith (.items .page) (restoreApart.run siteContent startApart).2.trace ≠
      exchangesWith (.items .page) (restoreApart.run
        (siteContent.filter (Collection.isOf (.items .page))) startApart).2.trace := by
  intro hsame
  have hlength := congrArg List.length hsame
  rw [run_siteContent.2, run_sitePages.2] at hlength
  cases hlength

/-- The page is not created when there is a list of the same name: both stores know their
container by the same id, so the key of the list is taken for that of a page. -/
theorem sitePages_not_independent :
    (restoreApart.run siteContent startApart).2.stopped = false ∧
      (restoreApart.run (siteContent.filter (Collection.isOf (.items .page)))
        startApart).2.stopped = false ∧
      ¬ restoreApart.Independent siteContent startApart (.items .page) :=
  ⟨run_siteContent.1, run_sitePages.1, fun h => sitePages_ne h.exchanges⟩

/-- In this run the list has disturbed the keys that are consulted for the page. -/
theorem sitePages_disturbed :
    restoreApart.options.failFast = false ∧
      (restoreApart.run siteContent startApart).2.stopped = false ∧
      (restoreApart.run (siteContent.filter (Collection.isOf (.items .page)))
        startApart).2.stopped = false ∧
      ¬ restoreApart.KeysUndisturbed siteContent startApart (.items .page) := by
  refine ⟨rfl, run_siteContent.1, run_sitePages.1, fun hundisturbed => ?_⟩
  have hremote : restoreApart.remote =
      Remote.combine (fun _ => ItemStore.remote) ItemStore.remote := rfl
  have hindependent :=
    (Plan.independent_iff hremote rfl rfl run_siteContent.1 run_sitePages.1).2 hundisturbed
  exact sitePages_ne hindependent.exchanges

end TenantRestore
