/-
# Receipts of items that take the place of others

A receipt tells whether the item has replaced an existing one.  It has, if an item that held its
key in its container has been deleted while it was restored; which item held a key is told by all
exchanges before, `Replaces`.

Everything a run asks for between two boundaries, a stretch of its trace, is asked on behalf of one
entry, and hands out at most one receipt.  This receipt is filled in with what was intended, before
it is known what comes of it: it says that an item is replaced if the deletion of one was asked for,
`Handover`.  So the receipts of a run are right just if no such deletion fails,
`Plan.truthful_iff`.
-/
import TenantRestore.Proofs.Filing
import TenantRestore.Proofs.Keys
import TenantRestore.Proofs.Path
import TenantRestore.Proofs.Turns
import TenantRestore.Store.Rehearsal

namespace TenantRestore

variable {σ : Type} {plan : Plan σ}

/-! ## Replacing an item -/

/-- The container in which something is created, and the key it gets there. -/
def Exchange.creation? : Exchange → Option (String × String)
  | ⟨.drive (.upload _ folder name _ _), .ok _⟩ => some (folder, name)
  | ⟨.items _ (.create container item), .ok _⟩ => some (container, item.key)
  | _ => none

/-- The file or item a call asks to delete. -/
def Call.deleted? : Call → Option String
  | .drive (.delete _ old) => some old
  | .items _ (.delete _ old) => some old
  | _ => none

/-- After the exchanges before, something is created under a key, and then what held the key in the
same container is deleted. -/
def Replaces (before made : List Exchange) : Prop :=
  ∃ xs x ys container key old, made = xs ++ x :: ys ∧ x.creation? = some (container, key) ∧
    (keysOf container (before ++ xs)).bind (·.find? key) = some old ∧
    ∃ y ∈ ys, y.call.deleted? = some old ∧ y.succeeds

/-- Exchanges that neither create nor delete anything. -/
def Idle (xs : List Exchange) : Prop := ∀ x ∈ xs, x.creation? = none ∧ x.call.deleted? = none

theorem Idle.append {xs ys : List Exchange} (h : Idle xs) (h' : Idle ys) : Idle (xs ++ ys) :=
  fun x hx => (List.mem_append.1 hx).elim (h x) (h' x)

/-- How something is created before its receipt is handed out. -/
inductive Handover (before : List Exchange) : List Exchange → Receipt → Prop
  /-- Nothing holds its key. -/
  | added {loads rest : List Exchange} {x : Exchange} {r : Receipt} (hloads : Idle loads)
      (hx : x.call.deleted? = none) (hrest : Idle rest) (hr : r.updated = false) :
      Handover before (loads ++ x :: rest) r
  /-- What holds its key is to be deleted. -/
  | replacing {loads rest : List Exchange} {x y : Exchange} {r : Receipt}
      {container key old : String} (hloads : Idle loads)
      (hx : x.creation? = some (container, key)) (hkept : x.call.deleted? = none)
      (hold : (keysOf container (before ++ loads)).bind (·.find? key) = some old)
      (hy : y.call.deleted? = some old) (hrest : Idle rest) (hr : r.updated = true) :
      Handover before (loads ++ x :: y :: rest) r

section Handover

variable {before made xs ys : List Exchange} {x y z : Exchange} {r : Receipt}

theorem Idle.eq_of_deletes (hxs : Idle xs) (hx : x.call.deleted? = none) (hys : Idle ys)
    (hz : z ∈ xs ++ x :: y :: ys) (hdeletes : z.call.deleted?.isSome) : z = y := by
  rcases List.mem_append.1 hz with hz | hz
  · simp [(hxs z hz).2] at hdeletes
  rcases List.mem_cons.1 hz with rfl | hz
  · simp [hx] at hdeletes
  rcases List.mem_cons.1 hz with rfl | hz
  · rfl
  · simp [(hys z hz).2] at hdeletes

theorem Idle.not_deletes (hxs : Idle xs) (hx : x.call.deleted? = none) (hys : Idle ys)
    (hz : z ∈ xs ++ x :: ys) : ¬ z.call.deleted?.isSome := by
  rcases List.mem_append.1 hz with hz | hz
  · simp [(hxs z hz).2]
  rcases List.mem_cons.1 hz with rfl | hz
  · simp [hx]
  · simp [(hys z hz).2]

/-- A receipt tells whether a deletion was asked for. -/
theorem Handover.updated_iff (h : Handover before made r) :
    r.updated ↔ ∃ x ∈ made, x.call.deleted?.isSome := by
  cases h with
  | added hloads hx hrest hr =>
    refine iff_of_false (by simp [hr]) ?_
    rintro ⟨z, hz, hdeletes⟩
    exact hloads.not_deletes hx hrest hz hdeletes
  | @replacing _ _ _ y _ _ _ _ _ _ _ _ hy _ hr =>
    exact iff_of_true hr ⟨y, by simp, by simp [hy]⟩

/-- A receipt is right just if the deletion that was asked for succeeds. -/
theorem Handover.right_iff (h : Handover before made r) :
    (r.updated ↔ Replaces before made) ↔ ∀ x ∈ made, x.call.deleted?.isSome → x.succeeds := by
  cases h with
  | added hloads hx hrest hr =>
    refine iff_of_true (iff_of_false (by simp [hr]) ?_) fun z hz hdeletes =>
      absurd hdeletes (hloads.not_deletes hx hrest hz)
    rintro ⟨xs, x', ys, _, _, old, hmade, -, -, z, hz, hold, -⟩
    refine hloads.not_deletes hx hrest (z := z) ?_ (by simp [hold])
    rw [hmade]
    simp [hz]
  | @replacing loads rest x y _ container key old hloads hx hkept hold hy hrest hr =>
    have hall : (∀ z ∈ loads ++ x :: y :: rest, z.call.deleted?.isSome → z.succeeds) ↔
        y.succeeds := by
      constructor
      · exact fun h => h y (by simp) (by simp [hy])
      · intro h z hz hdeletes
        rwa [hloads.eq_of_deletes hkept hrest hz hdeletes]
    rw [hall, iff_true_left hr]
    constructor
    · rintro ⟨xs, x', ys, _, _, old', hmade, -, -, z, hz, hdeletes, hsucceeds⟩
      have hmem : z ∈ loads ++ x :: y :: rest := by
        rw [hmade]
        simp [hz]
      rwa [← hloads.eq_of_deletes hkept hrest hmem (by simp [hdeletes])]
    · intro hsucceeds
      exact ⟨loads, x, y :: rest, container, key, old, rfl, hx, hold, y, by simp, hy, hsucceeds⟩

end Handover

/-- From a session to another one at most one receipt is handed out, for something that has been
created in between. -/
def Session.HandsOut (s t : Session σ) : Prop :=
  receipts (s.since t) = [] ∨
    ∃ r, receipts (s.since t) = [r] ∧ Handover s.trace (s.since t) r

/-! ## Storing under a key -/

section Storing

variable {container key : String} {ks ks' : Keys} {s t : Session σ} {known : Registry}
  {policy : CollisionPolicy} {loads made rest : List Exchange}
  {listed : Except Failure Keys → Exchange} {created : Except Failure String → Exchange}
  {deleted : String → Except Failure Unit → Exchange}

theorem Session.handsOut_of_nil (htrace : t.trace = s.trace ++ made) (h : receipts made = []) :
    s.HandsOut t :=
  .inl (by rw [Session.since_eq htrace, h])

/-- The keys in hand are those the exchanges tell. -/
theorem Loads.keysOf_eq (h : Loads container listed s.registry loads ks known)
    (hlisted : ∀ ks before, (listed (.ok ks)).keysAfter container before = some ks)
    (hs : s.KeysFollow) : keysOf container (s.trace ++ loads) = some ks := by
  cases h with
  | known hknown => rw [List.append_nil, ← hs container, hknown]
  | listed _ => rw [keysOf_append_singleton, hlisted]

/-- The exchanges by which something is stored in a container under a key. -/
structure PlacingExchanges (container key : String) (listed : Except Failure Keys → Exchange)
    (created : Except Failure String → Exchange)
    (deleted : String → Except Failure Unit → Exchange) : Prop where
  lists : ∀ ks before, (listed (.ok ks)).keysAfter container before = some ks
  listed_idle : ∀ ks, (listed (.ok ks)).creation? = none ∧ (listed (.ok ks)).call.deleted? = none
  creates : ∀ new, (created (.ok new)).creation? = some (container, key) ∧
    (created (.ok new)).call.deleted? = none
  deletes : ∀ old r, (deleted old r).call.deleted? = some old

/-- Something that is placed under a key is handed over, whatever else is done besides creating and
deleting. -/
theorem Placed.handover {r : Except Fault String} {id : String}
    (h : Placed policy key ks created deleted made r ks') (hid : idsPlaced r = [id])
    (hplacing : PlacingExchanges container key listed created deleted)
    (hloads : Loads container listed s.registry loads ks known) (hs : s.KeysFollow)
    (hrest : Idle rest) (htrace : t.trace = s.trace ++ (loads ++ made ++ rest))
    {receipt : Receipt}
    (hupdated : receipt.updated = decide (policy = .replace ∧ ks.contains key)) :
    Handover s.trace (s.since t) receipt := by
  -- the keys in hand are those the exchanges tell of, so what is to be deleted has the key
  have hasked {old : String} (hold : ks.find? key = some old) :
      (keysOf container (s.trace ++ loads)).bind (·.find? key) = some old := by
    rw [hloads.keysOf_eq hplacing.lists hs]
    exact hold
  have hidle : Idle loads := by
    cases hloads with
    | known _ => simp [Idle]
    | listed _ => simpa [Idle] using hplacing.listed_idle ks
  rw [Session.since_eq htrace, List.append_assoc]
  cases h with
  | kept _ => cases hid
  | refused _ _ => cases hid
  | added _ hfree new =>
    refine .added hidle (hplacing.creates new).2 hrest ?_
    rw [hupdated, decide_eq_false]
    rintro ⟨hreplace, hcontains⟩
    simp [Table.contains, hfree hreplace] at hcontains
  | replaced hreplace hold new =>
    exact .replacing hidle (hplacing.creates new).1 (hplacing.creates new).2 (hasked hold)
      (hplacing.deletes _ _) hrest (by simp [hupdated, hreplace, Table.contains, hold])
  | stays hreplace hold new f =>
    exact .replacing hidle (hplacing.creates new).1 (hplacing.creates new).2 (hasked hold)
      (hplacing.deletes _ _) hrest (by simp [hupdated, hreplace, Table.contains, hold])

end Storing

/-! ## Files -/

section Files

variable {c : Collection} {address : DriveAddress} {folder : String} {file : DriveFile}
  {s t : Session σ}

theorem placingExchanges_file (drive folder : String) (file : DriveFile)
    (policy : CollisionPolicy) :
    PlacingExchanges folder file.name (Exchange.mk (.drive (.listKeys drive folder)))
      (Exchange.mk (.drive (.upload drive folder file.name file.data policy)))
      fun old => Exchange.mk (.drive (.delete drive old)) where
  lists _ _ := if_pos rfl
  listed_idle _ := ⟨rfl, rfl⟩
  creates _ := ⟨rfl, rfl⟩
  deletes _ _ := rfl

/-- A file that is stored is placed under its name, and perhaps renamed. -/
theorem Storing.placed {policy : CollisionPolicy} {drive new : String} {ks : Keys}
    {made : List Exchange} (h : Storing policy drive folder file ks made (some new)) :
    ∃ placed renamed r ks', made = placed ++ renamed ∧ Idle renamed ∧
      Placed policy file.name ks
        (Exchange.mk (.drive (.upload drive folder file.name file.data policy)))
        (fun old => Exchange.mk (.drive (.delete drive old))) placed r ks' ∧
      idsPlaced r = [new] := by
  cases h with
  | added hnew hfree => exact ⟨_, [], _, _, rfl, by simp [Idle], .added hnew hfree _, rfl⟩
  | stays hreplace hold _ f =>
    exact ⟨_, [], _, _, rfl, by simp [Idle], .stays hreplace hold _ f, rfl⟩
  | replaced hreplace hold _ r =>
    exact ⟨[_, _], [_], _, _, rfl, by simp [Idle, Exchange.creation?, Call.deleted?],
      .replaced hreplace hold _, rfl⟩

theorem Granting.idle {drive item : String} {shares : List Exchange}
    (h : Granting drive item shares) : Idle shares ∧ receipts shares = [] := by
  obtain ⟨revoked, granted, rfl, hrevoked, hgranted⟩ := h
  have hshares (x : Exchange) (hx : x ∈ revoked ++ granted) :
      x.creation? = none ∧ x.call.deleted? = none ∧ x.receipt? = none := by
    obtain ⟨call, answer⟩ := x
    rcases List.mem_append.1 hx with hx | hx
    · obtain ⟨_, rfl⟩ := hrevoked _ hx
      exact ⟨rfl, rfl, rfl⟩
    · obtain ⟨_, rfl⟩ := hgranted _ hx
      exact ⟨rfl, rfl, rfl⟩
  refine ⟨fun x hx => ⟨(hshares x hx).1, (hshares x hx).2.1⟩, ?_⟩
  exact List.filterMap_eq_nil_iff.2 fun x hx => (hshares x hx).2.2

/-- A file hands out its receipt just if it is stored. -/
theorem Filing.handsOut (h : Filing plan c address folder file s t) (hs : s.KeysFollow) :
    s.HandsOut t := by
  cases h with
  | unlisted _ trace _ _ => exact Session.handsOut_of_nil trace rfl
  | unstored hloads hstoring trace _ _ =>
    refine Session.handsOut_of_nil trace ?_
    cases hloads <;> cases hstoring <;> rfl
  | @stored loads made shares ks known new answer hloads hstoring hgranting trace _ _ =>
    have hnone : receipts (loads ++ made) = [] := by
      cases hloads <;> cases hstoring <;> rfl
    obtain ⟨placed, renamed, r, ks', rfl, hrenamed, hplaced, hid⟩ := hstoring.placed
    obtain ⟨hidle, hreceipts⟩ := hgranting.idle
    let receipt := plan.receiptOf c address file
      (decide (plan.options.onCollision = .replace ∧ ks.contains file.name))
    have hrest : Idle (renamed ++ ⟨.receipt receipt, answer⟩ :: shares) :=
      hrenamed.append (List.forall_mem_cons.2 ⟨⟨rfl, rfl⟩, hidle⟩)
    refine .inr ⟨receipt, ?_, ?_⟩
    · rw [Session.since_eq trace, receipts_append, hnone]
      exact congrArg (receipt :: ·) hreceipts
    · exact hplaced.handover hid (placingExchanges_file ..) hloads hs hrest
        (trace.trans (by simp [receipt])) rfl

end Files

/-! ## Items -/

section Items

variable {kind : ItemKind} {container : String} {item : Item} {s : Session σ}

/-- What becomes of an item that is created: the result, and the session afterwards. -/
inductive Creating (plan : Plan σ) (kind : ItemKind) (container : String) (item : Item)
    (s : Session σ) : Except Fault (String × Bool) → Session σ → Prop
  /-- The item is not created. -/
  | failed {made : List Exchange} {f : Fault} {t : Session σ}
      (trace : t.trace = s.trace ++ made) (hreceipts : receipts made = []) :
      Creating plan kind container item s (.error f) t
  /-- The item is placed in its container. -/
  | created {loads made : List Exchange} {ks ks' : Keys} {known : Registry}
      {r : Except Fault String} {id : String} {t : Session σ}
      (hloads : Loads container (Exchange.mk (.items kind (.listKeys container))) s.registry loads
        ks known)
      (hplaced : Placed plan.options.onCollision item.key ks
        (Exchange.mk (.items kind (.create container item)))
        (fun old => Exchange.mk (.items kind (.delete container old))) made r ks')
      (hid : idsPlaced r = [id]) (trace : t.trace = s.trace ++ (loads ++ made)) :
      Creating plan kind container item s
        (.ok (id, decide (plan.options.onCollision = .replace ∧ ks.contains item.key))) t

theorem Plan.creating (plan : Plan σ) (kind : ItemKind) (container : String) (item : Item)
    (s : Session σ) :
    Creating plan kind container item s ((plan.createItem kind container item).run s).1
      ((plan.createItem kind container item).run s).2 := by
  have hlist : Asks (α := Keys) (plan.askItems kind (.listKeys container))
      (Exchange.mk (.items kind (.listKeys container))) := plan.asks _
  have hcreate : Asks (α := String) (plan.askItems kind (.create container item))
      (Exchange.mk (.items kind (.create container item))) := plan.asks _
  have hdelete (old : String) : Asks (α := Unit) (plan.askItems kind (.delete container old))
      (Exchange.mk (.items kind (.delete container old))) := plan.asks _
  unfold Plan.createItem
  rcases plan.knownKeys_loads hlist container s with
    ⟨f, t, -, hrun, hmakes⟩ | ⟨loads, ks, known, t, hloads, hrun, hmakes⟩
  · rw [Restoring.run_bind_error hrun]
    exact .failed hmakes.trace rfl
  rw [Restoring.run_bind_ok hrun]
  dsimp only
  obtain ⟨made, r, ks', u, hplace, hplaced, hmade⟩ :=
    plan.place_placed hcreate hdelete container item.key ks t
  have htrace : u.trace = s.trace ++ (loads ++ made) := by
    rw [hmade.trace, hmakes.trace, List.append_assoc]
  rw [Restoring.run_always_bind hplace]
  cases hplaced with
  | kept hskip =>
    refine .failed htrace ?_
    cases hloads <;> rfl
  | refused hnew f =>
    refine .failed htrace ?_
    cases hloads <;> rfl
  | added hnew hfree new => exact .created hloads (.added hnew hfree new) rfl htrace
  | replaced hreplace hold new =>
    exact .created hloads (.replaced hreplace hold new) rfl htrace
  | stays hreplace hold new f =>
    exact .created hloads (.stays hreplace hold new f) rfl htrace

theorem placingExchanges_item (kind : ItemKind) (container : String) (item : Item) :
    PlacingExchanges container item.key (Exchange.mk (.items kind (.listKeys container)))
      (Exchange.mk (.items kind (.create container item)))
      fun old => Exchange.mk (.items kind (.delete container old)) where
  lists _ _ := if_pos rfl
  listed_idle _ := ⟨rfl, rfl⟩
  creates _ := ⟨rfl, rfl⟩
  deletes _ _ := rfl

/-- An item hands out its receipt just if it is created with its children. -/
theorem Plan.restoreItem_handsOut (plan : Plan σ) (kind : ItemKind) (c : Collection)
    (container : String) (e : Entry) (hs : s.KeysFollow) :
    s.HandsOut ((plan.restoreItem kind c container e).run s).2 := by
  rw [Plan.restoreItem_run]
  rcases Item.ofEntry kind e with f | stored
  · exact Session.handsOut_of_nil (List.append_nil _).symm rfl
  dsimp only
  generalize stored.locate plan.options.location e.name = located
  have hcreating := plan.creating kind container located.withoutChildren
    (plan.perform (.tally Tally.see) s)
  rcases hcreate : (plan.createItem kind container located.withoutChildren).run
    (plan.perform (.tally Tally.see) s) with ⟨r, t⟩
  rw [hcreate] at hcreating
  cases hcreating with
  | failed trace hreceipts => exact Session.handsOut_of_nil trace hreceipts
  | @created loads made ks ks' known r id _ hloads hplaced hid trace =>
    have hnone : receipts (loads ++ made) = [] := by
      cases hloads <;> cases hplaced <;> rfl
    let receipt := plan.itemReceipt kind c e located
      (decide (plan.options.onCollision = .replace ∧ ks.contains located.withoutChildren.key))
    have hdone {u : Session σ} {more : List Exchange} (hmore : Idle more)
        (hquiet : receipts more = []) (hu : u.trace = s.trace ++ (loads ++ made ++ more)) :
        s.HandsOut (plan.credit receipt u) := by
      obtain ⟨answer, hsent⟩ := plan.trace_credit receipt u
      have htrace : (plan.credit receipt u).trace =
          s.trace ++ (loads ++ made ++ (more ++ [⟨.receipt receipt, answer⟩])) := by
        rw [hsent, hu]
        simp
      have hrest : Idle (more ++ [⟨.receipt receipt, answer⟩]) :=
        hmore.append (by simp [Idle, Exchange.creation?, Call.deleted?])
      refine .inr ⟨receipt, ?_,
        hplaced.handover hid (placingExchanges_item ..) hloads hs hrest htrace rfl⟩
      rw [Session.since_eq htrace, receipts_append, hnone, receipts_append, hquiet]
      rfl
    have hplain : t.trace = s.trace ++ (loads ++ made) := trace
    dsimp only
    split
    · have hnomore : Idle [] := by simp [Idle]
      exact hdone hnomore rfl (hplain.trans (by rw [List.append_nil]))
    · have hadd : Asks (α := Unit)
          (plan.askItems kind (.addChildren container id located.children))
          (Exchange.mk (.items kind (.addChildren container id located.children))) := plan.asks _
      have htrace := (hadd t).trace
      rw [hplain, List.append_assoc] at htrace
      rcases hchildren : plan.askItems kind (.addChildren container id located.children) t with
        ⟨f | ⟨⟩, u⟩ <;> rw [hchildren] at htrace
      · refine Session.handsOut_of_nil htrace ?_
        rw [receipts_append, hnone]
        rfl
      · exact hdone (by simp [Idle, Exchange.creation?, Call.deleted?]) rfl htrace

end Items

/-! ## From boundary to boundary -/

theorem Session.HandsOut.of_trace {s t u : Session σ} (h : s.HandsOut t)
    (htrace : u.trace = t.trace) : s.HandsOut u := by
  have hsince : s.since u = s.since t := by rw [Session.since, htrace, Session.since]
  rwa [Session.HandsOut, hsince]

theorem Plan.take_handsOut (plan : Plan σ) (c : Collection) (entrance : Entrance) (e : Entry)
    {s : Session σ} (hs : s.KeysFollow) : s.HandsOut ((plan.take c entrance e).run s).2 := by
  cases entrance with
  | items kind container => exact plan.restoreItem_handsOut kind c container e hs
  | drive address folder =>
    by_cases hfile : ∃ file, plan.recognise c e = .ok (.file file)
    · obtain ⟨file, hfile⟩ := hfile
      exact (Plan.restoreDriveEntry_files hfile address folder s).handsOut hs
    · have hnothing : s.HandsOut s := Session.handsOut_of_nil (List.append_nil _).symm rfl
      rcases Plan.restoreDriveEntry_aside (not_exists.1 hfile) address folder s with
        heq | ⟨text, m, heq⟩ <;> rw [Plan.take, heq]
      · exact hnothing
      · exact hnothing.of_trace rfl

theorem Plan.advance_handsOut (plan : Plan σ) {b : Boundary σ} (hb : b.session.KeysFollow) :
    b.session.HandsOut (plan.advance b).session := by
  have hnothing : b.session.HandsOut b.session :=
    Session.handsOut_of_nil (List.append_nil _).symm rfl
  rcases plan.advance_cases b with ⟨p, -, -, heq⟩ | ⟨c, later, -, -, -, heq⟩ | ⟨-, heq⟩ <;>
    rw [heq]
  · obtain ⟨c, entrance, rest⟩ := p
    rcases rest with _ | ⟨f | e, rest⟩ <;> dsimp only [Plan.pass]
    · split <;> exact hnothing.of_trace rfl
    · exact hnothing.of_trace rfl
    · refine (plan.take_handsOut c entrance e hb).of_trace ?_
      exact Plan.afterEntry_keeps (I := fun t => t.trace = _) (fun _ _ ht => ht) _ rfl
  · obtain ⟨made, hquiet, hadds⟩ := plan.enter_adds c b.session
    have hentered : b.session.HandsOut ((plan.enter c).run b.session).2 :=
      Session.handsOut_of_nil hadds.trace (receipts_of_isQuiet hquiet)
    unfold Plan.begin
    rcases hrun : (plan.enter c).run b.session with ⟨f | entrance, t⟩ <;> rw [hrun] at hentered
    · refine hentered.of_trace ?_
      exact Plan.afterCollection_keeps (I := fun u => u.trace = t.trace) (fun _ hu => hu)
        (fun _ _ hu => hu) (.error f, t) rfl
    · exact hentered
  · exact hnothing

/-- The exchanges of a run between a boundary and the next. -/
def Plan.stretch (plan : Plan σ) (cs : List Collection) (start : Session σ) (n : Nat) :
    List Exchange :=
  (plan.boundary cs start n).session.since (plan.boundary cs start (n + 1)).session

theorem Plan.trace_boundary_eq (plan : Plan σ) (cs : List Collection) (start : Session σ)
    (n : Nat) :
    (plan.boundary cs start n).session.trace =
      start.trace ++ (List.range n).flatMap (plan.stretch cs start) := by
  induction n with
  | zero => simp [Plan.boundary]
  | succ n ih =>
    have hbefore := (plan.before_boundary cs start (Nat.le_succ n)).trace
    rw [List.range_succ, List.flatMap_append, ← List.append_assoc, ← ih]
    simpa [Plan.stretch, Session.since] using (List.prefix_iff_eq_append.1 hbefore).symm

/-- The receipts of a run tell the truth: each says that an item was replaced just if it was, while
the entry was restored. -/
def Plan.Truthful (plan : Plan σ) (cs : List Collection) (start : Session σ) : Prop :=
  ∀ n, ∀ r ∈ receipts (plan.stretch cs start n),
    r.updated ↔ Replaces (plan.boundary cs start n).session.trace (plan.stretch cs start n)

/-- All exchanges of a run are made in its stretches.  A receipt tells whether the deletion of an
item was asked for in its stretch, so the receipts tell the truth just if no such deletion fails. -/
theorem Plan.truthful_iff (plan : Plan σ) (cs : List Collection) (log : FaultLog) (stopped : Bool)
    (remote : σ) :
    let start := Session.start plan log stopped remote
    (plan.run cs start).2.trace =
        (List.range (plan.boundary cs start 0).work).flatMap (plan.stretch cs start) ∧
      (∀ n, ∀ r ∈ receipts (plan.stretch cs start n),
        r.updated ↔ ∃ x ∈ plan.stretch cs start n, x.call.deleted?.isSome) ∧
      (plan.Truthful cs start ↔ ∀ n, receipts (plan.stretch cs start n) ≠ [] →
        ∀ x ∈ plan.stretch cs start n, x.call.deleted?.isSome → x.succeeds) := by
  intro start
  have hhandsOut (n : Nat) : (plan.boundary cs start n).session.HandsOut
      (plan.boundary cs start (n + 1)).session := by
    rw [Plan.boundary_succ]
    exact plan.advance_handsOut
      (plan.boundary_keysFollow cs (Session.keysFollow_start plan log stopped remote) n)
  have hhandover (n : Nat) (r : Receipt) (hr : r ∈ receipts (plan.stretch cs start n)) :
      Handover (plan.boundary cs start n).session.trace (plan.stretch cs start n) r := by
    rcases hhandsOut n with hnone | ⟨r', hone, hhandover⟩
    · rw [Plan.stretch, hnone] at hr
      cases hr
    · rw [Plan.stretch, hone] at hr
      rwa [List.mem_singleton.1 hr]
  refine ⟨?_, fun n r hr => (hhandover n r hr).updated_iff, ?_⟩
  · rw [Plan.run_eq_close (Plan.over_of_work_le (Nat.le_refl _)), conclude_trace, Plan.trace_close,
      Plan.trace_boundary_eq]
    rfl
  · constructor
    · intro htruthful n hsome
      obtain ⟨r, hr⟩ := List.exists_mem_of_ne_nil _ hsome
      exact (hhandover n r hr).right_iff.1 (htruthful n r hr)
    · intro hsucceed n r hr
      exact (hhandover n r hr).right_iff.2 (hsucceed n (List.ne_nil_of_mem hr))

/-! ## A file that can't be replaced -/

/-- A drive with a file, which deletes nothing. -/
def stubbornDrive : Rehearsal where
  drive := some (({ drive := "drive", keepsAll := true } : DriveStore).addFile "a.txt"
    "old".toUTF8).2

/-- Restore the first version of a backup, replacing files. -/
def replaceFiles : Plan Rehearsal where
  options := { onCollision := .replace }
  version := 0
  remote := stubbornDrive.remote

/-- Another version of the file. -/
def newerFile : List Collection :=
  [.ofEntries ⟨"tenant", .onedrive, "user", .files, ["drives", "drive", "root:"]⟩
    [.ok ⟨"a.txt", "new".toUTF8⟩]]

/-- The receipt says that the file was replaced, but it could not be deleted. -/
theorem newerFile_not_truthful :
    let start := Session.start replaceFiles {} false stubbornDrive
    ((receipts (replaceFiles.stretch newerFile start 1)).map Receipt.updated = [true] ∧
      ∀ x ∈ replaceFiles.stretch newerFile start 1, x.call.deleted?.isSome →
        x.succeeds = false) ∧
      ¬ replaceFiles.Truthful newerFile start := by
  intro start
  have hsort : Collection.sort newerFile = newerFile :=
    Collection.sort_of_pairwise (by decide +kernel)
  have hstretch : (receipts (replaceFiles.stretch newerFile start 1)).map Receipt.updated = [true] ∧
      ∀ x ∈ replaceFiles.stretch newerFile start 1, x.call.deleted?.isSome →
        x.succeeds = false := by
    simp only [start, Plan.stretch, Plan.boundary, hsort]
    decide +kernel
  refine ⟨hstretch, fun htruthful => ?_⟩
  obtain ⟨r, hr, hupdated⟩ := List.mem_map.1 (hstretch.1 ▸ List.mem_singleton_self true :
    true ∈ (receipts (replaceFiles.stretch newerFile start 1)).map Receipt.updated)
  obtain ⟨xs, x, ys, _, _, old, hmade, -, -, y, hy, hold, hsucceeds⟩ :=
    (htruthful 1 r hr).1 hupdated
  have hfails := hstretch.2 y (by rw [hmade]; simp [hy]) (by simp [hold])
  rw [hsucceeds] at hfails
  cases hfails

end TenantRestore
