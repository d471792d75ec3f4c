/-
# The turns of a run

At a boundary a run turns to what comes next: it enters a collection, takes an entry, notes that
an entry can't be read, or leaves a collection.  All turns of a run in their order, each with
the session it begins in, are its course.

What a turn adds to the session is known from the turn itself: which faults arise, and how many
items are seen.  So the ledger of a run is told by its course; this is `Plan.boundary_adds`, and it
is the only induction over a run that its counts, its faults and its receipts need.
-/
import TenantRestore.Proofs.Entries

namespace TenantRestore

variable {σ : Type} {plan : Plan σ}

/-! ## Turns -/

/-- What a run turns to at a boundary. -/
inductive Turn
  /-- Enter a collection. -/
  | entering (c : Collection)
  /-- Note that the next entry of a collection can't be read. -/
  | unread (c : Collection) (f : Failure)
  /-- Take an entry of a collection that has been entered. -/
  | taking (c : Collection) (entrance : Entrance) (e : Entry)
  /-- Leave a collection that has no more entries. -/
  | leaving (c : Collection)

/-- What comes next of a collection that has been entered. -/
def Passage.turn (p : Passage) : Turn :=
  match p.rest with
  | [] => .leaving p.collection
  | .error f :: _ => .unread p.collection f
  | .ok e :: _ => .taking p.collection p.entrance e

/-- What a run turns to at a boundary, if it goes on. -/
def Boundary.turn? (b : Boundary σ) : Option Turn :=
  if b.session.goesOn then
    match b.current, b.later with
    | some p, _ => some p.turn
    | none, c :: _ => some (.entering c)
    | none, [] => none
  else none

/-- The turns of a run up to a boundary, each with the session it begins in. -/
def Plan.courseUntil (plan : Plan σ) (cs : List Collection) (start : Session σ) (n : Nat) :
    List (Session σ × Turn) :=
  (List.range n).flatMap fun m =>
    let b := plan.boundary cs start m
    b.turn?.toList.map (Prod.mk b.session)

/-- All turns of a run. -/
def Plan.course (plan : Plan σ) (cs : List Collection) (start : Session σ) :
    List (Session σ × Turn) :=
  plan.courseUntil cs start (plan.boundary cs start 0).work

theorem Plan.courseUntil_succ (plan : Plan σ) (cs : List Collection) (start : Session σ)
    (n : Nat) :
    plan.courseUntil cs start (n + 1) = plan.courseUntil cs start n ++
      (plan.boundary cs start n).turn?.toList.map (Prod.mk (plan.boundary cs start n).session) := by
  simp [Plan.courseUntil, List.range_succ]

/-- A run turns to nothing just if it is over. -/
theorem Boundary.turn?_eq_none {b : Boundary σ} : b.turn? = none ↔ b.over := by
  obtain ⟨s, current, later⟩ := b
  unfold Boundary.turn? Boundary.over
  dsimp only
  cases s.goesOn with
  | false => simp
  | true =>
    rcases current with _ | p
    · cases later <;> simp
    · simp

/-- A run turns to something only if it goes on. -/
theorem Boundary.goesOn_of_turn? {b : Boundary σ} {turn : Turn} (h : b.turn? = some turn) :
    b.session.goesOn := by
  unfold Boundary.turn? at h
  split at h
  · assumption
  · cases h

/-- The course of a run ends where the run is over. -/
theorem Plan.courseUntil_of_over {cs : List Collection} {start : Session σ} {m n : Nat}
    (h : (plan.boundary cs start m).over) (hmn : m ≤ n) :
    plan.courseUntil cs start n = plan.courseUntil cs start m := by
  induction hmn with
  | refl => rfl
  | step hle ih =>
    rw [Plan.courseUntil_succ, ih, Boundary.turn?_eq_none.2 ?_]
    · simp
    · rwa [Plan.boundary_of_over h hle]

/-- Every turn of a course is one a run takes at a boundary. -/
theorem Plan.turn?_of_mem_courseUntil {cs : List Collection} {start s : Session σ} {n : Nat}
    {turn : Turn} (h : (s, turn) ∈ plan.courseUntil cs start n) :
    ∃ m < n, (plan.boundary cs start m).session = s ∧
      (plan.boundary cs start m).turn? = some turn := by
  obtain ⟨m, hm, hstep⟩ := List.mem_flatMap.1 h
  obtain ⟨turn', hturn, heq⟩ := List.mem_map.1 hstep
  cases heq
  exact ⟨m, List.mem_range.1 hm, rfl, Option.mem_toList.1 hturn⟩

/-- Every turn a run takes at a boundary is in its course. -/
theorem Plan.mem_course {cs : List Collection} {start : Session σ} {n : Nat} {turn : Turn}
    (h : (plan.boundary cs start n).turn? = some turn) :
    ((plan.boundary cs start n).session, turn) ∈ plan.course cs start := by
  have hn : n < (plan.boundary cs start 0).work := by
    by_contra hlate
    rw [Boundary.turn?_eq_none.2 (Plan.over_of_work_le (by omega))] at h
    cases h
  refine List.mem_flatMap.2 ⟨n, List.mem_range.2 hn, ?_⟩
  dsimp only
  rw [h]
  exact List.mem_singleton_self _

/-! ## What arises at a turn -/

/-- The fault in which restoring the permissions of a folder ends, if that is wanted. -/
def Plan.settlingFaults (plan : Plan σ) (path : BackupPath) (address : DriveAddress)
    (folder : String) (m : Metadata) (s : Session σ) : List Fault :=
  if plan.options.restorePermissions && !address.isRoot then
    faultOf ((plan.restorePermissions address.drive folder path m).run s).1
  else []

/-- The fault in which the permissions of the folder of a collection are restored while the
collection is entered. -/
def Plan.sharingFaults (plan : Plan σ) (c : Collection) (s : Session σ) : List Fault :=
  if c.path.category.handler = .drive ∧ plan.remote.serves .drive then
    match c.path.drive with
    | .error _ => []
    | .ok address =>
      match plan.folderMetadata c address s.registry.metadata,
        (plan.destinationFolder address).run s with
      | .ok m, (.ok folder, t) => plan.settlingFaults c.path address folder m t
      | _, _ => []
  else []

/-- The exchanges a session has that an earlier one does not have yet. -/
def Session.since (s t : Session σ) : List Exchange := t.trace.drop s.trace.length

theorem Session.since_eq {s t : Session σ} {made : List Exchange}
    (h : t.trace = s.trace ++ made) : s.since t = made := by
  rw [Session.since, h, List.drop_left]

theorem Session.since_trans {s t u : Session σ} (h : s.trace <+: t.trace)
    (h' : t.trace <+: u.trace) : s.since u = s.since t ++ t.since u := by
  obtain ⟨made, hmade⟩ := h
  obtain ⟨more, hmore⟩ := h'
  rw [Session.since_eq hmade.symm, Session.since_eq hmore.symm]
  exact Session.since_eq (by rw [← hmore, ← hmade, List.append_assoc])

/-- The faults that arise at a turn, in their order.  Those of an entry are the mishaps on the way
and the fault it ends in. -/
def Plan.arising (plan : Plan σ) (s : Session σ) : Turn → List Fault
  | .entering c => plan.sharingFaults c s ++ faultOf ((plan.enter c).run s).1
  | .unread c f => [.readingFailed c.path.text f]
  | .taking c entrance e =>
    let taken := (plan.take c entrance e).run s
    mishaps (s.since taken.2) ++ faultOf taken.1
  | .leaving _ => []

/-- How many items are seen at a turn. -/
def Plan.seenAt (plan : Plan σ) : Turn → Nat
  | .taking c entrance e => (plan.sees c entrance e).toNat
  | _ => 0

/-- How many collections are started at a turn. -/
def Turn.started : Turn → Nat
  | .entering _ => 1
  | _ => 0

theorem Plan.Adds.since {s t : Session σ} {l : Ledger} (h : plan.Adds s l t) :
    s.since t = l.exchanges := by
  rw [Session.since, h.trace, List.drop_left]

/-! ## The ledger of a turn -/

/-- Entering a collection does not end in the fault of being stopped. -/
theorem Plan.not_isCancelled_of_enter {c : Collection} {s t : Session σ} {f : Fault}
    (h : (plan.enter c).run s = (.error f, t)) : f.isCancelled = false := by
  have htrivial : Upkeep plan (fun _ => True) (fun _ => True) Going :=
    Upkeep.of_keep (fun _ _ _ _ => trivial) fun _ _ => Fault.not_isCancelled_of_isPlain
  have hkeeps : Restoring.Keeps (fun _ => True) (plan.enter c) Going :=
    htrivial.enter_going (tolerates_going fun _ => trivial) fun _ _ _ => trivial
  exact (hkeeps.error h trivial).2

/-- Settling the permissions of a folder adds quiet calls, and at most one fault. -/
theorem Plan.settleFolder_adds (plan : Plan σ) (path : BackupPath) (address : DriveAddress)
    (folder : String) (m : Metadata) (s : Session σ) :
    ∃ made, (∀ x ∈ made, x.call.isQuiet) ∧
      plan.Adds s { exchanges := made, faults := plan.settlingFaults path address folder m s }
        (plan.settleFolder path address folder m s) := by
  unfold Plan.settleFolder Plan.settlingFaults
  split
  · obtain ⟨made, hquiet, hadds⟩ :=
      plan.restorePermissions_quietly address.drive folder path m s
    rcases hrun : (plan.restorePermissions address.drive folder path m).run s with ⟨f | ⟨⟩, t⟩ <;>
      rw [hrun] at hadds
    · have hnoted := hadds.trans (.note f t)
      exact ⟨made, hquiet, by simpa using hnoted.trace, hnoted.faults, hnoted.tally, hnoted.folders⟩
    · exact ⟨made, hquiet, hadds⟩
  · exact ⟨[], by simp, .refl s⟩

/-- Entering a collection adds quiet calls, and the fault of its permissions. -/
theorem Plan.enter_adds (plan : Plan σ) (c : Collection) (s : Session σ) :
    ∃ made, (∀ x ∈ made, x.call.isQuiet) ∧
      plan.Adds s { exchanges := made, faults := plan.sharingFaults c s }
        ((plan.enter c).run s).2 := by
  unfold Plan.sharingFaults
  cases hserves : plan.remote.serves c.path.category.handler with
  | false =>
    rw [Plan.enter_noHandler hserves, if_neg]
    · exact ⟨[], by simp, .refl s⟩
    · rintro ⟨hdrive, hserved⟩
      rw [hdrive, hserved] at hserves
      cases hserves
  | true =>
    cases hhandler : c.path.category.handler with
    | items kind =>
      rw [hhandler] at hserves
      obtain ⟨made, hquiet, hadds⟩ := plan.containerFor_quietly kind c.path s
      rw [Plan.enter_items hhandler hserves, if_neg (by rintro ⟨⟨⟩, -⟩)]
      rcases hrun : (plan.containerFor kind c.path).run s with ⟨f | container, t⟩ <;>
        rw [hrun] at hadds <;> exact ⟨made, hquiet, hadds⟩
    | drive =>
      rw [hhandler] at hserves
      rw [Plan.enter_drive hhandler hserves, if_pos ⟨rfl, hserves⟩]
      cases hdrive : c.path.drive with
      | error e =>
        rw [Plan.enterFolder_error plan hdrive]
        exact ⟨[], by simp, .refl s⟩
      | ok address =>
        rw [Plan.enterFolder_run plan hdrive]
        dsimp only
        cases plan.folderMetadata c address s.registry.metadata with
        | error f => exact ⟨[], by simp, .refl s⟩
        | ok m =>
          obtain ⟨made, hquiet, hadds⟩ := plan.destinationFolder_quietly address s
          rcases hrun : (plan.destinationFolder address).run s with ⟨f | folder, t⟩ <;>
            rw [hrun] at hadds
          · exact ⟨made, hquiet, hadds⟩
          · obtain ⟨made', hquiet', hadds'⟩ := plan.settleFolder_adds c.path address folder m t
            refine ⟨made ++ made', ?_, (hadds.trans hadds').metadata c.path.text m⟩
            intro x hx
            rcases List.mem_append.1 hx with hx | hx
            · exact hquiet x hx
            · exact hquiet' x hx

/-- The ledger of a turn. -/
structure Ledger.OfTurn (l : Ledger) (plan : Plan σ) (s : Session σ) (turn : Turn) : Prop where
  folders_eq : l.folders = turn.started
  objects_eq : l.tally.objects = plan.seenAt turn
  faults_eq : l.faults = plan.arising s turn
  balanced : l.Balanced

/-- What comes of an entry that has been taken is added, with the fault it ends in. -/
theorem Plan.afterEntry_adds (plan : Plan σ) (c : Collection) (entrance : Entrance) (e : Entry)
    (s : Session σ) :
    ∃ l : Ledger, l.OfTurn plan s (.taking c entrance e) ∧
      plan.Adds s l (plan.afterEntry ((plan.take c entrance e).run s)) := by
  obtain ⟨l, htakes, hadds⟩ := plan.take_adds c entrance e s
  refine ⟨_, ⟨?_, ?_, ?_, htakes.balanced⟩, hadds.afterEntry ?_⟩
  · exact htakes.folders_eq
  · exact htakes.objects_eq
  · simp only [Ledger.faults_append, Plan.arising, hadds.since, htakes.faults_eq]
  · intro f hf
    exact Plan.not_isCancelled_of_take (t := ((plan.take c entrance e).run s).2) (Prod.ext hf rfl)

/-- Counting the collection a run is in does not interfere with what is added. -/
theorem Plan.Adds.counted {s t : Session σ} {l : Ledger} (h : plan.Adds s l t) :
    plan.Adds (plan.perform .countCollection s) l (plan.perform .countCollection t) where
  trace := h.trace
  faults := h.faults
  tally := h.tally
  folders := by
    change t.progress.folders + 1 = s.progress.folders + 1 + l.folders
    rw [h.folders]
    omega

theorem Plan.begin_adds (plan : Plan σ) (c : Collection) (later : List Collection)
    (s : Session σ) :
    ∃ l : Ledger, l.OfTurn plan s (.entering c) ∧
      plan.Adds s l (plan.close (plan.begin c later s)) := by
  obtain ⟨made, hquiet, hadds⟩ := plan.enter_adds c s
  have hcount := hadds.trans (.countCollection _)
  unfold Plan.begin
  rcases hrun : (plan.enter c).run s with ⟨f | entrance, t⟩ <;> rw [hrun] at hcount
  · have hnoted := hcount.trans (.note f _)
    simp only [Plan.close, Plan.afterCollection, Plan.not_isCancelled_of_enter hrun,
      Bool.false_eq_true, ↓reduceIte]
    refine ⟨_, ⟨rfl, rfl, ?_, Ledger.balanced_of_isQuiet (by simpa using hquiet) rfl⟩, hnoted⟩
    simp [Plan.arising, hrun, faultOf]
  · refine ⟨_, ⟨rfl, rfl, ?_, Ledger.balanced_of_isQuiet (by simpa using hquiet) rfl⟩, hcount⟩
    simp [Plan.arising, hrun, faultOf]

theorem Plan.pass_adds (plan : Plan σ) (p : Passage) (later : List Collection) (s : Session σ) :
    ∃ l : Ledger, l.OfTurn plan s p.turn ∧
      plan.Adds (plan.perform .countCollection s) l (plan.close (plan.pass p later s)) := by
  obtain ⟨c, entrance, rest⟩ := p
  rcases rest with _ | ⟨f | e, rest⟩
  · refine ⟨{}, ⟨rfl, rfl, rfl, Ledger.balanced_of_isQuiet (by simp) rfl⟩, ?_⟩
    unfold Plan.pass Plan.close
    dsimp only
    split
    · exact ⟨by simp [Plan.perform], rfl, rfl, rfl⟩
    · exact .refl _
  · refine ⟨{ faults := [.readingFailed c.path.text f] },
      ⟨rfl, rfl, rfl, Ledger.balanced_of_isQuiet (by simp) rfl⟩, ?_⟩
    exact (Plan.Adds.note (.readingFailed c.path.text f) s).counted
  · obtain ⟨l, hturn, hadds⟩ := plan.afterEntry_adds c entrance e s
    exact ⟨l, hturn, hadds.counted⟩

/-- What a run adds on its way from a boundary to the next is the ledger of its turn; a collection
it is in counts as handled on both sides. -/
theorem Plan.advance_adds (plan : Plan σ) {b : Boundary σ} {turn : Turn} (h : b.turn? = some turn) :
    ∃ l : Ledger, l.OfTurn plan b.session turn ∧
      plan.Adds (plan.close b) l (plan.close (plan.advance b)) := by
  rcases plan.advance_cases b with ⟨p, hgoes, hcurrent, hadvance⟩ |
    ⟨c, later, hgoes, hcurrent, hlater, hadvance⟩ | ⟨hover, -⟩
  · rw [Boundary.turn?, if_pos hgoes, hcurrent] at h
    cases h
    rw [hadvance, Plan.close, hcurrent]
    exact plan.pass_adds p b.later b.session
  · rw [Boundary.turn?, if_pos hgoes, hcurrent, hlater] at h
    cases h
    rw [hadvance, Plan.close, hcurrent]
    exact plan.begin_adds c later b.session
  · rw [Boundary.turn?_eq_none.2 hover] at h
    cases h

/-! ## The ledger of a run -/

/-- The faults that arise in a course. -/
def Plan.arisen (plan : Plan σ) (course : List (Session σ × Turn)) : List Fault :=
  course.flatMap fun step => plan.arising step.1 step.2

/-- How many items are seen in a course. -/
def Plan.seen (plan : Plan σ) (course : List (Session σ × Turn)) : Nat :=
  (course.map fun step => plan.seenAt step.2).sum

/-- How many collections are started in a course. -/
def startedIn (course : List (Session σ × Turn)) : Nat :=
  (course.map fun step => step.2.started).sum

/-- The ledger of a course. -/
structure Ledger.OfCourse (l : Ledger) (plan : Plan σ) (course : List (Session σ × Turn)) :
    Prop where
  folders_eq : l.folders = startedIn course
  objects_eq : l.tally.objects = plan.seen course
  faults_eq : l.faults = plan.arisen course
  balanced : l.Balanced

theorem Ledger.OfCourse.append {l l' : Ledger} {course : List (Session σ × Turn)} {s : Session σ}
    {turn : Turn} (h : l.OfCourse plan course) (h' : l'.OfTurn plan s turn) :
    (l ++ l').OfCourse plan (course ++ [(s, turn)]) where
  folders_eq := by simp [startedIn, h.folders_eq, h'.folders_eq]
  objects_eq := by simp [Plan.seen, h.objects_eq, h'.objects_eq]
  faults_eq := by simp [Plan.arisen, h.faults_eq, h'.faults_eq]
  balanced := h.balanced.append h'.balanced

/-- Up to every boundary a run adds the ledger of its course. -/
theorem Plan.boundary_adds (plan : Plan σ) (cs : List Collection) (start : Session σ) (n : Nat) :
    ∃ l : Ledger, l.OfCourse plan (plan.courseUntil cs start n) ∧
      plan.Adds start l (plan.close (plan.boundary cs start n)) := by
  induction n with
  | zero =>
    exact ⟨{}, ⟨rfl, rfl, rfl, Ledger.balanced_of_isQuiet (by simp) rfl⟩, .refl start⟩
  | succ n ih =>
    obtain ⟨l, hcourse, hadds⟩ := ih
    rw [Plan.courseUntil_succ, Plan.boundary_succ]
    cases hturn : (plan.boundary cs start n).turn? with
    | none =>
      rw [Plan.advance_of_over (Boundary.turn?_eq_none.1 hturn)]
      exact ⟨l, by simpa using hcourse, hadds⟩
    | some turn =>
      obtain ⟨l', hnext, hadds'⟩ := plan.advance_adds hturn
      exact ⟨l ++ l', hcourse.append hnext, hadds.trans hadds'⟩

/-- A run adds the ledger of its course before it is concluded. -/
theorem Plan.restoreAll_adds (plan : Plan σ) (cs : List Collection) (start : Session σ) :
    ∃ l : Ledger, l.OfCourse plan (plan.course cs start) ∧
      plan.Adds start l (plan.restoreAll (Collection.sort cs) start).2 := by
  rw [Plan.restoreAll_eq_close (Plan.over_of_work_le (Nat.le_refl _))]
  exact plan.boundary_adds cs start (plan.boundary cs start 0).work

end TenantRestore
