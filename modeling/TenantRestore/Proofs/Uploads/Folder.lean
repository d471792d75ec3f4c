/-
# The names that are taken in a folder

The restore decides by the keys it knows of a folder whether a name is taken there, and other
collections may have brought these up to date.  A folder is listed only once, so they are the keys
it was listed with and those of the files that have been stored there since, `Session.Keyed`.

A file keeps this up.  It is uploaded once, unless existing files are kept and its name is taken,
`Filing.sifts`; what the calls tell of the folder is all that matters for it.
-/
import TenantRestore.Proofs.Filing
import TenantRestore.Proofs.Keys
import TenantRestore.Proofs.Turns

namespace TenantRestore

variable {σ : Type} {plan : Plan σ}

/-! ## What the calls tell of a folder -/

/-- Whether a call lists the keys of a folder. -/
def Call.isListing : Call → Bool
  | .drive (.listKeys _ _) => true
  | _ => false

/-- Whether a call uploads a file. -/
def Call.isUpload : Call → Bool
  | .drive (.upload _ _ _ _ _) => true
  | _ => false

/-- Whether a folder is listed with a name. -/
def Exchange.lists (folder name : String) : Exchange → Bool
  | ⟨.drive (.listKeys _ place), .ok ks⟩ => place = folder && ks.contains name
  | _ => false

/-- Whether a file of a name is stored in a folder. -/
def Exchange.stores (folder name : String) : Exchange → Bool
  | ⟨.drive (.upload _ place title _ _), .ok _⟩ => place = folder && title = name
  | _ => false

/-- The uploads among some exchanges. -/
def uploads (xs : List Exchange) : List Exchange := xs.filter (·.call.isUpload)

@[simp] theorem uploads_append (xs ys : List Exchange) :
    uploads (xs ++ ys) = uploads xs ++ uploads ys := List.filter_append ..

/-- Exchanges that neither list keys nor create anything. -/
def LeaveKeys (xs : List Exchange) : Prop := ∀ x ∈ xs, x.call.container? = none

section LeaveKeys

variable {xs : List Exchange} {folder name : String}

theorem LeaveKeys.nil : LeaveKeys [] := by simp [LeaveKeys]

theorem LeaveKeys.append {ys : List Exchange} (h : LeaveKeys xs) (h' : LeaveKeys ys) :
    LeaveKeys (xs ++ ys) :=
  fun x hx => (List.mem_append.1 hx).elim (h x) (h' x)

theorem LeaveKeys.any_lists (h : LeaveKeys xs) : xs.any (Exchange.lists folder name) = false := by
  refine List.any_eq_false.2 fun x hx hlists => ?_
  have hcall := h x hx
  unfold Exchange.lists at hlists
  split at hlists
  · cases hcall
  · cases hlists

theorem LeaveKeys.any_stores (h : LeaveKeys xs) : xs.any (Exchange.stores folder name) = false := by
  refine List.any_eq_false.2 fun x hx hstores => ?_
  have hcall := h x hx
  unfold Exchange.stores at hstores
  split at hstores
  · cases hcall
  · cases hstores

theorem LeaveKeys.uploads_eq (h : LeaveKeys xs) : uploads xs = [] := by
  refine List.filter_eq_nil_iff.2 fun x hx hupload => ?_
  have hcall := h x hx
  unfold Call.isUpload at hupload
  split at hupload
  · rename_i hc
    rw [hc] at hcall
    cases hcall
  · cases hupload

theorem Granting.leaveKeys {drive item : String} (h : Granting drive item xs) : LeaveKeys xs := by
  obtain ⟨revoked, granted, rfl, hrevoked, hgranted⟩ := h
  refine LeaveKeys.append (fun x hx => ?_) fun x hx => ?_
  · obtain ⟨permission, hcall⟩ := hrevoked x hx
    rw [hcall]
    rfl
  · obtain ⟨invitation, hcall⟩ := hgranted x hx
    rw [hcall]
    rfl

end LeaveKeys

namespace Loads

variable {folder drive : String} {before after : Registry} {made : List Exchange} {ks : Keys}

theorem any_stores
    (h : Loads folder (Exchange.mk (.drive (.listKeys drive folder))) before made ks after)
    (place name : String) : made.any (Exchange.stores place name) = false := by
  cases h <;> rfl

theorem uploads_eq
    (h : Loads folder (Exchange.mk (.drive (.listKeys drive folder))) before made ks after) :
    uploads made = [] := by
  cases h <;> rfl

end Loads

namespace Storing

variable {policy : CollisionPolicy} {drive folder : String} {file : DriveFile} {ks : Keys}
  {made : List Exchange} {id? : Option String}

theorem any_lists (h : Storing policy drive folder file ks made id?) (place name : String) :
    made.any (Exchange.lists place name) = false := by
  cases h <;> rfl

/-- A file is stored under its name if it gets an id. -/
theorem any_stores (h : Storing policy drive folder file ks made id?) (place name : String) :
    made.any (Exchange.stores place name) =
      (id?.isSome && (folder = place && file.name = name)) := by
  cases h <;> simp [Exchange.stores]

/-- A file is uploaded once unless another one of its name is kept. -/
theorem uploads_eq (h : Storing policy drive folder file ks made id?) :
    (policy = .skip ∧ ks.contains file.name ∧ uploads made = [] ∧ id? = none) ∨
      ¬ (policy = .skip ∧ ks.contains file.name) ∧ ∃ x, uploads made = [x] ∧
        x.call = .drive (.upload drive folder file.name file.data policy) ∧
        x.succeeds = id?.isSome := by
  cases h with
  | kept hskip => exact .inl ⟨hskip.2, hskip.1, rfl, rfl⟩
  | refused hnew f => exact .inr ⟨fun h => hnew h.symm, _, rfl, rfl, rfl⟩
  | added hnew _ new => exact .inr ⟨fun h => hnew h.symm, _, rfl, rfl, rfl⟩
  | stays hreplace _ new f => exact .inr ⟨by simp [hreplace], _, rfl, rfl, rfl⟩
  | replaced hreplace _ new r => exact .inr ⟨by simp [hreplace], _, rfl, rfl, rfl⟩

end Storing

/-! ## What the restore knows of a folder -/

/-- Of every folder the restore knows the names it was listed with and those of the files that have
been stored there. -/
def Session.Keyed (s : Session σ) : Prop :=
  ∀ folder name, (s.registry.keys.find? folder).any (·.contains name) =
    (s.trace.any (Exchange.lists folder name) || s.trace.any (Exchange.stores folder name))

/-- From a session to another one no keys are listed, nothing is created, and nothing is learnt of
any keys. -/
structure Session.SparesKeys (s t : Session σ) : Prop where
  keys : t.registry.keys = s.registry.keys
  trace : ∃ made, t.trace = s.trace ++ made ∧ LeaveKeys made

namespace Session.SparesKeys

variable {s t : Session σ}

theorem refl (s : Session σ) : s.SparesKeys s := ⟨rfl, [], (List.append_nil _).symm, .nil⟩

theorem perform (plan : Plan σ) (h : s.SparesKeys t) {e : Effect} (he : e.leavesKeys) :
    s.SparesKeys (plan.perform e t) := by
  cases e with
  | call c =>
    obtain ⟨made, htrace, hmade⟩ := h.trace
    refine ⟨h.keys, made ++ [⟨c, (plan.ask c t).1⟩], ?_, hmade.append fun x hx => ?_⟩
    · change t.trace ++ [⟨c, (plan.ask c t).1⟩] = _
      rw [htrace, List.append_assoc]
    · rw [List.mem_singleton.1 hx]
      simpa [Effect.leavesKeys] using he
  | keys _ _ => cases he
  | metadata _ _ | permissionIds _ | folder _ _ | container _ _ | tally _ | note _ | stop
  | countCollection => exact ⟨h.keys, h.trace⟩

theorem before (h : s.SparesKeys t) : s.trace <+: t.trace := by
  obtain ⟨made, htrace, -⟩ := h.trace
  rw [htrace]
  exact List.prefix_append ..

theorem uploads_eq (h : s.SparesKeys t) : uploads (s.since t) = [] := by
  obtain ⟨made, htrace, hmade⟩ := h.trace
  rw [Session.since_eq htrace, hmade.uploads_eq]

theorem any_lists (h : s.SparesKeys t) (folder name : String) :
    t.trace.any (Exchange.lists folder name) = s.trace.any (Exchange.lists folder name) := by
  obtain ⟨made, htrace, hmade⟩ := h.trace
  rw [htrace, List.any_append, hmade.any_lists, Bool.or_false]

theorem any_stores (h : s.SparesKeys t) (folder name : String) :
    t.trace.any (Exchange.stores folder name) = s.trace.any (Exchange.stores folder name) := by
  obtain ⟨made, htrace, hmade⟩ := h.trace
  rw [htrace, List.any_append, hmade.any_stores, Bool.or_false]

theorem keyed (h : s.SparesKeys t) (hs : s.Keyed) : t.Keyed := fun folder name => by
  rw [h.keys, h.any_lists, h.any_stores]
  exact hs folder name

end Session.SparesKeys

theorem upkeep_sparesKeys (s : Session σ) :
    Upkeep plan (fun e => e.leavesKeys) s.SparesKeys Going :=
  Upkeep.of_keep (fun _ _ he h => h.perform plan he) fun _ _ => Fault.not_isCancelled_of_isPlain

theorem upkeep_keyed : Upkeep plan (fun e => e.leavesKeys) Session.Keyed Going :=
  Upkeep.of_keep (fun _ t he ht => ((Session.SparesKeys.refl t).perform plan he).keyed ht)
    fun _ _ => Fault.not_isCancelled_of_isPlain

/-! ## One file -/

section Filing

variable {c : Collection} {address : DriveAddress} {folder : String} {file : DriveFile}
  {s t : Session σ}

namespace Loads

variable {known : Registry} {made : List Exchange} {ks : Keys}

/-- The keys in hand are those listed, now or before, and those stored before. -/
theorem contains_eq
    (h : Loads folder (Exchange.mk (.drive (.listKeys address.drive folder))) s.registry made ks
      known) (hs : s.Keyed) (name : String) :
    ks.contains name = (s.trace.any (Exchange.lists folder name) ||
      made.any (Exchange.lists folder name) || s.trace.any (Exchange.stores folder name)) := by
  have hkeyed := hs folder name
  cases h with
  | known hknown =>
    rw [hknown] at hkeyed
    simpa using hkeyed
  | listed hunknown =>
    rw [hunknown] at hkeyed
    obtain ⟨hlists, hstores⟩ := Bool.or_eq_false_iff.1 hkeyed.symm
    simp [hlists, hstores, Exchange.lists]

/-- Other folders are not touched. -/
theorem elsewhere
    (h : Loads folder (Exchange.mk (.drive (.listKeys address.drive folder))) s.registry made ks
      known) {place : String} (hplace : folder ≠ place) (name : String) :
    known.keys.find? place = s.registry.keys.find? place ∧
      made.any (Exchange.lists place name) = false := by
  cases h with
  | known _ => exact ⟨rfl, rfl⟩
  | listed _ => simp [hplace, Exchange.lists]

end Loads

/-- Unless the keys of the folder can't be listed, they are listed if they are unknown, and then the
file is stored. -/
theorem Filing.unlisted_or_stores (h : Filing plan c address folder file s t) :
    (∃ f, t.trace = s.trace ++ [⟨.drive (.listKeys address.drive folder), .error f⟩] ∧
      t.registry = s.registry) ∨
    ∃ loads made rest ks known id?,
      Loads folder (Exchange.mk (.drive (.listKeys address.drive folder))) s.registry loads ks
        known ∧
      Storing plan.options.onCollision address.drive folder file ks made id? ∧ LeaveKeys rest ∧
      t.trace = s.trace ++ (loads ++ made ++ rest) ∧
      t.registry.keys = (id?.elim known.keys
        fun new => known.keys.insert folder (ks.insert file.name new)) := by
  cases h with
  | unlisted _ trace registry => exact .inl ⟨_, trace, registry⟩
  | unstored hloads hstoring trace registry =>
    refine .inr ⟨_, _, [], _, _, _, hloads, hstoring, .nil, ?_, by rw [registry]; rfl⟩
    rw [trace, List.append_nil]
  | stored hloads hstoring hgranting trace keys =>
    refine .inr ⟨_, _, _, _, _, _, hloads, hstoring, ?_, trace, keys⟩
    exact List.forall_mem_cons.2 ⟨rfl, hgranting.leaveKeys⟩

/-- After a file the restore knows what it has to know of every folder. -/
theorem Filing.keyed (h : Filing plan c address folder file s t) (hs : s.Keyed) : t.Keyed := by
  intro place name
  rcases h.unlisted_or_stores with
    ⟨f, htrace, hregistry⟩ |
    ⟨loads, made, rest, ks, known, id?, hloads, hstoring, hrest, htrace, hkeys⟩
  · rw [htrace, hregistry, hs place name]
    simp [Exchange.lists, Exchange.stores]
  rw [htrace, hkeys]
  simp only [List.any_append, hloads.any_stores, hstoring.any_lists, hstoring.any_stores,
    hrest.any_lists, hrest.any_stores, Bool.or_false, Bool.false_or]
  by_cases hplace : folder = place
  · subst hplace
    have hcontains := hloads.contains_eq hs name
    cases id? with
    | none => simpa [hloads.find?, ← Bool.or_assoc] using hcontains
    | some new =>
      simp only [Option.elim_some, Table.find?_insert, ↓reduceIte, Option.any_some,
        Table.contains_insert, hcontains, Option.isSome_some, Bool.true_and, decide_true]
      ac_rfl
  · obtain ⟨hfind, hlists⟩ := hloads.elsewhere hplace name
    have hkeyed := hs place name
    cases id? <;> simp [hplace, hfind, hlists, hkeyed]

/-- What is uploaded from a session to another one on behalf of a file. -/
structure Sifts (policy : CollisionPolicy) (drive folder : String) (file : DriveFile)
    (s t : Session σ) : Prop where
  before : s.trace <+: t.trace
  known : t.registry.keys.contains folder
  /-- A folder that is known is not listed again. -/
  lists : s.registry.keys.contains folder → ∀ name,
    t.trace.any (Exchange.lists folder name) = s.trace.any (Exchange.lists folder name)
  /-- The file is uploaded once, unless it is to be left out since its name is taken. -/
  uploads :
    let taken := t.trace.any (Exchange.lists folder file.name) ||
      s.trace.any (Exchange.stores folder file.name)
    (policy = .skip ∧ taken ∧ uploads (s.since t) = [] ∧ ∀ name,
      t.trace.any (Exchange.stores folder name) = s.trace.any (Exchange.stores folder name)) ∨
    ¬ (policy = .skip ∧ taken) ∧ ∃ x, uploads (s.since t) = [x] ∧
      x.call = .drive (.upload drive folder file.name file.data policy) ∧ ∀ name,
      t.trace.any (Exchange.stores folder name) =
        (s.trace.any (Exchange.stores folder name) || (x.succeeds && file.name = name))

theorem Filing.sifts (h : Filing plan c address folder file s t) (hs : s.Keyed)
    (hlisted : ∀ x ∈ t.trace, x.call.isListing → x.succeeds) :
    Sifts plan.options.onCollision address.drive folder file s t := by
  rcases h.unlisted_or_stores with
    ⟨f, htrace, -⟩ | ⟨loads, made, rest, ks, known, id?, hloads, hstoring, hrest, htrace, hkeys⟩
  · have hmem : ⟨.drive (.listKeys address.drive folder), .error f⟩ ∈ t.trace := by simp [htrace]
    cases hlisted _ hmem rfl
  have hlists (name : String) : t.trace.any (Exchange.lists folder name) =
      (s.trace.any (Exchange.lists folder name) || loads.any (Exchange.lists folder name)) := by
    rw [htrace]
    simp [hstoring.any_lists, hrest.any_lists]
  have hstores (name : String) : t.trace.any (Exchange.stores folder name) =
      (s.trace.any (Exchange.stores folder name) || (id?.isSome && file.name = name)) := by
    rw [htrace]
    simp [hloads.any_stores, hstoring.any_stores, hrest.any_stores]
  have huploads : uploads (s.since t) = uploads made := by
    rw [Session.since_eq htrace]
    simp [hloads.uploads_eq, hrest.uploads_eq]
  have htaken : ks.contains file.name = (t.trace.any (Exchange.lists folder file.name) ||
      s.trace.any (Exchange.stores folder file.name)) := by
    rw [hloads.contains_eq hs, hlists]
  refine ⟨by rw [htrace]; exact List.prefix_append .., ?_, fun hknown name => ?_, ?_⟩
  · have hfind := hloads.find?
    rw [hkeys]
    cases id? <;> simp [Table.contains, hfind]
  · cases hloads with
    | known _ => simp [hlists]
    | listed hunknown => simp [Table.contains, hunknown] at hknown
  · dsimp only
    rw [← htaken, huploads]
    rcases hstoring.uploads_eq with ⟨hskip, hcontains, hnone, rfl⟩ | ⟨hnew, x, hone, hcall, hsome⟩
    · exact .inl ⟨hskip, hcontains, hnone, fun name => by simp [hstores]⟩
    · exact .inr ⟨hnew, x, hone, hcall, fun name => by rw [hsome, hstores]⟩

end Filing

end TenantRestore
