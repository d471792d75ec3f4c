/-
# What a step of a restore ensures

A step starts in a session and ends in another one, with a result or in a fault.
`Restoring.Ensures P x Q E` says where the step `x` can end if it starts in a session with
`P`: with a result and a session related by `Q`, or in a fault and a session related by `E`.
A step always ends, so nothing is left open.

Most of what is said about a restore has the form that a property of sessions is kept
however a step ends.  This is `Restoring.Keeps`, and `Steps.Keeps` for steps that have no
fault of their own.
-/
import Mathlib.Tactic.Common
import TenantRestore.Restore.Session

namespace TenantRestore

variable {σ α β : Type}

/-! ## Running steps one after the other -/

namespace Restoring

@[simp] theorem run_pure (a : α) (s : Session σ) :
    (pure a : Restoring σ α).run s = (.ok a, s) := rfl

@[simp] theorem run_throw (f : Fault) (s : Session σ) :
    (throw f : Restoring σ α).run s = (.error f, s) := rfl

@[simp] theorem run_get (s : Session σ) : (get : Restoring σ (Session σ)).run s = (.ok s, s) := rfl

@[simp] theorem run_ofExcept (r : Except Fault α) (s : Session σ) :
    (ofExcept r : Restoring σ α).run s = (r, s) := rfl

@[simp] theorem run_always (x : Steps σ α) (s : Session σ) :
    (always x).run s = (.ok (x s).1, (x s).2) := rfl

/-- A step whose fault is caught ends with the fault or result of the step. -/
theorem run_caught {x : Restoring σ α} {s t : Session σ} {r : Except Fault α}
    (h : x.run s = (r, t)) : (always x.run).run s = (.ok r, t) := by
  rw [run_always]
  exact Prod.ext (congrArg Except.ok (Prod.ext_iff.1 h).1) (Prod.ext_iff.1 h).2

theorem run_bind (x : Restoring σ α) (f : α → Restoring σ β) (s : Session σ) :
    (x >>= f).run s =
      match x.run s with
      | (.ok a, t) => (f a).run t
      | (.error e, t) => (.error e, t) := by
  simp only [bind, ExceptT.bind, ExceptT.run, ExceptT.mk, StateT.bind, ExceptT.bindCont]
  rcases x s with ⟨r, t⟩
  cases r <;> rfl

theorem run_bind_ok {x : Restoring σ α} {s t : Session σ} {a : α}
    (h : x.run s = (.ok a, t)) (f : α → Restoring σ β) : (x >>= f).run s = (f a).run t := by
  rw [run_bind, h]

theorem run_bind_error {x : Restoring σ α} {s t : Session σ} {e : Fault}
    (h : x.run s = (.error e, t)) (f : α → Restoring σ β) :
    (x >>= f).run s = (.error e, t) := by
  rw [run_bind, h]

theorem run_need (ask : Steps σ (Except Failure α)) (s : Session σ) :
    (need ask).run s = ((ask s).1.mapError .remote, (ask s).2) := by
  have h : (need ask).run s =
      match ask s with
      | (.ok a, t) => (.ok a, t)
      | (.error f, t) => (.error (.remote f), t) := by
    -- a call is lifted twice, so its answer has to be followed through both layers
    simp only [need, bind, ExceptT.bind, ExceptT.run, ExceptT.mk, StateT.bind,
      ExceptT.bindCont, liftM, monadLift, MonadLift.monadLift, ExceptT.lift, Functor.map,
      StateT.map]
    rcases ask s with ⟨r, t⟩
    cases r <;> rfl
  rw [h]
  rcases ask s with ⟨r, t⟩
  cases r <;> rfl

end Restoring

/-! ## Where a step can end -/

/-- A step without a fault of its own leads from sessions with `P` to results and sessions
related by `Q`. -/
def Steps.Ensures (P : Session σ → Prop) (x : Steps σ α) (Q : α → Session σ → Prop) : Prop :=
  ∀ s, P s → Q (x s).1 (x s).2

/-- A property of sessions is kept by a step, whose results have a property `R`. -/
abbrev Steps.Keeps (I : Session σ → Prop) (x : Steps σ α) (R : α → Session σ → Prop) : Prop :=
  Steps.Ensures I x fun a t => I t ∧ R a t

/-- The end of a step: a result and a session related by `Q`, or a fault and a session related
by `E`. -/
def Ends (Q : α → Session σ → Prop) (E : Fault → Session σ → Prop) :
    Except Fault α × Session σ → Prop
  | (.ok a, t) => Q a t
  | (.error f, t) => E f t

/-- A step that starts in a session with `P` ends as `Q` and `E` say. -/
def Restoring.Ensures (P : Session σ → Prop) (x : Restoring σ α) (Q : α → Session σ → Prop)
    (E : Fault → Session σ → Prop) : Prop :=
  ∀ s, P s → Ends Q E (x.run s)

/-- A property of sessions is kept by a step, whose faults are related by `E` to the session
in which they end it. -/
abbrev Restoring.Keeps (I : Session σ → Prop) (x : Restoring σ α)
    (E : Fault → Session σ → Prop) : Prop :=
  Restoring.Ensures I x (fun _ t => I t) fun f t => I t ∧ E f t

namespace Steps

theorem Ensures.bind {P : Session σ → Prop} {x : Steps σ α} {f : α → Steps σ β}
    {Q : α → Session σ → Prop} {R : β → Session σ → Prop} (hx : Ensures P x Q)
    (hf : ∀ a, Ensures (Q a) (f a) R) : Ensures P (x >>= f) R :=
  fun s hs => hf _ _ (hx s hs)

theorem Ensures.of_imp {P P' : Session σ → Prop} {x : Steps σ α} {Q : α → Session σ → Prop}
    (hx : Ensures P x Q) (hP : ∀ s, P' s → P s) : Ensures P' x Q :=
  fun s hs => hx s (hP s hs)

theorem Keeps.bind {I : Session σ → Prop} {x : Steps σ α} {f : α → Steps σ β}
    {Q : α → Session σ → Prop} {R : β → Session σ → Prop} (hx : Keeps I x Q)
    (hf : ∀ a, Keeps I (f a) R) : Keeps I (x >>= f) R :=
  fun s hs => hf _ _ (hx s hs).1

end Steps

namespace Restoring

variable {P : Session σ → Prop} {I : Session σ → Prop} {E E' : Fault → Session σ → Prop}

theorem Ensures.bind {x : Restoring σ α} {f : α → Restoring σ β} {Q : α → Session σ → Prop}
    {R : β → Session σ → Prop} (hx : Ensures P x Q E) (hf : ∀ a, Ensures (Q a) (f a) R E) :
    Ensures P (x >>= f) R E := by
  intro s hs
  have h := hx s hs
  rcases hr : x.run s with ⟨_ | _, t⟩ <;> rw [hr] at h
  · rw [run_bind_error hr]
    exact h
  · rw [run_bind_ok hr]
    exact hf _ t h

theorem Ensures.always {x : Steps σ α} {Q : α → Session σ → Prop} (h : Steps.Ensures P x Q) :
    Ensures P (always x) Q E :=
  h

theorem Ensures.get_bind {f : Session σ → Restoring σ α} {Q : α → Session σ → Prop}
    (h : ∀ s, P s → Ends Q E ((f s).run s)) : Ensures P (get >>= f) Q E :=
  h

theorem Ensures.mono {P' : Session σ → Prop} {x : Restoring σ α} {Q Q' : α → Session σ → Prop}
    (hx : Ensures P x Q E) (hP : ∀ s, P' s → P s) (hQ : ∀ a s, Q a s → Q' a s)
    (hE : ∀ f s, E f s → E' f s) : Ensures P' x Q' E' := by
  intro s hs
  have h := hx s (hP s hs)
  rcases hr : x.run s with ⟨_ | _, t⟩ <;> rw [hr] at h
  · exact hE _ t h
  · exact hQ _ t h

/-- What a step ensures when its result and the session it ends in are given. -/
theorem Ensures.ok {x : Restoring σ α} {Q : α → Session σ → Prop} (hx : Ensures P x Q E)
    {s t : Session σ} {a : α} (h : x.run s = (.ok a, t)) (hs : P s) : Q a t := by
  have hend := hx s hs
  rwa [h] at hend

/-- What a step ensures when its fault and the session it ends in are given. -/
theorem Ensures.error {x : Restoring σ α} {Q : α → Session σ → Prop} (hx : Ensures P x Q E)
    {s t : Session σ} {f : Fault} (h : x.run s = (.error f, t)) (hs : P s) : E f t := by
  have hend := hx s hs
  rwa [h] at hend

theorem Keeps.pure {a : α} : Keeps I (Pure.pure a : Restoring σ α) E :=
  fun _ hs => hs

theorem Keeps.throw {f : Fault} (h : ∀ s, I s → E f s) :
    Keeps I (MonadExcept.throw f : Restoring σ α) E :=
  fun s hs => ⟨hs, h s hs⟩

theorem Keeps.bind {x : Restoring σ α} {f : α → Restoring σ β} (hx : Keeps I x E)
    (hf : ∀ a, Keeps I (f a) E) : Keeps I (x >>= f) E :=
  Ensures.bind hx hf

theorem Keeps.ofExcept {r : Except Fault α} (h : ∀ f s, r = .error f → I s → E f s) :
    Keeps I (ofExcept r : Restoring σ α) E := by
  intro s hs
  cases r with
  | ok a => exact hs
  | error f => exact ⟨hs, h f s rfl hs⟩

theorem Keeps.always {x : Steps σ α} {R : α → Session σ → Prop} (h : Steps.Keeps I x R) :
    Keeps I (always x) E :=
  fun s hs => (h s hs).1

/-- A step whose fault is caught keeps what the step keeps. -/
theorem Keeps.caught {x : Restoring σ α} (h : Keeps I x E) :
    Steps.Keeps I x.run fun r t => ∀ f, r = .error f → E f t := by
  intro s hs
  have hend := h s hs
  rcases hr : x.run s with ⟨_ | _, t⟩ <;> rw [hr] at hend
  · refine ⟨hend.1, ?_⟩
    rintro _ ⟨⟩
    exact hend.2
  · exact ⟨hend, by simp⟩

theorem Keeps.mono {x : Restoring σ α} (h : Keeps I x E) (hE : ∀ f s, I s → E f s → E' f s) :
    Keeps I x E' :=
  Ensures.mono h (fun _ hs => hs) (fun _ _ hs => hs) fun f s hs => ⟨hs.1, hE f s hs.1 hs.2⟩

/-- The session after a step has what the step keeps. -/
theorem Keeps.snd {x : Restoring σ α} (h : Keeps I x E) {s : Session σ} (hs : I s) :
    I (x.run s).2 := by
  have hend := h s hs
  rcases hr : x.run s with ⟨_ | _, t⟩ <;> rw [hr] at hend
  · exact hend.1
  · exact hend

end Restoring

end TenantRestore
