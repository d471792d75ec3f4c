/-
# Handlers that only see their own calls

Every category of a backup has a handler, and the calls of a restore are made on one handler
each.  `Remote.combine` puts handlers together which know nothing of each other: each has a
state of its own, and answers the calls made on it from that state only.

Two sessions of such a restore are alike for a handler if the handler has had the same
exchanges in both, is in the same state in both, and the restore knows the same of its folders
and containers.  The keys of containers are left out on purpose: they are kept in one table for
all handlers.
-/
import Mathlib.Logic.Function.Basic
import TenantRestore.Proofs.Effect.Run

namespace TenantRestore

/-- The handler a call is made on; receipts are handed out to none. -/
def Call.handler? : Call → Option Handler
  | .drive _ => some .drive
  | .items kind _ => some (.items kind)
  | .receipt _ => none

/-- The exchanges of a trace with a handler. -/
def exchangesWith (h : Handler) (trace : List Exchange) : List Exchange :=
  trace.filter fun x => x.call.handler? = some h

theorem exchangesWith_append_singleton (h : Handler) (trace : List Exchange) (x : Exchange) :
    exchangesWith h (trace ++ [x]) =
      if x.call.handler? = some h then exchangesWith h trace ++ [x] else exchangesWith h trace := by
  rw [exchangesWith, List.filter_append, List.filter_cons, List.filter_nil]
  split <;> rename_i hx
  · rw [if_pos (by simpa using hx)]
    rfl
  · rw [if_neg (by simpa using hx), List.append_nil]
    rfl

variable {τ : Handler → Type} {ρ : Type}

/-- The states of handlers that know nothing of each other, and of whoever takes the receipts. -/
abbrev HandlerStates (τ : Handler → Type) (ρ : Type) : Type := ((h : Handler) → τ h) × ρ

/-- Handlers that only see their own calls, beside someone who takes the receipts. -/
def Remote.combine (machine : (h : Handler) → Remote (τ h)) (desk : Remote ρ) :
    Remote (HandlerStates τ ρ) where
  serves h := (machine h).serves h
  respond call s :=
    match call.handler? with
    | some h =>
      let (r, t) := (machine h).respond call (s.1 h)
      (r, (Function.update s.1 h t, s.2))
    | none =>
      let (r, t) := desk.respond call s.2
      (r, (s.1, t))

/-- Two sessions that are alike for a handler. -/
structure Session.Alike (h : Handler) (s s' : Session (HandlerStates τ ρ)) : Prop where
  exchanges : exchangesWith h s.trace = exchangesWith h s'.trace
  machine : s.remote.1 h = s'.remote.1 h
  metadata : h = .drive → s.registry.metadata = s'.registry.metadata
  permissionIds : h = .drive → s.registry.permissionIds = s'.registry.permissionIds
  folders : h = .drive → s.registry.folders = s'.registry.folders
  containers : ∀ place, place.1.handler = h →
    s.registry.containers.find? place = s'.registry.containers.find? place

theorem Session.Alike.refl (h : Handler) (s : Session (HandlerStates τ ρ)) :
    s.Alike h s :=
  ⟨rfl, rfl, fun _ => rfl, fun _ => rfl, fun _ => rfl, fun _ _ => rfl⟩

variable {plan : Plan (HandlerStates τ ρ)} {machine : (h : Handler) → Remote (τ h)}
  {desk : Remote ρ} (hremote : plan.remote = Remote.combine machine desk)
include hremote

/-- A call made on a handler is answered from the state of the handler. -/
theorem Plan.ask_handler {h : Handler} {c : Call} (hc : c.handler? = some h)
    (s : Session (HandlerStates τ ρ)) :
    (plan.ask c s).1 = ((machine h).respond c (s.remote.1 h)).1.answer ∧
      (plan.ask c s).2.remote =
        (Function.update s.remote.1 h ((machine h).respond c (s.remote.1 h)).2, s.remote.2) := by
  have hrespond : plan.remote.respond c s.remote =
      (((machine h).respond c (s.remote.1 h)).1,
        (Function.update s.remote.1 h ((machine h).respond c (s.remote.1 h)).2, s.remote.2)) := by
    rw [hremote]
    simp only [Remote.combine, hc]
  unfold Plan.ask
  rw [hrespond]
  exact ⟨rfl, rfl⟩

/-- Handing out a receipt leaves the handlers alone. -/
theorem Plan.ask_receipt (r : Receipt) (s : Session (HandlerStates τ ρ)) :
    (plan.ask (.receipt r) s).2.remote.1 = s.remote.1 := by
  unfold Plan.ask
  rw [hremote]
  rfl

namespace Session.Alike

variable {h : Handler} {s s' : Session (HandlerStates τ ρ)}

/-- A handler answers a call alike in sessions that are alike for it. -/
theorem ask (hs : s.Alike h s') {c : Call} (hc : c.handler? = some h) :
    (plan.ask c s).1 = (plan.ask c s').1 ∧ (plan.ask c s).2.Alike h (plan.ask c s').2 := by
  obtain ⟨hanswer, hstate⟩ := Plan.ask_handler hremote hc s
  obtain ⟨hanswer', hstate'⟩ := Plan.ask_handler hremote hc s'
  have hsame : (plan.ask c s).1 = (plan.ask c s').1 := by rw [hanswer, hanswer', hs.machine]
  refine ⟨hsame, ?_, ?_, hs.metadata, hs.permissionIds, hs.folders, hs.containers⟩
  · change exchangesWith h (s.trace ++ [⟨c, (plan.ask c s).1⟩]) =
      exchangesWith h (s'.trace ++ [⟨c, (plan.ask c s').1⟩])
    rw [exchangesWith_append_singleton, exchangesWith_append_singleton, hs.exchanges, hsame]
  · rw [hstate, hstate', hs.machine]
    simp

/-- A call made on another handler, or on none, does not make a difference. -/
theorem ask_other (hs : s.Alike h s') {c : Call} (hc : c.handler? ≠ some h) :
    (plan.ask c s).2.Alike h s' := by
  refine ⟨?_, ?_, hs.metadata, hs.permissionIds, hs.folders, hs.containers⟩
  · change exchangesWith h (s.trace ++ [⟨c, (plan.ask c s).1⟩]) = _
    rw [exchangesWith_append_singleton, if_neg hc, hs.exchanges]
  · cases hk : c.handler? with
    | none =>
      rcases c with _ | _ | r
      · cases hk
      · cases hk
      · rw [Plan.ask_receipt hremote, hs.machine]
    | some k =>
      have hne : h ≠ k := fun hhk => hc (by rw [hk, hhk])
      rw [(Plan.ask_handler hremote hk s).2, ← hs.machine]
      exact Function.update_of_ne hne _ _

omit hremote in
theorem symm (hs : s.Alike h s') : s'.Alike h s where
  exchanges := hs.exchanges.symm
  machine := hs.machine.symm
  metadata hd := (hs.metadata hd).symm
  permissionIds hd := (hs.permissionIds hd).symm
  folders hd := (hs.folders hd).symm
  containers p hp := (hs.containers p hp).symm

/-- The same effect on both sides makes no difference. -/
theorem perform (hs : s.Alike h s') (e : Effect) :
    (plan.perform e s).Alike h (plan.perform e s') := by
  cases e with
  | call c =>
    by_cases hc : c.handler? = some h
    · exact (hs.ask hremote hc).2
    · -- the other handler may answer differently, but this one does not see it
      exact ((hs.ask_other hremote hc).symm.ask_other hremote hc).symm
  | metadata p m =>
    exact { hs with
      metadata := fun hd =>
        congrArg (fun t : Table String Metadata => t.insert p m) (hs.metadata hd) }
  | permissionIds ids => exact { hs with permissionIds := fun _ => rfl }
  | folder p id =>
    exact { hs with
      folders := fun hd =>
        congrArg (fun t : Table (String × List String) String => t.insert p id) (hs.folders hd) }
  | container p id =>
    refine { hs with containers := fun q hq => ?_ }
    simp only [Plan.perform, Table.find?_insert, hs.containers q hq]
  | keys _ _ | tally _ | note _ | stop | countCollection => exact { hs with }

/-- An effect of another handler makes no difference. -/
theorem perform_other (hs : s.Alike h s') {k : Handler} (hk : k ≠ h) {e : Effect}
    (he : e.isOf k) : (plan.perform e s).Alike h s' := by
  cases e with
  | call c =>
    refine hs.ask_other hremote fun hc => hk ?_
    cases c <;> simp_all [Effect.isOf, Call.handler?]
  | metadata p m =>
    have hd : h ≠ .drive := fun hd => hk (by simp_all [Effect.isOf])
    exact { hs with metadata := fun h => absurd h hd }
  | permissionIds ids =>
    have hd : h ≠ .drive := fun hd => hk (by simp_all [Effect.isOf])
    exact { hs with permissionIds := fun h => absurd h hd }
  | folder p id =>
    have hd : h ≠ .drive := fun hd => hk (by simp_all [Effect.isOf])
    exact { hs with folders := fun h => absurd h hd }
  | container p id =>
    refine { hs with containers := fun q hq => ?_ }
    have hne : p ≠ q := by
      rintro rfl
      have hp : k = p.1.handler := by simpa [Effect.isOf] using he
      exact hk (hp.trans hq)
    simp only [Plan.perform, Table.find?_insert, if_neg hne]
    exact hs.containers q hq
  | keys _ _ | tally _ | note _ | stop | countCollection => exact { hs with }

end Session.Alike

end TenantRestore
