/-
# The ways in which an item is settled

An item that is settled under a collision policy is kept out, refused, added, or takes the place
of another one, which may fail to be deleted.  These are all the ways, `Settles`, and what is
said of storing a file or an item is said of each of them.
-/
import TenantRestore.Proofs.Collision.Steps
import TenantRestore.Proofs.Effect

namespace TenantRestore

section Settle

variable {σ : Type} {policy : CollisionPolicy} {key : String} {ks : Keys}
  {create : Steps σ (Except Failure String)} {delete : String → Steps σ (Except Failure Unit)}
  {s t u : Session σ} {new old : String} {f : Failure}

theorem Plan.place_eq (plan : Plan σ) (container : String) {r : Except Fault String} {ks' : Keys}
    (h : plan.options.onCollision.settle key ks create delete s = ((r, ks'), t)) :
    plan.place container key ks create delete s = (r, plan.perform (.keys container ks') t) := by
  unfold Plan.place
  simp only [bind, StateT.bind, h]
  rfl

/-- How an item of a given key is settled, with the result, the keys and the session afterwards. -/
inductive Settles (policy : CollisionPolicy) (key : String) (ks : Keys)
    (create : Steps σ (Except Failure String)) (delete : String → Steps σ (Except Failure Unit))
    (s : Session σ) : Except Fault String → Keys → Session σ → Prop
  /-- An item of the key exists, and is kept. -/
  | kept (hskip : ks.contains key ∧ policy = .skip) :
      Settles policy key ks create delete s (.error (.itemAlreadyExists key)) ks s
  /-- The item can't be created. -/
  | refused {f : Failure} {t : Session σ} (hnew : ¬ (ks.contains key ∧ policy = .skip))
      (hcreate : create s = (.error f, t)) :
      Settles policy key ks create delete s (.error (.remote f)) ks t
  /-- The item is created, and none is replaced. -/
  | added {new : String} {t : Session σ} (hnew : ¬ (ks.contains key ∧ policy = .skip))
      (hcreate : create s = (.ok new, t)) (hfree : policy = .replace → ks.find? key = none) :
      Settles policy key ks create delete s (.ok new) (ks.insert key new) t
  /-- The item is created, and the one it replaces is deleted. -/
  | replaced {new old : String} {t u : Session σ} (hreplace : policy = .replace)
      (hold : ks.find? key = some old) (hcreate : create s = (.ok new, t))
      (hdelete : delete old t = (.ok (), u)) :
      Settles policy key ks create delete s (.ok new) (ks.insert key new) u
  /-- The item is created, but the one it replaces can't be deleted. -/
  | stays {new old : String} {f : Failure} {t u : Session σ} (hreplace : policy = .replace)
      (hold : ks.find? key = some old) (hcreate : create s = (.ok new, t))
      (hdelete : delete old t = (.error f, u)) :
      Settles policy key ks create delete s (.error (.deletingReplacedItemFailed new old f))
        (ks.insert key new) u

/-- An item is settled in one of these ways. -/
theorem settles (policy : CollisionPolicy) (key : String) (ks : Keys)
    (create : Steps σ (Except Failure String)) (delete : String → Steps σ (Except Failure Unit))
    (s : Session σ) :
    ∃ r ks' t, policy.settle key ks create delete s = ((r, ks'), t) ∧
      Settles policy key ks create delete s r ks' t := by
  by_cases hskip : ks.contains key ∧ policy = .skip
  · exact ⟨_, _, _, settle_kept hskip, .kept hskip⟩
  rcases hcreate : create s with ⟨f | new, t⟩
  · exact ⟨_, _, _, settle_refused hskip hcreate, .refused hskip hcreate⟩
  by_cases hfree : policy = .replace → ks.find? key = none
  · exact ⟨_, _, _, settle_added hskip hcreate hfree, .added hskip hcreate hfree⟩
  · obtain ⟨hreplace, hsome⟩ := Classical.not_imp.1 hfree
    obtain ⟨old, hold⟩ := Option.ne_none_iff_exists'.1 hsome
    rcases hdelete : delete old t with ⟨f | ⟨⟩, u⟩
    · exact ⟨_, _, _, settle_stays hreplace hold hcreate hdelete,
        .stays hreplace hold hcreate hdelete⟩
    · exact ⟨_, _, _, settle_replaced hreplace hold hcreate hdelete,
        .replaced hreplace hold hcreate hdelete⟩

/-- An item is placed by settling it and remembering the keys. -/
theorem Plan.places (plan : Plan σ) (container key : String) (ks : Keys)
    (create : Steps σ (Except Failure String)) (delete : String → Steps σ (Except Failure Unit))
    (s : Session σ) :
    ∃ r ks' t, plan.place container key ks create delete s =
        (r, plan.perform (.keys container ks') t) ∧
      Settles plan.options.onCollision key ks create delete s r ks' t := by
  obtain ⟨r, ks', t, hsettle, hways⟩ := settles plan.options.onCollision key ks create delete s
  exact ⟨r, ks', t, plan.place_eq container hsettle, hways⟩

/-- A step without a fault of its own is done first. -/
theorem Restoring.run_always_bind {α β : Type} {x : Steps σ α} {a : α} (h : x s = (a, t))
    (f : α → Restoring σ β) : (Restoring.always x >>= f).run s = (f a).run t := by
  rw [Restoring.run_bind, Restoring.run_always, h]

end Settle

end TenantRestore
