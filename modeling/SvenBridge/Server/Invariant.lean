import SvenBridge.Server.Step

/-!
# Server.Invariant — what holds in every reachable state of the server

The senders map, the program counters of a relay's three tasks and the router's write guard fit
together as `Inv` says, whatever the order of steps.
-/

namespace SvenBridge
namespace Server

variable {s t : State} {a : Action}

/-- The pumps run exactly while the main task waits for them. -/
def Relay.PumpsOk (x : Relay) : Prop :=
  match x.main with
  | .joining => x.toSc ≠ .unspawned ∧ x.fromSc ≠ .unspawned
  | .removeEnded => x.toSc = .ended ∧ x.fromSc = .ended
  | .ended =>
      (x.toSc = .ended ∧ x.fromSc = .ended) ∨ (x.toSc = .unspawned ∧ x.fromSc = .unspawned)
  | _ => x.toSc = .unspawned ∧ x.fromSc = .unspawned

structure Inv (s : State) : Prop where
  unborn : ∀ r, (s.relay r).main = .unborn ↔ s.spawned ≤ r
  pumps : ∀ r, (s.relay r).PumpsOk
  /-- An entry of the senders map belongs to a relay of that link which has not ended. -/
  senders : ∀ l r, s.senders l = some r →
    (s.relay r).link = l ∧ (s.relay r).main ≠ .unborn ∧ (s.relay r).main ≠ .ended
  /-- The sender in the router's hands is no longer in the map. -/
  ending : ∀ l r, s.router = .sendEnd l r →
    (s.relay r).link = l ∧ s.senders l = none ∧ (s.relay r).main ≠ .unborn ∧
      (s.relay r).main ≠ .ended

namespace Inv

theorem lt_spawned (hI : Inv s) {r : ℕ} (h : (s.relay r).main ≠ .unborn) : r < s.spawned := by
  by_contra hle
  exact h ((hI.unborn r).2 (Nat.le_of_not_lt hle))

/-! ## Preservation -/

theorem unborn_step (h : Step s a t) (hI : Inv s) :
    ∀ r, (t.relay r).main = .unborn ↔ t.spawned ≤ r := by
  intro r
  have hunborn := hI.unborn r
  cases h <;> grind -linarith [Function.update_apply]

theorem pumps_step (h : Step s a t) (hI : Inv s) : ∀ r, (t.relay r).PumpsOk := by
  intro r
  have hpumps := hI.pumps r
  cases h <;> grind -linarith [Function.update_apply, Relay.PumpsOk]

theorem senders_step (h : Step s a t) (hI : Inv s) :
    ∀ l r, t.senders l = some r →
      (t.relay r).link = l ∧ (t.relay r).main ≠ .unborn ∧ (t.relay r).main ≠ .ended := by
  intro l r hentry
  have hsenders := hI.senders l r
  have hunborn := hI.unborn r
  cases h <;> grind -linarith [Function.update_apply]

theorem ending_step (h : Step s a t) (hI : Inv s) :
    ∀ l r, t.router = .sendEnd l r →
      (t.relay r).link = l ∧ t.senders l = none ∧ (t.relay r).main ≠ .unborn ∧
        (t.relay r).main ≠ .ended := by
  intro l r hrouter
  have hending := hI.ending l r
  have hsenders := hI.senders l r
  cases h <;> grind -linarith [Function.update_apply, State.writeGuard]

theorem step (h : Step s a t) (hI : Inv s) : Inv t where
  unborn := hI.unborn_step h
  pumps := hI.pumps_step h
  senders := hI.senders_step h
  ending := hI.ending_step h

theorem init : Inv ({} : State) where
  unborn := fun r => iff_of_true rfl (Nat.zero_le r)
  pumps := fun _ => ⟨rfl, rfl⟩
  senders := by
    intro l r h
    cases h
  ending := by
    intro l r h
    cases h

theorem of_reachable {Ok : State → Action → Prop} (h : machine.Reachable Ok s) : Inv s :=
  Lib.Machine.Reachable.invariant init (fun _ _ _ hI _ hstep => hI.step (step_sound hstep)) h

end Inv

end Server
end SvenBridge
