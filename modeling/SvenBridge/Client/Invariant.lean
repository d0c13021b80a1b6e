import SvenBridge.Client.Step

/-!
# Client.Invariant — what holds in every reachable state of the client

The two maps, the program counters of a relay's three tasks and the read guard of the UDP task fit
together as `Inv` says, whatever the order of steps.  All later results start from `Inv`.
-/

namespace SvenBridge
namespace Client

variable {s t : State} {a : Action}

/-- The pumps run exactly while the main task waits for them. -/
def Relay.PumpsOk (x : Relay) : Prop :=
  match x.main with
  | .joining => x.send ≠ .unspawned ∧ x.recv ≠ .unspawned
  | .removeLinkData | .removeLinks => x.send = .ended ∧ x.recv = .ended
  | .ended => (x.send = .ended ∧ x.recv = .ended) ∨ (x.send = .unspawned ∧ x.recv = .unspawned)
  | _ => x.send = .unspawned ∧ x.recv = .unspawned

structure Inv (s : State) : Prop where
  unborn : ∀ r, s.spawned ≤ r → (s.relay r).main = .unborn
  pumps : ∀ r, (s.relay r).PumpsOk
  /-- An entry of `udp_links` belongs to a registered relay of that address. -/
  links : ∀ src r, s.udpLinks src = some r →
    (s.relay r).src = src ∧ (s.relay r).main.registered = true
  /-- An entry of `link_data` belongs to a relay of that link which has not removed it yet. -/
  data : ∀ l r, s.linkData l = some r →
    (s.relay r).link = l ∧ ((s.relay r).main = .joining ∨ (s.relay r).main = .removeLinkData)
  /-- No two relays have the same link. -/
  distinct : ∀ r r', (s.relay r).main.established = true → (s.relay r').main.established = true →
    (s.relay r).link = (s.relay r').link → r = r'
  /-- While the read guard is held, the entry that was looked up stays. -/
  guarded : ∀ src r, ((∃ pkt, s.udp = .sending src r pkt) ∨ s.udp = .removing src r) →
    s.udpLinks src = some r

/-! ## Derived facts -/

theorem established_of_registered {m : MainPc} (h : m.registered = true) :
    m.established = true := by
  cases m <;> first | rfl | cases h

theorem not_registered_of_pending {m : MainPc} (h : m.pending = true) :
    m.registered = false := by
  cases m <;> first | rfl | cases h

namespace Inv

theorem lt_spawned (hI : Inv s) {r : ℕ} (h : (s.relay r).main ≠ .unborn) : r < s.spawned := by
  by_contra hle
  exact h (hI.unborn r (Nat.le_of_not_lt hle))

theorem lt_spawned_of_established (hI : Inv s) {r : ℕ}
    (h : (s.relay r).main.established = true) : r < s.spawned := by
  refine hI.lt_spawned fun hm => ?_
  rw [hm] at h
  cases h

theorem freshLink_iff (hI : Inv s) {l : LinkId} :
    s.freshLink l = true ↔
      ∀ r, (s.relay r).main.established = true → (s.relay r).link ≠ l := by
  unfold State.freshLink
  rw [decide_eq_true_iff]
  constructor
  · intro h r hr
    exact h r (hI.lt_spawned_of_established hr) hr
  · intro h r _ hr
    exact h r hr

/-- A running send pump belongs to a joining relay. -/
theorem joining_of_running (hI : Inv s) {r : ℕ} (hsend : (s.relay r).send = .running) :
    (s.relay r).main = .joining := by
  have hpumps := hI.pumps r
  cases hmain : (s.relay r).main <;> simp_all [Relay.PumpsOk]

/-! ## Preservation -/

theorem unborn_step (h : Step s a t) (hI : Inv s) :
    ∀ r, t.spawned ≤ r → (t.relay r).main = .unborn := by
  intro r hr
  have hunborn := hI.unborn r
  cases h <;> grind -linarith [Function.update_apply]

theorem pumps_step (h : Step s a t) (hI : Inv s) : ∀ r, (t.relay r).PumpsOk := by
  intro r
  have hpumps := hI.pumps r
  cases h <;> grind -linarith [Function.update_apply, Relay.PumpsOk]

theorem links_step (h : Step s a t) (hI : Inv s) :
    ∀ src r, t.udpLinks src = some r →
      (t.relay r).src = src ∧ (t.relay r).main.registered = true := by
  intro src r hentry
  have hlinks := hI.links src r
  have hunborn := hI.unborn r
  cases h <;> grind -linarith [Function.update_apply, MainPc.registered]

theorem data_step (h : Step s a t) (hI : Inv s) :
    ∀ l r, t.linkData l = some r →
      (t.relay r).link = l ∧
        ((t.relay r).main = .joining ∨ (t.relay r).main = .removeLinkData) := by
  intro l r hentry
  have hdata := hI.data l r
  have hunborn := hI.unborn r
  cases h <;> grind -linarith [Function.update_apply]

theorem distinct_step (h : Step s a t) (hI : Inv s) :
    ∀ r r', (t.relay r).main.established = true → (t.relay r').main.established = true →
      (t.relay r).link = (t.relay r').link → r = r' := by
  intro r r' hr hr' hlink
  have hdistinct := hI.distinct r r'
  have hfresh : ∀ l, s.freshLink l = true →
      ∀ r, (s.relay r).main.established = true → (s.relay r).link ≠ l :=
    fun _ => hI.freshLink_iff.1
  cases h <;> grind -linarith [Function.update_apply, MainPc.established]

/-- Writers of `udp_links` are kept out while the read guard is held. -/
theorem guarded_step (h : Step s a t) (hI : Inv s) :
    ∀ src r, ((∃ pkt, t.udp = .sending src r pkt) ∨ t.udp = .removing src r) →
      t.udpLinks src = some r := by
  intro src r hudp
  have hguarded := hI.guarded src r
  cases h <;> grind -linarith [Function.update_apply, State.readGuard]

theorem step (h : Step s a t) (hI : Inv s) : Inv t where
  unborn := hI.unborn_step h
  pumps := hI.pumps_step h
  links := hI.links_step h
  data := hI.data_step h
  distinct := hI.distinct_step h
  guarded := hI.guarded_step h

theorem init (serverHash : Option DestinationHash) : Inv (State.init serverHash) where
  unborn := fun _ _ => rfl
  pumps := fun _ => ⟨rfl, rfl⟩
  links := by
    intro src r h
    cases h
  data := by
    intro l r h
    cases h
  distinct := by
    intro r r' h
    cases h
  guarded := by
    rintro src r (⟨pkt, h⟩ | h) <;> cases h

theorem of_reachable {serverHash : Option DestinationHash} {Ok : State → Action → Prop}
    (h : (machine serverHash).Reachable Ok s) : Inv s :=
  Lib.Machine.Reachable.invariant (init serverHash)
    (fun _ _ _ hI _ hstep => hI.step (step_sound hstep)) h

end Inv

end Client
end SvenBridge
