import SvenBridge.Client.Invariant
import SvenBridge.Lib.WaitFor

/-!
# Client.Deadlock — who waits for whom on the client

`WaitsFor s` has an edge for every wait for a lock, for a channel slot and for a joined task.
Waiting for a message that nobody has sent yet is not an edge.  The other locks (`link_data`,
`discovered`, the dial target) are never held across an await, so nobody waits for their owner.
-/

namespace SvenBridge
namespace Client

variable {s t : State} {a : Action}

/-- The tasks of the client. -/
inductive Task where
  | udp
  | router
  | main (r : ℕ)
  | send (r : ℕ)
  | recv (r : ℕ)
  deriving DecidableEq

/-- The task that owns the receiver of relay `r`'s `up` channel. -/
def upOwner (s : State) (r : ℕ) : Task :=
  if (s.relay r).send = .running then .send r else .main r

inductive WaitsFor (s : State) : Task → Task → Prop where
  /-- `udp_links.write()` of a relay, against the read guard of the UDP task. -/
  | links {r} (hmain : (s.relay r).main.writesLinks = true) (hguard : s.readGuard = true) :
      WaitsFor s (.main r) .udp
  /-- `udp_links.write()` of the UDP task, against its own read guard. -/
  | ownGuard {src r} (hudp : s.udp = .removing src r) : WaitsFor s .udp .udp
  /-- A slot in a full channel. -/
  | slot {src r pkt} (hudp : s.udp = .sending src r pkt) (hrx : (s.relay r).upReceiver = true)
      (hfull : channelCapacity ≤ (s.relay r).up.length) : WaitsFor s .udp (upOwner s r)
  | joinSend {r} (hmain : (s.relay r).main = .joining) (hsend : (s.relay r).send ≠ .ended) :
      WaitsFor s (.main r) (.send r)
  | joinRecv {r} (hmain : (s.relay r).main = .joining) (hrecv : (s.relay r).recv ≠ .ended) :
      WaitsFor s (.main r) (.recv r)

/-- The two steps into a deadlock: a `send` of the UDP task fails because the receiver is gone,
or it starts on a full channel whose receiver waits for `udp_links` after a refused first send. -/
def LockSafe (s : State) (a : Action) : Prop :=
  match a, s.udp with
  | .udp, .sending _ r _ => (s.relay r).upReceiver = true
  | .udp, .lookup src _ =>
      match s.udpLinks src with
      | some r => (s.relay r).main = .firstSendFailed → (s.relay r).up.length < channelCapacity
      | none => True
  | _, _ => True

instance (s : State) (a : Action) : Decidable (LockSafe s a) := by
  unfold LockSafe
  generalize s.udp = udp
  have entry (src : SocketAddr) : Decidable (match s.udpLinks src with
      | some r => (s.relay r).main = .firstSendFailed → (s.relay r).up.length < channelCapacity
      | none => True) := by
    generalize s.udpLinks src = entry
    rcases entry with _ | _ <;> infer_instance
  rcases a with _ | _ <;> rcases udp with _ | _ <;> infer_instance

/-! ## The invariant -/

/-- The UDP task is not in one of the two dead ends. -/
structure Unlocked (s : State) : Prop where
  notRemoving : ∀ src r, s.udp ≠ .removing src r
  drains : ∀ src r pkt, s.udp = .sending src r pkt → (s.relay r).main = .firstSendFailed →
    (s.relay r).up.length < channelCapacity

theorem Unlocked.step (h : Step s a t) (hu : Unlocked s) (hok : LockSafe s a) : Unlocked t where
  notRemoving := by
    intro src r
    have hnot := hu.notRemoving src r
    cases h with
    | sendDropped hudp hrx =>
        simp only [LockSafe, hudp, hrx] at hok
        cases hok
    | _ => grind -linarith
  drains := by
    intro src r pkt hudp hmain
    have hdrains := hu.drains src r pkt
    cases h with
    | lookupFound hlookup hentry =>
        cases hudp
        simp only [LockSafe, hlookup, hentry] at hok
        exact hok hmain
    | _ => grind -linarith [Function.update_apply, State.readGuard]

theorem Unlocked.of_reachable {serverHash : Option DestinationHash}
    (h : (machine serverHash).Reachable LockSafe s) : Unlocked s := by
  refine Lib.Machine.Reachable.invariant (I := Unlocked) ⟨?_, ?_⟩ ?_ h
  · intro src r hudp
    cases hudp
  · intro src r pkt hudp
    cases hudp
  · intro s a t hu hok hstep
    exact hu.step (step_sound hstep) hok

/-! ## No cycle -/

/-- Lock waits point down to the UDP task, slot and join waits to the pumps. -/
def rank (s : State) : Task → ℕ
  | .udp => 2
  | .main r => if (s.relay r).main.writesLinks then 3 else 1
  | .router | .send _ | .recv _ => 0

theorem rank_lt_of_waitsFor (hu : Unlocked s) {i j : Task} (h : WaitsFor s i j) :
    rank s j < rank s i := by
  cases h with
  | links hmain hguard =>
      simp [rank, hmain]
  | ownGuard hudp =>
      exact absurd hudp (hu.notRemoving _ _)
  | @slot src r pkt hudp hrx hfull =>
      by_cases hsend : (s.relay r).send = .running
      · simp [rank, upOwner, hsend]
      · have hmain : (s.relay r).main ≠ .firstSendFailed := fun hm =>
          absurd (hu.drains _ _ _ hudp hm) (Nat.not_lt.2 hfull)
        have hinsert : (s.relay r).main = .insertLinkData := by
          simpa [Relay.upReceiver, hsend, hmain] using hrx
        simp [rank, upOwner, hsend, hinsert, MainPc.writesLinks]
  | joinSend hmain hsend =>
      simp [rank, hmain, MainPc.writesLinks]
  | joinRecv hmain hrecv =>
      simp [rank, hmain, MainPc.writesLinks]

theorem not_deadlocked (hu : Unlocked s) : ¬ Lib.Deadlocked (WaitsFor s) :=
  Lib.not_deadlocked_of_rank (rank s) fun _ _ => rank_lt_of_waitsFor hu

/-- A step that is not lock safe closes a cycle. -/
theorem deadlocked_of_not_lockSafe (hI : Inv s) (hstep : step s a = some t)
    (hnot : ¬ LockSafe s a) : Lib.Deadlocked (WaitsFor t) := by
  cases step_sound hstep with
  | sendDropped hudp hrx =>
      exact Lib.deadlocked_of_self (.ownGuard rfl)
  | sendQueued hudp hrx hroom =>
      simp [LockSafe, hudp, hrx] at hnot
  | @lookupFound src pkt r hudp hentry =>
      have hbad : (s.relay r).main = .firstSendFailed ∧
          channelCapacity ≤ (s.relay r).up.length := by
        simpa [LockSafe, hudp, hentry] using hnot
      have hpumps := hI.pumps r
      simp only [Relay.PumpsOk, hbad.1] at hpumps
      have hslot := @WaitsFor.slot { s with udp := .sending src r pkt } src r pkt rfl
        (by simp [Relay.upReceiver, hbad.1]) hbad.2
      have howner : upOwner { s with udp := .sending src r pkt } r = .main r := by
        simp [upOwner, hpumps.1]
      rw [howner] at hslot
      exact Lib.deadlocked_of_pair hslot (.links (by simp [hbad.1, MainPc.writesLinks]) rfl)
  | lookupMissing hudp hentry =>
      simp [LockSafe, hudp, hentry] at hnot
  | noTarget hudp _ | spawn hudp _ =>
      simp [LockSafe, hudp] at hnot
  | _ =>
      simp [LockSafe] at hnot

/-- Runs of lock-safe steps never deadlock, and the first step that is not lock safe does. -/
theorem deadlockFree {serverHash : Option DestinationHash}
    (h : (machine serverHash).Reachable LockSafe s) :
    ¬ Lib.Deadlocked (WaitsFor s) ∧
      ∀ a t, step s a = some t → (LockSafe s a ↔ ¬ Lib.Deadlocked (WaitsFor t)) := by
  have hI : Inv s := Inv.of_reachable h
  have hu : Unlocked s := Unlocked.of_reachable h
  refine ⟨not_deadlocked hu, ?_⟩
  intro a t hstep
  constructor
  · intro hok
    exact not_deadlocked (hu.step (step_sound hstep) hok)
  · intro hfree
    by_contra hnot
    exact hfree (deadlocked_of_not_lockSafe hI hstep hnot)

end Client
end SvenBridge
