import SvenBridge.Server.Invariant
import SvenBridge.Lib.WaitFor

/-!
# Server.Deadlock — who waits for whom on the server

As `Client.Deadlock`: an edge for every wait for a lock, for a channel slot and for a joined task.
The router takes the senders lock itself, but never while it holds the guard.
-/

namespace SvenBridge
namespace Server

variable {s t : State} {a : Action}

/-- The tasks of the server. -/
inductive Task where
  | router
  | main (r : ℕ)
  | toSc (r : ℕ)
  | fromSc (r : ℕ)
  deriving DecidableEq

/-- The task that owns the receiver of relay `r`'s channel. -/
def rxOwner (s : State) (r : ℕ) : Task :=
  if (s.relay r).main.ownsReceiver then .main r else .toSc r

inductive WaitsFor (s : State) : Task → Task → Prop where
  /-- `senders.write()` of a relay, against the write guard of the router. -/
  | senders {r} (hmain : (s.relay r).main.writesSenders = true) (hguard : s.writeGuard = true) :
      WaitsFor s (.main r) .router
  /-- A slot in a full channel. -/
  | slot {l r} (hrouter : s.router = .sendEnd l r) (hrx : (s.relay r).receiver = true)
      (hfull : channelCapacity ≤ (s.relay r).rx.length) : WaitsFor s .router (rxOwner s r)
  | joinToSc {r} (hmain : (s.relay r).main = .joining) (htoSc : (s.relay r).toSc ≠ .ended) :
      WaitsFor s (.main r) (.toSc r)
  | joinFromSc {r} (hmain : (s.relay r).main = .joining) (hfromSc : (s.relay r).fromSc ≠ .ended) :
      WaitsFor s (.main r) (.fromSc r)

/-- The two steps into a deadlock: `bind` or `connect` fails while the router waits for a slot in
that relay's full channel, or the router starts to wait there after the failure. -/
def LockSafe (s : State) (a : Action) : Prop :=
  match a, s.router with
  | .bind r false, .sendEnd _ r' => r' = r → (s.relay r).rx.length < channelCapacity
  | .connect r false, .sendEnd _ r' => r' = r → (s.relay r).rx.length < channelCapacity
  | .router, .removeSender l =>
      match s.senders l with
      | some r => (s.relay r).main = .removeFailed → (s.relay r).rx.length < channelCapacity
      | none => True
  | _, _ => True

instance (s : State) (a : Action) : Decidable (LockSafe s a) := by
  unfold LockSafe
  generalize s.router = router
  have entry (l : LinkId) : Decidable (match s.senders l with
      | some r => (s.relay r).main = .removeFailed → (s.relay r).rx.length < channelCapacity
      | none => True) := by
    generalize s.senders l = entry
    rcases entry with _ | _ <;> infer_instance
  rcases a with _ | _ | ⟨_, _ | _⟩ | ⟨_, _ | _⟩ | _ <;> rcases router with _ | _ <;>
    infer_instance

/-! ## The invariant -/

/-- The router does not wait for a slot that a failed relay would have to free. -/
def Unlocked (s : State) : Prop :=
  ∀ l r, s.router = .sendEnd l r → (s.relay r).main = .removeFailed →
    (s.relay r).rx.length < channelCapacity

theorem Unlocked.step (h : Step s a t) (hI : Inv s) (hu : Unlocked s) (hok : LockSafe s a) :
    Unlocked t := by
  intro l r hrouter hmain
  have hroom := hu l r
  have hending := hI.ending l r
  cases h with
  | removeSender hremove hentry =>
      cases hrouter
      simp only [LockSafe, hremove, hentry] at hok
      exact hok hmain
  | @bindFailed r' hbinding =>
      by_cases hr : r = r'
      · subst hr
        have hrouter' : s.router = .sendEnd l r := hrouter
        simp only [LockSafe, hrouter', forall_true_left] at hok
        simpa using hok
      · simpa [hr] using hroom hrouter (by simpa [hr] using hmain)
  | @connectFailed r' hconnecting =>
      by_cases hr : r = r'
      · subst hr
        have hrouter' : s.router = .sendEnd l r := hrouter
        simp only [LockSafe, hrouter', forall_true_left] at hok
        simpa using hok
      · simpa [hr] using hroom hrouter (by simpa [hr] using hmain)
  | _ => grind -linarith [Function.update_apply]

theorem Unlocked.of_reachable (h : machine.Reachable LockSafe s) : Unlocked s := by
  refine Lib.Machine.Reachable.invariant_of_reachable (I := Unlocked) ?_ ?_ h
  · intro l r hrouter
    cases hrouter
  · intro s a t hs hu hok hstep
    exact hu.step (step_sound hstep) (Inv.of_reachable hs) hok

/-! ## No cycle -/

/-- Lock waits point down to the router, slot and join waits to the pumps. -/
def rank (s : State) : Task → ℕ
  | .router => 2
  | .main r => if (s.relay r).main.writesSenders then 3 else 1
  | .toSc _ | .fromSc _ => 0

theorem rank_lt_of_waitsFor (hu : Unlocked s) {i j : Task} (h : WaitsFor s i j) :
    rank s j < rank s i := by
  cases h with
  | senders hmain hguard =>
      simp [rank, hmain]
  | @slot l r hrouter hrx hfull =>
      have hmain : (s.relay r).main ≠ .removeFailed := fun hm =>
        absurd (hu l r hrouter hm) (Nat.not_lt.2 hfull)
      cases howner : (s.relay r).main.ownsReceiver with
      | false =>
          simp [rank, rxOwner, howner]
      | true =>
          have hwrites : (s.relay r).main.writesSenders = false := by
            cases hm : (s.relay r).main <;> simp_all [MainPc.ownsReceiver, MainPc.writesSenders]
          simp [rank, rxOwner, howner, hwrites]
  | joinToSc hmain htoSc =>
      simp [rank, hmain, MainPc.writesSenders]
  | joinFromSc hmain hfromSc =>
      simp [rank, hmain, MainPc.writesSenders]

theorem not_deadlocked (hu : Unlocked s) : ¬ Lib.Deadlocked (WaitsFor s) :=
  Lib.not_deadlocked_of_rank (rank s) fun _ _ => rank_lt_of_waitsFor hu

/-- The router in front of the full channel of a failed relay. -/
theorem deadlocked_of_failed {l : LinkId} {r : ℕ} (hrouter : s.router = .sendEnd l r)
    (hmain : (s.relay r).main = .removeFailed) (hfull : channelCapacity ≤ (s.relay r).rx.length) :
    Lib.Deadlocked (WaitsFor s) := by
  have hslot := WaitsFor.slot hrouter (by simp [Relay.receiver, hmain, MainPc.ownsReceiver]) hfull
  have howner : rxOwner s r = .main r := by
    simp [rxOwner, hmain, MainPc.ownsReceiver]
  rw [howner] at hslot
  exact Lib.deadlocked_of_pair hslot
    (.senders (by simp [hmain, MainPc.writesSenders]) (by simp [State.writeGuard, hrouter]))

/-- A step that is not lock safe closes a cycle. -/
theorem deadlocked_of_not_lockSafe (hstep : step s a = some t) (hnot : ¬ LockSafe s a) :
    Lib.Deadlocked (WaitsFor t) := by
  cases step_sound hstep with
  | @removeSender l r hrouter hentry =>
      have hbad : (s.relay r).main = .removeFailed ∧ channelCapacity ≤ (s.relay r).rx.length := by
        simpa [LockSafe, hrouter, hentry] using hnot
      exact deadlocked_of_failed (l := l) (r := r) rfl hbad.1 hbad.2
  | @bindFailed r hmain =>
      cases hrouter : s.router with
      | sendEnd l r' =>
          have hbad : r' = r ∧ channelCapacity ≤ (s.relay r).rx.length := by
            simpa [LockSafe, hrouter] using hnot
          obtain ⟨rfl, hfull⟩ := hbad
          exact deadlocked_of_failed (l := l) (r := r') rfl (by simp) (by simpa using hfull)
      | _ => simp [LockSafe, hrouter] at hnot
  | @connectFailed r hmain =>
      cases hrouter : s.router with
      | sendEnd l r' =>
          have hbad : r' = r ∧ channelCapacity ≤ (s.relay r).rx.length := by
            simpa [LockSafe, hrouter] using hnot
          obtain ⟨rfl, hfull⟩ := hbad
          exact deadlocked_of_failed (l := l) (r := r') rfl (by simp) (by simpa using hfull)
      | _ => simp [LockSafe, hrouter] at hnot
  | removeUnknown hrouter hentry =>
      simp [LockSafe, hrouter, hentry] at hnot
  | _ => simp_all [LockSafe]

/-- Runs of lock-safe steps never deadlock, and the first step that is not lock safe does. -/
theorem deadlockFree (h : machine.Reachable LockSafe s) :
    ¬ Lib.Deadlocked (WaitsFor s) ∧
      ∀ a t, step s a = some t → (LockSafe s a ↔ ¬ Lib.Deadlocked (WaitsFor t)) := by
  have hI : Inv s := Inv.of_reachable h
  have hu : Unlocked s := Unlocked.of_reachable h
  refine ⟨not_deadlocked hu, ?_⟩
  intro a t hstep
  constructor
  · intro hok
    exact not_deadlocked (hu.step (step_sound hstep) hI hok)
  · intro hfree
    by_contra hnot
    exact hfree (deadlocked_of_not_lockSafe hstep hnot)

end Server
end SvenBridge
