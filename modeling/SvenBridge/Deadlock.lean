import SvenBridge.Client.Deadlock
import SvenBridge.Server.Deadlock

/-!
# Deadlock — both sides of the bridge

The only waits that can close a cycle are the UDP task's `udp_links.write()` under its own read
guard and the two waits for a channel slot under a guard that the receiver's owner needs.
-/

namespace SvenBridge

/-- On either side, runs of lock-safe steps never deadlock, and the first step that is not lock
safe does. -/
theorem relay_tasks_deadlockFree (serverHash : Option DestinationHash) :
    (∀ s, (Client.machine serverHash).Reachable Client.LockSafe s →
      ¬ Lib.Deadlocked (Client.WaitsFor s) ∧
        ∀ a t, Client.step s a = some t →
          (Client.LockSafe s a ↔ ¬ Lib.Deadlocked (Client.WaitsFor t))) ∧
    ∀ s, Server.machine.Reachable Server.LockSafe s →
      ¬ Lib.Deadlocked (Server.WaitsFor s) ∧
        ∀ a t, Server.step s a = some t →
          (Server.LockSafe s a ↔ ¬ Lib.Deadlocked (Server.WaitsFor t)) :=
  ⟨fun _ h => Client.deadlockFree h, fun _ h => Server.deadlockFree h⟩

/-- A relay on each side, running. -/
theorem exists_relay_tasks_deadlockFree :
    (∃ s : Client.State, (s.relay 0).main = .joining ∧ ¬ Lib.Deadlocked (Client.WaitsFor s)) ∧
      ∃ s : Server.State, (s.relay 0).main = .joining ∧ ¬ Lib.Deadlocked (Server.WaitsFor s) := by
  have hclient : ((Client.machine (some 7)).runWhile Client.LockSafe (Client.machine (some 7)).init
      [.datagram ⟨2130706433, 40000⟩ [1], .udp, .udp, .establishOk 0 5, .identified 0, .main 0,
        .main 0, .datagram ⟨2130706433, 40000⟩ [2], .udp, .udp, .send 0]).any (fun s =>
          (s.relay 0).main == .joining) = true := by
    decide +kernel
  have hserver : (Server.machine.runWhile Server.LockSafe Server.machine.init
      [.engine (.linkEstablished 5), .router, .router, .router, .bind 0 true, .connect 0 true,
        .engine (.linkClosed 5), .router, .router, .router, .toSc 0]).any (fun s =>
          (s.relay 0).main == .joining) = true := by
    decide +kernel
  obtain ⟨s, hs, hP⟩ := Lib.Machine.exists_reachable_of_runWhile hclient
  obtain ⟨s', hs', hP'⟩ := Lib.Machine.exists_reachable_of_runWhile hserver
  have hfree := relay_tasks_deadlockFree (some 7)
  exact ⟨⟨s, by simpa using hP, (hfree.1 s hs).1⟩, ⟨s', by simpa using hP', (hfree.2 s' hs').1⟩⟩

/-- An empty datagram ends the send pump; the next datagram from that address makes the UDP task
wait for `udp_links.write()` under its own read guard. -/
theorem exists_client_deadlock :
    ∃ s, (Client.machine (some 7)).Reachable Lib.Machine.always s ∧
      Lib.Deadlocked (Client.WaitsFor s) := by
  have hrun : ((Client.machine (some 7)).run (Client.machine (some 7)).init
      [.datagram ⟨2130706433, 40000⟩ [1], .udp, .udp, .establishOk 0 5, .identified 0, .main 0,
        .main 0, .datagram ⟨2130706433, 40000⟩ [], .udp, .udp, .send 0,
        .datagram ⟨2130706433, 40000⟩ [2], .udp, .udp]).any (fun s =>
          s.udp == .removing ⟨2130706433, 40000⟩ 0) = true := by
    decide +kernel
  obtain ⟨s, hs, hP⟩ := Lib.Machine.exists_reachable_of_run hrun
  exact ⟨s, hs, Lib.deadlocked_of_self (.ownGuard (by simpa using hP))⟩

end SvenBridge
