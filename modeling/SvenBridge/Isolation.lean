import SvenBridge.Client.Isolation
import SvenBridge.Server.Isolation

/-!
# Isolation — players do not see each other's traffic

The client keys its relays by source address, the server by link; the two results meet at the link
id, which the engine hands out once.
-/

namespace SvenBridge

/-- In every run of either side, whatever is lost and in whatever order the tasks step. -/
theorem players_isolated :
    (∀ serverHash s, (Client.machine serverHash).Reachable Lib.Machine.always s →
      Client.Isolated s) ∧
    ∀ s, Server.machine.Reachable Lib.Machine.always s → Server.Isolated s :=
  ⟨fun _ _ h => Client.isolated_of_reachable h, fun _ h => Server.isolated_of_reachable h⟩

/-- Two players on the client, and a chunk for each; one player's datagram on the server. -/
theorem exists_players_isolated :
    (∃ s : Client.State, (s.relay 0).sentBack = [[9]] ∧ (s.relay 0).src ≠ (s.relay 1).src ∧
      .sendToLink 6 [1, 2] ∈ s.commands ∧ Client.Isolated s) ∧
    ∃ s : Server.State, (s.relay 0).sent = [[1]] ∧ .sendToLink 5 [1, 9] ∈ s.commands ∧
      Server.Isolated s := by
  have hclient : ((Client.machine (some 7)).run (Client.machine (some 7)).init
      [.datagram ⟨2130706433, 40000⟩ [1], .udp, .udp, .datagram ⟨2130706433, 40001⟩ [2], .udp, .udp,
        .establishOk 0 5, .establishOk 1 6, .identified 0, .identified 1, .main 0, .main 1, .main 0,
        .main 1, .engine (.delivered 5 [1, 9]), .router, .router, .recv 0, .sendTo 0 true]).any
        (fun s => (s.relay 0).sentBack == [[9]] && (s.relay 0).src != (s.relay 1).src &&
          s.commands.contains (.sendToLink 6 [1, 2])) = true := by
    decide +kernel
  have hserver : (Server.machine.run Server.machine.init
      [.engine (.linkEstablished 5), .router, .router, .router, .bind 0 true, .connect 0 true,
        .engine (.delivered 5 [1, 1]), .router, .router, .toSc 0, .scSend 0 true,
        .scRecv 0 (some [9])]).any (fun s => (s.relay 0).sent == [[1]] &&
          s.commands.contains (.sendToLink 5 [1, 9])) = true := by
    decide +kernel
  obtain ⟨s, hs, hP⟩ := Lib.Machine.exists_reachable_of_run hclient
  obtain ⟨s', hs', hP'⟩ := Lib.Machine.exists_reachable_of_run hserver
  simp only [Bool.and_eq_true, beq_iff_eq, bne_iff_ne, List.contains_iff_mem] at hP hP'
  exact ⟨⟨s, hP.1.1, hP.1.2, hP.2, players_isolated.1 _ s hs⟩,
    ⟨s', hP'.1, hP'.2, players_isolated.2 s' hs'⟩⟩

end SvenBridge
