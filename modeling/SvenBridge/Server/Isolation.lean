import SvenBridge.Server.Flow

/-!
# Server.Isolation — what a link's socket carries

Everything a relay sends on its socket is made of chunks of its own link, and everything it issues
comes from datagrams of its own socket, in every run.
-/

namespace SvenBridge
namespace Server

variable {s t : State} {a : Action}

/-- Issued chunks come from datagrams of the socket of a relay of that link. -/
def Sources (s : State) : Prop :=
  ∀ l c, .sendToLink l c ∈ s.commands →
    ∃ r, (s.relay r).main ≠ .unborn ∧ (s.relay r).link = l ∧
      ∃ d ∈ (s.relay r).received, c ∈ frame d

theorem received_mono (h : Step s a t) (hI : Inv s) {r : ℕ} (hmain : (s.relay r).main ≠ .unborn) :
    ∀ d ∈ (s.relay r).received, d ∈ (t.relay r).received := by
  intro d hd
  have hunborn := hI.unborn r
  cases h <;> grind -linarith [Function.update_apply]

theorem sendToLink_step (h : Step s a t) (hI : Inv s) {l : LinkId} {c : Chunk}
    (hmem : .sendToLink l c ∈ t.commands) :
    .sendToLink l c ∈ s.commands ∨
      ∃ r, (s.relay r).main ≠ .unborn ∧ (s.relay r).link = l ∧
        ∃ d ∈ (t.relay r).received, c ∈ frame d := by
  cases h with
  | @scRecvChunks r payload hfromSc hne hrun =>
      rw [List.mem_append, List.mem_map] at hmem
      refine hmem.imp id ?_
      rintro ⟨c', hc', heq⟩
      cases heq
      have hpumps := hI.pumps r
      have hmain : (s.relay r).main ≠ .unborn := by
        intro hm
        simp only [Relay.PumpsOk, hm] at hpumps
        rw [hpumps.2] at hfromSc
        cases hfromSc
      exact ⟨r, hmain, rfl, payload.take udpReadBuf, by simp, hc'⟩
  | @unregister r hmain hguard | @unregisterFailed r hmain hguard =>
      rw [List.mem_append] at hmem
      refine hmem.imp id fun hclose => ?_
      cases hstop : s.stopped <;> simp [issueClose, hstop] at hclose
  | _ => exact .inl hmem

theorem Sources.step (h : Step s a t) (hI : Inv s) (hsrc : Sources s) : Sources t := by
  intro l c hmem
  rcases sendToLink_step h hI hmem with hold | ⟨r, hmain, hlink, hd⟩
  · obtain ⟨r, hmain, hlink, d, hd, hc⟩ := hsrc l c hold
    obtain ⟨hmain', hlink'⟩ := link_keep_step h hI hmain
    exact ⟨r, hmain', by rw [hlink', hlink], d, received_mono h hI hmain d hd, hc⟩
  · obtain ⟨hmain', hlink'⟩ := link_keep_step h hI hmain
    exact ⟨r, hmain', by rw [hlink', hlink], hd⟩

theorem Sources.of_reachable {Ok : State → Action → Prop} (h : machine.Reachable Ok s) :
    Sources s := by
  refine Lib.Machine.Reachable.invariant_of_reachable (I := Sources) ?_ ?_ h
  · intro l c hmem
    cases hmem
  · intro s a t hs hsrc _ hstep
    exact hsrc.step (step_sound hstep) (Inv.of_reachable hs)

/-! ## Isolation -/

/-- Every datagram sent on a relay's socket is made of the bodies of chunks received on its link;
every chunk issued on a link comes from a datagram received on that link's socket. -/
structure Isolated (s : State) : Prop where
  sent : ∀ r, ∀ d ∈ (s.relay r).sent, (s.relay r).main ≠ .unborn ∧
    ∃ cs : List Chunk, cs.Sublist (chunksOn (s.relay r).link s.delivered) ∧
      d = cs.flatMap List.tail
  issued : ∀ l c, .sendToLink l c ∈ s.commands →
    ∃ r, (s.relay r).main ≠ .unborn ∧ (s.relay r).link = l ∧
      ∃ d ∈ (s.relay r).received, c ∈ frame d

/-- A relay slot not taken yet has sent nothing. -/
def Blank (s : State) : Prop :=
  ∀ r, (s.relay r).main = .unborn → (s.relay r).sent = []

theorem Blank.of_reachable {Ok : State → Action → Prop} (h : machine.Reachable Ok s) :
    Blank s := by
  refine Lib.Machine.Reachable.invariant_of_reachable (I := Blank) (fun _ _ => rfl) ?_ h
  intro s a t hs hblank _ hstep r hmain
  have hold := hblank r
  have hpumps := (Inv.of_reachable hs).pumps r
  cases step_sound hstep <;> grind -linarith [Function.update_apply, Relay.PumpsOk]

theorem isolated_of_reachable {Ok : State → Action → Prop} (h : machine.Reachable Ok s) :
    Isolated s := by
  refine ⟨?_, Sources.of_reachable h⟩
  intro r d hd
  have hmain : (s.relay r).main ≠ .unborn := by
    intro hm
    rw [Blank.of_reachable h r hm] at hd
    cases hd
  exact ⟨hmain, mem_sent (Inflow.of_reachable h) hmain (reassembles_of_reachable h r) hd⟩

end Server
end SvenBridge
