import SvenBridge.Client.Flow

/-!
# Client.Isolation — what a player's link carries

Everything a relay issues comes from datagrams of its own source address, and everything it sends
back is made of chunks of its own link, in every run.
-/

namespace SvenBridge
namespace Client

variable {s t : State} {a : Action}

/-- The datagram in the hands of the UDP task. -/
def UdpPc.packet : UdpPc → Option (SocketAddr × Datagram)
  | .lookup src pkt | .sending src _ pkt | .readTarget src pkt => some (src, pkt)
  | .recvFrom | .removing _ _ | .dead => none

/-- Datagrams and chunks, back to the datagram they come from. -/
structure Sources (s : State) : Prop where
  udp : ∀ p, s.udp.packet = some p → p ∈ s.received
  first : ∀ r, (s.relay r).main ≠ .unborn → ((s.relay r).src, (s.relay r).pkt) ∈ s.received
  queued : ∀ r, ∀ d ∈ (s.relay r).up, ((s.relay r).src, d) ∈ s.received
  issued : ∀ l c, .sendToLink l c ∈ s.commands →
    ∃ r, (s.relay r).main.established = true ∧ (s.relay r).link = l ∧
      ∃ d, ((s.relay r).src, d) ∈ s.received ∧ c ∈ frame d

theorem received_mono (h : Step s a t) : ∀ p ∈ s.received, p ∈ t.received := by
  intro p hp
  cases h <;> first | exact hp | exact List.mem_append_left _ hp

/-- What a step issues, and for whom. -/
theorem sendToLink_step (h : Step s a t) {l : LinkId} {c : Chunk}
    (hmem : .sendToLink l c ∈ t.commands) :
    .sendToLink l c ∈ s.commands ∨
      ∃ r, (s.relay r).link = l ∧
        (((s.relay r).main = .insertLinks ∧ c ∈ frame (s.relay r).pkt) ∨
          ((s.relay r).send = .running ∧ ∃ d ∈ (s.relay r).up, c ∈ frame d)) := by
  cases h with
  | @register r hmain hguard hrun =>
      rw [List.mem_append, List.mem_map] at hmem
      refine hmem.imp id ?_
      rintro ⟨c', hc', heq⟩
      cases heq
      exact ⟨r, rfl, .inl ⟨hmain, hc'⟩⟩
  | @sendChunks r bytes rest hsend hup hbytes hrun =>
      rw [List.mem_append, List.mem_map] at hmem
      refine hmem.imp id ?_
      rintro ⟨c', hc', heq⟩
      cases heq
      exact ⟨r, rfl, .inr ⟨hsend, bytes, by simp [hup], hc'⟩⟩
  | @unregister r hmain hguard | @unregisterRefused r hmain hguard =>
      rw [List.mem_append] at hmem
      refine hmem.imp id fun hclose => ?_
      cases hstop : s.stopped <;> simp [issueClose, hstop] at hclose
  | _ => exact .inl hmem

namespace Sources

theorem udp_step (h : Step s a t) (hsrc : Sources s) :
    ∀ p, t.udp.packet = some p → p ∈ t.received := by
  intro p hp
  have hudp := hsrc.udp p
  cases h with
  | datagram hrecv =>
      cases hp
      simp
  | lookupFound hlookup | lookupMissing hlookup =>
      exact hudp (by rw [hlookup]; exact hp)
  | _ => first | exact hudp hp | cases hp

theorem first_step (h : Step s a t) (hsrc : Sources s) :
    ∀ r, (t.relay r).main ≠ .unborn → ((t.relay r).src, (t.relay r).pkt) ∈ t.received := by
  intro r hmain
  have hfirst := hsrc.first r
  have hudp := hsrc.udp
  have hmono := received_mono h
  cases h <;> grind -linarith [Function.update_apply, UdpPc.packet, Relay.upReceiver, Relay.downReceiver]

theorem queued_step (h : Step s a t) (hI : Inv s) (hsrc : Sources s) :
    ∀ r, ∀ d ∈ (t.relay r).up, ((t.relay r).src, d) ∈ t.received := by
  intro r d hd
  have hqueued := hsrc.queued r d
  have hmono := received_mono h
  cases h with
  | @sendQueued src r' pkt hudp hrx hroom =>
      by_cases hr : r = r'
      · subst hr
        have hentry := hI.guarded src r (.inl ⟨pkt, hudp⟩)
        have haddr := (hI.links src r hentry).1
        have hpkt : (src, pkt) ∈ s.received := hsrc.udp _ (by rw [hudp]; rfl)
        simp only [Function.update_self, List.mem_append, List.mem_singleton] at hd ⊢
        rcases hd with hd | rfl
        · exact hqueued hd
        · rwa [haddr]
      · simpa [hr] using hqueued (by simpa [hr] using hd)
  | _ => grind -linarith [Function.update_apply]

theorem issued_step (h : Step s a t) (hI : Inv s) (hsrc : Sources s) :
    ∀ l c, .sendToLink l c ∈ t.commands →
      ∃ r, (t.relay r).main.established = true ∧ (t.relay r).link = l ∧
        ∃ d, ((t.relay r).src, d) ∈ t.received ∧ c ∈ frame d := by
  intro l c hmem
  have hmono := received_mono h
  -- The relay that issues has its link before the step and keeps it.
  have hkeep : ∀ r, (s.relay r).main.established = true → (s.relay r).link = l →
      (∃ d, ((s.relay r).src, d) ∈ s.received ∧ c ∈ frame d) →
      ∃ r, (t.relay r).main.established = true ∧ (t.relay r).link = l ∧
        ∃ d, ((t.relay r).src, d) ∈ t.received ∧ c ∈ frame d := by
    rintro r hest hlink ⟨d, hd, hc⟩
    obtain ⟨hest', hlink', haddr⟩ := link_src_step h hI hest
    exact ⟨r, hest', by rw [hlink', hlink], d, by rw [haddr]; exact hmono _ hd, hc⟩
  rcases sendToLink_step h hmem with hold | ⟨r, hlink, ⟨hmain, hc⟩ | ⟨hsend, d, hd, hc⟩⟩
  · obtain ⟨r, hest, hlink, hd⟩ := hsrc.issued l c hold
    exact hkeep r hest hlink hd
  · exact hkeep r (by rw [hmain]; rfl) hlink ⟨_, hsrc.first r (by simp [hmain]), hc⟩
  · have hmain := hI.joining_of_running hsend
    exact hkeep r (by rw [hmain]; rfl) hlink ⟨d, hsrc.queued r d hd, hc⟩

theorem of_reachable {serverHash : Option DestinationHash} {Ok : State → Action → Prop}
    (h : (machine serverHash).Reachable Ok s) : Sources s := by
  refine Lib.Machine.Reachable.invariant_of_reachable (I := Sources) ⟨?_, ?_, ?_, ?_⟩ ?_ h
  · intro p hp
    cases hp
  · intro r hmain
    exact absurd rfl hmain
  · intro r d hd
    cases hd
  · intro l c hmem
    cases hmem
  · intro s a t hs hsrc _ hstep
    have h := step_sound hstep
    have hI : Inv s := Inv.of_reachable hs
    exact ⟨hsrc.udp_step h, hsrc.first_step h, hsrc.queued_step h hI, hsrc.issued_step h hI⟩

end Sources

/-! ## Isolation -/

/-- Every chunk issued on a link comes from a datagram of the one address the link was established
for; every datagram sent back is made of the bodies of chunks received on the relay's link. -/
structure Isolated (s : State) : Prop where
  issued : ∀ l c, .sendToLink l c ∈ s.commands →
    ∃ r, ((s.relay r).main.established = true ∧ (s.relay r).link = l ∧
      ∃ d, ((s.relay r).src, d) ∈ s.received ∧ c ∈ frame d) ∧
      ∀ r', (s.relay r').main.established = true → (s.relay r').link = l → r' = r
  sentBack : ∀ r, ∀ d ∈ (s.relay r).sentBack,
    (s.relay r).main.established = true ∧
      ∃ cs : List Chunk, cs.Sublist (chunksOn (s.relay r).link s.delivered) ∧
        d = cs.flatMap List.tail

theorem isolated_of_reachable {serverHash : Option DestinationHash}
    {Ok : State → Action → Prop} (h : (machine serverHash).Reachable Ok s) : Isolated s := by
  have hI : Inv s := Inv.of_reachable h
  have hin : Inflow s := Inflow.of_reachable h
  refine ⟨?_, ?_⟩
  · intro l c hmem
    obtain ⟨r, hest, hlink, hd⟩ := (Sources.of_reachable h).issued l c hmem
    exact ⟨r, ⟨hest, hlink, hd⟩, fun r' hest' hlink' =>
      hI.distinct r' r hest' hest (by rw [hlink', hlink])⟩
  · intro r d hd
    have hemits := (reassembles_of_reachable h r).emits
    obtain ⟨cs, hcs, hbody⟩ := hemits.mem hd
    cases hest : (s.relay r).main.established with
    | true =>
        have haccepted := (List.sublist_append_left _ _).trans (hin.accepted r hest)
        exact ⟨rfl, cs, hcs.sublist.trans haccepted, hbody⟩
    | false =>
        -- Without a link nothing was accepted, so nothing was sent back.
        obtain ⟨consumed, hpre, hout⟩ := hemits
        rw [hin.unlinked r hest, List.prefix_nil] at hpre
        subst hpre
        rw [show (({} : Reassembler).pushAll []).2 = [] from rfl, List.prefix_nil] at hout
        rw [hout] at hd
        cases hd

end Client
end SvenBridge
