import SvenBridge.Server.Invariant

/-!
# Server.Flow — where chunks and datagrams are on the server

As `Client.Flow`, for the pump `to_sc`: chunks delivered on a link wait in the event queue and in
the router's hands, and then go to the relay of that link, or nowhere.  The router also puts an
empty end marker on a relay's channel; no datagram is made of it.
-/

namespace SvenBridge
namespace Server

variable {s t : State} {a : Action}

/-! ## Chunks on their way in -/

/-- The chunk of a link in the router's hands. -/
def RouterPc.dataOn (l : LinkId) : RouterPc → List Chunk
  | .forward l' bytes => if l' = l then [bytes] else []
  | _ => []

/-- Chunks delivered on a link that the router has not dealt with, oldest first. -/
def inFlight (s : State) (l : LinkId) : List Chunk :=
  s.router.dataOn l ++ SvenBridge.dataOn l s.events

/-- The chunks in flight are a queue: the engine appends, the router takes from the front. -/
theorem inFlight_step (h : Step s a t) (l : LinkId) :
    (inFlight t l = inFlight s l ∧ chunksOn l t.delivered = chunksOn l s.delivered) ∨
      (∃ c, a = .engine (.delivered l c) ∧ inFlight t l = inFlight s l ++ [c] ∧
        chunksOn l t.delivered = chunksOn l s.delivered ++ [c]) ∨
      ∃ c, s.router = .forward l c ∧ inFlight s l = c :: inFlight t l ∧
        chunksOn l t.delivered = chunksOn l s.delivered := by
  cases h with
  | @delivered l' c =>
      by_cases hl : l' = l
      · subst hl
        exact .inr (.inl ⟨c, rfl, by simp [inFlight, BridgeEvent.dataOn], by simp⟩)
      · exact .inl ⟨by simp [inFlight, BridgeEvent.dataOn, hl], by simp [hl]⟩
  | @takeData l' c events hrouter hevents =>
      by_cases hl : l' = l <;>
        exact .inl ⟨by simp [inFlight, hrouter, hevents, RouterPc.dataOn, BridgeEvent.dataOn, hl],
          rfl⟩
  | @forwardUnknown l' c hrouter | @forwardDropped l' c r hrouter | @forwardQueued l' c r hrouter =>
      by_cases hl : l' = l
      · subst hl
        exact .inr (.inr ⟨c, hrouter, by simp [inFlight, hrouter, RouterPc.dataOn], rfl⟩)
      · exact .inl ⟨by simp [inFlight, hrouter, RouterPc.dataOn, hl], rfl⟩
  | _ =>
      exact .inl ⟨by simp_all [inFlight, RouterPc.dataOn, BridgeEvent.dataOn], rfl⟩

/-- A relay's channel is filled by the router: with chunks of its link, and with end markers. -/
theorem accepted_step (h : Step s a t) (hI : Inv s) (r : ℕ) :
    ((s.relay r).main ≠ .unborn ∧ (t.relay r).accepted = (s.relay r).accepted) ∨
      (t.relay r).main = .unborn ∨
      (s.router = .insertSender (t.relay r).link ∧ t.router = .recv ∧ t.events = s.events ∧
        t.delivered = s.delivered ∧ (t.relay r).accepted = []) ∨
      (s.router = .sendEnd (s.relay r).link r ∧
        (t.relay r).accepted = (s.relay r).accepted ++ [[]]) ∨
      ∃ c, s.router = .forward (s.relay r).link c ∧ t.router = .recv ∧ t.events = s.events ∧
        t.delivered = s.delivered ∧ s.senders (s.relay r).link = some r ∧
        (t.relay r).accepted = (s.relay r).accepted ++ [c] := by
  have hsenders := fun l => hI.senders l r
  have hending := fun l => hI.ending l r
  have hunborn := hI.unborn r
  cases h <;> grind -linarith [Function.update_apply]

/-- Accepted chunks without the end markers. -/
def Relay.chunks (x : Relay) : List Chunk :=
  x.accepted.filter fun c => !c.isEmpty

/-- A relay accepts only chunks delivered on its link. -/
structure Inflow (s : State) : Prop where
  queued : ∀ l, (inFlight s l).Sublist (chunksOn l s.delivered)
  accepted : ∀ r, (s.relay r).main ≠ .unborn →
    ((s.relay r).chunks ++ inFlight s (s.relay r).link).Sublist
      (chunksOn (s.relay r).link s.delivered)

/-- Once spawned, a relay keeps its link. -/
theorem link_keep_step (h : Step s a t) (hI : Inv s) {r : ℕ}
    (hmain : (s.relay r).main ≠ .unborn) :
    (t.relay r).main ≠ .unborn ∧ (t.relay r).link = (s.relay r).link := by
  have hunborn := hI.unborn r
  cases h <;> grind -linarith [Function.update_apply]

theorem Inflow.step (h : Step s a t) (hI : Inv s) (hin : Inflow s) : Inflow t where
  queued := by
    intro l
    have hq := hin.queued l
    rcases inFlight_step h l with ⟨hf, hd⟩ | ⟨c, -, hf, hd⟩ | ⟨c, -, hf, hd⟩
    · rwa [hf, hd]
    · rw [hf, hd]
      exact hq.append (List.Sublist.refl [c])
    · rw [hd]
      rw [hf] at hq
      exact (List.sublist_cons_self c _).trans hq
  accepted := by
    intro r hmain
    -- What a step does to the chunks in flight keeps the sublist.
    have hflight : (s.relay r).main ≠ .unborn →
        ((s.relay r).chunks ++ inFlight t (s.relay r).link).Sublist
          (chunksOn (s.relay r).link t.delivered) := by
      intro hmain'
      have hold := hin.accepted r hmain'
      rcases inFlight_step h (s.relay r).link with ⟨hf, hd⟩ | ⟨c, -, hf, hd⟩ | ⟨c, -, hf, hd⟩
      · rwa [hf, hd]
      · rw [hf, hd, ← List.append_assoc]
        exact hold.append (List.Sublist.refl [c])
      · rw [hd]
        rw [hf] at hold
        exact ((List.Sublist.refl _).append (List.sublist_cons_self c _)).trans hold
    rcases accepted_step h hI r with ⟨hmain', hacc⟩ | hnone | ⟨hins, hrecv, hevents, hd, hacc⟩ |
        ⟨hend, hacc⟩ | ⟨c, hfwd, hrecv, hevents, hd, hentry, hacc⟩
    · rw [Relay.chunks, hacc, (link_keep_step h hI hmain').2]
      exact hflight hmain'
    · exact absurd hnone hmain
    · have hsame : inFlight t (t.relay r).link = inFlight s (t.relay r).link := by
        simp [inFlight, hins, hrecv, hevents, RouterPc.dataOn]
      rw [Relay.chunks, hacc, List.filter_nil, List.nil_append, hsame, hd]
      exact hin.queued _
    · have hmain' := (hI.ending _ r hend).2.2.1
      rw [Relay.chunks, hacc, (link_keep_step h hI hmain').2]
      simpa [Relay.chunks] using hflight hmain'
    · have hmain' := (hI.senders _ r hentry).2.1
      have hold := hin.accepted r hmain'
      have hf : inFlight s (s.relay r).link = c :: inFlight t (s.relay r).link := by
        simp [inFlight, hfwd, hrecv, hevents, RouterPc.dataOn]
      rw [hf] at hold
      rw [Relay.chunks, hacc, (link_keep_step h hI hmain').2, hd, List.filter_append,
        List.append_assoc]
      refine ((List.Sublist.refl _).append ?_).trans hold
      have hc : ([c].filter fun c => !c.isEmpty).Sublist [c] := List.filter_sublist
      exact hc.append (List.Sublist.refl _)

theorem Inflow.of_reachable {Ok : State → Action → Prop} (h : machine.Reachable Ok s) :
    Inflow s := by
  refine Lib.Machine.Reachable.invariant_of_reachable (I := Inflow) ⟨?_, ?_⟩ ?_ h
  · intro l
    exact List.Sublist.refl []
  · intro r hmain
    exact absurd rfl hmain
  · intro s a t hs hin _ hstep
    exact hin.step (step_sound hstep) (Inv.of_reachable hs)

/-! ## The pump `to_sc` -/

/-- The datagram in `sock_send.send`. -/
def Relay.pendingOut (x : Relay) : List Datagram :=
  match x.toSc with
  | .sending d => [d]
  | .unspawned | .recv | .ended => []

/-- The pump sends to the game server what its chunks reassemble to. -/
def Relay.Reassembles (x : Relay) : Prop :=
  if x.receiver then
    Reassembler.Pumped x.accepted x.rx x.reassembler (x.sent ++ x.pendingOut)
  else
    Reassembler.Emits x.accepted x.sent

/-- Only these fields matter. -/
theorem Relay.Reassembles.congr {x y : Relay} (h : x.Reassembles)
    (hreceiver : y.receiver = x.receiver) (hpending : y.pendingOut = x.pendingOut)
    (hacc : y.accepted = x.accepted) (hrx : y.rx = x.rx)
    (hasm : y.reassembler = x.reassembler) (hsent : y.sent = x.sent) : y.Reassembles := by
  unfold Relay.Reassembles at *
  rwa [hreceiver, hpending, hacc, hrx, hasm, hsent]

theorem Relay.Reassembles.pumped {x : Relay} (h : x.Reassembles) (hrx : x.receiver = true) :
    Reassembler.Pumped x.accepted x.rx x.reassembler (x.sent ++ x.pendingOut) := by
  simpa [Relay.Reassembles, hrx] using h

theorem Relay.Reassembles.emits {x : Relay} (h : x.Reassembles) :
    Reassembler.Emits x.accepted x.sent := by
  by_cases hrx : x.receiver = true
  · exact (h.pumped hrx).emits (List.prefix_append _ _)
  · simpa [Relay.Reassembles, hrx] using h

theorem Relay.Reassembles.of_emits {x : Relay} (hrx : x.receiver = false)
    (h : Reassembler.Emits x.accepted x.sent) : x.Reassembles := by
  simpa [Relay.Reassembles, hrx] using h

theorem Relay.Reassembles.of_pumped {x : Relay} (hrx : x.receiver = true)
    (h : Reassembler.Pumped x.accepted x.rx x.reassembler (x.sent ++ x.pendingOut)) :
    x.Reassembles := by
  simpa [Relay.Reassembles, hrx] using h

theorem reassembles_step (h : Step s a t) (hI : Inv s) {r : ℕ}
    (hre : (s.relay r).Reassembles) : (t.relay r).Reassembles := by
  have hpumps := hI.pumps r
  cases h with
  | spawn hrouter =>
      by_cases hr : r = s.spawned
      · subst hr
        exact .of_pumped (by simp [Relay.receiver, MainPc.ownsReceiver])
          (by simpa [Relay.pendingOut] using Reassembler.Pumped.start)
      · simpa [hr] using hre
  | @endQueued l r' hrouter hrx hroom =>
      by_cases hr : r = r'
      · subst hr
        exact .of_pumped (by simpa [Relay.receiver] using hrx)
          (by simpa [Relay.pendingOut] using (hre.pumped hrx).enqueue [])
      · simpa [hr] using hre
  | @forwardQueued l c r' hrouter hentry hrx hroom =>
      by_cases hr : r = r'
      · subst hr
        exact .of_pumped (by simpa [Relay.receiver] using hrx)
          (by simpa [Relay.pendingOut] using (hre.pumped hrx).enqueue c)
      · simpa [hr] using hre
  | @bound r' hmain | @bindFailed r' hmain | @connectFailed r' hmain =>
      by_cases hr : r = r'
      · subst hr
        exact hre.congr (by simp [Relay.receiver, hmain, MainPc.ownsReceiver]) (by simp [Relay.pendingOut])
          (by simp) (by simp) (by simp) (by simp)
      · simpa [hr] using hre
  | @spawnPumps r' hmain =>
      by_cases hr : r = r'
      · subst hr
        simp only [Relay.PumpsOk, hmain] at hpumps
        exact hre.congr (by simp [Relay.receiver, hmain, MainPc.ownsReceiver])
          (by simp [Relay.pendingOut, hpumps.1]) (by simp) (by simp) (by simp) (by simp)
      · simpa [hr] using hre
  | @unregisterFailed r' hmain hguard =>
      by_cases hr : r = r'
      · subst hr
        simp only [Relay.PumpsOk, hmain] at hpumps
        exact .of_emits (by simp [Relay.receiver, MainPc.ownsReceiver, hpumps.1])
          (by simpa using hre.emits)
      · simpa [hr] using hre
  | @join r' hmain htoSc hfromSc =>
      by_cases hr : r = r'
      · subst hr
        exact hre.congr (by simp [Relay.receiver, hmain, MainPc.ownsReceiver])
          (by simp [Relay.pendingOut]) (by simp) (by simp) (by simp) (by simp)
      · simpa [hr] using hre
  | @unregister r' hmain hguard =>
      by_cases hr : r = r'
      · subst hr
        exact hre.congr (by simp [Relay.receiver, hmain, MainPc.ownsReceiver])
          (by simp [Relay.pendingOut]) (by simp) (by simp) (by simp) (by simp)
      · simpa [hr] using hre
  | @toScDone r' htoSc hrx hsender | @toScEmpty r' rest htoSc hrx | @scSendFailed r' d htoSc =>
      by_cases hr : r = r'
      · subst hr
        have howns : (s.relay r).main.ownsReceiver = false := by
          cases hm : (s.relay r).main <;> simp_all [Relay.PumpsOk, MainPc.ownsReceiver]
        exact .of_emits (by simp [Relay.receiver, howns]) (by simpa using hre.emits)
      · simpa [hr] using hre
  | @toScChunk r' chunk rest htoSc hrx hchunk =>
      by_cases hr : r = r'
      · subst hr
        have hold := hre.pumped (by simp [Relay.receiver, htoSc])
        rw [hrx, show (s.relay r).pendingOut = [] by simp [Relay.pendingOut, htoSc],
          List.append_nil] at hold
        have hpush := hold.push
        cases hout : ((s.relay r).reassembler.push chunk).2 with
        | none =>
            exact .of_pumped (by simp [Relay.receiver])
              (by simpa [Relay.pendingOut, hout] using hpush)
        | some d =>
            exact .of_pumped (by simp [Relay.receiver])
              (by simpa [Relay.pendingOut, hout] using hpush)
      · simpa [hr] using hre
  | @scSent r' d htoSc =>
      by_cases hr : r = r'
      · subst hr
        have hold := hre.pumped (by simp [Relay.receiver, htoSc])
        exact .of_pumped (by simp [Relay.receiver])
          (by simpa [Relay.pendingOut, htoSc] using hold)
      · simpa [hr] using hre
  | @scRecvFailed r' hfromSc | @scRecvEmpty r' payload hfromSc | @scRecvChunks r' payload hfromSc
  | @scRecvRefused r' payload hfromSc =>
      by_cases hr : r = r'
      · subst hr
        exact hre.congr (by simp [Relay.receiver]) (by simp [Relay.pendingOut]) (by simp) (by simp)
          (by simp) (by simp)
      · simpa [hr] using hre
  | _ => exact hre

theorem reassembles_of_reachable {Ok : State → Action → Prop} (h : machine.Reachable Ok s)
    (r : ℕ) : (s.relay r).Reassembles := by
  refine Lib.Machine.Reachable.invariant_of_reachable (I := fun s => (s.relay r).Reassembles)
    ?_ ?_ h
  · exact .of_emits rfl (Reassembler.Pumped.start.emits (List.prefix_refl _))
  · intro s a t hs hre _ hstep
    exact reassembles_step (step_sound hstep) (Inv.of_reachable hs) hre

/-- The pump never pushes an end marker: what it sends is made of chunks of the link. -/
theorem mem_sent (hin : Inflow s) {r : ℕ} (hmain : (s.relay r).main ≠ .unborn)
    (hre : (s.relay r).Reassembles) {d : Datagram} (hd : d ∈ (s.relay r).sent) :
    ∃ cs : List Chunk, cs.Sublist (chunksOn (s.relay r).link s.delivered) ∧
      d = cs.flatMap List.tail := by
  obtain ⟨ys, hys, hbody⟩ := hre.emits.mem hd
  refine ⟨ys.filter fun c => !c.isEmpty, ?_, ?_⟩
  · have hchunks : (ys.filter fun c => !c.isEmpty).Sublist (s.relay r).chunks :=
      hys.sublist.filter _
    exact hchunks.trans ((List.sublist_append_left _ _).trans (hin.accepted r hmain))
  · -- An empty chunk has no body.
    rw [hbody]
    clear hys hbody
    induction ys with
    | nil =>
        rfl
    | cons y ys ih =>
        cases y with
        | nil =>
            simpa using ih
        | cons b bs =>
            simp [ih]

end Server
end SvenBridge
