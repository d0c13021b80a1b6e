import SvenBridge.Client.Invariant

/-!
# Client.Flow — where chunks and datagrams are on the client

The chunks the engine has delivered on a link wait in the event queue and in the router's hands,
and then go to the receive pump of the relay of that link, or nowhere.  A datagram the UDP task
has read is the first packet of a relay, or waits in the queue of one, or is still in the task.
-/

namespace SvenBridge
namespace Client

variable {s t : State} {a : Action}

/-! ## Chunks on their way in -/

/-- The chunk of a link in the router's hands. -/
def RouterPc.dataOn (l : LinkId) : RouterPc → List Chunk
  | .forward l' bytes => if l' = l then [bytes] else []
  | _ => []

/-- Chunks delivered on a link that the router has not dealt with, oldest first. -/
def inFlight (s : State) (l : LinkId) : List Chunk :=
  s.router.dataOn l ++ SvenBridge.dataOn l s.events

/-- The chunks in flight are a queue: the engine appends, the router takes from the front. -/
theorem inFlight_step (h : Step s a t) (l : LinkId) :
    (inFlight t l = inFlight s l ∧ chunksOn l t.delivered = chunksOn l s.delivered) ∨
      (∃ c, a = .engine (.delivered l c) ∧ inFlight t l = inFlight s l ++ [c] ∧
        chunksOn l t.delivered = chunksOn l s.delivered ++ [c]) ∨
      ∃ c, s.router = .forward l c ∧ inFlight s l = c :: inFlight t l ∧
        chunksOn l t.delivered = chunksOn l s.delivered := by
  cases h with
  | @delivered l' c =>
      by_cases hl : l' = l
      · subst hl
        exact .inr (.inl ⟨c, rfl, by simp [inFlight, BridgeEvent.dataOn], by simp⟩)
      · exact .inl ⟨by simp [inFlight, BridgeEvent.dataOn, hl], by simp [hl]⟩
  | @engine ev hev =>
      refine .inl ⟨?_, rfl⟩
      cases ev with
      | delivered l' c =>
          exact absurd rfl (hev l' c)
      | _ => simp [inFlight, funnelEvent, BridgeEvent.dataOn]
  | @takeData l' c events hrouter hevents =>
      by_cases hl : l' = l <;>
        exact .inl ⟨by simp [inFlight, hrouter, hevents, RouterPc.dataOn, BridgeEvent.dataOn, hl],
          rfl⟩
  | @takeIgnored ev events hrouter hevents hev =>
      refine .inl ⟨?_, rfl⟩
      rcases hev with ⟨l', rfl⟩ | ⟨l', id, rfl⟩ <;>
        simp [inFlight, hrouter, hevents, BridgeEvent.dataOn]
  -- whether or not it reaches a relay, the chunk leaves the router's hands
  | @forwardUnknown l' c hrouter | @forwardDropped l' c r hrouter | @forwardQueued l' c r hrouter =>
      by_cases hl : l' = l
      · subst hl
        exact .inr (.inr ⟨c, hrouter, by simp [inFlight, hrouter, RouterPc.dataOn], rfl⟩)
      · exact .inl ⟨by simp [inFlight, hrouter, RouterPc.dataOn, hl], rfl⟩
  | _ =>
      exact .inl ⟨by simp_all [inFlight, RouterPc.dataOn, BridgeEvent.dataOn], rfl⟩

/-- A relay's queue of chunks is filled by the router, from the chunks of its own link. -/
theorem accepted_step (h : Step s a t) (hI : Inv s) (r : ℕ) :
    (t.relay r).accepted = (s.relay r).accepted ∨
      ((t.relay r).main = .establishing ∧ (t.relay r).accepted = []) ∨
      ∃ c, s.router = .forward (s.relay r).link c ∧ t.router = .recv ∧ t.events = s.events ∧
        t.delivered = s.delivered ∧ s.linkData (s.relay r).link = some r ∧
        (t.relay r).accepted = (s.relay r).accepted ++ [c] := by
  have hdata := fun l => hI.data l r
  cases h <;> grind -linarith [Function.update_apply]

/-- Only relays with a link have accepted chunks, and only from chunks delivered on it. -/
structure Inflow (s : State) : Prop where
  queued : ∀ l, (inFlight s l).Sublist (chunksOn l s.delivered)
  unlinked : ∀ r, (s.relay r).main.established = false → (s.relay r).accepted = []
  accepted : ∀ r, (s.relay r).main.established = true →
    ((s.relay r).accepted ++ inFlight s (s.relay r).link).Sublist
      (chunksOn (s.relay r).link s.delivered)

/-- Once established, a relay keeps its link and its source address. -/
theorem link_src_step (h : Step s a t) (hI : Inv s) {r : ℕ}
    (hest : (s.relay r).main.established = true) :
    (t.relay r).main.established = true ∧ (t.relay r).link = (s.relay r).link ∧
      (t.relay r).src = (s.relay r).src := by
  have hunborn := hI.unborn r
  cases h <;> grind -linarith [Function.update_apply, MainPc.established]

/-- A link is handed out in a step that touches no queue. -/
theorem newlyEstablished_step (h : Step s a t) {r : ℕ}
    (hbefore : (s.relay r).main.established = false)
    (hafter : (t.relay r).main.established = true) :
    t.router = s.router ∧ t.events = s.events ∧ t.delivered = s.delivered ∧
      (t.relay r).accepted = (s.relay r).accepted := by
  cases h <;> grind -linarith [Function.update_apply, MainPc.established]

theorem Inflow.step (h : Step s a t) (hI : Inv s) (hin : Inflow s) : Inflow t where
  queued := by
    intro l
    have hq := hin.queued l
    -- nothing moves, a chunk comes in at the end, or one leaves at the front
    rcases inFlight_step h l with ⟨hf, hd⟩ | ⟨c, -, hf, hd⟩ | ⟨c, -, hf, hd⟩
    · rwa [hf, hd]
    · rw [hf, hd]
      exact hq.append (List.Sublist.refl [c])
    · rw [hd]
      rw [hf] at hq
      exact (List.sublist_cons_self c _).trans hq
  unlinked := by
    intro r hunest
    have hunlinked := hin.unlinked r
    have hdata := fun l => hI.data l r
    cases h <;> grind -linarith [Function.update_apply, MainPc.established]
  accepted := by
    intro r hest
    cases hbefore : (s.relay r).main.established with
    | false =>
        obtain ⟨hrouter, hevents, hdelivered, hacc⟩ := newlyEstablished_step h hbefore hest
        have hsame : inFlight t (t.relay r).link = inFlight s (t.relay r).link := by
          rw [inFlight, inFlight, hrouter, hevents]
        rw [hacc, hin.unlinked r hbefore, List.nil_append, hsame, hdelivered]
        exact hin.queued _
    | true =>
        have hold := hin.accepted r hbefore
        obtain ⟨-, hlink, -⟩ := link_src_step h hI hbefore
        rw [hlink]
        rcases accepted_step h hI r with hacc | ⟨hnew, -⟩ | ⟨c, hfwd, hrecv, hevents, hdelivered, -, hacc⟩
        · rw [hacc]
          rcases inFlight_step h (s.relay r).link with ⟨hf, hd⟩ | ⟨c, -, hf, hd⟩ | ⟨c, -, hf, hd⟩
          · rwa [hf, hd]
          · rw [hf, hd, ← List.append_assoc]
            exact hold.append (List.Sublist.refl [c])
          · rw [hd]
            rw [hf] at hold
            exact ((List.Sublist.refl _).append (List.sublist_cons_self c _)).trans hold
        · rw [hnew] at hest
          cases hest
        · have hf : inFlight s (s.relay r).link = c :: inFlight t (s.relay r).link := by
            simp [inFlight, hfwd, hrecv, hevents, RouterPc.dataOn]
          rw [hacc, hdelivered, List.append_assoc, List.singleton_append, ← hf]
          exact hold

theorem Inflow.of_reachable {serverHash : Option DestinationHash} {Ok : State → Action → Prop}
    (h : (machine serverHash).Reachable Ok s) : Inflow s := by
  refine Lib.Machine.Reachable.invariant_of_reachable (I := Inflow) ⟨?_, ?_, ?_⟩ ?_ h
  · intro l
    exact List.Sublist.refl []
  · intro r _
    rfl
  · intro r hest
    cases hest
  · intro s a t hs hin _ hstep
    exact hin.step (step_sound hstep) (Inv.of_reachable hs)

/-! ## The receive pump -/

/-- The receive pump sends back what its chunks reassemble to. -/
def Relay.Reassembles (x : Relay) : Prop :=
  match x.recv with
  | .unspawned | .recv => Reassembler.Pumped x.accepted x.down x.reassembler x.sentBack
  | .sending d => Reassembler.Pumped x.accepted x.down x.reassembler (x.sentBack ++ [d])
  | .ended => Reassembler.Emits x.accepted x.sentBack

/-- Only these fields matter. -/
theorem Relay.Reassembles.congr {x y : Relay} (h : x.Reassembles)
    (hrecv : y.recv = x.recv ∨ x.recv = .unspawned ∧ y.recv = .recv)
    (hacc : y.accepted = x.accepted) (hdown : y.down = x.down)
    (hasm : y.reassembler = x.reassembler) (hsent : y.sentBack = x.sentBack) :
    y.Reassembles := by
  unfold Relay.Reassembles at *
  rcases hrecv with hrecv | ⟨hx, hy⟩
  · rwa [hrecv, hacc, hdown, hasm, hsent]
  · rw [hx] at h
    rw [hy]
    simpa only [hacc, hdown, hasm, hsent] using h

theorem Relay.Reassembles.emits {x : Relay} (h : x.Reassembles) :
    Reassembler.Emits x.accepted x.sentBack := by
  unfold Relay.Reassembles at h
  cases hrecv : x.recv with
  | unspawned | recv =>
      rw [hrecv] at h
      exact h.emits (List.prefix_refl _)
  | sending d =>
      rw [hrecv] at h
      exact h.emits (List.prefix_append _ _)
  | ended =>
      rw [hrecv] at h
      exact h

theorem reassembles_step (h : Step s a t) (hI : Inv s) {r : ℕ}
    (hre : (s.relay r).Reassembles) : (t.relay r).Reassembles := by
  have hpumps := hI.pumps r
  cases h with
  | spawn hudp htarget =>
      by_cases hr : r = s.spawned
      · subst hr
        simpa [Relay.Reassembles] using Reassembler.Pumped.start
      · simpa [hr] using hre
  | @forwardQueued l c r' hrouter hentry hrx =>
      by_cases hr : r = r'
      · subst hr
        cases hrecv : (s.relay r).recv with
        | recv | sending d =>
            simp only [Relay.Reassembles, hrecv] at hre
            simpa [Relay.Reassembles, hrecv] using hre.enqueue c
        | unspawned | ended =>
            simp [Relay.downReceiver, hrecv] at hrx
      · simpa [hr] using hre
  | @recvDone r' hrecv hdown hsender =>
      by_cases hr : r = r'
      · subst hr
        simpa [Relay.Reassembles] using hre.emits
      · simpa [hr] using hre
  | @recvChunk r' chunk rest hrecv hdown =>
      by_cases hr : r = r'
      · subst hr
        simp only [Relay.Reassembles, hrecv, hdown] at hre
        have hpush := hre.push
        cases hout : ((s.relay r).reassembler.push chunk).2 with
        | none =>
            simpa [Relay.Reassembles, hout] using hpush
        | some d =>
            simpa [Relay.Reassembles, hout] using hpush
      · simpa [hr] using hre
  | @sentBack r' d hrecv =>
      by_cases hr : r = r'
      · subst hr
        simp only [Relay.Reassembles, hrecv] at hre
        simpa [Relay.Reassembles] using hre
      · simpa [hr] using hre
  | @sendBackFailed r' d hrecv =>
      by_cases hr : r = r'
      · subst hr
        simpa [Relay.Reassembles] using hre.emits
      · simpa [hr] using hre
  | @spawnPumps r' hmain =>
      by_cases hr : r = r'
      · subst hr
        simp only [Relay.PumpsOk, hmain] at hpumps
        exact hre.congr (.inr ⟨hpumps.2, by simp⟩) (by simp) (by simp) (by simp) (by simp)
      · simpa [hr] using hre
  | _ =>
      refine hre.congr (.inl ?_) ?_ ?_ ?_ ?_ <;> grind -linarith [Function.update_apply]

theorem reassembles_of_reachable {serverHash : Option DestinationHash}
    {Ok : State → Action → Prop} (h : (machine serverHash).Reachable Ok s) (r : ℕ) :
    (s.relay r).Reassembles := by
  refine Lib.Machine.Reachable.invariant_of_reachable (I := fun s => (s.relay r).Reassembles)
    ?_ ?_ h
  · exact Reassembler.Pumped.start
  · intro s a t hs hre _ hstep
    exact reassembles_step (step_sound hstep) (Inv.of_reachable hs) hre

end Client
end SvenBridge
