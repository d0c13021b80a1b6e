import SvenBridge.Server.Flow

/-!
# Server.Lossless — the server half of an unbroken link

As `Client.Lossless`: without a `LinkClosed`, a socket error or a full channel for the relay of
link `l`, and with `LinkEstablished` reported before the first chunk, every chunk delivered on `l`
reaches the reassembler of the one relay of `l`, and every non-empty datagram received on its
socket is issued.
-/

namespace SvenBridge
namespace Server

variable {s t : State} {a : Action} {l : LinkId}

/-! ## The condition on steps -/

/-- The router does not find the channel of the relay of link `l` full. -/
def RxRoom (l : LinkId) (s : State) : Prop :=
  match s.router, s.senders l with
  | .forward l' _, some r => l' = l → (s.relay r).rx.length < channelCapacity
  | _, _ => True

instance (l : LinkId) (s : State) : Decidable (RxRoom l s) := by
  unfold RxRoom
  generalize s.router = router, s.senders l = entry
  rcases router with _ | _ <;> rcases entry with _ | _ <;> infer_instance

/-- The engine reports link `l` established before it delivers on it, and never closed; what it
delivers has a header byte. -/
def ReportsInOrder (l : LinkId) (s : State) (event : PrnsEvent) : Prop :=
  match event with
  | .linkClosed l' => l' ≠ l
  | .delivered l' c => l' = l → l ∈ s.established ∧ c ≠ []
  | _ => True

instance (l : LinkId) (s : State) (event : PrnsEvent) : Decidable (ReportsInOrder l s event) := by
  unfold ReportsInOrder
  rcases event with _ | _ <;> infer_instance

/-- No `LinkClosed`, socket error or full channel for the relay of link `l`. -/
def Unbroken (l : LinkId) (s : State) (a : Action) : Prop :=
  match a with
  | .engine event => ReportsInOrder l s event
  | .router => RxRoom l s
  | .bind r ok | .connect r ok | .scSend r ok => (s.relay r).link = l → ok = true
  | .scRecv r datagram => (s.relay r).link = l → datagram.isSome = true
  | _ => True

instance (l : LinkId) (s : State) (a : Action) : Decidable (Unbroken l s a) := by
  unfold Unbroken
  rcases a with _ | _ <;> infer_instance

/-! ## The invariant -/

/-- Still setting up, or joining. -/
def MainPc.live : MainPc → Bool
  | .binding | .connecting | .joining => true
  | _ => false

/-- In the event queue, chunks of `l` come only behind its `LinkEstablished`. -/
def heralded (l : LinkId) : List BridgeEvent → Bool
  | [] => true
  | .linkEstablished l' :: events => l' == l || heralded l events
  | .linkData l' _ :: events => l' != l && heralded l events
  | _ :: events => heralded l events

theorem heralded_append_of_mem {events : List BridgeEvent} (h : heralded l events = true)
    (hmem : .linkEstablished l ∈ events) (more : List BridgeEvent) :
    heralded l (events ++ more) = true := by
  -- once `LinkEstablished` has been passed, anything may follow
  induction events with
  | nil =>
      cases hmem
  | cons ev events ih =>
      cases ev <;> simp_all [heralded]
      grind -linarith

theorem heralded_append {events : List BridgeEvent} (h : heralded l events = true)
    {ev : BridgeEvent} (hev : ∀ c, ev ≠ .linkData l c) : heralded l (events ++ [ev]) = true := by
  -- an event that is no chunk of `l` does not break the order
  induction events with
  | nil =>
      cases ev <;> simp_all [heralded]
  | cons ev' events ih =>
      cases ev' <;> simp_all [heralded]
      grind -linarith

/-- A history of the relay registered for a link. -/
def historyOn {α : Type} (history : Relay → List α) (s : State) (l : LinkId) : List α :=
  match s.senders l with
  | some r => history (s.relay r)
  | none => []

theorem historyOn_congr {α : Type} {history : Relay → List α} (hdata : t.senders l = s.senders l)
    (hhistory : ∀ r, s.senders l = some r → history (t.relay r) = history (s.relay r)) :
    historyOn history t l = historyOn history s l := by
  unfold historyOn
  rw [hdata]
  split
  case h_1 r hentry =>
      exact hhistory r hentry
  case h_2 =>
      rfl

/-- Chunks the router has handed to the relay of a link. -/
def claimed : State → LinkId → List Chunk :=
  historyOn Relay.accepted

/-- Datagrams the relay of a link has received on its socket. -/
def receivedOn : State → LinkId → List Datagram :=
  historyOn Relay.received

structure Carries (l : LinkId) (s : State) : Prop where
  running : s.stopped = false
  unclosed : .linkClosed l ∉ s.events ∧ s.router ≠ .removeSender l ∧ ∀ r, s.router ≠ .sendEnd l r
  live : ∀ r, (s.relay r).main ≠ .unborn → (s.relay r).link = l →
    s.senders l = some r ∧ (s.relay r).main.live = true ∧ (s.relay r).toSc ≠ .ended ∧
      (s.relay r).fromSc ≠ .ended
  inserting : s.router = .insertSender l → s.senders l = none
  /-- Until the sender of `l` is in the map, the router is about to put it there, or no chunk of
  `l` is ahead of `LinkEstablished`. -/
  heralds : s.senders l = none → s.router = .checkSenders l ∨ s.router = .insertSender l ∨
    ((∀ c, s.router ≠ .forward l c) ∧ heralded l s.events = true ∧
      (l ∈ s.established → .linkEstablished l ∈ s.events))
  marked : ∀ c ∈ chunksOn l s.delivered, c ≠ []
  flow : chunksOn l s.delivered = claimed s l ++ inFlight s l
  sends : issuedOn l s.commands = (nonEmpty (receivedOn s l)).flatMap frame

namespace Carries

theorem unclosed_step (h : Step s a t) (hu : Unbroken l s a) (hc : Carries l s) :
    .linkClosed l ∉ t.events ∧ t.router ≠ .removeSender l ∧ ∀ r, t.router ≠ .sendEnd l r := by
  obtain ⟨hevents, hrouter, hend⟩ := hc.unclosed
  cases h <;> grind -linarith [Unbroken, ReportsInOrder]

theorem inserting_step (h : Step s a t) (hc : Carries l s) :
    t.router = .insertSender l → t.senders l = none := by
  intro hrouter
  have hinserting := hc.inserting
  cases h <;> grind -linarith [Function.update_apply]

theorem marked_step (h : Step s a t) (hu : Unbroken l s a) (hc : Carries l s) :
    ∀ c ∈ chunksOn l t.delivered, c ≠ [] := by
  have hmarked := hc.marked
  -- only a delivery adds a chunk, and the step condition says that it is not empty
  cases h with
  | @delivered l' c =>
      by_cases hl : l' = l
      · have hne := (hu hl).2
        simpa [hl, or_imp, forall_and] using ⟨hmarked, hne⟩
      · simpa [hl] using hmarked
  | _ => exact hmarked

theorem heralds_step (h : Step s a t) (hu : Unbroken l s a) (hc : Carries l s) :
    t.senders l = none → t.router = .checkSenders l ∨ t.router = .insertSender l ∨
      ((∀ c, t.router ≠ .forward l c) ∧ heralded l t.events = true ∧
        (l ∈ t.established → .linkEstablished l ∈ t.events)) := by
  intro hnone
  have hheralds := hc.heralds
  have hlive := hc.live
  obtain ⟨-, hremove, -⟩ := hc.unclosed
  -- An event that joins the queue keeps the order, unless it is a chunk of `l`.
  have happend : ∀ ev, (∀ c, ev ≠ .linkData l c) → s.senders l = none →
      s.router = .checkSenders l ∨ s.router = .insertSender l ∨
        ((∀ c, s.router ≠ .forward l c) ∧ heralded l (s.events ++ [ev]) = true ∧
          (l ∈ s.established → .linkEstablished l ∈ s.events)) := by
    intro ev hev hnone
    rcases hheralds hnone with hcheck | hinsert | ⟨hforward, horder, hmem⟩
    · exact .inl hcheck
    · exact .inr (.inl hinsert)
    · exact .inr (.inr ⟨hforward, heralded_append horder hev, hmem⟩)
  cases h with
  | @delivered l' c =>
      by_cases hl : l' = l
      · subst hl
        rcases hheralds hnone with hcheck | hinsert | ⟨hforward, horder, hmem⟩
        · exact .inl hcheck
        · exact .inr (.inl hinsert)
        · have hready := hmem (hu rfl).1
          exact .inr (.inr ⟨hforward, heralded_append_of_mem horder hready _,
            fun _ => List.mem_append_left _ hready⟩)
      · have hev : ∀ c', BridgeEvent.linkData l' c ≠ .linkData l c' := by simp [hl]
        grind -linarith
  | @reportEstablished l' =>
      have hev := happend (.linkEstablished l') (by simp)
      grind -linarith
  | @reportClosed l' =>
      have hev := happend (.linkClosed l') (by simp)
      grind -linarith
  | @announced dest appData =>
      have hev := happend (.announceHeard dest (announceAppDataToName appData)) (by simp)
      grind -linarith
  | @reportIdentified l' identity =>
      have hev := happend (.peerIdentified l' identity) (by simp)
      grind -linarith
  | _ => grind -linarith [Function.update_apply, heralded, MainPc.live]

theorem live_step (h : Step s a t) (hI : Inv s) (hu : Unbroken l s a)
    (hre : ∀ r, (s.relay r).Reassembles) (hc : Carries l s) :
    ∀ r, (t.relay r).main ≠ .unborn → (t.relay r).link = l →
      t.senders l = some r ∧ (t.relay r).main.live = true ∧ (t.relay r).toSc ≠ .ended ∧
        (t.relay r).fromSc ≠ .ended := by
  intro r hmain hlink
  have hlive := hc.live
  have hpumps := hI.pumps r
  have hunborn := hI.unborn r
  have hinserting := hc.inserting
  have hrun := hc.running
  obtain ⟨-, hremove, -⟩ := hc.unclosed
  cases h with
  | @toScEmpty r' rest htoSc hrx =>
      by_cases hr : r = r'
      · subst hr
        -- An empty chunk on the channel was delivered on `l`.
        exfalso
        have hborn : (s.relay r).main ≠ .unborn := by simpa using hmain
        have hlink' : (s.relay r).link = l := by simpa using hlink
        have hpumped := (hre r).pumped (by simp [Relay.receiver, htoSc])
        obtain ⟨consumed, hacc, -⟩ := hpumped
        refine hc.marked [] ?_ rfl
        rw [hc.flow, claimed, historyOn, (hlive r hborn hlink').1]
        simp [hacc, hrx]
      · simpa [hr] using hlive r (by simpa [hr] using hmain) (by simpa [hr] using hlink)
  | _ => grind -linarith [Function.update_apply, MainPc.live, Unbroken, Relay.PumpsOk, State.sender]

/-- A chunk delivered on `l` is on the relay's channel or past it, or in flight. -/
theorem flow_step (h : Step s a t) (hI : Inv s) (hu : Unbroken l s a) (hc : Carries l s) :
    chunksOn l t.delivered = claimed t l ++ inFlight t l := by
  have hflow := hc.flow
  -- for the steps that touch neither the queue nor the relay's history
  have hsame : claimed t l = claimed s l → inFlight t l = inFlight s l →
      t.delivered = s.delivered → chunksOn l t.delivered = claimed t l ++ inFlight t l := by
    intro hclaimed hin hdelivered
    rw [hclaimed, hin, hdelivered, hflow]
  have hunborn := hI.unborn
  have hsenders := hI.senders l
  cases h with
  | @delivered l' c =>
      by_cases hl : l' = l
      · subst hl
        simp [hflow, claimed, historyOn, inFlight, BridgeEvent.dataOn]
      · simp [hflow, claimed, historyOn, inFlight, BridgeEvent.dataOn, hl]
  -- a chunk of `l` is not ahead of the sender: the router would not hold it now
  | @forwardUnknown l' c hrouter hentry =>
      by_cases hl : l' = l
      · subst hl
        rcases hc.heralds hentry with hcheck | hinsert | ⟨hforward, -⟩
        · rw [hrouter] at hcheck
          cases hcheck
        · rw [hrouter] at hinsert
          cases hinsert
        · exact absurd hrouter (hforward c)
      · simpa [claimed, historyOn, inFlight, hrouter, RouterPc.dataOn, hl] using hflow
  | @forwardDropped l' c r hrouter hentry hdrop =>
      by_cases hl : l' = l
      · subst hl
        exfalso
        have hroom : (s.relay r).rx.length < channelCapacity := by
          simpa [Unbroken, RxRoom, hrouter, hentry] using hu
        obtain ⟨hlink, hborn, -⟩ := hsenders r hentry
        obtain ⟨-, hlive, htoSc, -⟩ := hc.live r hborn hlink
        have hpumps := hI.pumps r
        rcases hdrop with hrx | hfull
        · cases hm : (s.relay r).main <;> cases hp : (s.relay r).toSc <;>
            simp_all [Relay.receiver, MainPc.ownsReceiver, MainPc.live, Relay.PumpsOk]
        · omega
      · simpa [claimed, historyOn, inFlight, hrouter, RouterPc.dataOn, hl] using hflow
  | @forwardQueued l' c r hrouter hentry hrx hroom =>
      by_cases hl : l' = l
      · subst hl
        simpa [claimed, historyOn, hentry, inFlight, hrouter, RouterPc.dataOn] using hflow
      · have hother : s.senders l ≠ some r := fun heq =>
          hl ((hI.senders l' r hentry).1.symm.trans (hsenders r heq).1)
        refine hsame (historyOn_congr rfl fun r' hr' => ?_)
          (by simp [inFlight, hrouter, RouterPc.dataOn, hl]) rfl
        have hne : r' ≠ r := fun heq => hother (by rw [hr', heq])
        simp [hne]
  -- the end is sent to a relay that is out of the map
  | @endQueued l' r hrouter hrx hroom =>
      have hother : s.senders l ≠ some r := by
        intro heq
        obtain ⟨hlink, hnone, -⟩ := hI.ending l' r hrouter
        rw [← hlink, (hsenders r heq).1, heq] at hnone
        cases hnone
      refine hsame (historyOn_congr rfl fun r' hr' => ?_)
        (by simp [inFlight, hrouter, RouterPc.dataOn]) rfl
      have hne : r' ≠ r := fun heq => hother (by rw [hr', heq])
      simp [hne]
  | @takeData l' c events hrouter hevents =>
      refine hsame rfl ?_ rfl
      by_cases hl : l' = l <;>
        simp [inFlight, hrouter, hevents, RouterPc.dataOn, BridgeEvent.dataOn, hl]
  -- the new relay has no history, and neither had the link
  | @spawn l' hrouter =>
      have hin : RouterPc.dataOn l s.router = RouterPc.dataOn l .recv := by
        rw [hrouter]
        rfl
      by_cases hl : l' = l
      · subst hl
        have hnone := hc.inserting hrouter
        exact hsame (by simp [claimed, historyOn, hnone]) (by simp [inFlight, hin]) rfl
      · refine hsame (historyOn_congr (Function.update_of_ne (Ne.symm hl) _ _) fun r hr => ?_)
          (by simp [inFlight, hin]) rfl
        have hne : r ≠ s.spawned := fun heq => (hsenders r hr).2.1 ((hunborn r).2 (by omega))
        simp [hne]
  | @removeSender l' r hrouter hentry =>
      have hl : l ≠ l' := fun heq => hc.unclosed.2.1 (by rw [heq, hrouter])
      exact hsame (historyOn_congr (Function.update_of_ne hl _ _) fun _ _ => rfl)
        (by simp [inFlight, hrouter, RouterPc.dataOn]) rfl
  -- the relay of `l` is still live, so it is another one's entry that goes
  | @unregisterFailed r' hmain hguard | @unregister r' hmain hguard =>
      have hl : l ≠ (s.relay r').link := by
        intro heq
        have hlive := (hc.live r' (by simp [hmain]) heq.symm).2.1
        rw [hmain] at hlive
        cases hlive
      exact hsame (historyOn_congr (Function.update_of_ne hl _ _) fun r _ => by
        by_cases hr : r = r' <;> simp [hr]) rfl rfl
  | _ =>
      refine hsame (historyOn_congr rfl ?_) ?_ rfl
      · grind -linarith [Function.update_apply]
      · simp_all [inFlight, RouterPc.dataOn, BridgeEvent.dataOn]

theorem sends_step (h : Step s a t) (hI : Inv s) (hu : Unbroken l s a) (hc : Carries l s) :
    issuedOn l t.commands = (nonEmpty (receivedOn t l)).flatMap frame := by
  have hsends := hc.sends
  have hsame : receivedOn t l = receivedOn s l → issuedOn l t.commands = issuedOn l s.commands →
      issuedOn l t.commands = (nonEmpty (receivedOn t l)).flatMap frame := by
    intro hreceived hissued
    rw [hreceived, hissued, hsends]
  have hsenders := hI.senders l
  have hunborn := hI.unborn
  -- The relay whose socket delivers is the one registered for its link.
  have hregistered : ∀ r, (s.relay r).fromSc = .recv → (s.relay r).link = l →
      s.senders l = some r := by
    intro r hfromSc hlink
    have hpumps := hI.pumps r
    refine (hc.live r (fun hm => ?_) hlink).1
    simp only [Relay.PumpsOk, hm, hfromSc] at hpumps
    cases hpumps.2
  cases h with
  | @scRecvEmpty r payload hfromSc hempty =>
      by_cases hl : (s.relay r).link = l
      · have hentry := hregistered r hfromSc hl
        simpa [receivedOn, historyOn, hentry, hempty, nonEmpty] using hsends
      · refine hsame (historyOn_congr rfl fun r' hr' => ?_) rfl
        have hne : r' ≠ r := fun heq => hl (heq ▸ (hsenders r' hr').1)
        simp [hne]
  | @scRecvChunks r payload hfromSc hne hrun =>
      by_cases hl : (s.relay r).link = l
      · have hentry := hregistered r hfromSc hl
        have hkept : nonEmpty [payload.take udpReadBuf] = [payload.take udpReadBuf] :=
          nonEmpty_eq_self (by simpa using hne)
        simp [receivedOn, historyOn, hentry, nonEmpty_append, hkept, issuedOn_map_sendToLink, hl, hsends]
      · refine hsame (historyOn_congr rfl fun r' hr' => ?_)
          (by simp [issuedOn_map_sendToLink, hl])
        have hother : r' ≠ r := fun heq => hl (heq ▸ (hsenders r' hr').1)
        simp [hother]
  | @scRecvRefused r payload hfromSc hne hstop =>
      rw [hc.running] at hstop
      cases hstop
  | @spawn l' hrouter =>
      by_cases hl : l' = l
      · subst hl
        have hnone := hc.inserting hrouter
        exact hsame (by simp [receivedOn, historyOn, hnone]) rfl
      · refine hsame (historyOn_congr (Function.update_of_ne (Ne.symm hl) _ _) fun r hr => ?_) rfl
        have hne : r ≠ s.spawned := fun heq => (hsenders r hr).2.1 ((hunborn r).2 (by omega))
        simp [hne]
  | @removeSender l' r hrouter hentry =>
      have hl : l ≠ l' := fun heq => hc.unclosed.2.1 (by rw [heq, hrouter])
      exact hsame (historyOn_congr (Function.update_of_ne hl _ _) fun _ _ => rfl) rfl
  | @unregisterFailed r' hmain hguard | @unregister r' hmain hguard =>
      have hl : l ≠ (s.relay r').link := by
        intro heq
        have hlive := (hc.live r' (by simp [hmain]) heq.symm).2.1
        rw [hmain] at hlive
        cases hlive
      exact hsame (historyOn_congr (Function.update_of_ne hl _ _) fun r _ => by
        by_cases hr : r = r' <;> simp [hr]) (by simp)
  | _ =>
      refine hsame (historyOn_congr rfl ?_) rfl
      grind -linarith [Function.update_apply]

theorem of_reachable {Ok : State → Action → Prop}
    (hok : ∀ s a, Ok s a → Unbroken l s a ∧ a ≠ .nodeStop) (h : machine.Reachable Ok s) :
    Carries l s := by
  refine Lib.Machine.Reachable.invariant_of_reachable (I := Carries l)
    ⟨rfl, ⟨?_, ?_, ?_⟩, ?_, ?_, ?_, ?_, rfl, rfl⟩ ?_ h
  · intro hmem
    cases hmem
  · intro hrouter
    cases hrouter
  · intro r hrouter
    cases hrouter
  · intro r hmain
    exact absurd rfl hmain
  · intro hrouter
    cases hrouter
  · intro _
    refine .inr (.inr ⟨?_, rfl, ?_⟩)
    · intro c hrouter
      cases hrouter
    · intro hmem
      cases hmem
  · intro c hc
    cases hc
  · intro s a t hs hc hsafe hstep
    obtain ⟨hu, hrun⟩ := hok s a hsafe
    have h := step_sound hstep
    have hI : Inv s := Inv.of_reachable hs
    refine ⟨?_, hc.unclosed_step h hu, hc.live_step h hI hu (reassembles_of_reachable hs),
      hc.inserting_step h, hc.heralds_step h hu, hc.marked_step h hu, hc.flow_step h hI hu,
      hc.sends_step h hI hu⟩
    have hold := hc.running
    cases h <;> first | exact hold | exact absurd rfl hrun

end Carries

/-! ## What comes in and what goes out -/

/-- When the chunks delivered on the link start a stream of frames, the relay sends the game
server the datagrams of the stream, in order. -/
theorem sent_of_carries (hc : Carries l s) (hI : Inv s) {r : ℕ} (hre : (s.relay r).Reassembles)
    (hborn : (s.relay r).main ≠ .unborn) (hlink : (s.relay r).link = l) {ds : List Datagram}
    (hdelivered : chunksOn l s.delivered <+: ds.flatMap frame)
    (hsize : ∀ d ∈ ds, d.length ≤ maxDatagram) :
    (s.relay r).sent <+: ds ∧
      (chunksOn l s.delivered = ds.flatMap frame → inFlight s l = [] → (s.relay r).rx = [] →
        (s.relay r).pendingOut = [] → (s.relay r).sent = ds) := by
  obtain ⟨hentry, hlive, htoSc, -⟩ := hc.live r hborn hlink
  have hflow := hc.flow
  simp only [claimed, historyOn, hentry] at hflow
  have haccepted : (s.relay r).accepted <+: ds.flatMap frame :=
    (hflow ▸ List.prefix_append _ _ : (s.relay r).accepted <+: chunksOn l s.delivered).trans
      hdelivered
  refine ⟨hre.emits.prefix_of_frames haccepted hsize, ?_⟩
  intro hall hnone hrx hpending
  have hreceiver : (s.relay r).receiver = true := by
    have hpumps := hI.pumps r
    cases hm : (s.relay r).main <;> cases hp : (s.relay r).toSc <;>
      simp_all [Relay.receiver, MainPc.ownsReceiver, MainPc.live, Relay.PumpsOk]
  have hpumped := hre.pumped hreceiver
  rw [hflow, hnone, List.append_nil] at hall
  rw [hall, hrx, hpending, List.append_nil] at hpumped
  exact hpumped.eq_of_frames hsize

/-- Every datagram received on a socket fits the read buffer. -/
theorem received_length_step (h : Step s a t)
    (hsize : ∀ r, ∀ d ∈ (s.relay r).received, d.length ≤ udpReadBuf) :
    ∀ r, ∀ d ∈ (t.relay r).received, d.length ≤ udpReadBuf := by
  intro r d hd
  have hold := hsize r d
  have htake : ∀ payload : Datagram, (payload.take udpReadBuf).length ≤ udpReadBuf :=
    fun _ => List.length_take_le _ _
  cases h <;> grind -linarith [Function.update_apply]

theorem received_length_of_reachable {Ok : State → Action → Prop} (h : machine.Reachable Ok s) :
    ∀ r, ∀ d ∈ (s.relay r).received, d.length ≤ udpReadBuf := by
  refine Lib.Machine.Reachable.invariant
    (I := fun s => ∀ r, ∀ d ∈ (s.relay r).received, d.length ≤ udpReadBuf) ?_ ?_ h
  · intro r d hd
    cases hd
  · intro s a t hsize _ hstep
    exact received_length_step (step_sound hstep) hsize

end Server
end SvenBridge
