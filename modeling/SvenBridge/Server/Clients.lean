import SvenBridge.Server.Step

/-!
# Server.Clients — the connected-clients list

The router keeps the list from `PeerIdentified` and `LinkClosed` events, while the relay tasks close
links themselves with `close_link`, of which the engine reports nothing.  This file contains

* `clients` — the server observed for the identities its links report;
* `State.flushed` — the list once the queued events have been handled;
* `connectedClients_exact` — runs in which the list is exact, and a run in which it is not.
-/

namespace SvenBridge
namespace Server

/-! ## Observed runs -/

/-- The identity each link has last identified itself with. -/
abbrev Identified := LinkId → Option IdentityHash

def seeIdentified (ids : Identified) : Action → Identified
  | .engine (.peerIdentified linkId identity) => Function.update ids linkId (some identity)
  | _ => ids

/-- The server, observed for identifications. -/
def clients : Lib.Machine (State × Identified) Action :=
  machine.observed (fun _ => none) seeIdentified

/-- The observer only looks: what it sees are the runs of the server, and all of them. -/
theorem reachable_iff_observed {s : State} :
    machine.Reachable Lib.Machine.always s ↔
      ∃ ids, clients.Reachable Lib.Machine.always (s, ids) := by
  constructor
  · exact Lib.Machine.Reachable.exists_observed
  · rintro ⟨ids, h⟩
    exact h.of_observed

/-- Neither the engine has reported the link closed nor has a relay closed it. -/
def State.isOpen (s : State) (linkId : LinkId) : Bool :=
  !s.closed.contains linkId && !s.commands.contains (.closeLink linkId)

/-- The event queue is empty and its last event is handled. -/
def Drained (s : State) : Prop :=
  s.events = [] ∧ s.router = .recv

/-- `connected_clients()` has exactly one entry, with the identified hash, for every link that has
identified itself and is still open, and no other. -/
def ClientsExact (s : State) (ids : Identified) : Prop :=
  ∀ linkId, s.connected linkId = if s.isOpen linkId then ids linkId else none

/-! ## The list ahead of the queue -/

/-- What handling an event does to the list. -/
def handled (connected : Identified) : BridgeEvent → Identified
  | .peerIdentified linkId identity => Function.update connected linkId (some identity)
  | .linkClosed linkId => Function.update connected linkId none
  | .announceHeard _ _ | .linkEstablished _ | .linkData _ _ => connected

/-- What the router still does to the list for the event it is at work on. -/
def RouterPc.handled (connected : Identified) : RouterPc → Identified
  | .insertClient linkId identity => Function.update connected linkId (some identity)
  | .removeSender linkId | .sendEnd linkId _ | .removeClient linkId =>
      Function.update connected linkId none
  | .recv | .remember _ _ | .checkSenders _ | .insertSender _ | .forward _ _ => connected

/-- The list once the router has handled everything that is queued. -/
def State.flushed (s : State) : Identified :=
  s.events.foldl Server.handled (s.router.handled s.connected)

theorem flushed_of_drained {s : State} (h : Drained s) : s.flushed = s.connected := by
  rw [State.flushed, h.1, h.2]
  rfl

/-- Only the engine's reports move the flushed list. -/
theorem flushed_step {s t : State} {a : Action} (h : Step s a t) :
    t.flushed = match a with
      | .engine (.peerIdentified linkId identity) =>
          Function.update s.flushed linkId (some identity)
      | .engine (.linkClosed linkId) => Function.update s.flushed linkId none
      | _ => s.flushed := by
  cases h with
  | reportEstablished | reportClosed | delivered | announced | reportIdentified =>
      simp [State.flushed, handled]
  | takeAnnounce hrouter hevents | takeIdentified hrouter hevents | takeEstablished hrouter hevents
  | takeClosed hrouter hevents | takeData hrouter hevents =>
      -- the event moves from the queue into the router's hands
      simp [State.flushed, hrouter, hevents, handled, RouterPc.handled]
  | remember hrouter | insertClient hrouter | checkKnown hrouter | checkNew hrouter | spawn hrouter
  | removeSender hrouter | removeUnknown hrouter | endDropped hrouter | endQueued hrouter
  | removeClient hrouter | forwardUnknown hrouter | forwardDropped hrouter
  | forwardQueued hrouter =>
      simp [State.flushed, hrouter, RouterPc.handled]
  | _ =>
      rfl

/-! ## Exactness -/

/-- The main task of relay `r` is about to issue `close_link`. -/
def State.closes (s : State) (r : ℕ) : Bool :=
  !s.stopped && ((s.relay r).main == .removeFailed || (s.relay r).main == .removeEnded)

/-- A relay closes a link itself only when the engine has reported it closed or it has not
identified itself; and a link identifies itself only while it is open. -/
def ClosesUnlisted (s : State × Identified) : Action → Prop
  | .main r => s.1.closes r = true →
      (s.1.relay r).link ∈ s.1.closed ∨ s.2 (s.1.relay r).link = none
  | .engine (.peerIdentified linkId _) => s.1.isOpen linkId = true
  | _ => True

instance (s : State × Identified) (a : Action) : Decidable (ClosesUnlisted s a) := by
  unfold ClosesUnlisted
  rcases a with ⟨_ | _⟩ | _ <;> infer_instance

/-- The flushed list is exact. -/
def FlushedExact (s : State × Identified) : Prop :=
  ∀ linkId, s.1.flushed linkId = if s.1.isOpen linkId then s.2 linkId else none

/-- Closing a link that is not listed. -/
theorem flushedExact_close {s : State} {ids : Identified} (hI : FlushedExact (s, ids)) {r : ℕ}
    (hok : s.closes r = true → (s.relay r).link ∈ s.closed ∨ ids (s.relay r).link = none)
    (hmain : (s.relay r).main = .removeFailed ∨ (s.relay r).main = .removeEnded) (linkId : LinkId) :
    s.flushed linkId =
      if !s.closed.contains linkId &&
          !(s.commands ++ issueClose s.stopped (s.relay r).link).contains (.closeLink linkId) then
        ids linkId
      else
        none := by
  have hold := hI linkId
  simp only [State.isOpen] at hold
  cases hstopped : s.stopped with
  | true =>
      -- a stopped node takes no command
      simpa [issueClose, hstopped] using hold
  | false =>
      by_cases hlink : linkId = (s.relay r).link
      · have hcloses : s.closes r = true := by
          rcases hmain with hmain | hmain <;> simp [State.closes, hstopped, hmain]
        rcases hok hcloses with hclosed | hnone
        · rw [← hlink] at hclosed
          simp [hold, hclosed]
        · rw [← hlink] at hnone
          simp [hold, hnone]
      · simpa [issueClose, hlink] using hold

theorem flushedExact_step {s t : State × Identified} {a : Action} (hI : FlushedExact s)
    (hok : ClosesUnlisted s a) (hstep : clients.step s a = some t) : FlushedExact t := by
  obtain ⟨s, ids⟩ := s
  obtain ⟨t, ids'⟩ := t
  obtain ⟨hst, hids⟩ := Lib.Machine.observed_step.1 hstep
  have h : Step s a t := step_sound hst
  have hflushed := flushed_step h
  intro linkId
  rw [hids]
  show t.flushed linkId = _
  rw [hflushed]
  have hold := hI linkId
  cases h with
  | @reportClosed l =>
      by_cases hl : linkId = l
      · simp [State.isOpen, hl]
      · simpa [State.isOpen, Function.update_apply, hl, seeIdentified] using hold
  | @reportIdentified l identity =>
      by_cases hl : linkId = l
      · have hopen : s.isOpen l = true := hok
        have hnot : l ∉ s.closed ∧ PrnsCommand.closeLink l ∉ s.commands := by
          simpa [State.isOpen] using hopen
        simp [State.isOpen, hl, seeIdentified, hnot]
      · simpa [State.isOpen, Function.update_apply, hl, seeIdentified] using hold
  | unregisterFailed hmain =>
      exact flushedExact_close hI hok (.inl hmain) linkId
  | unregister hmain =>
      exact flushedExact_close hI hok (.inr hmain) linkId
  | scRecvChunks =>
      simpa [State.isOpen, seeIdentified] using hold
  | _ =>
      exact hold

/-- In every run in which links are closed behind the router's back only when they are not listed,
the list is exact whenever the event queue is empty. -/
theorem connectedClients_exact {s : State × Identified} (h : clients.Reachable ClosesUnlisted s)
    (hdrained : Drained s.1) : ClientsExact s.1 s.2 := by
  have hI : FlushedExact s := by
    refine Lib.Machine.Reachable.invariant (I := FlushedExact) ?_ ?_ h
    · intro linkId
      rfl
    · intro s a t hI hok hstep
      exact flushedExact_step hI hok hstep
  intro linkId
  rw [← flushed_of_drained hdrained]
  exact hI linkId

/-- A link is established and identifies itself; the router handles both events. -/
def identifies : List Action :=
  [.engine (.linkEstablished 5), .router, .router, .router,
    .engine (.peerIdentified 5 7), .router, .router]

/-- An identified link that is open, then closed by its peer. -/
theorem exists_connectedClients_exact :
    (∃ s, clients.Reachable ClosesUnlisted s ∧ s.1.connected 5 = some 7 ∧
        ClientsExact s.1 s.2) ∧
      ∃ s, clients.Reachable ClosesUnlisted s ∧ s.2 5 = some 7 ∧ s.1.connected 5 = none ∧
        ClientsExact s.1 s.2 := by
  have hopen : (clients.runWhile ClosesUnlisted clients.init identifies).any (fun s =>
      s.1.connected 5 == some 7 && s.1.events == [] && s.1.router == .recv) = true := by
    decide +kernel
  have hclosed : (clients.runWhile ClosesUnlisted clients.init
      (identifies ++ [.engine (.linkClosed 5), .router, .router, .router, .router])).any (fun s =>
        s.2 5 == some 7 && s.1.connected 5 == none && s.1.events == [] &&
          s.1.router == .recv) = true := by
    decide +kernel
  obtain ⟨s, hs, hP⟩ := Lib.Machine.exists_reachable_of_runWhile hopen
  obtain ⟨t, ht, hQ⟩ := Lib.Machine.exists_reachable_of_runWhile hclosed
  simp only [Bool.and_eq_true, beq_iff_eq] at hP hQ
  obtain ⟨⟨hconnected, hevents⟩, hrouter⟩ := hP
  obtain ⟨⟨⟨hids, hnone⟩, hevents'⟩, hrouter'⟩ := hQ
  exact ⟨⟨s, hs, hconnected, connectedClients_exact hs ⟨hevents, hrouter⟩⟩,
    ⟨t, ht, hids, hnone, connectedClients_exact ht ⟨hevents', hrouter'⟩⟩⟩

/-- A relay whose socket fails to bind closes its link; the identified client stays listed. -/
theorem exists_stale_client :
    ¬ ∀ s, clients.Reachable Lib.Machine.always s → Drained s.1 → ClientsExact s.1 s.2 := by
  intro hall
  have hrun : (clients.run clients.init (identifies ++ [.bind 0 false, .main 0])).any (fun s =>
      s.1.events == [] && s.1.router == .recv && !s.1.isOpen 5 &&
        s.1.connected 5 == some 7) = true := by
    decide +kernel
  obtain ⟨s, hs, hP⟩ := Lib.Machine.exists_reachable_of_run hrun
  simp only [Bool.and_eq_true, Bool.not_eq_true', beq_iff_eq] at hP
  obtain ⟨⟨⟨hevents, hrouter⟩, hclosed⟩, hstale⟩ := hP
  have hexact := hall s hs ⟨hevents, hrouter⟩ 5
  rw [hstale, hclosed] at hexact
  cases hexact

end Server
end SvenBridge
