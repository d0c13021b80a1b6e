import SvenBridge.Client.Lossless
import SvenBridge.Server.Lossless

/-!
# Lossless — one link between the client and the server

The client bridge, the server bridge and a link `l` that delivers every chunk issued on it once and
in order; all other links of either side stay arbitrary.  What the server sends the game server for
`l` is the first packet and the non-empty datagrams queued for the relay; what the client sends
back is what the server received, from the registration on.  Both fail after an empty datagram or a
chunk dropped before the registration, as `Client.Intact` says.
-/

namespace SvenBridge
namespace Link

/-! ## The machine -/

/-- Both bridges and the two directions of the link. -/
structure State where
  client : Client.State
  server : Server.State := {}
  toServer : List Chunk := []
  toClient : List Chunk := []

inductive Action where
  | client (a : Client.Action)
  | server (a : Server.Action)
  /-- The link delivers its oldest chunk. -/
  | toServer
  | toClient
  deriving DecidableEq

/-- The chunks a step has issued on the link. -/
def newlyIssued (l : LinkId) (before after : List PrnsCommand) : List Chunk :=
  issuedOn l (after.drop before.length)

def clientStep (l : LinkId) (s : State) (a : Client.Action) : Option State :=
  (Client.step s.client a).map fun client =>
    { s with
      client := client
      toServer := s.toServer ++ newlyIssued l s.client.commands client.commands }

def serverStep (l : LinkId) (s : State) (a : Server.Action) : Option State :=
  (Server.step s.server a).map fun server =>
    { s with
      server := server
      toClient := s.toClient ++ newlyIssued l s.server.commands server.commands }

/-- The engine event is a delivery on the link. -/
def deliversOn (l : LinkId) : PrnsEvent → Bool
  | .delivered l' _ => l' == l
  | _ => false

/-- Only the link itself delivers on `l`, and to the server only after `LinkEstablished`. -/
def step (l : LinkId) (s : State) : Action → Option State
  | .client (.engine event) => if deliversOn l event then none else clientStep l s (.engine event)
  | .client a => clientStep l s a
  | .server (.engine event) => if deliversOn l event then none else serverStep l s (.engine event)
  | .server a => serverStep l s a
  | .toServer =>
      match s.toServer with
      | [] => none
      | c :: rest =>
          if l ∈ s.server.established then
            serverStep l { s with toServer := rest } (.engine (.delivered l c))
          else
            none
  | .toClient =>
      match s.toClient with
      | [] => none
      | c :: rest => clientStep l { s with toClient := rest } (.engine (.delivered l c))

def machine (serverHash : Option DestinationHash) (l : LinkId) : Lib.Machine State Action where
  init := { client := Client.State.init serverHash }
  step := step l

/-! ## The conditions on steps -/

/-- No `LinkClosed`, socket error or full channel for the relays of link `l`. -/
def Unbroken (l : LinkId) (s : State) : Action → Prop
  | .client a => Client.Unbroken l s.client a
  | .server a => Server.Unbroken l s.server a
  | .toServer | .toClient => True

instance (l : LinkId) (s : State) (a : Action) : Decidable (Unbroken l s a) := by
  unfold Unbroken
  rcases a with _ | _ <;> infer_instance

/-- The nodes run, no datagram is queued behind an empty one, and the relay registers between two
datagrams. -/
def Intact (l : LinkId) (s : State) : Action → Prop
  | .client a => Client.Intact l s.client a
  | .server a => a ≠ .nodeStop
  | .toServer | .toClient => True

instance (l : LinkId) (s : State) (a : Action) : Decidable (Intact l s a) := by
  unfold Intact
  rcases a with _ | _ <;> infer_instance

def UnbrokenIntact (l : LinkId) (s : State) (a : Action) : Prop :=
  Unbroken l s a ∧ Intact l s a

instance (l : LinkId) (s : State) (a : Action) : Decidable (UnbrokenIntact l s a) :=
  inferInstanceAs (Decidable (_ ∧ _))

/-! ## Steps of the two sides -/

/-- What a step of the link machine does to the two sides and the two directions. -/
inductive Step (l : LinkId) (s : State) : Action → State → Prop where
  | client {a client} (hstep : Client.step s.client a = some client)
      (hother : ∀ c, a ≠ .engine (.delivered l c)) :
      Step l s (.client a) { s with
        client := client
        toServer := s.toServer ++ newlyIssued l s.client.commands client.commands }
  | server {a server} (hstep : Server.step s.server a = some server)
      (hother : ∀ c, a ≠ .engine (.delivered l c)) :
      Step l s (.server a) { s with
        server := server
        toClient := s.toClient ++ newlyIssued l s.server.commands server.commands }
  | toServer {c rest server} (hwire : s.toServer = c :: rest) (hready : l ∈ s.server.established)
      (hstep : Server.step s.server (.engine (.delivered l c)) = some server) :
      Step l s .toServer { s with server := server, toServer := rest }
  | toClient {c rest client} (hwire : s.toClient = c :: rest)
      (hstep : Client.step s.client (.engine (.delivered l c)) = some client) :
      Step l s .toClient { s with client := client, toClient := rest }

theorem clientStep_eq_some {l : LinkId} {s t : State} {a : Client.Action}
    (h : clientStep l s a = some t) :
    ∃ client, Client.step s.client a = some client ∧ t = { s with
      client := client
      toServer := s.toServer ++ newlyIssued l s.client.commands client.commands } := by
  obtain ⟨client, hstep, rfl⟩ := Option.map_eq_some_iff.1 h
  exact ⟨client, hstep, rfl⟩

theorem serverStep_eq_some {l : LinkId} {s t : State} {a : Server.Action}
    (h : serverStep l s a = some t) :
    ∃ server, Server.step s.server a = some server ∧ t = { s with
      server := server
      toClient := s.toClient ++ newlyIssued l s.server.commands server.commands } := by
  obtain ⟨server, hstep, rfl⟩ := Option.map_eq_some_iff.1 h
  exact ⟨server, hstep, rfl⟩

@[simp] theorem newlyIssued_self (l : LinkId) (commands : List PrnsCommand) :
    newlyIssued l commands commands = [] := by
  simp [newlyIssued]

/-- Every step of the machine is one of the listed ones. -/
theorem step_sound {l : LinkId} {s t : State} {a : Action} (h : step l s a = some t) :
    Step l s a t := by
  unfold step at h
  split at h
  case h_1 event =>
      split at h
      case isTrue =>
          cases h
      case isFalse hother =>
          obtain ⟨client, hstep, rfl⟩ := clientStep_eq_some h
          refine .client hstep ?_
          rintro c ⟨⟩
          simp [deliversOn] at hother
  case h_2 a hnot =>
      obtain ⟨client, hstep, rfl⟩ := clientStep_eq_some h
      exact .client hstep fun c hc => hnot _ hc
  case h_3 event =>
      split at h
      case isTrue =>
          cases h
      case isFalse hother =>
          obtain ⟨server, hstep, rfl⟩ := serverStep_eq_some h
          refine .server hstep ?_
          rintro c ⟨⟩
          simp [deliversOn] at hother
  case h_4 a hnot =>
      obtain ⟨server, hstep, rfl⟩ := serverStep_eq_some h
      exact .server hstep fun c hc => hnot _ hc
  case h_5 =>
      split at h
      case h_1 =>
          cases h
      case h_2 c rest hwire =>
          split at h
          case isTrue hready =>
              obtain ⟨server, hstep, rfl⟩ := serverStep_eq_some h
              have hsame : server.commands = s.server.commands := by
                cases hstep
                rfl
              simpa [hsame] using Step.toServer hwire hready hstep
          case isFalse =>
              cases h
  case h_6 =>
      split at h
      case h_1 =>
          cases h
      case h_2 c rest hwire =>
          obtain ⟨client, hstep, rfl⟩ := clientStep_eq_some h
          have hsame : client.commands = s.client.commands := by
            cases hstep
            rfl
          simpa [hsame] using Step.toClient hwire hstep

/-! ## The link -/

/-- A chunk issued on the link is delivered or on its way, in order. -/
structure Conveys (l : LinkId) (s : State) : Prop where
  toServer : chunksOn l s.server.delivered ++ s.toServer = issuedOn l s.client.commands
  toClient : chunksOn l s.client.delivered ++ s.toClient = issuedOn l s.server.commands

theorem issuedOn_append_newlyIssued {l : LinkId} {before after : List PrnsCommand}
    (h : before <+: after) :
    issuedOn l before ++ newlyIssued l before after = issuedOn l after := by
  obtain ⟨more, rfl⟩ := h
  simp [newlyIssued]

theorem client_commands_grow {s t : Client.State} {a : Client.Action}
    (h : Client.Step s a t) : s.commands <+: t.commands := by
  cases h <;> first | exact List.prefix_append _ _ | exact List.prefix_refl _

theorem server_commands_grow {s t : Server.State} {a : Server.Action}
    (h : Server.Step s a t) : s.commands <+: t.commands := by
  cases h <;> first | exact List.prefix_append _ _ | exact List.prefix_refl _

theorem Conveys.step {l : LinkId} {s t : State} {a : Action} (h : Step l s a t)
    (hc : Conveys l s) : Conveys l t := by
  cases h with
  | @client a client hstep hother =>
      have hclient := Client.step_sound hstep
      have hdelivered : chunksOn l client.delivered = chunksOn l s.client.delivered := by
        rcases Client.inFlight_step hclient l with ⟨-, hd⟩ | ⟨c, ha, -, -⟩ | ⟨c, -, -, hd⟩
        · exact hd
        · exact absurd ha (hother c)
        · exact hd
      refine ⟨?_, by simpa [hdelivered] using hc.toClient⟩
      rw [← issuedOn_append_newlyIssued (client_commands_grow hclient), ← hc.toServer,
        List.append_assoc]
  | @server a server hstep hother =>
      have hserver := Server.step_sound hstep
      have hdelivered : chunksOn l server.delivered = chunksOn l s.server.delivered := by
        rcases Server.inFlight_step hserver l with ⟨-, hd⟩ | ⟨c, ha, -, -⟩ | ⟨c, -, -, hd⟩
        · exact hd
        · exact absurd ha (hother c)
        · exact hd
      refine ⟨by simpa [hdelivered] using hc.toServer, ?_⟩
      rw [← issuedOn_append_newlyIssued (server_commands_grow hserver), ← hc.toClient,
        List.append_assoc]
  | @toServer c rest server hwire hready hstep =>
      have hwires := hc.toServer
      rw [hwire] at hwires
      cases hstep
      exact ⟨by simpa using hwires, hc.toClient⟩
  | @toClient c rest client hwire hstep =>
      have hwires := hc.toClient
      rw [hwire] at hwires
      cases hstep
      exact ⟨hc.toServer, by simpa using hwires⟩

/-! ## Both sides in an unbroken run -/

/-- The step condition an unbroken intact run puts on the client. -/
def ClientSafe (l : LinkId) (s : Client.State) (a : Client.Action) : Prop :=
  Client.Unbroken l s a ∧ Client.Intact l s a

def ServerSafe (l : LinkId) (s : Server.State) (a : Server.Action) : Prop :=
  Server.Unbroken l s a ∧ a ≠ .nodeStop

/-- A run of the link is a run of each side, and the link conveys what they issue. -/
structure Sides (serverHash : Option DestinationHash) (l : LinkId) (s : State) : Prop where
  client : (Client.machine serverHash).Reachable (ClientSafe l) s.client
  server : Server.machine.Reachable (ServerSafe l) s.server
  conveys : Conveys l s

namespace Sides

variable {serverHash : Option DestinationHash} {l : LinkId} {s t : State} {a : Action}

theorem step (h : Step l s a t) (hok : UnbrokenIntact l s a) (hs : Sides serverHash l s) :
    Sides serverHash l t := by
  have hconveys := hs.conveys.step h
  obtain ⟨hu, hin⟩ := hok
  cases h with
  | @client a client hclient hother =>
      exact ⟨.tail hs.client ⟨hu, hin⟩ hclient, hs.server, hconveys⟩
  | @server a server hserver hother =>
      exact ⟨hs.client, .tail hs.server ⟨hu, hin⟩ hserver, hconveys⟩
  | @toServer c rest server hwire hready hserver =>
      -- The chunk was issued by the client, so it is one of a frame.
      have hissued : c ∈ issuedOn l s.client.commands := by
        rw [← hs.conveys.toServer, hwire]
        simp
      obtain ⟨r, -, -, d, -, hframe⟩ :=
        (Client.Sources.of_reachable hs.client).issued l c (mem_issuedOn.1 hissued)
      have hok : ServerSafe l s.server (.engine (.delivered l c)) :=
        ⟨fun _ => ⟨hready, frame_chunk_ne_nil hframe⟩, by simp⟩
      exact ⟨hs.client, .tail hs.server hok hserver, hconveys⟩
  | @toClient c rest client hwire hclient =>
      have hok : ClientSafe l s.client (.engine (.delivered l c)) :=
        ⟨by simp [Client.Unbroken], trivial⟩
      exact ⟨.tail hs.client hok hclient, hs.server, hconveys⟩

theorem init : Sides serverHash l (machine serverHash l).init where
  client := .refl
  server := .refl
  conveys := ⟨rfl, rfl⟩

theorem of_reachable (h : (machine serverHash l).Reachable (UnbrokenIntact l) s) :
    Sides serverHash l s :=
  Lib.Machine.Reachable.invariant init
    (fun _ _ _ hs hok hstep => hs.step (step_sound hstep) hok) h

theorem carries_client (hs : Sides serverHash l s) : Client.Carries l s.client :=
  Client.Carries.of_reachable (fun _ _ hok => hok) hs.client

theorem carries_server (hs : Sides serverHash l s) : Server.Carries l s.server :=
  Server.Carries.of_reachable (fun _ _ hok => hok) hs.server

end Sides

/-! ## The relay is the identity -/

/-- Relay `r` of the client has link `l`. -/
def ClientRelay (l : LinkId) (s : State) (r : ℕ) : Prop :=
  (s.client.relay r).main.established = true ∧ (s.client.relay r).link = l

/-- Relay `r` of the server has link `l`. -/
def ServerRelay (l : LinkId) (s : State) (r : ℕ) : Prop :=
  (s.server.relay r).main ≠ .unborn ∧ (s.server.relay r).link = l

/-- The datagrams relay `r` of the client took: the one it was started for, then the non-empty ones
queued, in order. -/
def taken (s : State) (r : ℕ) : List Datagram :=
  (s.client.relay r).pkt :: nonEmpty (s.client.relay r).queued

/-- Nothing is under way from client relay `r` to server relay `r'`. -/
structure UpDrained (l : LinkId) (s : State) (r r' : ℕ) : Prop where
  registered : (s.client.relay r).main.pending = false
  up : (s.client.relay r).up = []
  wire : s.toServer = []
  router : Server.inFlight s.server l = []
  rx : (s.server.relay r').rx = []
  pump : (s.server.relay r').pendingOut = []

/-- Nothing is under way to client relay `r`. -/
structure DownDrained (l : LinkId) (s : State) (r : ℕ) : Prop where
  wire : s.toClient = []
  router : Client.inFlight s.client l = []
  down : (s.client.relay r).down = []
  pump : (s.client.relay r).recv = .recv

/-- What the relays of link `l` have sent out, and what they send out in the end. -/
structure Lossless (l : LinkId) (s : State) : Prop where
  /-- Either side has one relay for the link. -/
  client_unique : ∀ r r', ClientRelay l s r → ClientRelay l s r' → r = r'
  server_unique : ∀ r r', ServerRelay l s r → ServerRelay l s r' → r = r'
  toServer : ∀ r r', ClientRelay l s r → ServerRelay l s r' →
    (s.server.relay r').sent <+: taken s r ∧
      (UpDrained l s r r' → (s.server.relay r').sent = taken s r)
  /-- The router drops whole datagrams before the registration, and no chunk after it. -/
  toClient : ∀ r r', ClientRelay l s r → ServerRelay l s r' →
    (s.client.relay r).main = .joining →
      ∃ n, chunksOn l s.client.unclaimed =
          ((nonEmpty (s.server.relay r').received).take n).flatMap frame ∧
        (s.client.relay r).sentBack <+: (nonEmpty (s.server.relay r').received).drop n ∧
        (DownDrained l s r →
          (s.client.relay r).sentBack = (nonEmpty (s.server.relay r').received).drop n)
  unregistered : ∀ r, ClientRelay l s r → (s.client.relay r).main ≠ .joining →
    (s.client.relay r).sentBack = []
  sizes : ∀ r r', ClientRelay l s r → ServerRelay l s r' →
    (∀ d ∈ taken s r, d.length ≤ udpReadBuf) ∧
      ∀ d ∈ (s.server.relay r').received, d.length ≤ udpReadBuf

namespace Sides

variable {serverHash : Option DestinationHash} {l : LinkId} {s : State} {r r' : ℕ}

theorem le_maxDatagram {d : Datagram} (h : d.length ≤ udpReadBuf) : d.length ≤ maxDatagram :=
  h.trans (by decide)

theorem taken_length (hs : Sides serverHash l s) (hr : ClientRelay l s r) :
    ∀ d ∈ taken s r, d.length ≤ udpReadBuf :=
  Client.length_le_of_carries (Client.Sources.of_reachable hs.client)
    (Client.Queues.of_reachable hs.client) hr.1

theorem toServer (hs : Sides serverHash l s) (hr : ClientRelay l s r) (hr' : ServerRelay l s r') :
    (s.server.relay r').sent <+: taken s r ∧
      (UpDrained l s r r' → (s.server.relay r').sent = taken s r) := by
  obtain ⟨ds, hissued, hpre, hall⟩ := Client.issuedOn_of_carries hs.carries_client hr.1 hr.2
  have hwire := hs.conveys.toServer
  have hdelivered : chunksOn l s.server.delivered <+: ds.flatMap frame := by
    rw [← hissued, ← hwire]
    exact List.prefix_append _ _
  have hsize : ∀ d ∈ ds, d.length ≤ maxDatagram := fun d hd =>
    le_maxDatagram (hs.taken_length hr d (hpre.subset hd))
  obtain ⟨hsent, hwhole⟩ := Server.sent_of_carries hs.carries_server
    (Server.Inv.of_reachable hs.server) (Server.reassembles_of_reachable hs.server r') hr'.1 hr'.2
    hdelivered hsize
  refine ⟨hsent.trans hpre, fun hdrained => ?_⟩
  have hnone : chunksOn l s.server.delivered = ds.flatMap frame := by
    rw [← hissued, ← hwire, hdrained.wire, List.append_nil]
  rw [hwhole hnone hdrained.router hdrained.rx hdrained.pump]
  exact hall hdrained.registered hdrained.up

theorem receivedOn_eq (hs : Sides serverHash l s) (hr' : ServerRelay l s r') :
    Server.receivedOn s.server l = (s.server.relay r').received := by
  rw [Server.receivedOn, Server.historyOn, (hs.carries_server.live r' hr'.1 hr'.2).1]

theorem toClient (hs : Sides serverHash l s) (hr : ClientRelay l s r) (hr' : ServerRelay l s r')
    (hmain : (s.client.relay r).main = .joining) :
    ∃ n, chunksOn l s.client.unclaimed =
        ((nonEmpty (s.server.relay r').received).take n).flatMap frame ∧
      (s.client.relay r).sentBack <+: (nonEmpty (s.server.relay r').received).drop n ∧
      (DownDrained l s r →
        (s.client.relay r).sentBack = (nonEmpty (s.server.relay r').received).drop n) := by
  have hwire := hs.conveys.toClient
  rw [hs.carries_server.sends, hs.receivedOn_eq hr'] at hwire
  have hdelivered : chunksOn l s.client.delivered <+:
      (nonEmpty (s.server.relay r').received).flatMap frame := by
    rw [← hwire]
    exact List.prefix_append _ _
  have hsize : ∀ d ∈ nonEmpty (s.server.relay r').received, d.length ≤ maxDatagram := fun d hd =>
    le_maxDatagram (Server.received_length_of_reachable hs.server r' d (mem_of_mem_nonEmpty hd))
  obtain ⟨n, hunclaimed, hback, hwhole⟩ := Client.sentBack_of_carries hs.carries_client
    (Client.reassembles_of_reachable hs.client r) hmain hr.2 hdelivered hsize
  refine ⟨n, hunclaimed, hback, fun hdrained => ?_⟩
  refine hwhole ?_ hdrained.router hdrained.down hdrained.pump
  rw [← hwire, hdrained.wire, List.append_nil]

end Sides

/-- In every run without a `LinkClosed`, a socket error or a full channel for the relays of `l`,
in which nothing is queued behind an empty datagram and the registration falls between two
datagrams, the relay of `l` is the identity in both directions. -/
theorem relay_lossless (serverHash : Option DestinationHash) (l : LinkId) (s : State)
    (h : (machine serverHash l).Reachable (UnbrokenIntact l) s) : Lossless l s := by
  have hs : Sides serverHash l s := Sides.of_reachable h
  have hclient : Client.Inv s.client := Client.Inv.of_reachable hs.client
  refine ⟨?_, ?_, fun r r' => hs.toServer, fun r r' => hs.toClient, ?_, ?_⟩
  · intro r r' hr hr'
    exact hclient.distinct r r' hr.1 hr'.1 (by rw [hr.2, hr'.2])
  · intro r r' hr hr'
    have hentry := (hs.carries_server.live r hr.1 hr.2).1
    rw [(hs.carries_server.live r' hr'.1 hr'.2).1] at hentry
    exact (Option.some.inj hentry).symm
  · intro r hr hmain
    exact Client.sentBack_eq_nil (Client.Queues.of_reachable hs.client) hs.carries_client
      (Client.reassembles_of_reachable hs.client r) hr.1 hr.2 hmain
  · intro r r' hr hr'
    exact ⟨hs.taken_length hr, Server.received_length_of_reachable hs.server r'⟩

/-- A run that brings two datagrams to the game server and one back. -/
theorem exists_relay_lossless :
    ∃ s, (machine (some 7) 5).Reachable (UnbrokenIntact 5) s ∧
      (s.server.relay 0).sent = [[1], [2]] ∧ (s.client.relay 0).sentBack = [[9]] ∧
      Lossless 5 s := by
  have hrun : ((machine (some 7) 5).runWhile (UnbrokenIntact 5) (machine (some 7) 5).init
      [.client (.datagram ⟨2130706433, 40000⟩ [1]), .client .udp, .client .udp,
        .client (.establishOk 0 5), .server (.engine (.linkEstablished 5)), .server .router,
        .server .router, .server .router, .server (.bind 0 true), .server (.connect 0 true),
        .client (.identified 0), .client (.main 0), .client (.main 0), .toServer, .server .router,
        .server .router, .server (.toSc 0), .server (.scSend 0 true),
        .client (.datagram ⟨2130706433, 40000⟩ [2]), .client .udp, .client .udp,
        .client (.send 0), .toServer, .server .router, .server .router, .server (.toSc 0),
        .server (.scSend 0 true), .server (.scRecv 0 (some [9])), .toClient, .client .router,
        .client .router, .client (.recv 0), .client (.sendTo 0 true)]).any
        (fun s => (s.server.relay 0).sent == [[1], [2]] &&
          (s.client.relay 0).sentBack == [[9]]) = true := by
    decide +kernel
  obtain ⟨s, hs, hP⟩ := Lib.Machine.exists_reachable_of_runWhile hrun
  simp only [Bool.and_eq_true, beq_iff_eq] at hP
  exact ⟨s, hs, hP.1, hP.2, relay_lossless (some 7) 5 s hs⟩

/-- Two datagrams queued before the send pump runs, the first one empty: the second is lost though
nothing disturbs the link. -/
theorem exists_lost_datagram :
    ∃ s, (machine (some 7) 5).Reachable (Unbroken 5) s ∧ ¬ Lossless 5 s := by
  have hrun : ((machine (some 7) 5).runWhile (Unbroken 5) (machine (some 7) 5).init
      [.client (.datagram ⟨2130706433, 40000⟩ [1]), .client .udp, .client .udp,
        .client (.establishOk 0 5), .server (.engine (.linkEstablished 5)), .server .router,
        .server .router, .server .router, .server (.bind 0 true), .server (.connect 0 true),
        .client (.identified 0), .client (.main 0), .client (.main 0), .toServer, .server .router,
        .server .router, .server (.toSc 0), .server (.scSend 0 true),
        .client (.datagram ⟨2130706433, 40000⟩ []), .client .udp, .client .udp,
        .client (.datagram ⟨2130706433, 40000⟩ [2]), .client .udp, .client .udp,
        .client (.send 0)]).any
        (fun s => (s.client.relay 0).main == .joining && (s.client.relay 0).link == 5 &&
          (s.client.relay 0).up == [] && s.toServer == [] && Server.inFlight s.server 5 == [] &&
          (s.server.relay 0).main == .joining && (s.server.relay 0).link == 5 &&
          (s.server.relay 0).rx == [] && (s.server.relay 0).pendingOut == [] &&
          taken s 0 == [[1], [2]] && (s.server.relay 0).sent == [[1]]) = true := by
    decide +kernel
  obtain ⟨s, hs, hP⟩ := Lib.Machine.exists_reachable_of_runWhile hrun
  simp only [Bool.and_eq_true, beq_iff_eq] at hP
  obtain ⟨⟨⟨⟨⟨⟨⟨⟨⟨⟨hmain, hlink⟩, hup⟩, hwire⟩, hrouter⟩, hmain'⟩, hlink'⟩, hrx⟩, hpump⟩, htaken⟩,
    hsent⟩ := hP
  refine ⟨s, hs, fun hlossless => ?_⟩
  have hdrained : UpDrained 5 s 0 0 := ⟨by rw [hmain]; rfl, hup, hwire, hrouter, hrx, hpump⟩
  have hequal := (hlossless.toServer 0 0 ⟨by rw [hmain]; rfl, hlink⟩
    ⟨by simp [hmain'], hlink'⟩).2 hdrained
  rw [hsent, htaken] at hequal
  cases hequal

end Link
end SvenBridge
