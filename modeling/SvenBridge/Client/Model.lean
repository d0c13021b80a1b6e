import Mathlib.Logic.Function.Basic
import SvenBridge.Events
import SvenBridge.Lib.Machine

/-!
# Client.Model — the tasks of `start_client`

One UDP task, one router task, and for every new source address a relay: a main task that
establishes the link, registers it and later tears it down, with a send pump (channel to link) and
a receive pump (channel to UDP).  Every `.await` is a scheduling point: a program counter names the
await a task is suspended at, and one step runs the task to its next one.

The `tokio::RwLock` guards are modelled by what they exclude.  The only guard that lives across an
await is the read guard of the UDP task: it is a temporary of the `if let` scrutinee, so it is held
while the task waits in `tx.send(pkt)` and in `udp_links.write()` itself.
-/

namespace SvenBridge
namespace Client

/-! ## Program counters -/

/-- The UDP task. -/
inductive UdpPc where
  | recvFrom
  | lookup (src : SocketAddr) (pkt : Datagram)
  /-- Waiting in `tx.send(pkt)` for relay `r`, read guard held. -/
  | sending (src : SocketAddr) (r : ℕ) (pkt : Datagram)
  /-- Waiting in `udp_links.write()`, read guard and sender of relay `r` still held. -/
  | removing (src : SocketAddr) (r : ℕ)
  | readTarget (src : SocketAddr) (pkt : Datagram)
  | dead
  deriving DecidableEq

/-- The router task, between taking an event and finishing it. -/
inductive RouterPc where
  | recv
  | remember (destination : DestinationHash) (name : Option String)
  | setTarget (destination : DestinationHash)
  | removeLinkData (linkId : LinkId)
  | forward (linkId : LinkId) (bytes : Chunk)
  deriving DecidableEq

/-- The main task of a relay. -/
inductive MainPc where
  | unborn
  | establishing
  | requestingPath
  | reestablishing
  /-- Returned without a link. -/
  | failed
  | identifying
  | insertLinks
  | firstSendFailed
  | insertLinkData
  | joining
  | removeLinkData
  | removeLinks
  | ended
  deriving DecidableEq

inductive SendPc where
  | unspawned
  | running
  | ended
  deriving DecidableEq

inductive RecvPc where
  | unspawned
  | recv
  | sending (datagram : Datagram)
  | ended
  deriving DecidableEq

namespace MainPc

/-- `establish_link` has returned a link id. -/
def established : MainPc → Bool
  | .unborn | .establishing | .requestingPath | .reestablishing | .failed => false
  | _ => true

/-- Spawned, and not yet in `udp_links`. -/
def pending : MainPc → Bool
  | .establishing | .requestingPath | .reestablishing | .identifying | .insertLinks => true
  | _ => false

/-- Entered in `udp_links`, and not yet torn down. -/
def registered : MainPc → Bool
  | .firstSendFailed | .insertLinkData | .joining | .removeLinkData | .removeLinks => true
  | _ => false

/-- The next step is a `udp_links.write()`. -/
def writesLinks : MainPc → Bool
  | .insertLinks | .firstSendFailed | .removeLinks => true
  | _ => false

end MainPc

/-! ## State -/

/-- One relay: its tasks, its two channels and what its tasks captured. -/
structure Relay where
  main : MainPc := .unborn
  send : SendPc := .unspawned
  recv : RecvPc := .unspawned
  src : SocketAddr := ⟨0, 0⟩
  pkt : Datagram := []
  target : DestinationHash := 0
  link : LinkId := 0
  /-- `udp_to_link` channel. -/
  up : List Datagram := []
  /-- `link_to_udp` channel. -/
  down : List Chunk := []
  reassembler : Reassembler := {}
  /-- History: datagrams put on `up`, chunks put on `down`, datagrams sent back. -/
  queued : List Datagram := []
  accepted : List Chunk := []
  sentBack : List Datagram := []
  deriving DecidableEq

structure State where
  udp : UdpPc := .recvFrom
  router : RouterPc := .recv
  events : List BridgeEvent := []
  discovered : List DiscoveredServer := []
  target : Option DestinationHash := none
  now : ℕ := 0
  stopped : Bool := false
  /-- Relays are numbered in the order they were spawned. -/
  spawned : ℕ := 0
  relay : ℕ → Relay := fun _ => {}
  linkData : LinkId → Option ℕ := fun _ => none
  udpLinks : SocketAddr → Option ℕ := fun _ => none
  /-- History: datagrams read, commands the engine took, chunks the engine delivered, chunks for
  an unknown link, links whose `LinkClosed` the router has processed, announces remembered. -/
  received : List (SocketAddr × Datagram) := []
  commands : List PrnsCommand := []
  delivered : List (LinkId × Chunk) := []
  unclaimed : List (LinkId × Chunk) := []
  closed : List LinkId := []
  heard : List (DestinationHash × Option String × ℕ) := []

/-- `serverHash` is `--server-hash`. -/
def State.init (serverHash : Option DestinationHash) : State :=
  { target := serverHash }

/-- The receiver of `up` belongs to the main task until it moves into the send pump. -/
def Relay.upReceiver (x : Relay) : Bool :=
  x.main == .firstSendFailed || x.main == .insertLinkData || x.send == .running

/-- The receiver of `down` belongs to the receive pump. -/
def Relay.downReceiver (x : Relay) : Bool :=
  match x.recv with
  | .recv | .sending _ => true
  | .unspawned | .ended => false

namespace State

def setRelay (s : State) (r : ℕ) (x : Relay) : State :=
  { s with relay := Function.update s.relay r x }

/-- The UDP task holds a read guard on `udp_links`. -/
def readGuard (s : State) : Bool :=
  match s.udp with
  | .sending _ _ _ | .removing _ _ => true
  | _ => false

/-- The UDP task holds a clone of the sender of relay `r`. -/
def udpHolds (s : State) (r : ℕ) : Bool :=
  match s.udp with
  | .sending _ r' _ | .removing _ r' => r' == r
  | _ => false

/-- A sender of relay `r`'s `up` channel exists. -/
def upSender (s : State) (r : ℕ) : Bool :=
  s.udpLinks (s.relay r).src == some r || s.udpHolds r

/-- A sender of relay `r`'s `down` channel exists. -/
def downSender (s : State) (r : ℕ) : Bool :=
  s.linkData (s.relay r).link == some r

/-- The engine hands out a link id at most once. -/
def freshLink (s : State) (l : LinkId) : Bool :=
  decide (∀ r < s.spawned, (s.relay r).main.established = true → (s.relay r).link ≠ l)

end State

/-! ## Steps -/

/-- What the scheduler, the sockets and the engine can do next. -/
inductive Action where
  | datagram (src : SocketAddr) (payload : Datagram)
  | udpError
  | udp
  | engine (event : PrnsEvent)
  | router
  | establishOk (r : ℕ) (linkId : LinkId)
  | establishErr (r : ℕ)
  | pathOk (r : ℕ)
  | pathErr (r : ℕ)
  | identified (r : ℕ)
  | main (r : ℕ)
  | send (r : ℕ)
  | recv (r : ℕ)
  | sendTo (r : ℕ) (ok : Bool)
  | tick
  | nodeStop
  deriving DecidableEq

def udpStep (s : State) : Option State :=
  match s.udp with
  | .lookup src pkt =>
      match s.udpLinks src with
      | some r => some { s with udp := .sending src r pkt }
      | none => some { s with udp := .readTarget src pkt }
  | .sending src r pkt =>
      let x := s.relay r
      -- `send` fails when the relay has dropped its receiver, and waits for room otherwise
      if !x.upReceiver then
        some { s with udp := .removing src r }
      else if x.up.length < channelCapacity then
        some { s.setRelay r { x with up := x.up ++ [pkt], queued := x.queued ++ [pkt] } with
          udp := .recvFrom }
      else
        none
  -- `write()` waits for the read guard of the scrutinee, which this task itself holds.
  | .removing _ _ => none
  | .readTarget src pkt =>
      match s.target with
      -- no server is known yet: the datagram is dropped
      | none => some { s with udp := .recvFrom }
      | some target =>
          some { s.setRelay s.spawned
              { main := .establishing, src := src, pkt := pkt, target := target } with
            udp := .recvFrom, spawned := s.spawned + 1 }
  | .recvFrom | .dead => none

def routerStep (s : State) : Option State :=
  match s.router with
  | .recv =>
      match s.events with
      | [] => none
      | .announceHeard destination name :: events =>
          some { s with events := events, router := .remember destination name }
      -- the relay's own task deals with its link; these two are ignored
      | .linkEstablished _ :: events => some { s with events := events }
      | .peerIdentified _ _ :: events => some { s with events := events }
      | .linkClosed linkId :: events =>
          some { s with events := events, router := .removeLinkData linkId }
      | .linkData linkId bytes :: events =>
          some { s with events := events, router := .forward linkId bytes }
  | .remember destination name =>
      some { s with
        discovered := rememberServer s.now destination name s.discovered
        heard := s.heard ++ [(destination, name, s.now)]
        router := .setTarget destination }
  | .setTarget destination =>
      some { s with
        target := if s.target.isNone then some destination else s.target
        router := .recv }
  | .removeLinkData linkId =>
      some { s with
        linkData := Function.update s.linkData linkId none
        closed := s.closed ++ [linkId]
        router := .recv }
  | .forward linkId bytes =>
      -- the chunk of a link nobody has registered is dropped
      match s.linkData linkId with
      | none => some { s with unclaimed := s.unclaimed ++ [(linkId, bytes)], router := .recv }
      | some r =>
          let x := s.relay r
          -- `try_send`: without room, or without a receiver, the chunk is dropped
          match trySend x.downReceiver x.down bytes with
          | .error _ => some { s with router := .recv }
          | .ok down =>
              some { s.setRelay r { x with down := down, accepted := x.accepted ++ [bytes] } with
                router := .recv }

/-- The main task of relay `r`, past the engine calls. -/
def mainStep (s : State) (r : ℕ) : Option State :=
  let x := s.relay r
  match x.main with
  | .insertLinks =>
      if s.readGuard then
        none
      else
        -- the entry is made before the first datagram's chunks are issued
        let issued := issueChunks s.stopped x.link (frame x.pkt)
        some { s.setRelay r
            { x with main := if issued.2 then .insertLinkData else .firstSendFailed } with
          udpLinks := Function.update s.udpLinks x.src (some r)
          commands := s.commands ++ issued.1 }
  | .firstSendFailed =>
      if s.readGuard then
        none
      else
        some { s.setRelay r { x with main := .ended, up := [] } with
          udpLinks := Function.update s.udpLinks x.src none
          commands := s.commands ++ issueClose s.stopped x.link }
  | .insertLinkData =>
      some { s.setRelay r { x with main := .joining, send := .running, recv := .recv } with
        linkData := Function.update s.linkData x.link (some r) }
  | .joining =>
      if x.send = .ended ∧ x.recv = .ended then
        some (s.setRelay r { x with main := .removeLinkData })
      else
        none
  | .removeLinkData =>
      some { s.setRelay r { x with main := .removeLinks } with
        linkData := Function.update s.linkData x.link none }
  | .removeLinks =>
      if s.readGuard then
        none
      else
        some { s.setRelay r { x with main := .ended } with
          udpLinks := Function.update s.udpLinks x.src none
          commands := s.commands ++ issueClose s.stopped x.link }
  | _ => none

/-- The send pump of relay `r`. -/
def sendStep (s : State) (r : ℕ) : Option State :=
  let x := s.relay r
  match x.send with
  | .running =>
      match x.up with
      | [] =>
          -- `recv` waits as long as a sender is left
          if s.upSender r then
            none
          else
            some (s.setRelay r { x with send := .ended })
      | bytes :: rest =>
          -- an empty datagram is the signal to end
          if bytes.isEmpty then
            some (s.setRelay r { x with send := .ended, up := [] })
          else
            -- a chunk that cannot be issued ends the pump
            let issued := issueChunks s.stopped x.link (frame bytes)
            if issued.2 then
              some { s.setRelay r { x with up := rest } with
                commands := s.commands ++ issued.1 }
            else
              some { s.setRelay r { x with send := .ended, up := [] } with
                commands := s.commands ++ issued.1 }
  | .unspawned | .ended => none

/-- The receive pump of relay `r`, up to its next await. -/
def recvStep (s : State) (r : ℕ) : Option State :=
  let x := s.relay r
  match x.recv with
  | .recv =>
      match x.down with
      | [] =>
          -- `recv` waits as long as a sender is left
          if s.downSender r then
            none
          else
            some (s.setRelay r { x with recv := .ended })
      | chunk :: rest =>
          -- a datagram that is complete is sent to the player before the next chunk is taken
          let pushed := x.reassembler.push chunk
          some (s.setRelay r { x with
            down := rest
            reassembler := pushed.1
            recv := match pushed.2 with
              | some datagram => .sending datagram
              | none => .recv })
  | .unspawned | .sending _ | .ended => none

/-- `udp_back.send_to` of relay `r` returns. -/
def sendToStep (s : State) (r : ℕ) (ok : Bool) : Option State :=
  let x := s.relay r
  match x.recv with
  | .sending datagram =>
      -- a failed send ends the pump, and its receiver is dropped with it
      if ok then
        some (s.setRelay r { x with recv := .recv, sentBack := x.sentBack ++ [datagram] })
      else
        some (s.setRelay r { x with recv := .ended, down := [] })
  | .unspawned | .recv | .ended => none

/-- An engine call of relay `r`'s main task returns, and moves it from `before` to `after`. -/
def engineReturn (s : State) (r : ℕ) (before after : MainPc) : Option State :=
  if (s.relay r).main = before then
    some (s.setRelay r { s.relay r with main := after })
  else
    none

def step (s : State) : Action → Option State
  | .datagram src payload =>
      match s.udp with
      | .recvFrom =>
          let pkt := payload.take udpReadBuf
          some { s with udp := .lookup src pkt, received := s.received ++ [(src, pkt)] }
      | _ => none
  | .udpError =>
      match s.udp with
      | .recvFrom => some { s with udp := .dead }
      | _ => none
  | .udp => udpStep s
  | .engine event =>
      some { s with
        events := s.events ++ (funnelEvent event).toList
        delivered := match event with
          | .delivered linkId plaintext => s.delivered ++ [(linkId, plaintext)]
          | _ => s.delivered }
  | .router => routerStep s
  | .establishOk r linkId =>
      if ((s.relay r).main = .establishing ∨ (s.relay r).main = .reestablishing) ∧
          s.freshLink linkId then
        some (s.setRelay r { s.relay r with main := .identifying, link := linkId })
      else
        none
  -- the first failure is answered by asking for a path, the second by giving up
  | .establishErr r =>
      if (s.relay r).main = .establishing then
        engineReturn s r .establishing .requestingPath
      else
        engineReturn s r .reestablishing .failed
  | .pathOk r => engineReturn s r .requestingPath .reestablishing
  | .pathErr r => engineReturn s r .requestingPath .failed
  -- A failed `identify` is only logged.
  | .identified r => engineReturn s r .identifying .insertLinks
  | .main r => mainStep s r
  | .send r => sendStep s r
  | .recv r => recvStep s r
  | .sendTo r ok => sendToStep s r ok
  | .tick => some { s with now := s.now + 1 }
  | .nodeStop => some { s with stopped := true }

/-- The client bridge as a machine. -/
def machine (serverHash : Option DestinationHash) : Lib.Machine State Action where
  init := State.init serverHash
  step := step

end Client
end SvenBridge
