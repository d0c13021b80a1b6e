import Mathlib.Logic.Function.Basic
import SvenBridge.Events
import SvenBridge.Lib.Machine

/-!
# Server.Model — the tasks of `start_server`

One router task, and for every accepted link a relay: a main task that binds and connects a UDP
socket to the game server and later tears the relay down, with a pump `to_sc` (channel to socket)
and a pump `from_sc` (socket to link).  Every `.await` is a scheduling point.

The only guard that lives across an await is the write guard on the senders map in the router's
`LinkClosed` arm: it is a temporary of the `if let` scrutinee, so it is held while the router waits
in `tx.send(Vec::new())`.
-/

namespace SvenBridge
namespace Server

/-! ## Program counters -/

inductive RouterPc where
  | recv
  | remember (destination : DestinationHash) (name : Option String)
  | insertClient (linkId : LinkId) (identity : IdentityHash)
  | checkSenders (linkId : LinkId)
  | insertSender (linkId : LinkId)
  | removeSender (linkId : LinkId)
  /-- Waiting in `tx.send(Vec::new())` for relay `r`, write guard held. -/
  | sendEnd (linkId : LinkId) (r : ℕ)
  | removeClient (linkId : LinkId)
  | forward (linkId : LinkId) (bytes : Chunk)
  deriving DecidableEq

/-- The main task of a relay. -/
inductive MainPc where
  | unborn
  | binding
  | connecting
  | removeFailed
  | joining
  | removeEnded
  | ended
  deriving DecidableEq

inductive ToScPc where
  | unspawned
  | recv
  | sending (datagram : Datagram)
  | ended
  deriving DecidableEq

inductive FromScPc where
  | unspawned
  | recv
  | ended
  deriving DecidableEq

/-- The next step is a `senders.write()`. -/
def MainPc.writesSenders : MainPc → Bool
  | .removeFailed | .removeEnded => true
  | _ => false

/-- The main task still owns the channel's receiver. -/
def MainPc.ownsReceiver : MainPc → Bool
  | .binding | .connecting | .removeFailed => true
  | _ => false

/-! ## State -/

/-- One relay: its tasks, its channel and what its tasks captured. -/
structure Relay where
  main : MainPc := .unborn
  toSc : ToScPc := .unspawned
  fromSc : FromScPc := .unspawned
  link : LinkId := 0
  rx : List Chunk := []
  reassembler : Reassembler := {}
  /-- History: chunks put on `rx`, datagrams sent and received on the socket. -/
  accepted : List Chunk := []
  sent : List Datagram := []
  received : List Datagram := []
  deriving DecidableEq

structure State where
  router : RouterPc := .recv
  events : List BridgeEvent := []
  discovered : List DiscoveredServer := []
  now : ℕ := 0
  stopped : Bool := false
  /-- Relays are numbered in the order they were spawned. -/
  spawned : ℕ := 0
  relay : ℕ → Relay := fun _ => {}
  senders : LinkId → Option ℕ := fun _ => none
  connected : LinkId → Option IdentityHash := fun _ => none
  /-- History: commands the engine took, links the engine reported established and closed, chunks
  it delivered, chunks for an unknown link, announces remembered. -/
  commands : List PrnsCommand := []
  established : List LinkId := []
  closed : List LinkId := []
  delivered : List (LinkId × Chunk) := []
  unclaimed : List (LinkId × Chunk) := []
  heard : List (DestinationHash × Option String × ℕ) := []

/-- The receiver of `rx` is still there. -/
def Relay.receiver (x : Relay) : Bool :=
  x.main.ownsReceiver ||
    match x.toSc with
    | .recv | .sending _ => true
    | .unspawned | .ended => false

namespace State

def setRelay (s : State) (r : ℕ) (x : Relay) : State :=
  { s with relay := Function.update s.relay r x }

/-- The router holds the write guard on the senders map. -/
def writeGuard (s : State) : Bool :=
  match s.router with
  | .sendEnd _ _ => true
  | _ => false

/-- A sender of relay `r`'s channel exists: in the map, or in the router's hands. -/
def sender (s : State) (r : ℕ) : Bool :=
  s.senders (s.relay r).link == some r ||
    match s.router with
    | .sendEnd _ r' => r' == r
    | _ => false

end State

/-! ## Steps -/

/-- What the scheduler, the sockets and the engine can do next. -/
inductive Action where
  | engine (event : PrnsEvent)
  | router
  | bind (r : ℕ) (ok : Bool)
  | connect (r : ℕ) (ok : Bool)
  | main (r : ℕ)
  | toSc (r : ℕ)
  | scSend (r : ℕ) (ok : Bool)
  /-- `sock_recv.recv` returns a datagram, or an error. -/
  | scRecv (r : ℕ) (datagram : Option Datagram)
  | tick
  | nodeStop
  deriving DecidableEq

def routerStep (s : State) : Option State :=
  match s.router with
  | .recv =>
      match s.events with
      | [] => none
      | .announceHeard destination name :: events =>
          some { s with events := events, router := .remember destination name }
      | .peerIdentified linkId identity :: events =>
          some { s with events := events, router := .insertClient linkId identity }
      | .linkEstablished linkId :: events =>
          some { s with events := events, router := .checkSenders linkId }
      | .linkClosed linkId :: events =>
          some { s with events := events, router := .removeSender linkId }
      | .linkData linkId bytes :: events =>
          some { s with events := events, router := .forward linkId bytes }
  | .remember destination name =>
      some { s with
        discovered := rememberServer s.now destination name s.discovered
        heard := s.heard ++ [(destination, name, s.now)]
        router := .recv }
  | .insertClient linkId identity =>
      some { s with
        connected := Function.update s.connected linkId (some identity)
        router := .recv }
  -- the look into the map and the insertion take the lock one after the other
  | .checkSenders linkId =>
      if (s.senders linkId).isSome then
        some { s with router := .recv }
      else
        some { s with router := .insertSender linkId }
  | .insertSender linkId =>
      some { s.setRelay s.spawned { main := .binding, link := linkId } with
        senders := Function.update s.senders linkId (some s.spawned)
        spawned := s.spawned + 1
        router := .recv }
  -- `send(Vec::new())` waits for room, with the sender already out of the map
  | .removeSender linkId =>
      match s.senders linkId with
      | some r =>
          some { s with
            senders := Function.update s.senders linkId none
            router := .sendEnd linkId r }
      | none => some { s with router := .removeClient linkId }
  | .sendEnd linkId r =>
      let x := s.relay r
      if !x.receiver then
        some { s with router := .removeClient linkId }
      else if x.rx.length < channelCapacity then
        some { s.setRelay r { x with rx := x.rx ++ [[]], accepted := x.accepted ++ [[]] } with
          router := .removeClient linkId }
      else
        none
  | .removeClient linkId =>
      some { s with connected := Function.update s.connected linkId none, router := .recv }
  | .forward linkId bytes =>
      match s.senders linkId with
      -- the chunk of a link without a relay is dropped
      | none => some { s with unclaimed := s.unclaimed ++ [(linkId, bytes)], router := .recv }
      | some r =>
          let x := s.relay r
          -- `try_send`: without room, or without a receiver, the chunk is dropped
          match trySend x.receiver x.rx bytes with
          | .error _ => some { s with router := .recv }
          | .ok rx =>
              some { s.setRelay r { x with rx := rx, accepted := x.accepted ++ [bytes] } with
                router := .recv }

/-- The main task of relay `r`, past the socket calls. -/
def mainStep (s : State) (r : ℕ) : Option State :=
  let x := s.relay r
  match x.main with
  -- no pump has run: the receiver is dropped here, with what is in it
  | .removeFailed =>
      if s.writeGuard then
        none
      else
        some { s.setRelay r { x with main := .ended, rx := [] } with
          senders := Function.update s.senders x.link none
          commands := s.commands ++ issueClose s.stopped x.link }
  -- both pumps are joined before the relay unregisters
  | .joining =>
      if x.toSc = .ended ∧ x.fromSc = .ended then
        some (s.setRelay r { x with main := .removeEnded })
      else
        none
  | .removeEnded =>
      if s.writeGuard then
        none
      else
        some { s.setRelay r { x with main := .ended } with
          senders := Function.update s.senders x.link none
          commands := s.commands ++ issueClose s.stopped x.link }
  | _ => none

/-- The pump `to_sc` of relay `r`, up to its next await. -/
def toScStep (s : State) (r : ℕ) : Option State :=
  let x := s.relay r
  match x.toSc with
  | .recv =>
      match x.rx with
      | [] =>
          -- `recv` waits as long as a sender is left
          if s.sender r then
            none
          else
            some (s.setRelay r { x with toSc := .ended })
      | chunk :: rest =>
          -- an empty chunk is the router's signal to end
          if chunk.isEmpty then
            some (s.setRelay r { x with toSc := .ended, rx := [] })
          else
            let pushed := x.reassembler.push chunk
            some (s.setRelay r { x with
              rx := rest
              reassembler := pushed.1
              toSc := match pushed.2 with
                | some datagram => .sending datagram
                | none => .recv })
  | .unspawned | .sending _ | .ended => none

/-- `sock_send.send` of relay `r` returns. -/
def scSendStep (s : State) (r : ℕ) (ok : Bool) : Option State :=
  let x := s.relay r
  match x.toSc with
  | .sending datagram =>
      -- a failed send ends the pump, and its receiver is dropped with it
      if ok then
        some (s.setRelay r { x with toSc := .recv, sent := x.sent ++ [datagram] })
      else
        some (s.setRelay r { x with toSc := .ended, rx := [] })
  | .unspawned | .recv | .ended => none

/-- `sock_recv.recv` of relay `r` returns; the pump `from_sc` issues the chunks without awaiting. -/
def scRecvStep (s : State) (r : ℕ) : Option Datagram → Option State
  -- an error of the socket ends the pump
  | none =>
      let x := s.relay r
      match x.fromSc with
      | .recv => some (s.setRelay r { x with fromSc := .ended })
      | .unspawned | .ended => none
  | some payload =>
      let x := s.relay r
      match x.fromSc with
      | .recv =>
          let datagram := payload.take udpReadBuf
          -- an empty datagram has no chunks, and the pump goes on
          if datagram.isEmpty then
            some (s.setRelay r { x with received := x.received ++ [datagram] })
          else
            let issued := issueChunks s.stopped x.link (frame datagram)
            some { s.setRelay r { x with
                received := x.received ++ [datagram]
                fromSc := if issued.2 then x.fromSc else .ended } with
              commands := s.commands ++ issued.1 }
      | .unspawned | .ended => none

def step (s : State) : Action → Option State
  | .engine event =>
      some { s with
        events := s.events ++ (funnelEvent event).toList
        established := match event with
          | .linkEstablished linkId => s.established ++ [linkId]
          | _ => s.established
        closed := match event with
          | .linkClosed linkId => s.closed ++ [linkId]
          | _ => s.closed
        delivered := match event with
          | .delivered linkId plaintext => s.delivered ++ [(linkId, plaintext)]
          | _ => s.delivered }
  | .router => routerStep s
  | .bind r ok =>
      if (s.relay r).main = .binding then
        some (s.setRelay r { s.relay r with main := if ok then .connecting else .removeFailed })
      else
        none
  | .connect r ok =>
      if (s.relay r).main = .connecting then
        if ok then
          some (s.setRelay r { s.relay r with main := .joining, toSc := .recv, fromSc := .recv })
        else
          some (s.setRelay r { s.relay r with main := .removeFailed })
      else
        none
  | .main r => mainStep s r
  | .toSc r => toScStep s r
  | .scSend r ok => scSendStep s r ok
  | .scRecv r datagram => scRecvStep s r datagram
  | .tick => some { s with now := s.now + 1 }
  | .nodeStop => some { s with stopped := true }

/-- The server bridge as a machine. -/
def machine : Lib.Machine State Action where
  init := {}
  step := step

end Server
end SvenBridge
