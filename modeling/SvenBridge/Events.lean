import Mathlib.Tactic.Common
import SvenBridge.Framing
import SvenBridge.Lib.Keyed
import SvenBridge.Lib.Text

/-!
# Events — what the relay shares with the engine

* `funnelEvent` — the engine's events that reach a router, as `BridgeEvent`s;
* `announceAppDataToName` and `rememberServer` — the discovered-server list;
* `issueChunks` — fire-and-forget `SendToLink` commands for one framed datagram;
* `trySend` — the bounded channel of a relay.
-/

namespace SvenBridge

/-! ## Engine events -/

/-- The engine's events, as far as `funnel_event` tells them apart. -/
inductive PrnsEvent where
  | announceHeard (destination : DestinationHash) (appData : List UInt8)
  | linkEstablished (linkId : LinkId)
  | peerIdentified (linkId : LinkId) (identity : IdentityHash)
  | linkClosed (linkId : LinkId)
  | delivered (linkId : LinkId) (plaintext : Chunk)
  | other
  deriving DecidableEq

inductive BridgeEvent where
  | announceHeard (destination : DestinationHash) (name : Option String)
  | linkEstablished (linkId : LinkId)
  | peerIdentified (linkId : LinkId) (identity : IdentityHash)
  | linkClosed (linkId : LinkId)
  | linkData (linkId : LinkId) (bytes : Chunk)
  deriving DecidableEq

/-- The characters `str::trim` strips: Unicode `White_Space`. -/
def isWhitespace (c : Char) : Bool :=
  (0x09 ≤ c.toNat && c.toNat ≤ 0x0D) || c.toNat == 0x20 || c.toNat == 0x85 || c.toNat == 0xA0 ||
    c.toNat == 0x1680 || (0x2000 ≤ c.toNat && c.toNat ≤ 0x200A) || c.toNat == 0x2028 ||
    c.toNat == 0x2029 || c.toNat == 0x202F || c.toNat == 0x205F || c.toNat == 0x3000

/-- `str::trim`. -/
def trim (s : String) : String :=
  String.ofList ((s.toList.dropWhile isWhitespace).reverse.dropWhile isWhitespace).reverse

theorem toList_trim (s : String) : (trim s).toList = Lib.Text.strip isWhitespace s.toList := by
  rw [trim, String.toList_ofList]
  rfl

/-- Decode an announce's app data as a display name: valid, non-empty UTF-8 only. -/
def announceAppDataToName (appData : List UInt8) : Option String :=
  if appData.isEmpty then
    none
  else
    ((String.fromUTF8? ⟨appData.toArray⟩).map trim).filter fun s => !s.isEmpty

/-- The event an engine event puts on the router's queue, if any. -/
def funnelEvent : PrnsEvent → Option BridgeEvent
  | .announceHeard destination appData =>
      some (.announceHeard destination (announceAppDataToName appData))
  | .linkEstablished linkId => some (.linkEstablished linkId)
  | .peerIdentified linkId identity => some (.peerIdentified linkId identity)
  | .linkClosed linkId => some (.linkClosed linkId)
  | .delivered linkId plaintext => some (.linkData linkId plaintext)
  | .other => none

/-! ## The discovered-server list -/

structure DiscoveredServer where
  destinationHash : DestinationHash
  lastSeen : ℕ
  name : Option String
  deriving DecidableEq

/-- Insert or refresh a discovered server (dedup by hash); `now` is `Instant::now()`. -/
def rememberServer (now : ℕ) (destination : DestinationHash) (name : Option String) :
    List DiscoveredServer → List DiscoveredServer
  | [] => [{ destinationHash := destination, lastSeen := now, name := name }]
  | s :: rest =>
      if s.destinationHash == destination then
        { s with lastSeen := now, name := name } :: rest
      else
        s :: rememberServer now destination name rest

/-- A hear puts an entry in its destination's place, or at the end. -/
theorem rememberServer_eq_upsert (now : ℕ) (destination : DestinationHash) (name : Option String)
    (l : List DiscoveredServer) :
    rememberServer now destination name l =
      Lib.Keyed.upsert DiscoveredServer.destinationHash
        { destinationHash := destination, lastSeen := now, name := name } l := by
  induction l with
  | nil =>
      rfl
  | cons s rest ih =>
      by_cases hs : s.destinationHash = destination
      · simp [rememberServer, Lib.Keyed.upsert, hs]
      · simp [rememberServer, Lib.Keyed.upsert, hs, ih]

/-- A hear leaves the listed destinations in place and appends a new one. -/
theorem map_destinationHash_rememberServer (now : ℕ) (destination : DestinationHash)
    (name : Option String) (l : List DiscoveredServer) :
    (rememberServer now destination name l).map DiscoveredServer.destinationHash =
      if destination ∈ l.map DiscoveredServer.destinationHash then
        l.map DiscoveredServer.destinationHash
      else
        l.map DiscoveredServer.destinationHash ++ [destination] := by
  rw [rememberServer_eq_upsert, Lib.Keyed.map_key_upsert]

/-! ## Commands to the engine -/

/-- The commands a relay issues. -/
inductive PrnsCommand where
  | sendToLink (linkId : LinkId) (payload : Chunk)
  | closeLink (linkId : LinkId)
  deriving DecidableEq

/-- Issue the chunks of one datagram on a link, in order: the commands the engine takes, and
whether all were taken.  `issue` returns `None` once the node has stopped. -/
def issueChunks (stopped : Bool) (linkId : LinkId) : List Chunk → List PrnsCommand × Bool
  | [] => ([], true)
  | chunk :: rest =>
      if stopped then
        ([], false)
      else
        let issued := issueChunks stopped linkId rest
        (.sendToLink linkId chunk :: issued.1, issued.2)

/-- `let _ = handle.close_link(link_id)`. -/
def issueClose (stopped : Bool) (linkId : LinkId) : List PrnsCommand :=
  if stopped then [] else [.closeLink linkId]

theorem issueChunks_running (linkId : LinkId) (cs : List Chunk) :
    issueChunks false linkId cs = (cs.map (PrnsCommand.sendToLink linkId), true) := by
  induction cs with
  | nil =>
      rfl
  | cons c cs ih =>
      simp [issueChunks, ih]

theorem issueChunks_stopped (linkId : LinkId) {cs : List Chunk} (hcs : cs ≠ []) :
    issueChunks true linkId cs = ([], false) := by
  cases cs with
  | nil =>
      exact absurd rfl hcs
  | cons c cs =>
      rfl

/-- The chunks issued on a link, in order. -/
def issuedOn (linkId : LinkId) (commands : List PrnsCommand) : List Chunk :=
  commands.filterMap fun
    | .sendToLink l payload => if l == linkId then some payload else none
    | .closeLink _ => none

@[simp] theorem issuedOn_nil (linkId : LinkId) : issuedOn linkId [] = [] := rfl

theorem mem_issuedOn {linkId : LinkId} {commands : List PrnsCommand} {c : Chunk} :
    c ∈ issuedOn linkId commands ↔ .sendToLink linkId c ∈ commands := by
  rw [issuedOn, List.mem_filterMap]
  constructor
  · rintro ⟨cmd, hcmd, hc⟩
    cases cmd with
    | sendToLink l payload =>
        by_cases hl : l = linkId <;> simp_all
    | closeLink l =>
        cases hc
  · intro hmem
    exact ⟨_, hmem, by simp⟩

@[simp] theorem issuedOn_append (linkId : LinkId) (xs ys : List PrnsCommand) :
    issuedOn linkId (xs ++ ys) = issuedOn linkId xs ++ issuedOn linkId ys := by
  simp [issuedOn]

theorem issuedOn_map_sendToLink (linkId l : LinkId) (cs : List Chunk) :
    issuedOn linkId (cs.map (PrnsCommand.sendToLink l)) = if l = linkId then cs else [] := by
  by_cases h : l = linkId <;> simp [issuedOn, h, List.filterMap_map]

@[simp] theorem issuedOn_issueClose (linkId l : LinkId) (stopped : Bool) :
    issuedOn linkId (issueClose stopped l) = [] := by
  cases stopped <;> simp [issueClose, issuedOn]

/-! ## Chunks by link -/

/-- The chunks of one link in a log. -/
def chunksOn (linkId : LinkId) (log : List (LinkId × Chunk)) : List Chunk :=
  log.filterMap fun p => if p.1 == linkId then some p.2 else none

@[simp] theorem chunksOn_nil (linkId : LinkId) : chunksOn linkId [] = [] := rfl

@[simp] theorem chunksOn_append (linkId : LinkId) (xs ys : List (LinkId × Chunk)) :
    chunksOn linkId (xs ++ ys) = chunksOn linkId xs ++ chunksOn linkId ys := by
  simp [chunksOn]

@[simp] theorem chunksOn_singleton (linkId l : LinkId) (c : Chunk) :
    chunksOn linkId [(l, c)] = if l = linkId then [c] else [] := by
  by_cases h : l = linkId <;> simp [chunksOn, h]

/-- The chunk an event carries for a link. -/
def BridgeEvent.dataOn (linkId : LinkId) : BridgeEvent → Option Chunk
  | .linkData l bytes => if l == linkId then some bytes else none
  | _ => none

/-- The chunks of one link in the event queue. -/
def dataOn (linkId : LinkId) (events : List BridgeEvent) : List Chunk :=
  events.filterMap (BridgeEvent.dataOn linkId)

@[simp] theorem dataOn_nil (linkId : LinkId) : dataOn linkId [] = [] := rfl

@[simp] theorem dataOn_append (linkId : LinkId) (xs ys : List BridgeEvent) :
    dataOn linkId (xs ++ ys) = dataOn linkId xs ++ dataOn linkId ys := by
  simp [dataOn]

@[simp] theorem dataOn_cons (linkId : LinkId) (ev : BridgeEvent) (events : List BridgeEvent) :
    dataOn linkId (ev :: events) = (ev.dataOn linkId).toList ++ dataOn linkId events := by
  cases h : ev.dataOn linkId <;> simp [dataOn, h]

/-! ## Bounded channels -/

inductive TrySendError where
  | full
  | closed
  deriving DecidableEq

/-- `try_send` on a channel of a relay; `receiver` tells whether the receiver is still there. -/
def trySend {α : Type} (receiver : Bool) (queue : List α) (x : α) : Except TrySendError (List α) :=
  if !receiver then
    .error .closed
  else if queue.length < channelCapacity then
    .ok (queue ++ [x])
  else
    .error .full

theorem trySend_eq_ok {α : Type} {receiver : Bool} {queue queue' : List α} {x : α}
    (h : trySend receiver queue x = .ok queue') :
    receiver = true ∧ queue.length < channelCapacity ∧ queue' = queue ++ [x] := by
  unfold trySend at h
  cases receiver with
  | false =>
      cases h
  | true =>
      by_cases hroom : queue.length < channelCapacity
      · simp only [Bool.not_true, Bool.false_eq_true, if_false, hroom, if_true,
          Except.ok.injEq] at h
        exact ⟨rfl, hroom, h.symm⟩
      · simp [hroom] at h

theorem trySend_eq_error {α : Type} {receiver : Bool} {queue : List α} {x : α}
    {e : TrySendError} (h : trySend receiver queue x = .error e) :
    receiver = false ∨ channelCapacity ≤ queue.length := by
  unfold trySend at h
  cases receiver with
  | false =>
      exact .inl rfl
  | true =>
      by_cases hroom : queue.length < channelCapacity
      · simp [hroom] at h
      · exact .inr (Nat.le_of_not_lt hroom)

end SvenBridge
