import SvenBridge.Controller.World
import SvenBridge.Lib.Command
import SvenBridge.Lib.Machine

/-!
# Controller.Operations — the operations of `BridgeController`

Every operation is a command on the `World`: it answers or fails, and what it did before an error
stays done.  This file contains

* starting, stopping and restarting a session of either role, and the manual announce;
* the four `add_interface_*`, which share `addInterface`, and removing and renaming;
* the dedicated server's operations, `connect_and_launch` and `resume`;
* `machine` — the operations in any order, among the changes the node threads and the background
  task of the dedicated server make by themselves.
-/

namespace SvenBridge
namespace Controller

open Lib

abbrev Ctl := Command String World

variable (env : Env)

/-! ## Primitives -/

/-- Wait for a call to end. -/
def elapse : Ctl Outcome :=
  modifyGet fun w => (env.outcome w.clock, w.elapse)

theorem elapse_bind {α : Type} (f : Outcome → Ctl α) (w : World) :
    (elapse env >>= f) w = f (env.outcome w.clock) w.elapse :=
  rfl

def saveSettings : Ctl Unit :=
  modify (World.save env)

/-- The running session a role string names. -/
def session (role : String) : Ctl Role :=
  match Role.parse role with
  | none => throw s!"unknown role {env.debug role}, expected \"server\" or \"client\""
  | some r => do
      if ((← get).sessions r).isSome then
        return r
      else
        throw (match r with
          | .server => "no bridge server session is running"
          | .client => "no bridge client session is running")

/-! ## Sessions -/

/-- `BridgeSession::start_server` and `start_client`. -/
def startSession : Ctl Unit := do
  match (← elapse env).result with
  | .ok _ => return
  | .error e => throw e

/-- What `start_bridge_server` and `start_client` share. -/
def startRole (r : Role) (running : String) (args : r.Args) : Ctl Unit := do
  if ((← get).sessions r).isSome then
    throw running
  else do
    -- nothing is recorded before the session has started
    startSession env
    modify fun w => w.start env r args
    saveSettings env

def stopRole (r : Role) : Ctl Unit := do
  modify fun w => w.stop r
  saveSettings env

def startBridgeServer (args : ServerArgs) : Ctl Unit :=
  startRole env .server "a bridge server session is already running; stop it first" args

def stopBridgeServer : Ctl Unit :=
  stopRole env .server

def restartBridgeServer : Ctl Unit := do
  match (← get).lastArgs .server with
  | none => throw "no previous bridge server start to restart from"
  | some args => do
      -- the stop is saved, and stays when the start fails
      stopBridgeServer env
      startBridgeServer env args

def startClient (args : ClientArgs) : Ctl Unit :=
  startRole env .client "a bridge client session is already running; stop it first" args

def stopClient : Ctl Unit :=
  stopRole env .client

def restartClient : Ctl Unit := do
  match (← get).lastArgs .client with
  | none => throw "no previous client start to restart from"
  | some args => do
      stopClient env
      startClient env args

/-- Announce at once, with the app data of the last start's name. -/
def announceNow : Ctl Unit := do
  let w ← get
  if (w.sessions .server).isNone then
    throw "no bridge server session is running"
  else do
    -- the name of the start that the session runs from
    let name := (w.lastArgs .server).bind ServerArgs.name
    match (← elapse env).result with
    | .ok _ => modify fun w => { w with announced := w.announced ++ [serverAnnounceAppData name] }
    | .error e => throw s!"announce failed: {e}"

/-! ## Interfaces -/

/-- Save or update a descriptor, one for each endpoint. -/
def recordInterfaceAndSave (desc : InterfaceDescriptor) : Ctl Unit := do
  modify fun w => w.setInterfaces (recordInterface w.settings.interfaces desc)
  saveSettings env

/-- `parse_host_port`. -/
def parseHostPort (addr : String) : Except String (List Char × BitVec 16) :=
  -- `rfind`, so that an IPv6 host keeps its colons
  match splitAtLastColon addr.toList with
  | none => throw s!"TCP address {addr} has no port"
  | some (host, port) =>
      match parseU16 port with
      | none => throw s!"TCP address {addr} has a non-numeric port"
      | some port => return (host, port)

/-- What a TCP address asks for. -/
def tcpAttachable (addr : String) : Except String Attachable := do
  let (host, port) ← parseHostPort addr
  -- without a host, or with `0.0.0.0`, it is listened on, whatever the port; others are dialed
  if bindsHere host then
    return .tcpServer addr
  else if port > 0 then
    return .tcpClient addr
  else
    throw s!"invalid TCP address {addr}: no port"

/-- Does the address name a WebSocket server to dial? -/
def isWebSocketUrl (addr : String) : Bool :=
  "ws://".toList.isPrefixOf addr.toList || "wss://".toList.isPrefixOf addr.toList

/-- What a WebSocket address asks for. -/
def websocketAttachable (addr : String) : Except String Attachable := do
  if isWebSocketUrl addr then
    return .webSocketClient addr
  else
    let (_, port) ← parseHostPort addr
    if port = 0 then
      throw s!"invalid WebSocket bind address {addr}: no port"
    else
      return .webSocketServer addr

/-- Bind what needs a socket; the error's own text is hidden behind `context`. -/
def bindSocket (context : String) (attachable : Attachable) : Ctl Unit := do
  if attachable.binds then
    match (← elapse env).result with
    | .ok _ => return
    | .error _ => throw context

/-- What the four `add_interface_*` share. -/
def addInterface (desc : InterfaceDescriptor) (networkName : Option String)
    (asked : Except String Attachable) (context : String) : Ctl Unit := do
  let r ← session env desc.role
  match asked with
  | .error e => throw e
  | .ok attachable => do
      let before := ((← get).interfaces r).map Interface.id
      let ifac := (IfacKeys.derive desc.ifacName desc.ifacPassphrase).map fun context =>
        { context, networkName : RuntimeIfac }
      -- the only call that can fail, before anything is attached
      bindSocket env context attachable
      modify fun w => w.attach env { role := r, attachable, ifac } desc
      -- the node's thread runs between the two looks at its registry
      let o ← elapse env
      modify fun w => w.change r o.node
      let id := newInterface before ((← get).interfaces r) o.pick
      recordInterfaceAndSave env { desc with id := id.map InterfaceId.hex }

def addInterfaceTcp (addr role : String) (ifacName ifacPassphrase : Option String) : Ctl Unit :=
  let desc : InterfaceDescriptor :=
    { id := none, kind := "tcp", role, addr := some addr, peerAddr := none, ifacName
      ifacPassphrase }
  -- the network name is not handed on
  addInterface env desc none (tcpAttachable addr) s!"binding TCP server on {addr}"

def addInterfaceAuto (role : String) (ifacName ifacPassphrase : Option String) : Ctl Unit :=
  let desc : InterfaceDescriptor :=
    { id := none, kind := "auto", role, addr := none, peerAddr := none, ifacName
      ifacPassphrase }
  addInterface env desc ifacName (.ok .autoWifi) ""

def addInterfaceUdp (localAddr peer role : String) (ifacName ifacPassphrase : Option String) :
    Ctl Unit :=
  let desc : InterfaceDescriptor :=
    { id := none, kind := "udp", role, addr := some localAddr, peerAddr := some peer, ifacName
      ifacPassphrase }
  addInterface env desc ifacName (.ok (.udp localAddr peer))
    s!"binding UDP interface {localAddr} <-> {peer}"

def addInterfaceWebsocket (addr role : String) (ifacName ifacPassphrase : Option String) :
    Ctl Unit :=
  let desc : InterfaceDescriptor :=
    { id := none, kind := "websocket", role, addr := some addr, peerAddr := none, ifacName
      ifacPassphrase }
  addInterface env desc (if isWebSocketUrl addr then ifacName else none)
    (websocketAttachable addr) s!"binding WebSocket server on {addr}"

/-- `find_interface_by_hex`. -/
def findInterfaceByHex (w : World) (r : Role) (idHex : String) : Option InterfaceId :=
  ((w.interfaces r).map Interface.id).find? fun id => id.hex == Hex.lowerAscii idHex

/-- Both sessions are asked, the server's first. -/
def sessionOwningInterface (w : World) (idHex : String) : Option Role :=
  [Role.server, Role.client].find? fun r => (findInterfaceByHex w r idHex).isSome

/-- Was the descriptor captured under this id, in either case? -/
def InterfaceDescriptor.hasId (d : InterfaceDescriptor) (idHex : String) : Bool :=
  (d.id.map fun i => Hex.lowerAscii i == Hex.lowerAscii idHex).getD false

/-- The session that owns a row with this id, and the row's id. -/
def ownedInterface (idHex : String) : Ctl (Role × InterfaceId) := do
  let w ← get
  match sessionOwningInterface w idHex with
  | none => throw s!"no interface with id {idHex}"
  | some r =>
      match findInterfaceByHex w r idHex with
      | none => throw s!"no interface with id {idHex}"
      | some id => return (r, id)

def removeInterface (idHex : String) : Ctl Unit := do
  let (r, id) ← ownedInterface idHex
  modify fun w => w.detach r id
  -- every descriptor that was captured under the id goes, whatever its role
  modify fun w => w.setInterfaces (w.settings.interfaces.filter fun d => !d.hasId idHex)
  saveSettings env

def renameInterface (idHex name : String) : Ctl Unit := do
  let (r, id) ← ownedInterface idHex
  match (← elapse env).result with
  | .error _ => throw s!"failed to rename interface {idHex}"
  -- the row is renamed, and nothing is saved
  | .ok _ => modify fun w => w.mapSession r fun s =>
      { s with
        interfaces := s.interfaces.map fun row =>
          if row.id = id then { row with name := some name } else row }

/-! ## Dedicated server -/

/-- The foreground of `DsManager::start`; the background task has the arguments. -/
def dsManagerStart (args : DsStartArgs) : Ctl Unit := do
  if (← get).ds.live.isBusy then
    throw "dedicated server is already starting/running; stop it first"
  else if !env.os.supportsDedicatedServer then
    throw ("The Sven Co-op dedicated server (app 276060) has no native build for this OS — " ++
      "it ships only for Windows and Linux. Run the host side on Linux/a VM/Docker.")
  else
    modify fun w => { w with ds := { w.ds with live := w.ds.live.started, task := some args } }

/-- `DsManager::send_command`. -/
def sendCommand (cmd : String) : Ctl Unit := do
  match (← get).ds.console with
  | none => throw "dedicated server is not running"
  | some written =>
      let line := cmd.toUTF8.toList ++ [0x0A]
      let o ← elapse env
      match o.result with
      | .ok _ => modify fun w => { w with ds.console := some (written ++ line) }
      | .error e => do
          -- a write that fails may have left a part of the line
          modify fun w => { w with ds.console := some (written ++ line.take o.wrote) }
          throw (if o.wrote < cmd.toUTF8.size then
            s!"sending DS console command {env.debug cmd}"
          else
            e)

def dsStart (args : DsStartArgs) : Ctl Unit := do
  dsManagerStart env args
  modify fun w => { w with settings.ds := some args, settings.dsRunning := true }
  saveSettings env

def dsStop : Ctl Unit := do
  modify fun w => { w with ds := { live := w.ds.live.setIdle, console := none, task := none } }
  modify fun w => { w with settings.dsRunning := false }
  saveSettings env

def dsChangelevel (map : String) : Ctl Unit := do
  sendCommand env s!"changelevel {map}"
  -- remembered only when the console has taken the command
  modify fun w => { w with settings.ds := w.settings.ds.map fun args => { args with map } }
  saveSettings env

def dsSetCheats (enabled : Bool) : Ctl Unit := do
  sendCommand env (if enabled then "sv_cheats 1" else "sv_cheats 0")
  modify fun w => { w with ds.live.svCheats := enabled }
  modify fun w =>
    { w with settings.ds := w.settings.ds.map fun args => { args with svCheats := enabled } }
  saveSettings env

/-! ## Connect and launch -/

/-- `validate_hex_hash`. -/
def validateHexHash (hexStr : String) : Ctl Unit :=
  match Hex.decode (trim hexStr) with
  | .error e => throw s!"invalid server hash: {env.hexError e}"
  | .ok bytes =>
      if bytes.length ≠ 16 then
        throw s!"server hash must be 16 bytes (32 hex chars), got {bytes.length} bytes"
      else
        return

/-- Wait until the port is taken, until the time is over. -/
def waitForUdpBind (port : BitVec 16) : Ctl Unit := do
  match (← elapse env).result with
  | .ok _ => return
  | .error _ => throw s!"timed out waiting for bridge client to bind UDP port {port.toNat}"

/-- `GameLauncher::launch`. -/
def launch : Ctl Unit := do
  match (← elapse env).result with
  | .ok _ => return
  | .error e => throw e

def connectAndLaunch (serverHashHex : String) : Ctl Unit := do
  match (← get).lastArgs .client with
  | none => throw "start a client first (set its listen port + interface), then click Connect"
  | some (args : ClientArgs) => do
      -- checked first: a hash that is refused leaves the client running
      validateHexHash env serverHashHex
      let args := { args with serverHash := some serverHashHex }
      stopClient env
      startClient env args
      waitForUdpBind env args.listenPort
      launch env

/-! ## Resume -/

/-- Run a part of `resume`; a failure becomes one of its errors. -/
def report (label : String) (part : Ctl Unit) : Ctl Unit := do
  match ← Command.attempt part with
  | .ok _ => return
  | .error e => modify fun w => { w with resumeErrors := w.resumeErrors ++ [s!"{label}: {e}"] }

/-- Attach a saved interface again. -/
def reattach (desc : InterfaceDescriptor) : Ctl Unit :=
  match desc.kind with
  | "tcp" => addInterfaceTcp env (desc.addr.getD "") desc.role desc.ifacName desc.ifacPassphrase
  | "auto" => addInterfaceAuto env desc.role desc.ifacName desc.ifacPassphrase
  | "udp" =>
      addInterfaceUdp env (desc.addr.getD "") (desc.peerAddr.getD "") desc.role desc.ifacName
        desc.ifacPassphrase
  | "websocket" =>
      addInterfaceWebsocket env (desc.addr.getD "") desc.role desc.ifacName desc.ifacPassphrase
  | other => throw s!"unknown interface kind {other} in settings"

def reattachAll : List InterfaceDescriptor → Ctl Unit
  | [] => return
  | desc :: rest => do
      report s!"interface {env.debug desc.addrOrKind}" (reattach env desc)
      reattachAll rest

/-- Start the dedicated server again; its background task has run on in the meantime. -/
def restartDs (args : DsStartArgs) : Ctl Unit := do
  let o ← elapse env
  modify fun w => { w with ds := o.ds.getD w.ds }
  dsStart env args

/-- Clear the errors, collapse saved duplicates, and hand out the settings to resume. -/
def collapseSaved : Ctl Settings := do
  modify fun w => { w with resumeErrors := [] }
  let deduped := dedupInterfaces (← get).settings.interfaces
  modify fun w => w.setInterfaces deduped.1
  if deduped.2 then
    saveSettings env
  return (← get).settings

/-- The world `collapseSaved` leaves. -/
def World.collapsed (w : World) : World :=
  let deduped := dedupInterfaces w.settings.interfaces
  let w' := { w with resumeErrors := [], settings.interfaces := deduped.1 }
  if deduped.2 then w'.save env else w'

theorem collapseSaved_run (w : World) :
    collapseSaved env w = (.ok (w.collapsed env).settings, w.collapsed env) := by
  have hrun : collapseSaved env w =
      (do
        if (dedupInterfaces w.settings.interfaces).2 then saveSettings env
        return (← get).settings : Ctl Settings)
        { w with
          resumeErrors := []
          settings.interfaces := (dedupInterfaces w.settings.interfaces).1 } := rfl
  rw [hrun]
  simp only [World.collapsed]
  cases (dedupInterfaces w.settings.interfaces).2 <;> rfl

/-- Start a part again if it was running and its arguments are known. -/
def restore {α : Type} (label : String) (running : Bool) (saved : Option α) (start : α → Ctl Unit) :
    Ctl Unit :=
  match running, saved with
  | true, some args => report label (start args)
  | _, _ => return

def resume : Ctl Unit := do
  let s ← collapseSaved env
  -- the settings of the beginning decide, whatever the starts save in between
  restore "bridge server" s.bridgeRunning s.bridge (startBridgeServer env)
  restore "bridge client" s.clientRunning s.client (startClient env)
  reattachAll env s.interfaces
  restore "dedicated server" s.dsRunning s.ds (restartDs env)

/-! ## Runs -/

/-- A call of the controller. -/
inductive Op where
  | startBridgeServer (args : ServerArgs)
  | stopBridgeServer
  | restartBridgeServer
  | startClient (args : ClientArgs)
  | stopClient
  | restartClient
  | announceNow
  | addInterfaceTcp (addr role : String) (ifacName ifacPassphrase : Option String)
  | addInterfaceAuto (role : String) (ifacName ifacPassphrase : Option String)
  | addInterfaceUdp (localAddr peer role : String) (ifacName ifacPassphrase : Option String)
  | addInterfaceWebsocket (addr role : String) (ifacName ifacPassphrase : Option String)
  | removeInterface (idHex : String)
  | renameInterface (idHex name : String)
  | dsStart (args : DsStartArgs)
  | dsStop
  | dsChangelevel (map : String)
  | dsSetCheats (enabled : Bool)
  | connectAndLaunch (serverHashHex : String)
  | resume

def Op.run : Op → Ctl Unit
  | .startBridgeServer args => Controller.startBridgeServer env args
  | .stopBridgeServer => Controller.stopBridgeServer env
  | .restartBridgeServer => Controller.restartBridgeServer env
  | .startClient args => Controller.startClient env args
  | .stopClient => Controller.stopClient env
  | .restartClient => Controller.restartClient env
  | .announceNow => Controller.announceNow env
  | .addInterfaceTcp addr role ifacName ifacPassphrase =>
      Controller.addInterfaceTcp env addr role ifacName ifacPassphrase
  | .addInterfaceAuto role ifacName ifacPassphrase =>
      Controller.addInterfaceAuto env role ifacName ifacPassphrase
  | .addInterfaceUdp localAddr peer role ifacName ifacPassphrase =>
      Controller.addInterfaceUdp env localAddr peer role ifacName ifacPassphrase
  | .addInterfaceWebsocket addr role ifacName ifacPassphrase =>
      Controller.addInterfaceWebsocket env addr role ifacName ifacPassphrase
  | .removeInterface idHex => Controller.removeInterface env idHex
  | .renameInterface idHex name => Controller.renameInterface env idHex name
  | .dsStart args => Controller.dsStart env args
  | .dsStop => Controller.dsStop env
  | .dsChangelevel map => Controller.dsChangelevel env map
  | .dsSetCheats enabled => Controller.dsSetCheats env enabled
  | .connectAndLaunch serverHashHex => Controller.connectAndLaunch env serverHashHex
  | .resume => Controller.resume env

inductive Action where
  | op (o : Op)
  /-- Rows of a node come and go by themselves. -/
  | node (r : Role) (c : NodeChange)
  /-- The background task of the dedicated server has run. -/
  | dsTask (ds : DsManager)

def World.after (w : World) : Action → World
  | .op o => (o.run env w).2
  | .node r c => w.change r c
  | .dsTask ds => { w with ds }

/-- The controller over a settings file. -/
def machine (file : Option ByteArray) : Machine World Action where
  init := .new env file
  step w a := some (w.after env a)

/-! ## A calm environment -/

/-- The call succeeds, and nothing else happens. -/
def Outcome.done : Outcome where
  result := .ok ()
  torn := none
  wrote := 0
  node := { joined := [], left := [] }
  pick := 0
  ds := none

/-- The kind, and the address. -/
def Attachable.tag : Attachable → List UInt8
  | tcpClient addr => 1 :: addr.toUTF8.toList
  | tcpServer addr => 2 :: addr.toUTF8.toList
  | udp localAddr peer => 3 :: localAddr.toUTF8.toList ++ peer.toUTF8.toList
  | webSocketClient addr => 4 :: addr.toUTF8.toList
  | webSocketServer addr => 5 :: addr.toUTF8.toList
  | autoWifi => [6]

/-- Every call succeeds, nothing happens in between, and short addresses have ids of their own. -/
def Env.calm : Env where
  os := .linux
  interfaceId a := ⟨(a.tag ++ List.replicate 8 0).take 8, by simp⟩
  debug := id
  hexError _ := ""
  json := .plain
  outcome _ := .done

/-- A client on port 27016, without interfaces of its own. -/
def ClientArgs.bare : ClientArgs where
  listenPort := 27016
  serverHash := none
  identity := .unicode "client.identity"
  tcp := none
  auto := false

/-- A server for port 27015, without interfaces of its own. -/
def ServerArgs.bare : ServerArgs where
  scPort := 27015
  scHost := "127.0.0.1"
  identity := .unicode "server.identity"
  tcp := none
  auto := false
  announceInterval := 60
  name := none

end Controller
end SvenBridge
