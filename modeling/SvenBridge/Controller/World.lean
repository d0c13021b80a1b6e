import Mathlib.Logic.Function.Basic
import SvenBridge.Announce
import SvenBridge.Ds.Live
import SvenBridge.Lib.Hex

/-!
# Controller.World — what the controller holds and what it acts on

The state of `BridgeController` together with the part of the world its operations change.  This
file contains

* `Role` — the server and the client side, each with its own arguments;
* `Session` and its `Interface` rows, as a node's registry lists them;
* `World` — the controller's fields, the settings file, and logs of what was done to the nodes;
* `Outcome` and `Env` — how awaited calls end, and what the controller cannot compute itself;
* the updates the operations are made of.
-/

namespace SvenBridge
namespace Controller

open Lib

/-! ## Roles -/

inductive Role where
  | server
  | client
  deriving DecidableEq

namespace Role

def name : Role → String
  | server => "server"
  | client => "client"

def parse : String → Option Role
  | "server" => some server
  | "client" => some client
  | _ => none

/-- What a session of the role is started with. -/
abbrev Args : Role → Type
  | server => ServerArgs
  | client => ClientArgs

def tcp : (r : Role) → r.Args → Option String
  | server, args => ServerArgs.tcp args
  | client, args => ClientArgs.tcp args

def auto : (r : Role) → r.Args → Bool
  | server, args => ServerArgs.auto args
  | client, args => ClientArgs.auto args

/-- The app data of the session's periodic announcer; only a server has one. -/
def announceAppData : (r : Role) → r.Args → Option (List UInt8)
  | server, args => some (serverAnnounceAppData (ServerArgs.name args))
  | client, _ => none

theorem parse_name (r : Role) : parse r.name = some r := by
  cases r <;> rfl

theorem name_of_parse {s : String} {r : Role} (h : parse s = some r) : s = r.name := by
  unfold parse at h
  split at h <;> cases h <;> rfl

end Role

/-! ## Interfaces -/

/-- The engine's name of an interface. -/
structure InterfaceId where
  bytes : List UInt8
  length_eq : bytes.length = 8
  deriving DecidableEq

namespace InterfaceId

def hex (id : InterfaceId) : String :=
  Hex.encode id.bytes

theorem hex_injective {id other : InterfaceId} (h : id.hex = other.hex) : id = other := by
  cases id
  cases other
  simpa using Hex.encode_injective h

end InterfaceId

/-- What can be attached to a node. -/
inductive Attachable where
  | tcpServer (addr : String)
  | tcpClient (addr : String)
  | udp (localAddr peer : String)
  | webSocketClient (addr : String)
  | webSocketServer (addr : String)
  | autoWifi
  deriving DecidableEq

/-- Is a socket bound before it is attached? -/
def Attachable.binds : Attachable → Bool
  | tcpServer _ | udp _ _ | webSocketServer _ => true
  | tcpClient _ | webSocketClient _ | autoWifi => false

/-- What the access code of an interface is derived from: a network name, a passphrase or both. -/
structure IfacKeys where
  netname : Option String
  netkey : Option String
  keyed : netname.isSome = true ∨ netkey.isSome = true
  deriving DecidableEq

/-- `IfacContext::derive`, up to the hash of the two: none when both are absent or empty. -/
def IfacKeys.derive (netname netkey : Option String) : Option IfacKeys :=
  let netname := netname.filter fun value => !value.isEmpty
  let netkey := netkey.filter fun value => !value.isEmpty
  if keyed : netname.isSome = true ∨ netkey.isSome = true then
    some { netname, netkey, keyed }
  else
    none

/-- An access code and the network name it is shown under. -/
structure RuntimeIfac where
  context : IfacKeys
  networkName : Option String
  deriving DecidableEq

/-- One row of a node's registry. -/
structure Interface where
  id : InterfaceId
  name : Option String
  /-- The access code it was attached with; a row that joins by itself has none of its own. -/
  ifac : Option RuntimeIfac
  /-- The descriptor an `add_interface_*` attached it for; none for the node's own. -/
  addedFor : Option InterfaceDescriptor
  deriving DecidableEq

/-- One call of an attaching function of a node. -/
structure Attachment where
  role : Role
  attachable : Attachable
  ifac : Option RuntimeIfac
  deriving DecidableEq

/-- A running node as the controller holds it. -/
structure Session (r : Role) where
  args : r.Args
  announceAppData : Option (List UInt8)
  interfaces : List Interface
  /-- Told to detach and not gone yet. -/
  detaching : List InterfaceId

/-! ## The world -/

/-- The dedicated-server manager as the foreground sees it. -/
structure DsManager where
  live : Ds.DsLive
  /-- What was written to the server's console, while its `stdin` is held. -/
  console : Option (List UInt8)
  /-- The arguments the background task was started with. -/
  task : Option DsStartArgs

structure World where
  sessions : (r : Role) → Option (Session r)
  lastArgs : (r : Role) → Option r.Args
  settings : Settings
  resumeErrors : List String
  ds : DsManager
  /-- The content of `settings.json`. -/
  disk : Option ByteArray
  /-- `save_settings` has been called. -/
  saved : Bool
  /-- One of its calls could not serialize or write. -/
  saveFailed : Bool
  announced : List (List UInt8)
  attached : List Attachment
  detached : List (Role × InterfaceId)
  /-- How many awaited calls have ended. -/
  clock : ℕ

/-- Rows that come and go on a node by themselves: fleet members, finished interfaces. -/
structure NodeChange where
  joined : List InterfaceId
  left : List InterfaceId

/-- How an awaited call ends, and what the rest of the system has done by then. -/
structure Outcome where
  result : Except String Unit
  /-- What a failed write leaves in the file. -/
  torn : Option ByteArray
  /-- How many bytes a failed write got through. -/
  wrote : ℕ
  node : NodeChange
  /-- Which of several new rows the registry lists first. -/
  pick : ℕ
  ds : Option DsManager

/-- What the controller's code calls and does not decide itself. -/
structure Env where
  os : Ds.Os
  /-- The engine's interface id, a function of the kind and the address. -/
  interfaceId : Attachable → InterfaceId
  /-- The `{:?}` rendering of a text. -/
  debug : String → String
  /-- The text of a hex error. -/
  hexError : Hex.FromHexError → String
  json : JsonText
  outcome : ℕ → Outcome

/-- `BridgeController::new` over the settings file found in the bundle directory. -/
def World.new (env : Env) (file : Option ByteArray) : World :=
  let settings := (loadSettings env.json file).getD Settings.new
  { sessions := fun _ => none
    lastArgs := fun
      | .server => settings.bridge
      | .client => settings.client
    settings
    resumeErrors := []
    ds := { live := .default, console := none, task := none }
    disk := file
    saved := false
    saveFailed := false
    announced := []
    attached := []
    detached := []
    clock := 0 }

/-! ## Settings of one role -/

namespace Settings

def args (s : Settings) : (r : Role) → Option r.Args
  | .server => s.bridge
  | .client => s.client

def running (s : Settings) : Role → Bool
  | .server => s.bridgeRunning
  | .client => s.clientRunning

def start (s : Settings) : (r : Role) → r.Args → Settings
  | .server, args => { s with bridge := some args, bridgeRunning := true }
  | .client, args => { s with client := some args, clientRunning := true }

def stop (s : Settings) : Role → Settings
  | .server => { s with bridgeRunning := false }
  | .client => { s with clientRunning := false }

variable (s : Settings) (r : Role) (args : r.Args)

theorem args_start (r' : Role) :
    (s.start r args).args r' = Function.update s.args r (some args) r' := by
  cases r <;> cases r' <;> rfl

theorem running_start (r' : Role) :
    (s.start r args).running r' = Function.update s.running r true r' := by
  cases r <;> cases r' <;> rfl

@[simp] theorem args_stop (r' : Role) : (s.stop r).args r' = s.args r' := by
  cases r <;> cases r' <;> rfl

theorem running_stop (r' : Role) :
    (s.stop r).running r' = Function.update s.running r false r' := by
  cases r <;> cases r' <;> rfl

@[simp] theorem interfaces_start : (s.start r args).interfaces = s.interfaces := by
  cases r <;> rfl

@[simp] theorem interfaces_stop : (s.stop r).interfaces = s.interfaces := by
  cases r <;> rfl

end Settings

/-! ## Addresses -/

/-- `rfind(':')`, and the two sides of it. -/
def splitAtLastColon : List Char → Option (List Char × List Char)
  | [] => none
  | c :: cs =>
      match splitAtLastColon cs with
      | some (host, port) => some (c :: host, port)
      | none => if c = ':' then some ([], cs) else none

/-- The value of decimal digits read after `n`. -/
def parseDigits (n : ℕ) : List Char → Option ℕ
  | [] => some n
  | c :: cs => if c.isDigit then parseDigits (10 * n + (c.toNat - 48)) cs else none

/-- `parse::<u16>()`: decimal digits after at most one `+`. -/
def parseU16 (text : List Char) : Option (BitVec 16) :=
  let digits := match text with
    | '+' :: rest => rest
    | text => text
  if digits = [] then
    none
  else
    (parseDigits 0 digits).bind fun n => if n < 65536 then some (BitVec.ofNat 16 n) else none

/-- `0.0.0.0`, or no host at all: bind a server here. -/
def bindsHere (host : List Char) : Bool :=
  host == "0.0.0.0".toList || host.isEmpty

/-! ## Nodes -/

/-- A row of the node's own making; a session attaches its own interfaces without access codes. -/
def Interface.own (id : InterfaceId) : Interface where
  id
  name := none
  ifac := none
  addedFor := none

/-- What `attach_interfaces` puts on a new node at once; a TCP server joins when it is bound. -/
def attachInterfaces (env : Env) (tcp : Option String) (auto : Bool) : List Interface :=
  let tcpClient := tcp.bind fun addr =>
    (splitAtLastColon addr.toList).bind fun (host, port) =>
      if bindsHere host then none
      else if (parseU16 port).getD 0 > 0 then some (Attachable.tcpClient addr)
      else none
  let attachables := tcpClient.toList ++ if auto then [.autoWifi] else []
  (attachables.map env.interfaceId).map Interface.own

def NodeChange.apply (c : NodeChange) (rows : List Interface) : List Interface :=
  c.joined.foldl (fun rows id => Keyed.upsert Interface.id (.own id) rows)
    (rows.filter fun row => !c.left.contains row.id)

/-- The first new row of the registry. -/
def newInterface (before : List InterfaceId) (rows : List Interface) (pick : ℕ) :
    Option InterfaceId :=
  let fresh := (rows.map Interface.id).filter fun id => !before.contains id
  fresh[pick % fresh.length]?

/-- The node a start brings up. -/
def Session.new (env : Env) (r : Role) (args : r.Args) : Session r where
  args
  announceAppData := r.announceAppData args
  interfaces := attachInterfaces env (r.tcp args) (r.auto args)
  detaching := []

/-! ## Updates -/

namespace World

variable (env : Env) (w : World) (r : Role)

/-- One more awaited call has ended. -/
def elapse : World :=
  { w with clock := w.clock + 1 }

/-- The rows of the role's node; none while it is not running. -/
def interfaces : List Interface :=
  ((w.sessions r).map Session.interfaces).getD []

def mapSession (f : Session r → Session r) : World :=
  { w with sessions := Function.update w.sessions r ((w.sessions r).map f) }

/-- The node's registry changes by itself. -/
def change (c : NodeChange) : World :=
  w.mapSession r fun s =>
    { s with
      interfaces := c.apply s.interfaces
      detaching := s.detaching.filter fun id => !c.left.contains id }

/-- A session is stored, and remembered in the settings. -/
def start (args : r.Args) : World :=
  { w with
    sessions := Function.update w.sessions r (some (.new env r args))
    lastArgs := Function.update w.lastArgs r (some args)
    settings := w.settings.start r args }

def stop : World :=
  { w with
    sessions := Function.update w.sessions r none
    settings := w.settings.stop r }

/-- The interface's row takes the place of one with its id.  The driver then ends both interfaces,
and the row leaves as a change of the node's own. -/
def attach (a : Attachment) (desc : InterfaceDescriptor) : World :=
  { w.mapSession a.role fun s =>
      { s with
        interfaces := Keyed.upsert Interface.id
          { id := env.interfaceId a.attachable, name := none, ifac := a.ifac, addedFor := some desc }
          s.interfaces } with
    attached := w.attached ++ [a] }

/-- The node is told to stop the interface; the row leaves when it has. -/
def detach (id : InterfaceId) : World :=
  { w.mapSession r fun s => { s with detaching := id :: s.detaching } with
    detached := w.detached ++ [(r, id)] }

def setInterfaces (interfaces : List InterfaceDescriptor) : World :=
  { w with settings.interfaces := interfaces }

/-- `save_settings`: failures are logged, never returned. -/
def save : World :=
  match w.settings.encode env.json with
  | none => { w with saved := true, saveFailed := true }
  | some json =>
      match (env.outcome w.clock).result with
      | .ok _ => { w.elapse with disk := some json, saved := true }
      | .error _ =>
          { w.elapse with
            disk := (env.outcome w.clock).torn
            saved := true
            saveFailed := true }

/-! ### What an update leaves alone -/

/-- Saving touches the file, its flags and the clock only. -/
theorem save_eq : ∃ disk saveFailed clock,
    w.save env = { w with disk, saved := true, saveFailed, clock } := by
  unfold save
  split
  · exact ⟨_, _, _, rfl⟩
  · split <;> exact ⟨_, _, _, rfl⟩

@[simp] theorem save_sessions : (w.save env).sessions = w.sessions := by
  obtain ⟨_, _, _, heq⟩ := w.save_eq env
  rw [heq]

@[simp] theorem save_lastArgs : (w.save env).lastArgs = w.lastArgs := by
  obtain ⟨_, _, _, heq⟩ := w.save_eq env
  rw [heq]

@[simp] theorem save_settings : (w.save env).settings = w.settings := by
  obtain ⟨_, _, _, heq⟩ := w.save_eq env
  rw [heq]

@[simp] theorem save_saved : (w.save env).saved = true := by
  obtain ⟨_, _, _, heq⟩ := w.save_eq env
  rw [heq]

@[simp] theorem save_resumeErrors : (w.save env).resumeErrors = w.resumeErrors := by
  obtain ⟨_, _, _, heq⟩ := w.save_eq env
  rw [heq]

@[simp] theorem save_attached : (w.save env).attached = w.attached := by
  obtain ⟨_, _, _, heq⟩ := w.save_eq env
  rw [heq]

@[simp] theorem save_detached : (w.save env).detached = w.detached := by
  obtain ⟨_, _, _, heq⟩ := w.save_eq env
  rw [heq]

end World
end Controller
end SvenBridge
