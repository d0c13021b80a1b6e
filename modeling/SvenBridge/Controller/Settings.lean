import SvenBridge.Lib.Keyed
import SvenBridge.Lib.Serde

/-!
# Controller.Settings — `settings.json`

The operator's persisted choices: the records of `settings.json`, how each is written and read, and
the list of saved interfaces.  This file contains

* `ServerArgs`, `ClientArgs`, `DsStartArgs`, `InterfaceDescriptor` and `Settings`, with `toJson` and
  `read` as their `serde` derives have them;
* `Settings.read_toJson` and `decode_encode` — what is written reads back, for any JSON library that
  reads what it writes;
* `dedupInterfaces` and `recordInterface` — one saved descriptor for each endpoint;
* `dedupInterfaces_spec` — collapsing a list is recording its descriptors one after the other.
-/

namespace SvenBridge
namespace Controller

open Lib Lib.Serde

/-! ## Records -/

/-- A path; one that is not Unicode cannot be serialized. -/
inductive PathBuf where
  | unicode (path : String)
  | opaque_ (bytes : List UInt8)
  deriving DecidableEq

namespace PathBuf

def toJson : PathBuf → Option Json
  | .unicode path => some (.str path)
  | .opaque_ _ => none

def read (v : Json) : Option PathBuf :=
  (readString v).map .unicode

end PathBuf

/-- The arguments of a bridge server. -/
structure ServerArgs where
  scPort : BitVec 16
  scHost : String
  identity : PathBuf
  tcp : Option String
  auto : Bool
  announceInterval : BitVec 64
  name : Option String
  deriving DecidableEq

/-- The arguments of a bridge client. -/
structure ClientArgs where
  listenPort : BitVec 16
  serverHash : Option String
  identity : PathBuf
  tcp : Option String
  auto : Bool
  deriving DecidableEq

/-- Startup parameters for the dedicated server. -/
structure DsStartArgs where
  port : BitVec 16
  maxplayers : BitVec 32
  map : String
  installDir : Option PathBuf
  svCheats : Bool
  deriving DecidableEq

/-- One saved Reticulum interface, for re-attaching on resume. -/
structure InterfaceDescriptor where
  /-- Runtime interface id (hex) captured at attach time. -/
  id : Option String
  kind : String
  role : String
  addr : Option String
  peerAddr : Option String
  ifacName : Option String
  ifacPassphrase : Option String
  deriving DecidableEq

def defaultRole : String := "server"

/-- Persisted operator choices. -/
structure Settings where
  version : BitVec 32
  bridge : Option ServerArgs
  bridgeRunning : Bool
  client : Option ClientArgs
  clientRunning : Bool
  ds : Option DsStartArgs
  dsRunning : Bool
  interfaces : List InterfaceDescriptor
  deriving DecidableEq

namespace Settings

def currentVersion : BitVec 32 := 1

def new : Settings where
  version := currentVersion
  bridge := none
  bridgeRunning := false
  client := none
  clientRunning := false
  ds := none
  dsRunning := false
  interfaces := []

end Settings

/-! ## Written as JSON -/

def ServerArgs.toJson (a : ServerArgs) : Option Json :=
  a.identity.toJson.map fun identity => record [
    ("sc_port", some (writeUInt a.scPort)),
    ("sc_host", some (.str a.scHost)),
    ("identity", some identity),
    ("tcp", some (writeOption .str a.tcp)),
    ("auto", some (.bool a.auto)),
    ("announce_interval", some (writeUInt a.announceInterval)),
    ("name", some (writeOption .str a.name))]

def ClientArgs.toJson (a : ClientArgs) : Option Json :=
  a.identity.toJson.map fun identity => record [
    ("listen_port", some (writeUInt a.listenPort)),
    ("server_hash", some (writeOption .str a.serverHash)),
    ("identity", some identity),
    ("tcp", some (writeOption .str a.tcp)),
    ("auto", some (.bool a.auto))]

def DsStartArgs.toJson (a : DsStartArgs) : Option Json :=
  (a.installDir.mapM PathBuf.toJson).map fun installDir => record [
    ("port", some (writeUInt a.port)),
    ("maxplayers", some (writeUInt a.maxplayers)),
    ("map", some (.str a.map)),
    ("install_dir", some (installDir.getD .null)),
    ("sv_cheats", some (.bool a.svCheats))]

def InterfaceDescriptor.toJson (d : InterfaceDescriptor) : Json :=
  record [
    ("id", d.id.map .str),
    ("kind", some (.str d.kind)),
    ("role", some (.str d.role)),
    ("addr", d.addr.map .str),
    ("peer_addr", d.peerAddr.map .str),
    ("ifac_name", d.ifacName.map .str),
    ("ifac_passphrase", d.ifacPassphrase.map .str)]

def Settings.toJson (s : Settings) : Option Json := do
  let bridge ← s.bridge.mapM ServerArgs.toJson
  let client ← s.client.mapM ClientArgs.toJson
  let ds ← s.ds.mapM DsStartArgs.toJson
  return record [
    ("version", some (writeUInt s.version)),
    ("bridge", bridge),
    ("bridge_running", some (.bool s.bridgeRunning)),
    ("client", client),
    ("client_running", some (.bool s.clientRunning)),
    ("ds", ds),
    ("ds_running", some (.bool s.dsRunning)),
    ("interfaces", some (.arr (s.interfaces.map InterfaceDescriptor.toJson)))]

/-! ## Read from JSON -/

def ServerArgs.read (v : Json) : Option ServerArgs := do
  let f ← fields ["sc_port", "sc_host", "identity", "tcp", "auto", "announce_interval", "name"] v
  return {
    scPort := ← f.required "sc_port" (readUInt 16)
    scHost := ← f.required "sc_host" readString
    identity := ← f.required "identity" PathBuf.read
    tcp := ← f.optional "tcp" readString
    auto := ← f.required "auto" readBool
    announceInterval := ← f.required "announce_interval" (readUInt 64)
    name := ← f.optional "name" readString }

def ClientArgs.read (v : Json) : Option ClientArgs := do
  let f ← fields ["listen_port", "server_hash", "identity", "tcp", "auto"] v
  return {
    listenPort := ← f.required "listen_port" (readUInt 16)
    serverHash := ← f.optional "server_hash" readString
    identity := ← f.required "identity" PathBuf.read
    tcp := ← f.optional "tcp" readString
    auto := ← f.required "auto" readBool }

def DsStartArgs.read (v : Json) : Option DsStartArgs := do
  let f ← fields ["port", "maxplayers", "map", "install_dir", "sv_cheats"] v
  return {
    port := ← f.required "port" (readUInt 16)
    maxplayers := ← f.required "maxplayers" (readUInt 32)
    map := ← f.required "map" readString
    installDir := ← f.optional "install_dir" PathBuf.read
    svCheats := ← f.orDefault "sv_cheats" readBool false }

def InterfaceDescriptor.read (v : Json) : Option InterfaceDescriptor := do
  let f ← fields ["id", "kind", "role", "addr", "peer_addr", "ifac_name", "ifac_passphrase"] v
  return {
    id := ← f.orDefault "id" (readOption readString) none
    kind := ← f.required "kind" readString
    role := ← f.orDefault "role" readString defaultRole
    addr := ← f.orDefault "addr" (readOption readString) none
    peerAddr := ← f.orDefault "peer_addr" (readOption readString) none
    ifacName := ← f.orDefault "ifac_name" (readOption readString) none
    ifacPassphrase := ← f.orDefault "ifac_passphrase" (readOption readString) none }

def Settings.read (v : Json) : Option Settings := do
  let f ← fields ["version", "bridge", "bridge_running", "client", "client_running", "ds",
    "ds_running", "interfaces"] v
  return {
    version := ← f.orDefault "version" (readUInt 32) 0
    bridge := ← f.orDefault "bridge" (readOption ServerArgs.read) none
    bridgeRunning := ← f.orDefault "bridge_running" readBool false
    client := ← f.orDefault "client" (readOption ClientArgs.read) none
    clientRunning := ← f.orDefault "client_running" readBool false
    ds := ← f.orDefault "ds" (readOption DsStartArgs.read) none
    dsRunning := ← f.orDefault "ds_running" readBool false
    interfaces := ← f.orDefault "interfaces" (readList InterfaceDescriptor.read) [] }

/-! ## The file -/

/-- What `serde_json` does with the text of a value. -/
structure JsonText where
  toStringPretty : Json → String
  parse : String → Option Json

/-- The text of settings reads back as their value. -/
def JsonText.RoundTrips (json : JsonText) : Prop :=
  ∀ (s : Settings) (v : Json), s.toJson = some v → json.parse (json.toStringPretty v) = some v

section

variable (json : JsonText)

/-- `serde_json::to_string_pretty`, as the bytes of the file. -/
def Settings.encode (s : Settings) : Option ByteArray :=
  s.toJson.map fun v => (json.toStringPretty v).toUTF8

/-- `serde_json::from_slice`. -/
def Settings.decode (bytes : ByteArray) : Option Settings := do
  let text ← String.fromUTF8? bytes
  let v ← json.parse text
  Settings.read v

/-- `load_settings`: none if the file is missing, unreadable or corrupt. -/
def loadSettings (file : Option ByteArray) : Option Settings :=
  file.bind (Settings.decode json)

end

/-! ## What is written reads back -/

theorem readString_str (s : String) : readString (.str s) = some s :=
  rfl

theorem str_ne_null (s : String) : Json.str s ≠ .null := by
  rintro ⟨⟩

theorem record_ne_null (slots : List (String × Option Json)) : record slots ≠ .null := by
  rintro ⟨⟩

theorem PathBuf.read_toJson {p : PathBuf} {v : Json} (h : p.toJson = some v) :
    PathBuf.read v = some p := by
  cases p with
  | unicode path =>
      cases h
      rfl
  | opaque_ bytes =>
      cases h

theorem readOption_str (x : Option String) :
    readOption readString (writeOption .str x) = some x :=
  readOption_writeOption str_ne_null readString_str x

theorem ServerArgs.read_toJson {a : ServerArgs} {v : Json} (h : a.toJson = some v) :
    ServerArgs.read v = some a := by
  obtain ⟨identity, hidentity, rfl⟩ := Option.map_eq_some_iff.1 h
  have hpath := PathBuf.read_toJson hidentity
  apply read_record (by simp)
  intro f hnamed hvalue
  simp [Fields.required, Fields.optional, hvalue, List.lookup_cons, readString, readBool, hpath,
    readOption_str]

theorem ClientArgs.read_toJson {a : ClientArgs} {v : Json} (h : a.toJson = some v) :
    ClientArgs.read v = some a := by
  obtain ⟨identity, hidentity, rfl⟩ := Option.map_eq_some_iff.1 h
  have hpath := PathBuf.read_toJson hidentity
  apply read_record (by simp)
  intro f hnamed hvalue
  simp [Fields.required, Fields.optional, hvalue, List.lookup_cons, readBool, hpath, readOption_str]

theorem DsStartArgs.read_toJson {a : DsStartArgs} {v : Json} (h : a.toJson = some v) :
    DsStartArgs.read v = some a := by
  obtain ⟨installDir, hdir, rfl⟩ := Option.map_eq_some_iff.1 h
  have hpath : readOption PathBuf.read (installDir.getD .null) = some a.installDir := by
    cases ha : a.installDir with
    | none =>
        rw [ha] at hdir
        cases hdir
        rfl
    | some path =>
        rw [ha] at hdir
        cases path with
        | unicode path =>
            cases hdir
            rfl
        | opaque_ bytes =>
            cases hdir
  apply read_record (by simp)
  intro f hnamed hvalue
  simp [Fields.required, Fields.optional, Fields.orDefault, hvalue, List.lookup_cons, readString,
    readBool, hpath]

theorem InterfaceDescriptor.read_toJson (d : InterfaceDescriptor) :
    InterfaceDescriptor.read d.toJson = some d := by
  have hskip := readSkipped_map str_ne_null readString_str
  apply read_record (by simp)
  intro f hnamed hvalue
  simp only [orDefault_none]
  simp [Fields.required, Fields.orDefault, hvalue, List.lookup_cons, readString, hskip]

theorem ServerArgs.toJson_ne_null {a : ServerArgs} {v : Json} (h : a.toJson = some v) :
    v ≠ .null := by
  obtain ⟨identity, -, rfl⟩ := Option.map_eq_some_iff.1 h
  exact record_ne_null _

theorem ClientArgs.toJson_ne_null {a : ClientArgs} {v : Json} (h : a.toJson = some v) :
    v ≠ .null := by
  obtain ⟨identity, -, rfl⟩ := Option.map_eq_some_iff.1 h
  exact record_ne_null _

theorem DsStartArgs.toJson_ne_null {a : DsStartArgs} {v : Json} (h : a.toJson = some v) :
    v ≠ .null := by
  obtain ⟨installDir, -, rfl⟩ := Option.map_eq_some_iff.1 h
  exact record_ne_null _

/-- `Settings` round trip, as JSON values. -/
theorem Settings.read_toJson {s : Settings} {v : Json} (h : s.toJson = some v) :
    Settings.read v = some s := by
  simp only [Settings.toJson, bind, Option.bind_eq_some_iff, pure, Option.some.injEq] at h
  obtain ⟨bridge, hbridge, client, hclient, ds, hds, rfl⟩ := h
  have h1 := readSkipped_mapM ServerArgs.toJson_ne_null ServerArgs.read_toJson hbridge
  have h2 := readSkipped_mapM ClientArgs.toJson_ne_null ClientArgs.read_toJson hclient
  have h3 := readSkipped_mapM DsStartArgs.toJson_ne_null DsStartArgs.read_toJson hds
  have h4 := readList_map InterfaceDescriptor.read_toJson s.interfaces
  apply read_record (by simp)
  intro f hnamed hvalue
  simp only [orDefault_none]
  simp [Fields.orDefault, hvalue, List.lookup_cons, readBool, h1, h2, h3, h4]

/-! ## The file reads back -/

theorem isPlain_writeOption (x : Option String) : (writeOption .str x).isPlain = true := by
  cases x <;> rfl

theorem PathBuf.isPlain_toJson {p : PathBuf} {v : Json} (h : p.toJson = some v) :
    v.isPlain = true := by
  cases p with
  | unicode path =>
      cases h
      rfl
  | opaque_ bytes =>
      cases h

theorem ServerArgs.isPlain_toJson {a : ServerArgs} {v : Json} (h : a.toJson = some v) :
    v.isPlain = true := by
  obtain ⟨identity, hidentity, rfl⟩ := Option.map_eq_some_iff.1 h
  have hpath := PathBuf.isPlain_toJson hidentity
  refine isPlain_record fun name v hmem => ?_
  simp only [List.mem_cons, Prod.mk.injEq, Option.some.injEq, List.not_mem_nil, or_false] at hmem
  rcases hmem with ⟨-, rfl⟩ | ⟨-, rfl⟩ | ⟨-, rfl⟩ | ⟨-, rfl⟩ | ⟨-, rfl⟩ | ⟨-, rfl⟩ | ⟨-, rfl⟩
  all_goals first | exact hpath | exact isPlain_writeOption _ | rfl

theorem ClientArgs.isPlain_toJson {a : ClientArgs} {v : Json} (h : a.toJson = some v) :
    v.isPlain = true := by
  obtain ⟨identity, hidentity, rfl⟩ := Option.map_eq_some_iff.1 h
  have hpath := PathBuf.isPlain_toJson hidentity
  refine isPlain_record fun name v hmem => ?_
  simp only [List.mem_cons, Prod.mk.injEq, Option.some.injEq, List.not_mem_nil, or_false] at hmem
  rcases hmem with ⟨-, rfl⟩ | ⟨-, rfl⟩ | ⟨-, rfl⟩ | ⟨-, rfl⟩ | ⟨-, rfl⟩
  all_goals first | exact hpath | exact isPlain_writeOption _ | rfl

theorem DsStartArgs.isPlain_toJson {a : DsStartArgs} {v : Json} (h : a.toJson = some v) :
    v.isPlain = true := by
  obtain ⟨installDir, hdir, rfl⟩ := Option.map_eq_some_iff.1 h
  have hpath : (installDir.getD .null).isPlain = true := by
    cases ha : a.installDir with
    | none =>
        rw [ha] at hdir
        cases hdir
        rfl
    | some path =>
        rw [ha] at hdir
        obtain ⟨w, hw, rfl⟩ := Option.map_eq_some_iff.1 hdir
        exact PathBuf.isPlain_toJson hw
  refine isPlain_record fun name v hmem => ?_
  simp only [List.mem_cons, Prod.mk.injEq, Option.some.injEq, List.not_mem_nil, or_false] at hmem
  rcases hmem with ⟨-, rfl⟩ | ⟨-, rfl⟩ | ⟨-, rfl⟩ | ⟨-, rfl⟩ | ⟨-, rfl⟩
  all_goals first | exact hpath | rfl

theorem InterfaceDescriptor.isPlain_toJson (d : InterfaceDescriptor) :
    d.toJson.isPlain = true := by
  refine isPlain_record fun name v hmem => ?_
  simp only [List.mem_cons, Prod.mk.injEq, Option.some.injEq, List.not_mem_nil, or_false,
    eq_comm (a := some v), Option.map_eq_some_iff] at hmem
  rcases hmem with ⟨-, _, -, rfl⟩ | ⟨-, rfl⟩ | ⟨-, rfl⟩ | ⟨-, _, -, rfl⟩ | ⟨-, _, -, rfl⟩ |
    ⟨-, _, -, rfl⟩ | ⟨-, _, -, rfl⟩
  all_goals rfl

theorem Settings.isPlain_toJson {s : Settings} {v : Json} (h : s.toJson = some v) :
    v.isPlain = true := by
  simp only [Settings.toJson, bind, Option.bind_eq_some_iff, pure, Option.some.injEq] at h
  obtain ⟨bridge, hbridge, client, hclient, ds, hds, rfl⟩ := h
  have hlist : (Json.arr (s.interfaces.map InterfaceDescriptor.toJson)).isPlain = true := by
    refine isPlain_arr fun v hv => ?_
    obtain ⟨d, -, rfl⟩ := List.mem_map.1 hv
    exact d.isPlain_toJson
  have hwritten : ∀ {α : Type} {write : α → Option Json} {x : Option α} {w : Json},
      (∀ {y v}, write y = some v → v.isPlain = true) → x.mapM write = some (some w) →
        w.isPlain = true := by
    intro α write x w hplain hx
    cases x with
    | none =>
        cases hx
    | some y =>
        obtain ⟨v, hv, heq⟩ := Option.map_eq_some_iff.1 hx
        cases heq
        exact hplain hv
  refine isPlain_record fun name v hmem => ?_
  simp only [List.mem_cons, Prod.mk.injEq, Option.some.injEq, List.not_mem_nil, or_false] at hmem
  rcases hmem with ⟨-, rfl⟩ | ⟨-, rfl⟩ | ⟨-, rfl⟩ | ⟨-, rfl⟩ | ⟨-, rfl⟩ | ⟨-, rfl⟩ | ⟨-, rfl⟩ |
    ⟨-, rfl⟩
  · rfl
  · exact hwritten ServerArgs.isPlain_toJson hbridge
  · rfl
  · exact hwritten ClientArgs.isPlain_toJson hclient
  · rfl
  · exact hwritten DsStartArgs.isPlain_toJson hds
  · rfl
  · exact hlist

theorem fromUTF8?_toUTF8 (s : String) : String.fromUTF8? s.toUTF8 = some s := by
  have hvalid : s.toUTF8.IsValidUTF8 := s.isValidUTF8
  rw [String.fromUTF8?, dif_pos hvalid]
  rfl

/-- What is written to `settings.json` is loaded again. -/
theorem Settings.decode_encode {json : JsonText} (hjson : json.RoundTrips) {s : Settings}
    {bytes : ByteArray} (h : s.encode json = some bytes) :
    Settings.decode json bytes = some s := by
  obtain ⟨v, hv, rfl⟩ := Option.map_eq_some_iff.1 h
  rw [Settings.decode, fromUTF8?_toUTF8]
  show (json.parse (json.toStringPretty v)).bind Settings.read = some s
  rw [hjson s v hv]
  exact Settings.read_toJson hv

/-- The text of `Lib.Json`. -/
def JsonText.plain : JsonText where
  toStringPretty := Json.toStringPretty
  parse := Json.parse

theorem JsonText.roundTrips_plain : JsonText.plain.RoundTrips :=
  fun _ _ hv => Json.parse_toStringPretty (Settings.isPlain_toJson hv)

/-! ## Saved interfaces -/

namespace InterfaceDescriptor

def addrOrKind (d : InterfaceDescriptor) : String :=
  d.addr.getD d.kind

/-- Same logical interface, regardless of the runtime id and the IFAC fields. -/
def sameEndpoint (d other : InterfaceDescriptor) : Bool :=
  d.kind == other.kind && d.role == other.role && d.addr == other.addr &&
    d.peerAddr == other.peerAddr

/-- What `sameEndpoint` compares. -/
def endpoint (d : InterfaceDescriptor) : String × String × Option String × Option String :=
  (d.kind, d.role, d.addr, d.peerAddr)

theorem sameEndpoint_iff (d other : InterfaceDescriptor) :
    d.sameEndpoint other = true ↔ d.endpoint = other.endpoint := by
  simp [sameEndpoint, endpoint, and_assoc]

end InterfaceDescriptor

/-- The loop of `dedup_interfaces`. -/
def dedupLoop (kept : List InterfaceDescriptor) :
    List InterfaceDescriptor → List InterfaceDescriptor
  | [] => kept
  | d :: rest =>
      match Keyed.replaceFirst (fun k => k.sameEndpoint d) d kept with
      | some kept => dedupLoop kept rest
      | none => dedupLoop (kept ++ [d]) rest

/-- Collapse descriptors of one endpoint, keeping the last; was anything collapsed? -/
def dedupInterfaces (interfaces : List InterfaceDescriptor) : List InterfaceDescriptor × Bool :=
  let before := interfaces.length
  let kept := dedupLoop [] interfaces
  (kept, kept.length != before)

/-- `record_interface`'s update of the saved list. -/
def recordInterface (interfaces : List InterfaceDescriptor) (desc : InterfaceDescriptor) :
    List InterfaceDescriptor :=
  match Keyed.replaceFirst (fun d => d.sameEndpoint desc) desc interfaces with
  | some interfaces => interfaces
  | none => interfaces ++ [desc]

theorem recordInterface_eq_upsert (interfaces : List InterfaceDescriptor)
    (desc : InterfaceDescriptor) :
    recordInterface interfaces desc =
      Keyed.upsert InterfaceDescriptor.endpoint desc interfaces := by
  have hreplace := Keyed.replaceFirst_getD (fun d => d.sameEndpoint_iff desc) interfaces
  rw [← hreplace, recordInterface]
  cases Keyed.replaceFirst (fun d => d.sameEndpoint desc) desc interfaces <;> rfl

theorem dedupLoop_eq_gather (kept interfaces : List InterfaceDescriptor) :
    dedupLoop kept interfaces = Keyed.gather InterfaceDescriptor.endpoint kept interfaces := by
  induction interfaces generalizing kept with
  | nil =>
      rfl
  | cons d rest ih =>
      have hstep : dedupLoop kept (d :: rest) = dedupLoop (recordInterface kept d) rest := by
        rw [dedupLoop, recordInterface]
        cases Keyed.replaceFirst (fun k => k.sameEndpoint d) d kept <;> rfl
      rw [hstep, ih, recordInterface_eq_upsert]
      rfl

/-- Nothing collapsed is nothing changed. -/
theorem dedupInterfaces_unchanged {interfaces : List InterfaceDescriptor}
    (h : (dedupInterfaces interfaces).2 = false) : (dedupInterfaces interfaces).1 = interfaces := by
  have hlen : (dedupLoop [] interfaces).length = interfaces.length := by
    simpa [dedupInterfaces] using h
  rw [dedupLoop_eq_gather] at hlen
  have hnil : (([] : List InterfaceDescriptor).map InterfaceDescriptor.endpoint).Nodup :=
    List.nodup_nil
  have hall := Keyed.gather_length_eq hnil (by simpa using hlen)
  rw [dedupInterfaces, dedupLoop_eq_gather, hall]
  rfl

theorem nodup_dedupInterfaces (interfaces : List InterfaceDescriptor) :
    ((dedupInterfaces interfaces).1.map InterfaceDescriptor.endpoint).Nodup := by
  rw [dedupInterfaces, dedupLoop_eq_gather]
  exact Keyed.nodup_gather (by simp) interfaces

theorem dedupInterfaces_of_nodup {interfaces : List InterfaceDescriptor}
    (h : (interfaces.map InterfaceDescriptor.endpoint).Nodup) :
    dedupInterfaces interfaces = (interfaces, false) := by
  have hkeys : (([] ++ interfaces).map InterfaceDescriptor.endpoint).Nodup := h
  have hloop : dedupLoop [] interfaces = interfaces := by
    rw [dedupLoop_eq_gather]
    simpa using Keyed.gather_eq_append hkeys
  simp [dedupInterfaces, hloop]

/-- Something is collapsed exactly when two descriptors have the same endpoint. -/
theorem dedupInterfaces_collapsed_iff (interfaces : List InterfaceDescriptor) :
    (dedupInterfaces interfaces).2 = true ↔
      ¬ (interfaces.map InterfaceDescriptor.endpoint).Nodup := by
  constructor
  · intro hcollapsed hnodup
    rw [dedupInterfaces_of_nodup hnodup] at hcollapsed
    cases hcollapsed
  · intro hdup
    by_contra hfalse
    have hsame := dedupInterfaces_unchanged (Bool.not_eq_true _ ▸ hfalse)
    exact hdup (hsame ▸ nodup_dedupInterfaces interfaces)

theorem foldl_recordInterface (saved interfaces : List InterfaceDescriptor) :
    interfaces.foldl recordInterface saved =
      Keyed.gather InterfaceDescriptor.endpoint saved interfaces := by
  have hstep : recordInterface =
      fun saved desc => Keyed.upsert InterfaceDescriptor.endpoint desc saved := by
    funext saved desc
    exact recordInterface_eq_upsert saved desc
  rw [hstep, Keyed.gather]

/-- On load as on write: collapsing a list is recording its descriptors one after the other.  Each
endpoint keeps the place of its first descriptor and holds its last; the answer says whether an
endpoint came twice, a second collapse changes nothing, and recording keeps endpoints different. -/
theorem dedupInterfaces_spec (interfaces : List InterfaceDescriptor) :
    let kept := (dedupInterfaces interfaces).1
    kept = interfaces.foldl recordInterface [] ∧
    (kept.map InterfaceDescriptor.endpoint).Nodup ∧
    kept.map InterfaceDescriptor.endpoint =
      (interfaces.map InterfaceDescriptor.endpoint).eraseDups ∧
    (∀ desc ∈ kept, Keyed.IsLast InterfaceDescriptor.endpoint interfaces desc) ∧
    ((dedupInterfaces interfaces).2 = true ↔
      ¬ (interfaces.map InterfaceDescriptor.endpoint).Nodup) ∧
    dedupInterfaces kept = (kept, false) ∧
    (∀ later : List InterfaceDescriptor,
      ((later.foldl recordInterface kept).map InterfaceDescriptor.endpoint).Nodup) ∧
    ∀ saved desc, (saved.map InterfaceDescriptor.endpoint).Nodup →
      ((recordInterface saved desc).map InterfaceDescriptor.endpoint).Nodup := by
  intro kept
  have hkept : kept = Keyed.gather InterfaceDescriptor.endpoint [] interfaces :=
    dedupLoop_eq_gather [] interfaces
  have hnodup : (kept.map InterfaceDescriptor.endpoint).Nodup := nodup_dedupInterfaces interfaces
  refine ⟨?_, hnodup, ?_, ?_, dedupInterfaces_collapsed_iff interfaces,
    dedupInterfaces_of_nodup hnodup, ?_, ?_⟩
  · rw [hkept, foldl_recordInterface]
  · rw [hkept, Keyed.map_key_gather]
  · intro desc hdesc
    rw [hkept] at hdesc
    exact Keyed.isLast_of_mem_gather hdesc
  · intro later
    rw [foldl_recordInterface]
    exact Keyed.nodup_gather hnodup later
  · intro saved desc hsaved
    rw [recordInterface_eq_upsert]
    exact Keyed.nodup_upsert hsaved

end Controller
end SvenBridge
