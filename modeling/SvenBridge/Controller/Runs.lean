import SvenBridge.Controller.Operations

/-!
# Controller.Runs — what an operation does, in one equation

Later proofs do not unfold the operations that start sessions and attach interfaces: they use

* `startRole_run` — a start is refused, fails, or stores a session and saves;
* `reattach_cases` — an attach fails without a trace, or leaves `World.added`, for every descriptor
  of a shape the `add_interface_*` write.
-/

namespace SvenBridge
namespace Controller

open Lib Command

variable {env : Env} {w : World} {r : Role} {d : InterfaceDescriptor}

/-! ## Sessions -/

theorem startSession_run (env : Env) (w : World) :
    startSession env w = ((env.outcome w.clock).result, w.elapse) := by
  simp only [startSession, elapse_bind]
  cases (env.outcome w.clock).result <;> rfl

theorem startRole_run (env : Env) (w : World) (r : Role) (running : String) (args : r.Args) :
    startRole env r running args w =
      if (w.sessions r).isSome then
        (.error running, w)
      else
        match (env.outcome w.clock).result with
        | .ok _ => (.ok (), (w.elapse.start env r args).save env)
        | .error e => (.error e, w.elapse) := by
  simp only [startRole, get_bind]
  split
  · rfl
  · rw [bind_run, startSession_run]
    cases (env.outcome w.clock).result <;> rfl

/-! ## Dedicated server -/

theorem dsManagerStart_cases (env : Env) (args : DsStartArgs) (w : World) :
    (∃ e, dsManagerStart env args w = (.error e, w)) ∨
    dsManagerStart env args w =
      (.ok (), { w with ds := { w.ds with live := w.ds.live.started, task := some args } }) := by
  simp only [dsManagerStart, get_bind]
  split
  · exact .inl ⟨_, rfl⟩
  · split
    · exact .inl ⟨_, rfl⟩
    · exact .inr rfl

/-- A start of the dedicated server is refused, or leaves its arguments in the settings. -/
theorem restartDs_cases (env : Env) (args : DsStartArgs) (w : World) :
    ∃ ds, (∃ e, restartDs env args w = (.error e, { w.elapse with ds })) ∨
      restartDs env args w = (.ok (), World.save env
        { w.elapse with ds, settings.ds := some args, settings.dsRunning := true }) := by
  let ds := (env.outcome w.clock).ds.getD w.ds
  have hhead : restartDs env args w = dsStart env args { w.elapse with ds } := rfl
  rw [hhead]
  rcases dsManagerStart_cases env args { w.elapse with ds } with ⟨e, hrun⟩ | hrun
  · exact ⟨ds, .inl ⟨e, bind_error hrun⟩⟩
  · refine ⟨{ ds with live := ds.live.started, task := some args }, .inr ?_⟩
    exact (bind_ok hrun).trans rfl

/-! ## Interfaces -/

/-- Descriptors as the `add_interface_*` write them, apart from the id. -/
inductive Shaped : InterfaceDescriptor → Prop where
  | tcp {id ifacName ifacPassphrase : Option String} {role addr : String} :
      Shaped { id, kind := "tcp", role, addr := some addr, peerAddr := none, ifacName,
               ifacPassphrase }
  | auto {id ifacName ifacPassphrase : Option String} {role : String} :
      Shaped { id, kind := "auto", role, addr := none, peerAddr := none, ifacName, ifacPassphrase }
  | udp {id ifacName ifacPassphrase : Option String} {role addr peer : String} :
      Shaped { id, kind := "udp", role, addr := some addr, peerAddr := some peer, ifacName,
               ifacPassphrase }
  | websocket {id ifacName ifacPassphrase : Option String} {role addr : String} :
      Shaped { id, kind := "websocket", role, addr := some addr, peerAddr := none, ifacName,
               ifacPassphrase }

namespace InterfaceDescriptor

/-- The descriptor as an attachment under this id leaves it. -/
def withId (d : InterfaceDescriptor) (id : Option String) : InterfaceDescriptor :=
  { d with id }

/-- The descriptor without the id of its last attachment. -/
def unattached (d : InterfaceDescriptor) : InterfaceDescriptor :=
  d.withId none

@[simp] theorem endpoint_withId (d : InterfaceDescriptor) (id : Option String) :
    (d.withId id).endpoint = d.endpoint :=
  rfl

@[simp] theorem unattached_withId (d : InterfaceDescriptor) (id : Option String) :
    (d.withId id).unattached = d.unattached :=
  rfl

@[simp] theorem unattached_unattached (d : InterfaceDescriptor) :
    d.unattached.unattached = d.unattached :=
  rfl

@[simp] theorem endpoint_unattached (d : InterfaceDescriptor) :
    d.unattached.endpoint = d.endpoint :=
  rfl

/-- What `resume` attaches for a saved descriptor. -/
def attachable (d : InterfaceDescriptor) : Except String Attachable :=
  match d.kind with
  | "tcp" => tcpAttachable (d.addr.getD "")
  | "auto" => .ok .autoWifi
  | "udp" => .ok (.udp (d.addr.getD "") (d.peerAddr.getD ""))
  | "websocket" => websocketAttachable (d.addr.getD "")
  | other => .error s!"unknown interface kind {other} in settings"

/-- The network name the access code is shown under. -/
def networkName (d : InterfaceDescriptor) : Option String :=
  match d.kind with
  | "tcp" => none
  | "websocket" => if isWebSocketUrl (d.addr.getD "") then d.ifacName else none
  | _ => d.ifacName

/-- The access code of the descriptor's own IFAC fields. -/
def runtimeIfac (d : InterfaceDescriptor) : Option RuntimeIfac :=
  (IfacKeys.derive d.ifacName d.ifacPassphrase).map fun context =>
    { context, networkName := d.networkName }

/-- What is bound when binding fails. -/
def context (d : InterfaceDescriptor) : String :=
  let addr := d.addr.getD ""
  let peer := d.peerAddr.getD ""
  match d.kind with
  | "tcp" => s!"binding TCP server on {addr}"
  | "udp" => s!"binding UDP interface {addr} <-> {peer}"
  | "websocket" => s!"binding WebSocket server on {addr}"
  | _ => ""

/-- The attachment a descriptor asks for, on the node of its own role. -/
def attachment (d : InterfaceDescriptor) : Option Attachment := do
  let r ← Role.parse d.role
  let attachable ← d.attachable.toOption
  return { role := r, attachable, ifac := d.runtimeIfac }

end InterfaceDescriptor

theorem reattach_eq (h : Shaped d) :
    reattach env d = addInterface env d.unattached d.networkName d.attachable d.context := by
  cases h <;> rfl

namespace World

/-- The world once what is attached has been bound. -/
def bound (w : World) (a : Attachable) : World :=
  if a.binds then w.elapse else w

/-- The world after the attach, and after what the node has done meanwhile. -/
def joined (env : Env) (w : World) (r : Role) (a : Attachable) (d : InterfaceDescriptor) : World :=
  let attached := (w.bound a).attach env { role := r, attachable := a, ifac := d.runtimeIfac }
    d.unattached
  attached.elapse.change r (env.outcome (w.bound a).clock).node

/-- The id found by comparing the registry before and after. -/
def captured (env : Env) (w : World) (r : Role) (a : Attachable) (d : InterfaceDescriptor) :
    Option InterfaceId :=
  newInterface ((w.interfaces r).map Interface.id) ((w.joined env r a d).interfaces r)
    (env.outcome (w.bound a).clock).pick

/-- The world a successful attach leaves: the node's row, the saved descriptor with the captured id,
and the file. -/
def added (env : Env) (w : World) (r : Role) (a : Attachable) (d : InterfaceDescriptor) : World :=
  let w' := w.joined env r a d
  (w'.setInterfaces (recordInterface w'.settings.interfaces
    (d.withId ((w.captured env r a d).map InterfaceId.hex)))).save env

@[simp] theorem bound_settings (w : World) (a : Attachable) : (w.bound a).settings = w.settings := by
  unfold bound
  split <;> rfl

@[simp] theorem bound_sessions (w : World) (a : Attachable) : (w.bound a).sessions = w.sessions := by
  unfold bound
  split <;> rfl

@[simp] theorem bound_attached (w : World) (a : Attachable) : (w.bound a).attached = w.attached := by
  unfold bound
  split <;> rfl

@[simp] theorem bound_resumeErrors (w : World) (a : Attachable) :
    (w.bound a).resumeErrors = w.resumeErrors := by
  unfold bound
  split <;> rfl

theorem added_settings (env : Env) (w : World) (r : Role) (a : Attachable)
    (d : InterfaceDescriptor) :
    (w.added env r a d).settings = { w.settings with
      interfaces := recordInterface w.settings.interfaces
        (d.withId ((w.captured env r a d).map InterfaceId.hex)) } := by
  simp [added, joined, setInterfaces, change, mapSession, elapse, attach]

theorem added_attached (env : Env) (w : World) (r : Role) (a : Attachable)
    (d : InterfaceDescriptor) :
    (w.added env r a d).attached =
      w.attached ++ [{ role := r, attachable := a, ifac := d.runtimeIfac }] := by
  simp [added, joined, setInterfaces, change, mapSession, elapse, attach]

theorem added_resumeErrors (env : Env) (w : World) (r : Role) (a : Attachable)
    (d : InterfaceDescriptor) : (w.added env r a d).resumeErrors = w.resumeErrors := by
  simp [added, joined, setInterfaces, change, mapSession, elapse, attach]

end World

theorem session_cases (env : Env) (role : String) (w : World) :
    (∃ e, session env role w = (.error e, w)) ∨
    ∃ r, Role.parse role = some r ∧ (w.sessions r).isSome = true ∧
      session env role w = (.ok r, w) := by
  unfold session
  cases hrole : Role.parse role with
  | none =>
      exact .inl ⟨_, rfl⟩
  | some r =>
      simp only [get_bind]
      cases hsession : (w.sessions r).isSome with
      | true =>
          exact .inr ⟨r, rfl, hsession, rfl⟩
      | false =>
          exact .inl ⟨_, rfl⟩

theorem bindSocket_cases (env : Env) (context : String) (a : Attachable) (w : World) :
    (∃ e, bindSocket env context a w = (.error e, w.elapse)) ∨
    (a.binds = true → (env.outcome w.clock).result = .ok ()) ∧
      bindSocket env context a w = (.ok (), w.bound a) := by
  unfold bindSocket World.bound
  cases ha : a.binds with
  | false =>
      exact .inr ⟨by rintro ⟨⟩, rfl⟩
  | true =>
      simp only [if_true, elapse_bind]
      cases (env.outcome w.clock).result with
      | ok _ =>
          exact .inr ⟨fun _ => rfl, rfl⟩
      | error e =>
          exact .inl ⟨_, rfl⟩

/-- An attach fails before it has touched a node, or leaves `World.added`. -/
theorem reattach_cases (h : Shaped d) (env : Env) (w : World) :
    (∃ e, reattach env d w = (.error e, w) ∨ reattach env d w = (.error e, w.elapse)) ∨
    ∃ r a, Role.parse d.role = some r ∧ (w.sessions r).isSome = true ∧ d.attachable = .ok a ∧
      (a.binds = true → (env.outcome w.clock).result = .ok ()) ∧
      reattach env d w = (.ok (), w.added env r a d) := by
  rw [reattach_eq h]
  unfold addInterface
  rcases session_cases env d.unattached.role w with ⟨e, hsession⟩ | ⟨r, hrole, hsome, hsession⟩
  · exact .inl ⟨e, .inl (bind_error hsession)⟩
  · rw [bind_ok hsession]
    cases hasked : d.attachable with
    | error e =>
        exact .inl ⟨e, .inl rfl⟩
    | ok a =>
        rcases bindSocket_cases env d.context a w with ⟨e, hbind⟩ | ⟨hresult, hbind⟩
        · refine .inl ⟨e, .inr ?_⟩
          exact (bind_ok (get_run w)).trans (bind_error hbind)
        · refine .inr ⟨r, a, hrole, hsome, rfl, hresult, ?_⟩
          exact (bind_ok (get_run w)).trans (bind_ok hbind)

end Controller
end SvenBridge
