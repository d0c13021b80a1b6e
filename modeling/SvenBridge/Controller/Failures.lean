import SvenBridge.Controller.Effect

/-!
# Controller.Failures — a failed operation changes nothing

This file contains

* `Unchanged` — what an operation that fails leaves as it was;
* `parseDestinationHash` — how the client itself reads the hash of a server;
* `failed_changes_nothing` — every way an operation can fail, and the hashes that
  `connect_and_launch` refuses before it stops the client.
-/

namespace SvenBridge
namespace Controller

open Lib Command

variable {env : Env} {w w' w'' : World} {e : String}

/-- The sessions with their interfaces, the last arguments, the settings and their file, and the
record of the dedicated server; and nothing was attached to a node, detached or announced. -/
structure Unchanged (w w' : World) : Prop where
  sessions : w'.sessions = w.sessions
  lastArgs : w'.lastArgs = w.lastArgs
  settings : w'.settings = w.settings
  disk : w'.disk = w.disk
  live : w'.ds.live = w.ds.live
  attached : w'.attached = w.attached
  detached : w'.detached = w.detached
  announced : w'.announced = w.announced

theorem Unchanged.refl (w : World) : Unchanged w w :=
  ⟨rfl, rfl, rfl, rfl, rfl, rfl, rfl, rfl⟩

/-- Waiting changes nothing by itself. -/
theorem Unchanged.elapse (w : World) : Unchanged w w.elapse :=
  ⟨rfl, rfl, rfl, rfl, rfl, rfl, rfl, rfl⟩

/-! ## Operations that fail -/

/-- The operations that leave no trace when they fail. -/
def Op.traceless : Op → Bool
  | .startBridgeServer _ | .startClient _ | .addInterfaceTcp .. | .addInterfaceAuto ..
  | .addInterfaceUdp .. | .addInterfaceWebsocket .. | .removeInterface _ | .renameInterface ..
  | .dsStart _ | .dsChangelevel _ | .dsSetCheats _ => true
  | _ => false

theorem unchanged_startRole {r : Role} {running : String} {args : r.Args}
    (h : (startRole env r running args w).1 = .error e) :
    Unchanged w (startRole env r running args w).2 := by
  rw [startRole_run] at h ⊢
  -- refused at once, or after the wait; only a session that has started is recorded
  by_cases hsession : (w.sessions r).isSome
  · rw [if_pos hsession]
    exact .refl w
  · rw [if_neg hsession] at h ⊢
    cases hresult : (env.outcome w.clock).result with
    | ok _ =>
        rw [hresult] at h
        cases h
    | error _ => exact .elapse w

theorem unchanged_of_adds {o : Op} {d : InterfaceDescriptor} (ho : o.adds = some d)
    (h : (o.run env w).1 = .error e) : Unchanged w (o.run env w).2 := by
  rw [Op.run_of_adds ho] at h ⊢
  -- refused before the node is asked, refused by the node, or attached
  rcases reattach_cases (Op.shaped_of_adds ho) env w with ⟨_, hrun | hrun⟩ | ⟨_, _, -, -, -, -, hrun⟩
  · rw [hrun]
    exact .refl w
  · rw [hrun]
    exact .elapse w
  · rw [hrun] at h
    cases h

theorem unchanged_removeInterface {idHex : String}
    (h : (removeInterface env idHex w).1 = .error e) :
    Unchanged w (removeInterface env idHex w).2 := by
  rcases removeInterface_cases env idHex w with ⟨_, hrun⟩ | ⟨_, _, -, -, hrun⟩
  · rw [hrun]
    exact .refl w
  · rw [hrun] at h
    cases h

theorem unchanged_renameInterface {idHex name : String}
    (h : (renameInterface env idHex name w).1 = .error e) :
    Unchanged w (renameInterface env idHex name w).2 := by
  -- the owner is looked for first; the node is asked only when there is one
  rcases ownedInterface_cases idHex w with ⟨_, howned⟩ | ⟨r, id, -, -, howned⟩
  · rw [renameInterface, bind_error howned]
    exact .refl w
  · rw [renameInterface, bind_ok howned] at h ⊢
    simp only [elapse_bind] at h ⊢
    cases hresult : (env.outcome w.clock).result with
    | ok _ =>
        rw [hresult] at h
        cases h
    | error _ => exact .elapse w

theorem unchanged_dsStart {args : DsStartArgs} (h : (dsStart env args w).1 = .error e) :
    Unchanged w (dsStart env args w).2 := by
  -- what follows a start that has succeeded does not fail
  rcases dsManagerStart_cases env args w with ⟨_, hrun⟩ | hrun
  · rw [dsStart, bind_error hrun]
    exact .refl w
  · rw [dsStart, bind_ok hrun] at h
    cases h

/-- A command that cannot be sent leaves the console with a part of it at most. -/
theorem sendCommand_cases (env : Env) (cmd : String) (w : World) :
    (∃ e w', sendCommand env cmd w = (.error e, w') ∧ Unchanged w w') ∨
      ∃ w', sendCommand env cmd w = (.ok (), w') := by
  simp only [sendCommand, get_bind]
  cases w.ds.console with
  | none => exact .inl ⟨_, w, rfl, .refl w⟩
  | some written =>
      simp only [elapse_bind]
      cases (env.outcome w.clock).result with
      | ok _ => exact .inr ⟨_, rfl⟩
      | error _ => exact .inl ⟨_, _, rfl, ⟨rfl, rfl, rfl, rfl, rfl, rfl, rfl, rfl⟩⟩

/-- What is done after a command has been sent does not fail. -/
theorem unchanged_sendCommand {cmd : String} {rest : Ctl Unit}
    (hrest : ∀ w e, (rest w).1 ≠ .error e)
    (h : ((do sendCommand env cmd; rest : Ctl Unit) w).1 = .error e) :
    Unchanged w ((do sendCommand env cmd; rest : Ctl Unit) w).2 := by
  rcases sendCommand_cases env cmd w with ⟨_, w', hrun, hsame⟩ | ⟨w', hrun⟩
  · rw [bind_error hrun]
    exact hsame
  · rw [bind_ok hrun] at h
    exact absurd h (hrest w' e)

theorem unchanged_of_error {o : Op} (ho : o.traceless = true) (h : (o.run env w).1 = .error e) :
    Unchanged w (o.run env w).2 := by
  cases o with
  | startBridgeServer args => exact unchanged_startRole h
  | startClient args => exact unchanged_startRole h
  | addInterfaceTcp | addInterfaceAuto | addInterfaceUdp | addInterfaceWebsocket =>
      exact unchanged_of_adds rfl h
  | removeInterface idHex => exact unchanged_removeInterface h
  | renameInterface idHex name => exact unchanged_renameInterface h
  | dsStart args => exact unchanged_dsStart h
  | dsChangelevel map => exact unchanged_sendCommand (fun _ _ => nofun) h
  | dsSetCheats enabled => exact unchanged_sendCommand (fun _ _ => nofun) h
  | stopBridgeServer | restartBridgeServer | stopClient | restartClient | announceNow | dsStop
  | connectAndLaunch | resume => cases ho

/-! ## Hashes -/

/-- `DestinationHash::from_slice`. -/
def destinationFromSlice (bytes : List UInt8) : Option DestinationHash :=
  if bytes.length = 16 then
    some (BitVec.ofNat 128 (bytes.foldl (fun n byte => 256 * n + byte.toNat) 0))
  else
    none

/-- `parse_destination_hash` of the client. -/
def parseDestinationHash (env : Env) (hex : String) : Except String DestinationHash :=
  match Hex.decode (trim hex) with
  | .error e => .error s!"invalid hex in --server-hash: {env.hexError e}"
  | .ok bytes =>
      match destinationFromSlice bytes with
      | none => .error "--server-hash must be 16 bytes (32 hex chars)"
      | some hash => .ok hash

/-- The controller accepts the hashes the client accepts. -/
theorem validateHexHash_iff (env : Env) (hex : String) (w : World) :
    validateHexHash env hex w = (.ok (), w) ↔ ∃ hash, parseDestinationHash env hex = .ok hash := by
  unfold validateHexHash parseDestinationHash
  cases Hex.decode (trim hex) with
  | error _ =>
      constructor
      · nofun
      · rintro ⟨_, h⟩
        cases h
  | ok bytes =>
      by_cases hlen : bytes.length = 16
      -- both count the bytes behind the digits
      · simp [destinationFromSlice, hlen]
      · simp [destinationFromSlice, hlen]

/-- Without arguments to start a client with, or with a hash that the client would refuse, nothing
is stopped. -/
theorem connectAndLaunch_refused {hash : String}
    (h : w.lastArgs .client = none ∨ ∀ d, parseDestinationHash env hash ≠ .ok d) :
    ∃ e, connectAndLaunch env hash w = (.error e, w) := by
  simp only [connectAndLaunch, get_bind]
  cases hargs : w.lastArgs .client with
  | none => exact ⟨_, rfl⟩
  | some args =>
      have hrefused : ∀ d, parseDestinationHash env hash ≠ .ok d := by
        rw [hargs] at h
        exact h.resolve_left (Option.some_ne_none args)
      -- the hash is checked before the client is stopped
      rcases validateHexHash_cases env hash w with ⟨e, hvalid⟩ | hvalid
      · exact ⟨e, bind_error hvalid⟩
      · obtain ⟨d, hd⟩ := (validateHexHash_iff env hash w).1 hvalid
        exact absurd hd (hrefused d)

/-! ## Failures -/

/-- Whatever the environment does: an operation that fails leaves everything as it was;
`connect_and_launch` refuses, with the world unchanged, when there is no client to start again and
when the client would refuse the hash; and the two readings of a hash accept the same texts. -/
theorem failed_changes_nothing (env : Env) :
    (∀ (w : World) (o : Op) (e : String), o.traceless = true → (o.run env w).1 = .error e →
      Unchanged w (o.run env w).2) ∧
    (∀ (w : World) (hash : String),
      (w.lastArgs .client = none ∨ ∀ d, parseDestinationHash env hash ≠ .ok d) →
        ∃ e, connectAndLaunch env hash w = (.error e, w)) ∧
    ∀ (hash : String) (w : World), validateHexHash env hash w = (.ok (), w) ↔
      ∃ d, parseDestinationHash env hash = .ok d := by
  refine ⟨?_, ?_, ?_⟩
  · intro w o e ho h
    exact unchanged_of_error ho h
  · intro w hash h
    exact connectAndLaunch_refused h
  · exact validateHexHash_iff env

end Controller
end SvenBridge
