import SvenBridge.Controller.Runs

/-!
# Controller.Effect — what an operation does to the nodes and the saved interfaces

`Effect env w o w'` lists, for every operation but `resume`, the ways its run can touch a node or
the saved interfaces.  `effect_of_run` reads the operations once; the theorems about attached and
saved interfaces are by cases on it.
-/

namespace SvenBridge
namespace Controller

open Lib Command

variable {env : Env} {w w' w'' : World} {r : Role} {d : InterfaceDescriptor}

/-- Neither the nodes nor the saved interfaces are touched. -/
structure Quiet (w w' : World) : Prop where
  sessions : w'.sessions = w.sessions
  saved : w'.settings.interfaces = w.settings.interfaces

theorem Quiet.refl (w : World) : Quiet w w :=
  ⟨rfl, rfl⟩

theorem Quiet.trans (h : Quiet w w') (h' : Quiet w' w'') : Quiet w w'' :=
  ⟨h'.sessions.trans h.sessions, h'.saved.trans h.saved⟩

theorem Quiet.save (h : Quiet w w') (env : Env) : Quiet w (w'.save env) :=
  h.trans ⟨w'.save_sessions env, by rw [w'.save_settings env]⟩

/-! ## Kinds of operations -/

namespace Op

/-- The arguments the operation starts a session of the role with, unless it fails; a start of a
running session is refused. -/
def argsFor (w : World) : Op → (r : Role) → Option r.Args
  | startBridgeServer args, .server => if (w.sessions .server).isSome then none else some args
  | restartBridgeServer, .server => w.lastArgs .server
  | startClient args, .client => if (w.sessions .client).isSome then none else some args
  | restartClient, .client => w.lastArgs .client
  | connectAndLaunch serverHashHex, .client =>
      (w.lastArgs .client).map fun (args : ClientArgs) =>
        { args with serverHash := some serverHashHex }
  | _, _ => none

/-- The descriptor the operation attaches an interface for. -/
def adds : Op → Option InterfaceDescriptor
  | addInterfaceTcp addr role ifacName ifacPassphrase =>
      some { id := none, kind := "tcp", role, addr := some addr, peerAddr := none, ifacName
             ifacPassphrase }
  | addInterfaceAuto role ifacName ifacPassphrase =>
      some { id := none, kind := "auto", role, addr := none, peerAddr := none, ifacName
             ifacPassphrase }
  | addInterfaceUdp localAddr peer role ifacName ifacPassphrase =>
      some { id := none, kind := "udp", role, addr := some localAddr, peerAddr := some peer, ifacName
             ifacPassphrase }
  | addInterfaceWebsocket addr role ifacName ifacPassphrase =>
      some { id := none, kind := "websocket", role, addr := some addr, peerAddr := none, ifacName
             ifacPassphrase }
  | _ => none

theorem shaped_of_adds {o : Op} (h : o.adds = some d) : Shaped d := by
  cases o <;> cases h <;> constructor

theorem run_of_adds {o : Op} (h : o.adds = some d) : o.run env = reattach env d := by
  cases o <;> cases h <;> rfl

end Op

/-- The world after an interface has been removed, but for the save. -/
def World.removed (w : World) (r : Role) (id : InterfaceId) (idHex : String) : World :=
  (w.detach r id).setInterfaces (w.settings.interfaces.filter fun d => !d.hasId idHex)

/-- The world after an interface has been renamed. -/
def World.renamed (w : World) (r : Role) (id : InterfaceId) (name : String) : World :=
  w.mapSession r fun s =>
    { s with
      interfaces := s.interfaces.map fun row =>
        if row.id = id then { row with name := some name } else row }

/-! ## Effects -/

/-- What a run of an operation other than `resume` does to the nodes and the saved interfaces. -/
inductive Effect (env : Env) (w : World) (o : Op) (w' : World) : Prop where
  | quiet (h : Quiet w w')
  | stopped (r : Role) (h : Quiet (w.stop r) w')
  | started (r : Role) {args : r.Args} (ho : o.argsFor w r = some args)
      (hnone : w.sessions r = none) (h : Quiet (w.start env r args) w')
  | restarted (r : Role) {args : r.Args} (ho : o.argsFor w r = some args)
      (h : Quiet ((w.stop r).start env r args) w')
  | added {d : InterfaceDescriptor} {r : Role} {a : Attachable} (ho : o.adds = some d)
      (hrole : Role.parse d.role = some r) (hsession : (w.sessions r).isSome = true)
      (hasked : d.attachable = .ok a)
      (hbound : a.binds = true → (env.outcome w.clock).result = .ok ())
      (h : w' = w.added env r a d)
  | removed {r : Role} {id : InterfaceId} {idHex : String} (ho : o = .removeInterface idHex)
      (howner : sessionOwningInterface w idHex = some r)
      (hfound : findInterfaceByHex w r idHex = some id) (h : Quiet (w.removed r id idHex) w')
  | renamed {r : Role} {id : InterfaceId} {name : String} (h : Quiet (w.renamed r id name) w')

/-! ## Quiet operations -/

/-- A quiet end of a command. -/
theorem Quiet.bind {α β : Type} {m : Ctl α} {f : α → Ctl β} (hf : ∀ a w', Quiet w' (f a w').2) :
    Quiet (m w).2 ((m >>= f) w).2 := by
  rcases h : m w with ⟨e | a, w'⟩
  · rw [bind_error h]
    exact Quiet.refl w'
  · rw [bind_ok h]
    exact hf a w'

theorem keeps_quiet_elapse : Keeps (Quiet w) (elapse env) :=
  fun _ h => h.trans ⟨rfl, rfl⟩

theorem keeps_quiet_awaited {good : Ctl Unit} {bad : String → Ctl Unit}
    (hgood : Keeps (Quiet w) good) (hbad : ∀ e, Keeps (Quiet w) (bad e)) :
    Keeps (Quiet w) (elapse env >>= fun o => match o.result with
      | .ok _ => good
      | .error e => bad e) := by
  refine Keeps.bind keeps_quiet_elapse fun o => ?_
  split
  · exact hgood
  · exact hbad _

theorem keeps_quiet_sendCommand (cmd : String) : Keeps (Quiet w) (sendCommand env cmd) := by
  refine Keeps.bind Keeps.get fun w' => ?_
  split
  · exact Keeps.throw _
  · refine Keeps.bind keeps_quiet_elapse fun o => ?_
    split
    · exact Keeps.modify fun w' h => h.trans ⟨rfl, rfl⟩
    · exact Keeps.bind (Keeps.modify fun w' h => h.trans ⟨rfl, rfl⟩) fun _ => Keeps.throw _

theorem quiet_announceNow (env : Env) (w : World) : Quiet w (announceNow env w).2 := by
  refine Keeps.bind Keeps.get (fun w' => ?_) w (Quiet.refl w)
  split
  · exact Keeps.throw _
  · exact keeps_quiet_awaited (Keeps.modify fun w' h => h.trans ⟨rfl, rfl⟩) fun _ => Keeps.throw _

theorem quiet_dsStart (env : Env) (args : DsStartArgs) (w : World) :
    Quiet w (dsStart env args w).2 := by
  rcases dsManagerStart_cases env args w with ⟨e, hrun⟩ | hrun
  · rw [dsStart, bind_error hrun]
    exact Quiet.refl w
  · rw [dsStart, bind_ok hrun]
    apply Quiet.save
    exact ⟨rfl, rfl⟩

theorem quiet_dsStop (env : Env) (w : World) : Quiet w (dsStop env w).2 := by
  apply Quiet.save
  exact ⟨rfl, rfl⟩

theorem quiet_dsChangelevel (env : Env) (map : String) (w : World) :
    Quiet w (dsChangelevel env map w).2 := by
  refine Keeps.bind (keeps_quiet_sendCommand _) (fun _ => ?_) w (Quiet.refl w)
  intro w' h
  apply Quiet.save
  exact ⟨h.sessions, h.saved⟩

theorem quiet_dsSetCheats (env : Env) (enabled : Bool) (w : World) :
    Quiet w (dsSetCheats env enabled w).2 := by
  refine Keeps.bind (keeps_quiet_sendCommand _) (fun _ => ?_) w (Quiet.refl w)
  intro w' h
  apply Quiet.save
  exact ⟨h.sessions, h.saved⟩

/-! ## Starts and stops -/

theorem quiet_stopRole (env : Env) (r : Role) (w : World) :
    Quiet (w.stop r) (stopRole env r w).2 :=
  Quiet.save (Quiet.refl _) env

/-- A start leaves the nodes alone, or is the start of an absent session. -/
theorem startRole_effect (env : Env) (r : Role) (running : String) (args : r.Args) (w : World) :
    Quiet w (startRole env r running args w).2 ∨
      w.sessions r = none ∧ Quiet (w.start env r args) (startRole env r running args w).2 := by
  rw [startRole_run]
  split
  · exact .inl (Quiet.refl w)
  · rename_i hnone
    split
    · refine .inr ⟨by simpa using hnone, ?_⟩
      apply Quiet.save
      exact ⟨rfl, rfl⟩
    · exact .inl ⟨rfl, rfl⟩

/-- A stop and the start after it. -/
theorem restart_effect (env : Env) (r : Role) (running : String) (args : r.Args) (w : World) :
    let w' := (startRole env r running args (stopRole env r w).2).2
    Quiet (w.stop r) w' ∨ Quiet ((w.stop r).start env r args) w' := by
  have hstop := quiet_stopRole env r w
  rcases startRole_effect env r running args (stopRole env r w).2 with h | ⟨-, h⟩
  · exact .inl (hstop.trans h)
  · refine .inr (Quiet.trans ⟨?_, ?_⟩ h)
    · simp only [World.start, hstop.sessions]
    · simp [World.start, hstop.saved]

theorem effect_restart (r : Role) {o : Op} {args : r.Args} {running : String}
    (ho : o.argsFor w r = some args)
    (h : Quiet (startRole env r running args (stopRole env r w).2).2 w') : Effect env w o w' := by
  rcases restart_effect env r running args w with hstop | hstart
  · exact .stopped r (hstop.trans h)
  · exact .restarted r ho (hstart.trans h)

theorem effect_restartBridgeServer (env : Env) (w : World) :
    Effect env w .restartBridgeServer (restartBridgeServer env w).2 := by
  simp only [restartBridgeServer, get_bind]
  cases hargs : w.lastArgs .server with
  | none =>
      exact .quiet (Quiet.refl w)
  | some args =>
      exact effect_restart .server hargs (Quiet.refl _)

theorem effect_restartClient (env : Env) (w : World) :
    Effect env w .restartClient (restartClient env w).2 := by
  simp only [restartClient, get_bind]
  cases hargs : w.lastArgs .client with
  | none =>
      exact .quiet (Quiet.refl w)
  | some args =>
      exact effect_restart .client hargs (Quiet.refl _)

theorem validateHexHash_cases (env : Env) (hexStr : String) (w : World) :
    (∃ e, validateHexHash env hexStr w = (.error e, w)) ∨
      validateHexHash env hexStr w = (.ok (), w) := by
  unfold validateHexHash
  cases Hex.decode (trim hexStr) with
  | error e =>
      exact .inl ⟨_, rfl⟩
  | ok bytes =>
      by_cases hlen : bytes.length ≠ 16
      · simp only [if_pos hlen]
        exact .inl ⟨_, rfl⟩
      · simp only [if_neg hlen]
        exact .inr rfl

theorem effect_connectAndLaunch (env : Env) (serverHashHex : String) (w : World) :
    Effect env w (.connectAndLaunch serverHashHex) (connectAndLaunch env serverHashHex w).2 := by
  simp only [connectAndLaunch, get_bind]
  cases hargs : w.lastArgs .client with
  | none =>
      exact .quiet (Quiet.refl w)
  | some args =>
      rcases validateHexHash_cases env serverHashHex w with ⟨e, hvalid⟩ | hvalid
      · simp only [bind_error hvalid]
        exact .quiet (Quiet.refl w)
      · simp only [bind_ok hvalid]
        -- after the start only the waiting and the launch are left
        have hwait : ∀ w', Quiet w' ((do waitForUdpBind env args.listenPort; launch env : Ctl Unit)
            w').2 := by
          intro w'
          refine Keeps.bind (keeps_quiet_awaited (Keeps.pure _) fun _ => Keeps.throw _) (fun _ => ?_)
            w' (Quiet.refl w')
          exact keeps_quiet_awaited (Keeps.pure _) fun e => Keeps.throw e
        refine effect_restart .client ?_ (Quiet.bind fun _ => hwait)
        simp [Op.argsFor, hargs]

theorem ownedInterface_cases (idHex : String) (w : World) :
    (∃ e, ownedInterface idHex w = (.error e, w)) ∨
    ∃ r id, sessionOwningInterface w idHex = some r ∧ findInterfaceByHex w r idHex = some id ∧
      ownedInterface idHex w = (.ok (r, id), w) := by
  simp only [ownedInterface, get_bind]
  cases howner : sessionOwningInterface w idHex with
  | none =>
      exact .inl ⟨_, rfl⟩
  | some r =>
      cases hfound : findInterfaceByHex w r idHex with
      | none =>
          simp only [hfound]
          exact .inl ⟨_, rfl⟩
      | some id =>
          simp only [hfound]
          exact .inr ⟨r, id, rfl, hfound, rfl⟩

/-- A removal fails without a trace, or detaches what it has found. -/
theorem removeInterface_cases (env : Env) (idHex : String) (w : World) :
    (∃ e, removeInterface env idHex w = (.error e, w)) ∨
    ∃ r id, sessionOwningInterface w idHex = some r ∧ findInterfaceByHex w r idHex = some id ∧
      removeInterface env idHex w = (.ok (), (w.removed r id idHex).save env) := by
  rcases ownedInterface_cases idHex w with ⟨e, howned⟩ | ⟨r, id, howner, hfound, howned⟩
  · exact .inl ⟨e, bind_error howned⟩
  · exact .inr ⟨r, id, howner, hfound, (bind_ok howned).trans rfl⟩

theorem effect_renameInterface (env : Env) (idHex name : String) (w : World) :
    Effect env w (.renameInterface idHex name) (renameInterface env idHex name w).2 := by
  rcases ownedInterface_cases idHex w with ⟨e, howned⟩ | ⟨r, id, -, -, howned⟩
  · rw [renameInterface, bind_error howned]
    exact .quiet (Quiet.refl w)
  · rw [renameInterface, bind_ok howned]
    simp only [elapse_bind]
    cases (env.outcome w.clock).result with
    | ok _ =>
        exact .renamed ⟨rfl, rfl⟩
    | error e =>
        exact .quiet ⟨rfl, rfl⟩

/-! ## All operations -/

theorem effect_of_adds {o : Op} (ho : o.adds = some d) : Effect env w o (o.run env w).2 := by
  rw [Op.run_of_adds ho]
  rcases reattach_cases (Op.shaped_of_adds ho) env w with
    ⟨e, hrun | hrun⟩ | ⟨r, a, hrole, hsession, hasked, hbound, hrun⟩
  · rw [hrun]
    exact .quiet (Quiet.refl w)
  · rw [hrun]
    exact .quiet ⟨rfl, rfl⟩
  · rw [hrun]
    exact .added ho hrole hsession hasked hbound rfl

/-- Every operation but `resume` has one of the effects. -/
theorem effect_of_run {o : Op} (ho : o ≠ .resume) : Effect env w o (o.run env w).2 := by
  cases o with
  | startBridgeServer args =>
      rcases startRole_effect env .server _ args w with h | ⟨hnone, h⟩
      · exact .quiet h
      · exact .started .server (by simp [Op.argsFor, hnone]) hnone h
  | startClient args =>
      rcases startRole_effect env .client _ args w with h | ⟨hnone, h⟩
      · exact .quiet h
      · exact .started .client (by simp [Op.argsFor, hnone]) hnone h
  | stopBridgeServer => exact .stopped _ (quiet_stopRole env .server w)
  | stopClient => exact .stopped _ (quiet_stopRole env .client w)
  | restartBridgeServer => exact effect_restartBridgeServer env w
  | restartClient => exact effect_restartClient env w
  | connectAndLaunch serverHashHex => exact effect_connectAndLaunch env serverHashHex w
  | addInterfaceTcp | addInterfaceAuto | addInterfaceUdp | addInterfaceWebsocket =>
      exact effect_of_adds rfl
  | removeInterface idHex =>
      rcases removeInterface_cases env idHex w with ⟨e, hrun⟩ | ⟨r, id, howner, hfound, hrun⟩
      · exact .quiet (by rw [Op.run, hrun]; exact Quiet.refl w)
      · exact .removed rfl howner hfound (by rw [Op.run, hrun]; exact (Quiet.refl _).save env)
  | renameInterface idHex name => exact effect_renameInterface env idHex name w
  | announceNow => exact .quiet (quiet_announceNow env w)
  | dsStart args => exact .quiet (quiet_dsStart env args w)
  | dsStop => exact .quiet (quiet_dsStop env w)
  | dsChangelevel map => exact .quiet (quiet_dsChangelevel env map w)
  | dsSetCheats enabled => exact .quiet (quiet_dsSetCheats env enabled w)
  | resume => exact absurd rfl ho

end Controller
end SvenBridge
