import SvenBridge.Controller.Operations

/-!
# Controller.Invariant — what every operation keeps

`Stable I` says that `I` is kept by the few ways the operations change the world: a session is
started or stopped and saved, the saved plan is changed and saved, a node's rows change, something
is logged.  Then every operation keeps `I`, however it ends.
-/

namespace SvenBridge
namespace Controller

open Lib Command

variable {env : Env} {I : World → Prop} {w : World} {r : Role}

/-- `I` is kept by every way the operations change the world. -/
structure Stable (env : Env) (I : World → Prop) : Prop where
  elapse : ∀ {w}, I w → I w.elapse
  start : ∀ {w} {r : Role} (args : r.Args), I w → I ((w.start env r args).save env)
  stop : ∀ {w} {r : Role}, I w → I ((w.stop r).save env)
  /-- The settings no session depends on. -/
  plan : ∀ {w} (interfaces : List InterfaceDescriptor) (ds : Option DsStartArgs) (dsRunning : Bool),
    I w → I (World.save env
      { w with
        settings.interfaces := interfaces, settings.ds := ds, settings.dsRunning := dsRunning })
  /-- The rows of a node. -/
  node : ∀ {w} {r : Role} {f : Session r → Session r}, (∀ s, (f s).args = s.args) →
    (∀ s, (f s).announceAppData = s.announceAppData) → I w → I (w.mapSession r f)
  log : ∀ {w} (ds : DsManager) (resumeErrors : List String) (announced : List (List UInt8))
    (attached : List Attachment) (detached : List (Role × InterfaceId)), I w →
    I { w with ds, resumeErrors, announced, attached, detached }

namespace Stable

theorem change (hI : Stable env I) (c : NodeChange) (h : I w) : I (w.change r c) :=
  hI.node (fun _ => rfl) (fun _ => rfl) h

theorem attach (hI : Stable env I) (a : Attachment) (desc : InterfaceDescriptor) (h : I w) :
    I (w.attach env a desc) :=
  hI.log w.ds _ _ _ _ (hI.node (fun _ => rfl) (fun _ => rfl) h)

theorem detach (hI : Stable env I) (id : InterfaceId) (h : I w) : I (w.detach r id) :=
  hI.log w.ds _ _ _ _ (hI.node (fun _ => rfl) (fun _ => rfl) h)

end Stable

/-! ## Operations -/

theorem keeps_session (role : String) : Keeps I (session env role) := by
  unfold session
  split
  · exact Keeps.throw _
  · refine Keeps.bind Keeps.get fun w => ?_
    split
    · exact Keeps.pure _
    · exact Keeps.throw _

theorem keeps_ownedInterface (idHex : String) : Keeps I (ownedInterface idHex) := by
  refine Keeps.bind Keeps.get fun w => ?_
  split
  · exact Keeps.throw _
  · split
    · exact Keeps.throw _
    · exact Keeps.pure _

section

variable (hI : Stable env I)
include hI

theorem keeps_elapse : Keeps I (elapse env) :=
  fun _ h => hI.elapse h

/-- Waiting for a call that changes nothing here. -/
theorem keeps_awaited {α : Type} {good : Ctl α} {bad : String → Ctl α}
    (hgood : Keeps I good) (hbad : ∀ e, Keeps I (bad e)) :
    Keeps I (elapse env >>= fun o => match o.result with
      | .ok _ => good
      | .error e => bad e) := by
  refine Keeps.bind (keeps_elapse hI) fun o => ?_
  split
  · exact hgood
  · exact hbad _

theorem keeps_startSession : Keeps I (startSession env) :=
  keeps_awaited hI (Keeps.pure _) fun e => Keeps.throw e

theorem keeps_startRole (r : Role) (running : String) (args : r.Args) :
    Keeps I (startRole env r running args) := by
  refine Keeps.bind Keeps.get fun w => ?_
  split
  · exact Keeps.throw _
  · refine Keeps.bind (keeps_startSession hI) fun _ => ?_
    -- the assignments and the save after them
    intro w h
    exact hI.start args h

theorem keeps_stopRole (r : Role) : Keeps I (stopRole env r) :=
  fun _ h => hI.stop h

theorem keeps_restartBridgeServer : Keeps I (restartBridgeServer env) := by
  refine Keeps.bind Keeps.get fun w => ?_
  split
  · exact Keeps.throw _
  · exact (keeps_stopRole hI _).bind fun _ => keeps_startRole hI _ _ _

theorem keeps_restartClient : Keeps I (restartClient env) := by
  refine Keeps.bind Keeps.get fun w => ?_
  split
  · exact Keeps.throw _
  · exact (keeps_stopRole hI _).bind fun _ => keeps_startRole hI _ _ _

theorem keeps_announceNow : Keeps I (announceNow env) := by
  refine Keeps.bind Keeps.get fun w => ?_
  split
  · exact Keeps.throw _
  · refine keeps_awaited hI ?_ fun e => Keeps.throw _
    intro w h
    exact hI.log _ _ _ _ _ h

theorem keeps_recordInterface (desc : InterfaceDescriptor) :
    Keeps I (recordInterfaceAndSave env desc) :=
  fun _ h => hI.plan _ _ _ h

theorem keeps_bindSocket (context : String) (attachable : Attachable) :
    Keeps I (bindSocket env context attachable) := by
  unfold bindSocket
  split
  · exact keeps_awaited hI (Keeps.pure _) fun _ => Keeps.throw _
  · exact Keeps.pure _

theorem keeps_addInterface (desc : InterfaceDescriptor) (networkName : Option String)
    (asked : Except String Attachable) (context : String) :
    Keeps I (addInterface env desc networkName asked context) := by
  refine Keeps.bind (keeps_session _) fun r => ?_
  split
  · exact Keeps.throw _
  · refine Keeps.bind Keeps.get fun w => Keeps.bind (keeps_bindSocket hI _ _) fun _ => ?_
    refine Keeps.bind (Keeps.modify fun w h => hI.attach _ _ h) fun _ => ?_
    refine Keeps.bind (keeps_elapse hI) fun o => ?_
    refine Keeps.bind (Keeps.modify fun w h => hI.change _ h) fun _ => ?_
    exact Keeps.bind Keeps.get fun w => keeps_recordInterface hI _

theorem keeps_removeInterface (idHex : String) : Keeps I (removeInterface env idHex) := by
  refine Keeps.bind (keeps_ownedInterface _) fun (r, id) => ?_
  intro w h
  exact hI.plan _ _ _ (hI.detach id h)

theorem keeps_renameInterface (idHex name : String) :
    Keeps I (renameInterface env idHex name) := by
  refine Keeps.bind (keeps_ownedInterface _) fun (r, id) => Keeps.bind (keeps_elapse hI) fun o => ?_
  split
  · exact Keeps.throw _
  · exact Keeps.modify fun w h => hI.node (fun _ => rfl) (fun _ => rfl) h

theorem keeps_dsStart (args : DsStartArgs) : Keeps I (dsStart env args) := by
  refine Keeps.bind (Keeps.bind Keeps.get fun w => ?_) fun _ => ?_
  · split
    · exact Keeps.throw _
    · split
      · exact Keeps.throw _
      · exact Keeps.modify fun w h => hI.log _ _ _ _ _ h
  · intro w h
    exact hI.plan _ _ _ h

theorem keeps_dsStop : Keeps I (dsStop env) :=
  fun _ h => hI.plan _ _ _ (hI.log _ _ _ _ _ h)

theorem keeps_sendCommand (cmd : String) : Keeps I (sendCommand env cmd) := by
  refine Keeps.bind Keeps.get fun w => ?_
  split
  · exact Keeps.throw _
  · refine Keeps.bind (keeps_elapse hI) fun o => ?_
    split
    · exact Keeps.modify fun w h => hI.log _ _ _ _ _ h
    · exact Keeps.bind (Keeps.modify fun w h => hI.log _ _ _ _ _ h) fun _ => Keeps.throw _

theorem keeps_dsChangelevel (map : String) : Keeps I (dsChangelevel env map) := by
  refine Keeps.bind (keeps_sendCommand hI _) fun _ => ?_
  intro w h
  exact hI.plan _ _ _ h

theorem keeps_dsSetCheats (enabled : Bool) : Keeps I (dsSetCheats env enabled) := by
  refine Keeps.bind (keeps_sendCommand hI _) fun _ => ?_
  intro w h
  exact hI.plan _ _ _ (hI.log _ _ _ _ _ h)

theorem keeps_connectAndLaunch (serverHashHex : String) :
    Keeps I (connectAndLaunch env serverHashHex) := by
  refine Keeps.bind Keeps.get fun w => ?_
  split
  · exact Keeps.throw _
  · refine Keeps.bind ?_ fun _ => (keeps_stopRole hI _).bind fun _ => (keeps_startRole hI _ _ _).bind
      fun _ => (keeps_awaited hI (Keeps.pure _) fun _ => Keeps.throw _).bind fun _ =>
        keeps_awaited hI (Keeps.pure _) fun e => Keeps.throw e
    unfold validateHexHash
    split
    · exact Keeps.throw _
    · split
      · exact Keeps.throw _
      · exact Keeps.pure _

/-! ## Resume -/

theorem keeps_report {label : String} {part : Ctl Unit} (hpart : Keeps I part) :
    Keeps I (report label part) := by
  refine Keeps.bind (Keeps.attempt hpart) fun ended => ?_
  split
  · exact Keeps.pure _
  · exact Keeps.modify fun w h => hI.log _ _ _ _ _ h

theorem keeps_reattach (desc : InterfaceDescriptor) : Keeps I (reattach env desc) := by
  unfold reattach
  split
  · exact keeps_addInterface hI _ _ _ _
  · exact keeps_addInterface hI _ _ _ _
  · exact keeps_addInterface hI _ _ _ _
  · exact keeps_addInterface hI _ _ _ _
  · exact Keeps.throw _

theorem keeps_reattachAll (descs : List InterfaceDescriptor) :
    Keeps I (reattachAll env descs) := by
  induction descs with
  | nil =>
      exact Keeps.pure _
  | cons desc rest ih =>
      exact (keeps_report hI (keeps_reattach hI desc)).bind fun _ => ih

theorem keeps_restartDs (args : DsStartArgs) : Keeps I (restartDs env args) :=
  Keeps.bind (keeps_elapse hI) fun _ => Keeps.bind (Keeps.modify fun _ h => hI.log _ _ _ _ _ h) fun _ =>
    keeps_dsStart hI args

theorem keeps_restore {α : Type} {label : String} {running : Bool} {saved : Option α}
    {start : α → Ctl Unit} (hstart : ∀ args, Keeps I (start args)) :
    Keeps I (restore label running saved start) := by
  unfold restore
  split
  · exact keeps_report hI (hstart _)
  · exact Keeps.pure _

/-- Collapsing saved duplicates, and saving if there were any. -/
theorem Stable.collapsed (h : I w) : I (w.collapsed env) := by
  have hclear : I { w with resumeErrors := [] } := hI.log _ _ _ _ _ h
  simp only [World.collapsed]
  split
  · exact hI.plan _ _ _ hclear
  · rename_i hunchanged
    have hsame : (dedupInterfaces w.settings.interfaces).1 = w.settings.interfaces :=
      dedupInterfaces_unchanged (by simpa using hunchanged)
    rw [hsame]
    exact hclear

theorem keeps_resume : Keeps I (resume env) := by
  refine Keeps.bind ?_ fun s => (keeps_restore hI fun _ => keeps_startRole hI _ _ _).bind fun _ =>
    (keeps_restore hI fun _ => keeps_startRole hI _ _ _).bind fun _ => (keeps_reattachAll hI _).bind fun _ =>
      keeps_restore hI (keeps_restartDs hI)
  intro w h
  rw [collapseSaved_run]
  exact hI.collapsed h

/-! ## Runs -/

theorem keeps_run (o : Op) : Keeps I (o.run env) := by
  cases o with
  | startBridgeServer args => exact keeps_startRole hI _ _ _
  | stopBridgeServer => exact keeps_stopRole hI _
  | restartBridgeServer => exact keeps_restartBridgeServer hI
  | startClient args => exact keeps_startRole hI _ _ _
  | stopClient => exact keeps_stopRole hI _
  | restartClient => exact keeps_restartClient hI
  | announceNow => exact keeps_announceNow hI
  | addInterfaceTcp addr role ifacName ifacPassphrase => exact keeps_addInterface hI _ _ _ _
  | addInterfaceAuto role ifacName ifacPassphrase => exact keeps_addInterface hI _ _ _ _
  | addInterfaceUdp localAddr peer role ifacName ifacPassphrase =>
      exact keeps_addInterface hI _ _ _ _
  | addInterfaceWebsocket addr role ifacName ifacPassphrase =>
      exact keeps_addInterface hI _ _ _ _
  | removeInterface idHex => exact keeps_removeInterface hI _
  | renameInterface idHex name => exact keeps_renameInterface hI _ _
  | dsStart args => exact keeps_dsStart hI _
  | dsStop => exact keeps_dsStop hI
  | dsChangelevel map => exact keeps_dsChangelevel hI _
  | dsSetCheats enabled => exact keeps_dsSetCheats hI _
  | connectAndLaunch serverHashHex => exact keeps_connectAndLaunch hI _
  | resume => exact keeps_resume hI

/-- What the nodes and the dedicated server do by themselves keeps a stable invariant too. -/
theorem Stable.after (h : I w) (a : Action) : I (w.after env a) := by
  cases a with
  | op o => exact keeps_run hI o w h
  | node r c => exact hI.change c h
  | dsTask ds => exact hI.log _ _ _ _ _ h

end

end Controller
end SvenBridge
