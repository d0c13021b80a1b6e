import SvenBridge.Controller.Coherence
import SvenBridge.Controller.Runs

/-!
# Controller.Resume — what `resume` does to the operator's plan

`resume` starts and attaches what the settings say was running, with operations that themselves
rewrite the settings.  This file contains

* `components` — what is started and attached for given settings, and `attempts`, which runs each
  of them in turn and notes the failures;
* `resume_run` — `resume` attempts the components of the collapsed settings;
* `Settings.plan` — the settings without runtime ids, which every attempt leaves as they are;
* `resume_keeps_plan` — the theorem about `resume`.
-/

namespace SvenBridge
namespace Controller

open Lib Command

variable {env : Env} {file : Option ByteArray} {w : World} {d : InterfaceDescriptor} {s : Settings}

/-! ## Components -/

/-- One thing `resume` brings back. -/
inductive Component where
  | server (args : ServerArgs)
  | client (args : ClientArgs)
  | interface (d : InterfaceDescriptor)
  | ds (args : DsStartArgs)

namespace Component

def run (env : Env) : Component → Ctl Unit
  | server args => startBridgeServer env args
  | client args => startClient env args
  | interface d => reattach env d
  | ds args => restartDs env args

def label (env : Env) : Component → String
  | server _ => "bridge server"
  | client _ => "bridge client"
  | interface d => s!"interface {env.debug d.addrOrKind}"
  | ds _ => "dedicated server"

/-- The attachment the component asks for. -/
def attachment : Component → Option Attachment
  | interface d => d.attachment
  | _ => none

end Component

/-- The saved value, if what it is for was running. -/
def ifRunning {α : Type} (running : Bool) (saved : Option α) : List α :=
  if running then saved.toList else []

/-- What `resume` brings back; the ids of earlier attachments play no part. -/
def components (s : Settings) : List Component :=
  (ifRunning s.bridgeRunning s.bridge).map .server ++
    (ifRunning s.clientRunning s.client).map .client ++
    s.interfaces.map (fun d => .interface d.unattached) ++
    (ifRunning s.dsRunning s.ds).map .ds

/-- A component and how its attempt ended. -/
abbrev Attempt := Component × Except String Unit

/-- The entry of a failed attempt in `resume_errors`. -/
def Attempt.failure (env : Env) : Attempt → Option String
  | (c, .error e) => some s!"{c.label env}: {e}"
  | (_, .ok _) => none

/-- The attachment a successful attempt made. -/
def Attempt.made : Attempt → Option Attachment
  | (c, .ok _) => c.attachment
  | (_, .error _) => none

/-- The world after an attempt, a failure noted. -/
def World.attempted (env : Env) (w : World) (c : Component) : World :=
  let w' := (c.run env w).2
  { w' with
    resumeErrors := w'.resumeErrors ++ (Attempt.failure env (c, (c.run env w).1)).toList }

/-- Attempt one component after the other. -/
def attempts (env : Env) : List Component → World → List Attempt × World
  | [], w => ([], w)
  | c :: cs, w =>
      let w' := w.attempted env c
      ((c, (c.run env w).1) :: (attempts env cs w').1, (attempts env cs w').2)

theorem attempts_append (env : Env) (cs cs' : List Component) (w : World) :
    attempts env (cs ++ cs') w =
      ((attempts env cs w).1 ++ (attempts env cs' (attempts env cs w).2).1,
        (attempts env cs' (attempts env cs w).2).2) := by
  -- the second part starts where the first one ends
  induction cs generalizing w with
  | nil =>
      rfl
  | cons c cs ih =>
      simp only [List.cons_append, attempts, ih]

theorem map_fst_attempts (env : Env) (cs : List Component) (w : World) :
    (attempts env cs w).1.map Prod.fst = cs := by
  induction cs generalizing w with
  | nil =>
      rfl
  | cons c cs ih =>
      simp [attempts, ih]

/-! ## `resume` attempts the components -/

theorem report_run (env : Env) (c : Component) (w : World) :
    report (c.label env) (c.run env) w = (.ok (), (attempts env [c] w).2) := by
  have hattempt : Command.attempt (c.run env) w = (.ok (c.run env w).1, (c.run env w).2) := rfl
  rw [report, bind_ok hattempt]
  cases hended : (c.run env w).1 with
  | ok _ =>
      simp [attempts, World.attempted, hended, Attempt.failure]
  | error e =>
      simp [attempts, World.attempted, hended, Attempt.failure]

theorem restore_run {α : Type} (env : Env) (component : α → Component) {label : String}
    (hlabel : ∀ args, (component args).label env = label) (running : Bool) (saved : Option α)
    (w : World) :
    restore label running saved (fun args => (component args).run env) w =
      (.ok (), (attempts env ((ifRunning running saved).map component) w).2) := by
  cases running with
  | false =>
      rfl
  -- running, but never started with arguments: there is nothing to attempt
  | true =>
      cases saved with
      | none =>
          rfl
      | some args =>
          have hreport := report_run env (component args) w
          rw [hlabel] at hreport
          exact hreport

theorem reattachAll_run (env : Env) (ds : List InterfaceDescriptor) (w : World) :
    reattachAll env ds w =
      (.ok (), (attempts env (ds.map fun d => .interface d.unattached) w).2) := by
  -- each attempt starts in the world that the one before it has left
  induction ds generalizing w with
  | nil =>
      rfl
  | cons d ds ih =>
      have hreport := report_run env (.interface d.unattached) w
      have hhead : reattachAll env (d :: ds) w =
          reattachAll env ds (attempts env [.interface d.unattached] w).2 := bind_ok hreport
      rw [hhead, ih]
      rfl

/-- `resume` attempts the components of the settings it has collapsed. -/
theorem resume_run (env : Env) (w : World) :
    resume env w =
      (.ok (), (attempts env (components (w.collapsed env).settings) (w.collapsed env)).2) := by
  have hserver := restore_run env .server fun _ => rfl
  have hclient := restore_run env .client fun _ => rfl
  have hds := restore_run env .ds fun _ => rfl
  -- the four parts one after the other; none of them fails
  rw [resume, bind_ok (collapseSaved_run env w)]
  refine (bind_ok (hserver _ _ _)).trans ?_
  refine (bind_ok (hclient _ _ _)).trans ?_
  refine (bind_ok (reattachAll_run env _ _)).trans ?_
  refine (hds _ _ _).trans ?_
  simp only [components, attempts_append]

/-! ## The plan -/

/-- The operator's choices: the settings without the ids of past attachments. -/
def Settings.plan (s : Settings) : Settings :=
  { s with interfaces := s.interfaces.map InterfaceDescriptor.unattached }

/-- Starting what is marked running, with the arguments that are stored. -/
theorem Settings.start_of_running {r : Role} {args : r.Args} (hargs : s.args r = some args)
    (hrunning : s.running r = true) : s.start r args = s := by
  cases s
  cases r <;> cases hargs <;> cases hrunning <;> rfl

/-- The plan settles the endpoints. -/
theorem Settings.endpoints_eq {s' : Settings} (h : s.plan = s'.plan) :
    s.interfaces.map InterfaceDescriptor.endpoint =
      s'.interfaces.map InterfaceDescriptor.endpoint := by
  have hinterfaces := congrArg Settings.interfaces h
  have hkeys := congrArg (List.map InterfaceDescriptor.endpoint) hinterfaces
  rw [plan, plan, List.map_map, List.map_map] at hkeys
  exact hkeys

/-- Recording a descriptor that is there already changes its id at most. -/
theorem recordInterface_unattached {ds : List InterfaceDescriptor}
    (hnodup : (ds.map InterfaceDescriptor.endpoint).Nodup)
    (hmem : d.unattached ∈ ds.map InterfaceDescriptor.unattached) (id : Option String) :
    (recordInterface ds (d.withId id)).map InterfaceDescriptor.unattached =
      ds.map InterfaceDescriptor.unattached := by
  rcases List.mem_map.1 hmem with ⟨z, hz, hzd⟩
  have hzkey : z.endpoint = d.endpoint := by
    simpa using congrArg InterfaceDescriptor.endpoint hzd
  have hkey : d.endpoint ∈ ds.map InterfaceDescriptor.endpoint := by
    rw [← hzkey]
    exact List.mem_map_of_mem hz
  rw [recordInterface_eq_upsert, Keyed.upsert_eq_map hnodup (by simpa using hkey), List.map_map]
  refine List.map_congr_left fun y hy => ?_
  by_cases hsame : y.endpoint = d.endpoint
  · -- the entry of this endpoint is the saved descriptor itself
    have hyz : y = z := List.inj_on_of_nodup_map hnodup hy hz (hsame.trans hzkey.symm)
    simp [hyz, hzd, hzkey]
  · simp [hsame]

/-! ## One attempt -/

theorem mem_components_server {args : ServerArgs} (h : Component.server args ∈ components s) :
    s.bridge = some args ∧ s.bridgeRunning = true := by
  simp only [components, ifRunning, List.mem_append, List.mem_map] at h
  cases hrunning : s.bridgeRunning <;> simp_all

theorem mem_components_client {args : ClientArgs} (h : Component.client args ∈ components s) :
    s.client = some args ∧ s.clientRunning = true := by
  simp only [components, ifRunning, List.mem_append, List.mem_map] at h
  cases hrunning : s.clientRunning <;> simp_all

theorem mem_components_ds {args : DsStartArgs} (h : Component.ds args ∈ components s) :
    s.ds = some args ∧ s.dsRunning = true := by
  simp only [components, ifRunning, List.mem_append, List.mem_map] at h
  cases hrunning : s.dsRunning <;> simp_all

theorem mem_components_interface (h : Component.interface d ∈ components s) :
    ∃ d' ∈ s.interfaces, d'.unattached = d := by
  simpa [components] using h

/-- What an attempt leaves: the same plan, and its attachment if it has succeeded. -/
structure Attempted (w w' : World) (a : Attempt) : Prop where
  plan : w'.settings.plan = w.settings.plan
  attached : w'.attached = w.attached ++ a.made.toList
  resumeErrors : w'.resumeErrors = w.resumeErrors

theorem startRole_attempted {r : Role} {args : r.Args} {c : Component} (running : String)
    (hnone : c.attachment = none) (hargs : w.settings.args r = some args)
    (hrunning : w.settings.running r = true) :
    Attempted w (startRole env r running args w).2 (c, (startRole env r running args w).1) := by
  have hsame := Settings.start_of_running hargs hrunning
  rw [startRole_run]
  split
  · exact ⟨rfl, by simp [Attempt.made], rfl⟩
  · cases (env.outcome w.clock).result with
    | ok _ =>
        refine ⟨?_, ?_, ?_⟩
        · simp [World.start, World.elapse, hsame]
        · simp [World.start, World.elapse, Attempt.made, hnone]
        · simp [World.start, World.elapse]
    | error e =>
        exact ⟨rfl, by simp [World.elapse, Attempt.made], rfl⟩

theorem restartDs_attempted {args : DsStartArgs} (hargs : w.settings.ds = some args)
    (hrunning : w.settings.dsRunning = true) :
    Attempted w (restartDs env args w).2 (.ds args, (restartDs env args w).1) := by
  rcases restartDs_cases env args w with ⟨ds, ⟨e, hrun⟩ | hrun⟩
  · rw [hrun]
    exact ⟨rfl, by simp [World.elapse, Attempt.made], rfl⟩
  · rw [hrun]
    refine ⟨?_, ?_, ?_⟩
    · simp [World.elapse, Settings.plan, hargs, hrunning]
    · simp [World.elapse, Attempt.made, Component.attachment]
    · simp [World.elapse]

theorem Shaped.unattached (h : Shaped d) : Shaped d.unattached := by
  cases h <;> constructor

theorem reattach_attempted (hshaped : Shaped d) (hnone : d.unattached = d)
    (hnodup : (w.settings.interfaces.map InterfaceDescriptor.endpoint).Nodup)
    (hmem : d ∈ w.settings.interfaces.map InterfaceDescriptor.unattached) :
    Attempted w (reattach env d w).2 (.interface d, (reattach env d w).1) := by
  rcases reattach_cases hshaped env w with ⟨e, hrun | hrun⟩ | ⟨r, a, hrole, -, hasked, -, hrun⟩
  · rw [hrun]
    exact ⟨rfl, by simp [Attempt.made], rfl⟩
  · rw [hrun]
    exact ⟨rfl, by simp [World.elapse, Attempt.made], rfl⟩
  · rw [hrun]
    have hmade : Attempt.made (.interface d, .ok ()) =
        some { role := r, attachable := a, ifac := d.runtimeIfac } := by
      simp [Attempt.made, Component.attachment, InterfaceDescriptor.attachment, hrole, hasked,
        Except.toOption]
    refine ⟨?_, ?_, ?_⟩
    · rw [World.added_settings, Settings.plan, recordInterface_unattached hnodup (by rwa [hnone])]
      rfl
    · rw [World.added_attached, hmade]
      rfl
    · rw [World.added_resumeErrors]

/-- Whatever comes of it, an attempt keeps the plan. -/
theorem attempted_of_mem {c : Component} (hc : c ∈ components s)
    (hshaped : ∀ d ∈ s.interfaces, Shaped d)
    (hnodup : (s.interfaces.map InterfaceDescriptor.endpoint).Nodup)
    (hplan : w.settings.plan = s.plan) :
    Attempted w (c.run env w).2 (c, (c.run env w).1) := by
  cases c with
  | server args =>
      rcases mem_components_server hc with ⟨hargs, hrunning⟩
      refine startRole_attempted _ rfl ?_ ?_
      · exact (show w.settings.plan.bridge = s.plan.bridge by rw [hplan]).trans hargs
      · exact (show w.settings.plan.bridgeRunning = s.plan.bridgeRunning by rw [hplan]).trans
          hrunning
  | client args =>
      rcases mem_components_client hc with ⟨hargs, hrunning⟩
      refine startRole_attempted _ rfl ?_ ?_
      · exact (show w.settings.plan.client = s.plan.client by rw [hplan]).trans hargs
      · exact (show w.settings.plan.clientRunning = s.plan.clientRunning by rw [hplan]).trans hrunning
  | interface d =>
      rcases mem_components_interface hc with ⟨d', hd', rfl⟩
      have hinterfaces : w.settings.plan.interfaces = s.plan.interfaces := by rw [hplan]
      refine reattach_attempted (hshaped d' hd').unattached rfl ?_ ?_
      · rw [Settings.endpoints_eq hplan]
        exact hnodup
      · rw [show w.settings.interfaces.map _ = _ from hinterfaces]
        exact List.mem_map_of_mem hd'
  | ds args =>
      rcases mem_components_ds hc with ⟨hargs, hrunning⟩
      refine restartDs_attempted ?_ ?_
      · exact (show w.settings.plan.ds = s.plan.ds by rw [hplan]).trans hargs
      · exact (show w.settings.plan.dsRunning = s.plan.dsRunning by rw [hplan]).trans hrunning

/-! ## All attempts -/

theorem attempts_spec {cs : List Component} (hcs : ∀ c ∈ cs, c ∈ components s)
    (hshaped : ∀ d ∈ s.interfaces, Shaped d)
    (hnodup : (s.interfaces.map InterfaceDescriptor.endpoint).Nodup)
    (hplan : w.settings.plan = s.plan) :
    (attempts env cs w).2.settings.plan = s.plan ∧
      (attempts env cs w).2.attached =
        w.attached ++ (attempts env cs w).1.filterMap Attempt.made ∧
      (attempts env cs w).2.resumeErrors =
        w.resumeErrors ++ (attempts env cs w).1.filterMap (Attempt.failure env) := by
  -- an attempt keeps the plan, and so the components that are still to be attempted
  induction cs generalizing w with
  | nil =>
      exact ⟨hplan, by simp [attempts], by simp [attempts]⟩
  | cons c cs ih =>
      have hstep : Attempted w (c.run env w).2 (c, (c.run env w).1) :=
        attempted_of_mem (hcs c List.mem_cons_self) hshaped hnodup hplan
      have hplan' : (w.attempted env c).settings.plan = s.plan := hstep.plan.trans hplan
      rcases ih (fun c hc => hcs c (List.mem_cons_of_mem _ hc)) hplan' with ⟨h₁, h₂, h₃⟩
      refine ⟨h₁, ?_, ?_⟩
      · rw [attempts, h₂]
        show (c.run env w).2.attached ++ _ = _
        rw [hstep.attached]
        cases hmade : Attempt.made (c, (c.run env w).1) <;> simp [hmade]
      · rw [attempts, h₃]
        show (c.run env w).2.resumeErrors ++ _ ++ _ = _
        rw [hstep.resumeErrors]
        cases hfailure : Attempt.failure env (c, (c.run env w).1) <;> simp [hfailure]

/-! ## `resume` -/

/-- The settings with their duplicates collapsed: what a resume is to bring back. -/
def Settings.deduped (s : Settings) : Settings :=
  { s with interfaces := (dedupInterfaces s.interfaces).1 }

@[simp] theorem collapsed_settings (env : Env) (w : World) :
    (w.collapsed env).settings = w.settings.deduped := by
  simp only [World.collapsed]
  split <;> simp [Settings.deduped]

@[simp] theorem collapsed_attached (env : Env) (w : World) :
    (w.collapsed env).attached = w.attached := by
  simp only [World.collapsed]
  split <;> simp

@[simp] theorem collapsed_resumeErrors (env : Env) (w : World) :
    (w.collapsed env).resumeErrors = [] := by
  simp only [World.collapsed]
  split <;> simp

theorem mem_dedupInterfaces {ds : List InterfaceDescriptor} (h : d ∈ (dedupInterfaces ds).1) :
    d ∈ ds := by
  rw [dedupInterfaces, dedupLoop_eq_gather] at h
  simpa using Keyed.mem_gather h

/-- The components are a matter of the plan. -/
theorem components_eq {s' : Settings} (h : s.plan = s'.plan) : components s = components s' := by
  have hplan : ∀ s : Settings, components s = components s.plan := by
    intro s
    simp [components, Settings.plan]
  rw [hplan s, h, ← hplan s']

/-- A controller started over the file of a run finds the settings of the run. -/
theorem settings_new_of_inv (hjson : env.json.RoundTrips) (h : Inv env file w)
    (hfailed : w.saveFailed = false) : (World.new env w.disk).settings = w.settings := by
  -- the file holds the last save, or what it held when the run began
  cases hsaved : w.saved with
  | true =>
      have hload := h.onDisk.saved hjson hsaved hfailed
      simp [World.new, hload]
  | false =>
      have huntouched := h.onDisk.unsaved hsaved
      rw [huntouched.disk, huntouched.settings]

/-- Whatever fails during `resume`: the settings afterwards are the deduplicated ones, in the same
order and with other runtime ids at most; each component is attempted once, a descriptor being
attached when its attempt succeeds, on the node of its own role with its own access code; there is
one error for each failed attempt; and a fresh controller over the saved file attempts the same
components. -/
theorem resume_keeps_plan (h : (machine env file).Reachable Machine.always w)
    (hshaped : ∀ d ∈ w.settings.interfaces, Shaped d) :
    let w' := (resume env w).2
    let tried := attempts env (components w.settings.deduped) (w.collapsed env)
    w'.settings.plan = w.settings.deduped.plan ∧
    tried.1.map Prod.fst = components w.settings.deduped ∧
    (w.settings.deduped.interfaces.map InterfaceDescriptor.endpoint).Nodup ∧
    w'.attached = w.attached ++ tried.1.filterMap Attempt.made ∧
    w'.resumeErrors = tried.1.filterMap (Attempt.failure env) ∧
    (env.json.RoundTrips → w'.saveFailed = false →
      components (World.new env w'.disk).settings.deduped = components w.settings.deduped) := by
  intro w' tried
  have hnodup := nodup_dedupInterfaces w.settings.interfaces
  have hrun : w' = tried.2 := by
    show (resume env w).2 = _
    rw [resume_run, collapsed_settings]
  have hspec : tried.2.settings.plan = w.settings.deduped.plan ∧
      tried.2.attached = (w.collapsed env).attached ++ tried.1.filterMap Attempt.made ∧
      tried.2.resumeErrors =
        (w.collapsed env).resumeErrors ++ tried.1.filterMap (Attempt.failure env) := by
    refine attempts_spec (fun c hc => hc) ?_ hnodup (by rw [collapsed_settings])
    intro d hd
    exact hshaped d (mem_dedupInterfaces hd)
  rcases hspec with ⟨hplan, hattached, herrors⟩
  rw [← hrun] at hplan hattached herrors
  refine ⟨hplan, map_fst_attempts env _ _, hnodup, by simpa using hattached,
    by simpa using herrors, ?_⟩
  intro hjson hfailed
  -- the file of the resumed controller is the one a fresh controller would load
  have hinv : Inv env file w' :=
    keeps_resume (stable_inv env file) w ((stable_inv env file).leads (inv_new env file) h)
  have hnodup' : (w'.settings.interfaces.map InterfaceDescriptor.endpoint).Nodup := by
    rw [Settings.endpoints_eq hplan]
    exact hnodup
  rw [settings_new_of_inv hjson hinv hfailed, Settings.deduped, dedupInterfaces_of_nodup hnodup']
  exact components_eq hplan

/-- A client with a saved Wi-Fi interface is resumed. -/
theorem exists_resume_keeps_plan : ∃ w, w.settings.interfaces ≠ [] ∧
    (resume .calm w).2.settings.plan = w.settings.deduped.plan ∧
    components (World.new .calm (resume .calm w).2.disk).settings.deduped =
      components w.settings.deduped := by
  let w := ((World.new .calm none).after .calm (.op (.startClient .bare))).after .calm
    (.op (.addInterfaceAuto "client" none none))
  have hw : (machine .calm none).Reachable Machine.always w :=
    .tail (.tail .refl trivial rfl) trivial rfl
  have hinterfaces : w.settings.interfaces =
      [{ id := some "0600000000000000", kind := "auto", role := "client", addr := none,
         peerAddr := none, ifacName := none, ifacPassphrase := none }] := by
    decide +kernel
  have hshaped : ∀ d ∈ w.settings.interfaces, Shaped d := by
    rw [hinterfaces]
    intro d hd
    cases List.mem_singleton.1 hd
    exact .auto
  have hfailed : (resume .calm w).2.saveFailed = false := by decide +kernel
  obtain ⟨hplan, -, -, -, -, hfresh⟩ := resume_keeps_plan hw hshaped
  exact ⟨w, by simp [hinterfaces], hplan, hfresh JsonText.roundTrips_plain hfailed⟩

end Controller
end SvenBridge
