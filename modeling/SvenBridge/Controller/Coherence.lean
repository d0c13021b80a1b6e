import SvenBridge.Controller.Invariant

/-!
# Controller.Coherence — sessions, settings and the settings file agree

Every operation keeps the controller coherent, whether it answers or fails part of the way:

* `Coherent` — a running session is the one the settings and the last arguments describe;
* `OnDisk` — the settings file is untouched, or holds the settings in memory;
* `controller_coherent` — both hold in every run.
-/

namespace SvenBridge
namespace Controller

open Lib Command

variable {env : Env} {file : Option ByteArray} {w : World} {r : Role}

/-! ## The invariant -/

/-- A session is running as the settings and the last arguments say. -/
structure Coherent (w : World) : Prop where
  session : ∀ r s, w.sessions r = some s →
    w.settings.running r = true ∧ w.lastArgs r = some s.args ∧
      s.announceAppData = r.announceAppData s.args
  lastArgs : ∀ r, w.lastArgs r = w.settings.args r

/-- No operation has changed anything since `new` read the file. -/
structure Untouched (env : Env) (file : Option ByteArray) (w : World) : Prop where
  disk : w.disk = file
  settings : w.settings = (World.new env file).settings
  lastArgs : w.lastArgs = (World.new env file).lastArgs
  sessions : ∀ r, w.sessions r = none

/-- Until the first save nothing is changed; from then on, unless a save fails, the file holds the
settings in memory. -/
structure OnDisk (env : Env) (file : Option ByteArray) (w : World) : Prop where
  saved : env.json.RoundTrips → w.saved = true → w.saveFailed = false →
    loadSettings env.json w.disk = some w.settings
  unsaved : w.saved = false → Untouched env file w

structure Inv (env : Env) (file : Option ByteArray) (w : World) : Prop where
  coherent : Coherent w
  onDisk : OnDisk env file w

theorem inv_new (env : Env) (file : Option ByteArray) : Inv env file (.new env file) := by
  refine ⟨⟨?_, ?_⟩, ⟨?_, ?_⟩⟩
  · rintro r s ⟨⟩
  · intro r
    cases r <;> rfl
  · rintro - ⟨⟩
  · intro _
    exact ⟨rfl, rfl, rfl, fun _ => rfl⟩

/-! ## Saving -/

theorem disk_save (hjson : env.json.RoundTrips) (h : (w.save env).saveFailed = false) :
    loadSettings env.json (w.save env).disk = some w.settings := by
  unfold World.save at h ⊢
  split at h
  · cases h
  · rename_i bytes hencode
    split at h
    · exact Settings.decode_encode hjson hencode
    · cases h

/-- Coherent settings are saved coherent, whatever the file was before. -/
theorem Coherent.save (h : Coherent w) : Inv env file (w.save env) := by
  refine ⟨⟨?_, ?_⟩, ⟨?_, ?_⟩⟩
  · simpa using h.session
  · simpa using h.lastArgs
  · intro hjson _ hfailed
    rw [World.save_settings]
    exact disk_save hjson hfailed
  · intro hunsaved
    simp at hunsaved

/-! ## The ways the world changes -/

theorem Coherent.start (h : Coherent w) (args : r.Args) : Coherent (w.start env r args) := by
  constructor
  · intro r' s hs
    by_cases hr : r' = r
    · subst hr
      have hnew : Session.new env r' args = s := by simpa [World.start] using hs
      subst hnew
      exact ⟨by simp [World.start, Settings.running_start], by simp [World.start, Session.new], rfl⟩
    · have hold : w.sessions r' = some s := by simpa [World.start, hr] using hs
      simpa [World.start, Settings.running_start, hr] using h.session r' s hold
  · intro r'
    by_cases hr : r' = r
    · subst hr
      simp [World.start, Settings.args_start]
    · simpa [World.start, Settings.args_start, hr] using h.lastArgs r'

theorem Coherent.stop (h : Coherent w) : Coherent (w.stop r) := by
  constructor
  · intro r' s hs
    by_cases hr : r' = r
    · subst hr
      simp [World.stop] at hs
    · have hold : w.sessions r' = some s := by simpa [World.stop, hr] using hs
      simpa [World.stop, Settings.running_stop, hr] using h.session r' s hold
  · intro r'
    simpa [World.stop] using h.lastArgs r'

/-- The settings no session depends on. -/
theorem Coherent.plan (h : Coherent w) (interfaces : List InterfaceDescriptor)
    (ds : Option DsStartArgs) (dsRunning : Bool) :
    Coherent { w with
      settings.interfaces := interfaces, settings.ds := ds, settings.dsRunning := dsRunning } :=
  ⟨fun r s hs => by cases r <;> exact h.session _ s hs, fun r => by cases r <;> exact h.lastArgs _⟩

/-- The rows of a node. -/
theorem Inv.mapSession (h : Inv env file w) {f : Session r → Session r}
    (hargs : ∀ s, (f s).args = s.args) (hdata : ∀ s, (f s).announceAppData = s.announceAppData) :
    Inv env file (w.mapSession r f) := by
  refine ⟨⟨?_, h.coherent.lastArgs⟩, ⟨h.onDisk.saved, ?_⟩⟩
  · intro r' s hs
    by_cases hr : r' = r
    · subst hr
      obtain ⟨t, ht, rfl⟩ : ∃ t, w.sessions r' = some t ∧ f t = s := by
        simpa [World.mapSession] using hs
      rw [hargs, hdata]
      exact h.coherent.session r' t ht
    · have hold : w.sessions r' = some s := by simpa [World.mapSession, hr] using hs
      exact h.coherent.session r' s hold
  · intro hunsaved
    have huntouched := h.onDisk.unsaved hunsaved
    refine ⟨huntouched.disk, huntouched.settings, huntouched.lastArgs, fun r' => ?_⟩
    by_cases hr : r' = r
    · subst hr
      simp [World.mapSession, huntouched.sessions]
    · simpa [World.mapSession, hr] using huntouched.sessions r'

theorem stable_inv (env : Env) (file : Option ByteArray) : Stable env (Inv env file) where
  elapse h := ⟨⟨h.coherent.session, h.coherent.lastArgs⟩,
    ⟨h.onDisk.saved, fun hu => ⟨(h.onDisk.unsaved hu).disk, (h.onDisk.unsaved hu).settings,
      (h.onDisk.unsaved hu).lastArgs, (h.onDisk.unsaved hu).sessions⟩⟩⟩
  start args h := (h.coherent.start args).save
  stop h := h.coherent.stop.save
  plan interfaces ds dsRunning h := (h.coherent.plan interfaces ds dsRunning).save
  node hargs hdata h := h.mapSession hargs hdata
  log _ _ _ _ _ h := ⟨⟨h.coherent.session, h.coherent.lastArgs⟩,
    ⟨h.onDisk.saved, fun hu => ⟨(h.onDisk.unsaved hu).disk, (h.onDisk.unsaved hu).settings,
      (h.onDisk.unsaved hu).lastArgs, (h.onDisk.unsaved hu).sessions⟩⟩⟩

/-- What has been saved stays saved. -/
theorem stable_saved (env : Env) : Stable env fun w => w.saved = true where
  elapse h := h
  start _ _ := World.save_saved env _
  stop _ := World.save_saved env _
  plan _ _ _ _ := World.save_saved env _
  node _ _ h := h
  log _ _ _ _ _ h := h

/-! ## Runs -/

theorem Stable.leads {I : World → Prop} (hI : Stable env I) {w w' : World} (hw : I w)
    (h : (machine env file).Leads Machine.always w w') : I w' := by
  refine Machine.Leads.invariant ?_ hw h
  intro w a t hw _ hstep
  cases hstep
  exact hI.after hw a

theorem announceNow_run (env : Env) (w : World) :
    announceNow env w =
      if (w.sessions .server).isNone then
        (.error "no bridge server session is running", w)
      else
        match (env.outcome w.clock).result with
        | .ok _ =>
            (.ok (), { w.elapse with
              announced := w.announced ++
                [serverAnnounceAppData ((w.lastArgs .server).bind ServerArgs.name)] })
        | .error e => (.error s!"announce failed: {e}", w.elapse) := by
  simp only [announceNow, get_bind]
  split
  · rfl
  · rw [elapse_bind]
    cases (env.outcome w.clock).result <;> rfl

/-- The manual announce carries the app data of the last arguments' name. -/
theorem announced_announceNow (hok : (announceNow env w).1 = .ok ()) :
    (announceNow env w).2.announced =
      w.announced ++ [serverAnnounceAppData ((w.lastArgs .server).bind ServerArgs.name)] := by
  rw [announceNow_run] at hok ⊢
  split at hok
  · cases hok
  · rename_i hsession
    rw [if_neg hsession]
    split at hok
    · rfl
    · cases hok

/-- In every run of the controller, with starts, binds, sends and writes ending in any way: a
session that is present is marked running and was started with the arguments the settings and
`last_*_args` hold; these agree always; the manual announce carries the app data of the session's
own announcer; and once anything has changed the settings file decodes to the settings in memory,
unless a save has failed. -/
theorem controller_coherent (h : (machine env file).Reachable Machine.always w) :
    (∀ r s, w.sessions r = some s → w.settings.running r = true ∧
      w.settings.args r = some s.args ∧ w.lastArgs r = some s.args) ∧
    (∀ r, w.lastArgs r = w.settings.args r) ∧
    (∀ s, w.sessions .server = some s → (announceNow env w).1 = .ok () →
      ∃ appData, s.announceAppData = some appData ∧
        (announceNow env w).2.announced = w.announced ++ [appData]) ∧
    (env.json.RoundTrips → ∀ w₁, (machine env file).Reachable Machine.always w₁ →
      ¬ Untouched env file w₁ → (machine env file).Leads Machine.always w₁ w →
        w.saveFailed = false → loadSettings env.json w.disk = some w.settings) := by
  have hinv := (stable_inv env file).leads (inv_new env file) h
  refine ⟨?_, hinv.coherent.lastArgs, ?_, ?_⟩
  · intro r s hs
    obtain ⟨hrunning, hlast, -⟩ := hinv.coherent.session r s hs
    exact ⟨hrunning, by rw [← hinv.coherent.lastArgs, hlast], hlast⟩
  · intro s hs hok
    obtain ⟨-, hlast, hdata⟩ := hinv.coherent.session _ s hs
    refine ⟨_, hdata, ?_⟩
    rw [announced_announceNow hok, hlast]
    rfl
  · intro hjson w₁ hw₁ htouched hleads hfailed
    have hinv₁ := (stable_inv env file).leads (inv_new env file) hw₁
    have hsaved₁ : w₁.saved = true := by
      by_contra hunsaved
      exact htouched (hinv₁.onDisk.unsaved (by simpa using hunsaved))
    exact hinv.onDisk.saved hjson ((stable_saved env).leads hsaved₁ hleads) hfailed

/-- A client that has been started is in the settings, and in the settings file. -/
theorem exists_controller_coherent : ∃ w s, (machine .calm none).Reachable Machine.always w ∧
    w.sessions .client = some s ∧ w.settings.args .client = some s.args ∧
    loadSettings .plain w.disk = some w.settings := by
  let w := (World.new .calm none).after .calm (.op (.startClient .bare))
  have hw : (machine .calm none).Reachable Machine.always w := .tail .refl trivial rfl
  have htouched : ¬ Untouched .calm none w := fun h => nomatch h.sessions .client
  have hfailed : w.saveFailed = false := by decide +kernel
  have hcoherent := controller_coherent hw
  exact ⟨w, .new .calm .client .bare, hw, rfl, (hcoherent.1 .client _ rfl).2.1,
    hcoherent.2.2.2 JsonText.roundTrips_plain w hw htouched .refl hfailed⟩

end Controller
end SvenBridge
