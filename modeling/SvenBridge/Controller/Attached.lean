import SvenBridge.Controller.Rows

/-!
# Controller.Attached — saved interfaces and the running nodes

The saved interfaces are attached by the `add_interface_*` that save them and by `resume`; the other
operations that bring up a session leave them out.  This file contains

* `Attached` — the node lists the interface a saved descriptor asks for, with its access code, and
  has not been told to drop it;
* `KeepsAttached` — the steps that lose no saved interface;
* `Pending` — what `resume` still has to attach while it runs;
* `saved_attached` — in runs of such steps every saved interface of a running session is attached.
-/

namespace SvenBridge
namespace Controller

open Lib

variable {env : Env} {file : Option ByteArray} {w w' : World} {r r' : Role} {id : InterfaceId}
  {ifac : Option RuntimeIfac} {a : Attachable} {d : InterfaceDescriptor} {cs : List Component}

/-! ## Attached interfaces -/

/-- The node lists the interface with this access code, and has not been told to drop it. -/
structure Held (w : World) (r : Role) (id : InterfaceId) (ifac : Option RuntimeIfac) : Prop where
  listed : ∃ row ∈ w.interfaces r, row.id = id ∧ row.ifac = ifac
  kept : id ∉ w.detaching r

/-- The node of the role holds the interface the descriptor asks for. -/
def Attached (env : Env) (w : World) (r : Role) (d : InterfaceDescriptor) : Prop :=
  ∃ a, d.attachable = .ok a ∧ Held w r (env.interfaceId a) d.runtimeIfac

/-- Every saved interface of a running session is attached to its node. -/
def AllAttached (env : Env) (w : World) : Prop :=
  ∀ r, (w.sessions r).isSome = true → ∀ d ∈ w.settings.interfaces, Role.parse d.role = some r →
    Attached env w r d

/-! ## Conditions -/

/-- The id neither leaves nor joins once more: a second attach of an id ends both interfaces. -/
def NodeChange.Spares (c : NodeChange) (id : InterfaceId) : Prop :=
  id ∉ c.left ∧ id ∉ c.joined

/-- No saved interface leaves its node by itself, or is joined by another one of its id. -/
def Stays (env : Env) (w : World) (r : Role) (c : NodeChange) : Prop :=
  ∀ d ∈ w.settings.interfaces, Role.parse d.role = some r → ∀ a, d.attachable = .ok a →
    Held w r (env.interfaceId a) d.runtimeIfac → c.Spares (env.interfaceId a)

/-- The interface is not one the node has, or is still to drop, and neither it nor a saved one leaves
or is attached a second time meanwhile. -/
structure FirmAdd (env : Env) (w : World) (r : Role) (a : Attachable) : Prop where
  new : env.interfaceId a ∉ w.ids r
  dropped : env.interfaceId a ∉ w.detaching r
  remains : (env.outcome (w.bound a).clock).node.Spares (env.interfaceId a)
  others : Stays env w r (env.outcome (w.bound a).clock).node

/-- An interface of a running session is attached again, and stays. -/
def Component.Restores (env : Env) (w : World) : Component → Prop
  | .interface d => ∀ r, Role.parse d.role = some r → (w.sessions r).isSome = true →
      (reattach env d w).1 = .ok () ∧ ∀ a, d.attachable = .ok a → FirmAdd env w r a
  | .server _ | .client _ | .ds _ => True

/-- The session brings the saved interfaces of its role along: the arguments ask for each of them,
once and with its access code, which is none. -/
def CoversSaved (env : Env) (w : World) (r : Role) (args : r.Args) : Prop :=
  let own := attachInterfaces env (r.tcp args) (r.auto args)
  ∀ d ∈ w.settings.interfaces, Role.parse d.role = some r → ∃ a, d.attachable = .ok a ∧
    (∃ row ∈ own, row.id = env.interfaceId a ∧ row.ifac = d.runtimeIfac) ∧
    (own.map Interface.id).count (env.interfaceId a) = 1

/-- What is removed is saved under its id. -/
def RemovesSaved (env : Env) (w : World) (idHex : String) : Prop :=
  ∀ r id, sessionOwningInterface w idHex = some r → findInterfaceByHex w r idHex = some id →
    ∀ d ∈ w.settings.interfaces, Role.parse d.role = some r →
      d.attachable.map env.interfaceId = .ok id → d.hasId idHex = true

/-- The step loses no saved interface. -/
def KeepsAttached (env : Env) (w : World) : Action → Prop
  | .op .resume =>
      DuringAttempts env (fun w c => c.Restores env w) (components w.settings.deduped)
        (w.collapsed env)
  | .op (.removeInterface idHex) => RemovesSaved env w idHex
  | .op o =>
      (∀ r args, o.argsFor w r = some args → CoversSaved env w r args) ∧
        ∀ d r a, o.adds = some d → Role.parse d.role = some r → d.attachable = .ok a →
          FirmAdd env w r a
  | .node r c => Stays env w r c
  | .dsTask _ => True

/-! ## What a node holds -/

theorem Held.of_sessions (h : Held w r id ifac) (hsessions : w'.sessions = w.sessions) :
    Held w' r id ifac := by
  constructor
  · rw [World.interfaces, hsessions]
    exact h.listed
  · rw [World.detaching, hsessions]
    exact h.kept

theorem Held.mem_ids (h : Held w r id ifac) : id ∈ w.ids r := by
  obtain ⟨row, hrow, rfl, -⟩ := h.listed
  exact List.mem_map_of_mem hrow

/-- Only a running node holds anything. -/
theorem Held.isSome (h : Held w r id ifac) : ∃ s, w.sessions r = some s := by
  cases hs : w.sessions r with
  | none =>
      obtain ⟨row, hrow, -⟩ := h.listed
      simp [World.interfaces, hs] at hrow
  | some s => exact ⟨s, rfl⟩

theorem mem_apply_of_spares {c : NodeChange} {rows : List Interface} {row : Interface}
    (h : row ∈ rows) (hspares : c.Spares row.id) : row ∈ c.apply rows := by
  have hfold : ∀ (joined : List InterfaceId) (rows : List Interface), row ∈ rows →
      row.id ∉ joined →
        row ∈ joined.foldl (fun rows id => Keyed.upsert Interface.id (.own id) rows) rows := by
    intro joined
    induction joined with
    | nil =>
        intro rows hmem _
        exact hmem
    | cons other joined ih =>
        intro rows hmem hnot
        rw [List.mem_cons, not_or] at hnot
        exact ih _ (Keyed.mem_upsert_of_ne hmem hnot.1) hnot.2
  refine hfold _ _ (List.mem_filter.2 ⟨h, ?_⟩) hspares.2
  simpa using hspares.1

theorem Held.change {c : NodeChange} (h : Held w r id ifac) (hspares : r = r' → c.Spares id) :
    Held (w.change r' c) r id ifac := by
  by_cases hr : r = r'
  · subst hr
    obtain ⟨s, hs⟩ := h.isSome
    obtain ⟨row, hrow, rfl, hifac⟩ := h.listed
    have hkept : row.id ∉ s.detaching := by
      simpa [World.detaching, hs] using h.kept
    refine ⟨⟨row, ?_, rfl, hifac⟩, ?_⟩
    · have hold : row ∈ s.interfaces := by
        simpa [World.interfaces, hs] using hrow
      simpa [World.interfaces, World.change, World.mapSession, hs]
        using mem_apply_of_spares hold (hspares rfl)
    · simp [World.detaching, World.change, World.mapSession, hs, hkept]
  · constructor
    · rw [interfaces_change_ne w c hr]
      exact h.listed
    · simpa [World.detaching, World.change, World.mapSession, hr] using h.kept

/-- Another interface is attached. -/
theorem Held.attach {x : Attachment} (h : Held w r id ifac) (desc : InterfaceDescriptor)
    (hne : r = x.role → id ≠ env.interfaceId x.attachable) :
    Held (w.attach env x desc) r id ifac := by
  by_cases hr : r = x.role
  · subst hr
    obtain ⟨s, hs⟩ := h.isSome
    obtain ⟨row, hrow, rfl, hifac⟩ := h.listed
    refine ⟨⟨row, ?_, rfl, hifac⟩, ?_⟩
    · have hold : row ∈ s.interfaces := by
        simpa [World.interfaces, hs] using hrow
      have hstays : row ∈ Keyed.upsert Interface.id
          { id := env.interfaceId x.attachable, name := none, ifac := x.ifac, addedFor := some desc }
          s.interfaces := Keyed.mem_upsert_of_ne hold (hne rfl)
      simpa [World.interfaces, World.attach, World.mapSession, hs] using hstays
    · simpa [World.detaching, World.attach, World.mapSession, hs] using h.kept
  · constructor
    · simpa [World.interfaces, World.attach, World.mapSession, hr] using h.listed
    · simpa [World.detaching, World.attach, World.mapSession, hr] using h.kept

theorem held_attach_self {x : Attachment} (hsession : (w.sessions x.role).isSome = true)
    (hnew : env.interfaceId x.attachable ∉ w.detaching x.role) (desc : InterfaceDescriptor) :
    Held (w.attach env x desc) x.role (env.interfaceId x.attachable) x.ifac := by
  obtain ⟨s, hs⟩ := Option.isSome_iff_exists.1 hsession
  let row : Interface :=
    { id := env.interfaceId x.attachable, name := none, ifac := x.ifac, addedFor := some desc }
  refine ⟨⟨row, ?_, rfl, rfl⟩, ?_⟩
  · simpa [World.interfaces, World.attach, World.mapSession, hs]
      using Keyed.mem_upsert_self Interface.id row s.interfaces
  · simpa [World.detaching, World.attach, World.mapSession, hs] using hnew

theorem Held.added (h : Held w r' id ifac) (hne : r' = r → id ≠ env.interfaceId a)
    (hspares : r' = r → (env.outcome (w.bound a).clock).node.Spares id) :
    Held (w.added env r a d) r' id ifac := by
  have hbound : Held (w.bound a) r' id ifac := h.of_sessions (World.bound_sessions w a)
  have hattach : Held ((w.bound a).attach env ⟨r, a, d.runtimeIfac⟩ d.unattached) r' id ifac :=
    hbound.attach d.unattached hne
  have helapse : Held ((w.bound a).attach env ⟨r, a, d.runtimeIfac⟩ d.unattached).elapse r' id
      ifac := hattach.of_sessions rfl
  have hjoined : Held (w.joined env r a d) r' id ifac := helapse.change hspares
  exact hjoined.of_sessions (by simp [World.added, World.setInterfaces])

theorem held_added_self (hsession : (w.sessions r).isSome = true) (hfirm : FirmAdd env w r a) :
    Held (w.added env r a d) r (env.interfaceId a) d.runtimeIfac := by
  have hattach : Held ((w.bound a).attach env ⟨r, a, d.runtimeIfac⟩ d.unattached) r
      (env.interfaceId a) d.runtimeIfac := by
    apply held_attach_self
    · simpa using hsession
    · simpa [World.detaching] using hfirm.dropped
  have helapse : Held ((w.bound a).attach env ⟨r, a, d.runtimeIfac⟩ d.unattached).elapse r
      (env.interfaceId a) d.runtimeIfac := hattach.of_sessions rfl
  have hjoined : Held (w.joined env r a d) r (env.interfaceId a) d.runtimeIfac :=
    helapse.change fun _ => hfirm.remains
  exact hjoined.of_sessions (by simp [World.added, World.setInterfaces])

theorem Held.removed {other : InterfaceId} {idHex : String} (h : Held w r' id ifac)
    (hne : r' = r → id ≠ other) : Held (w.removed r other idHex) r' id ifac := by
  refine ⟨by simpa [interfaces_removed] using h.listed, ?_⟩
  by_cases hr : r' = r
  · subst hr
    cases hs : w.sessions r' with
    | none =>
        simp [World.detaching, World.removed, World.setInterfaces, World.detach, World.mapSession,
          hs]
    | some s =>
        have hkept : id ∉ s.detaching := by
          simpa [World.detaching, hs] using h.kept
        simp [World.detaching, World.removed, World.setInterfaces, World.detach, World.mapSession,
          hs, hkept, hne rfl]
  · simpa [World.detaching, World.removed, World.setInterfaces, World.detach, World.mapSession, hr]
      using h.kept

theorem Held.renamed (h : Held w r' id ifac) (other : InterfaceId) (name : String) :
    Held (w.renamed r other name) r' id ifac := by
  by_cases hr : r' = r
  · subst hr
    obtain ⟨row, hrow, hid, hifac⟩ := h.listed
    have hdetaching : (w.renamed r' other name).detaching r' = w.detaching r' := by
      cases hs : w.sessions r' <;> simp [World.detaching, World.renamed, World.mapSession, hs]
    refine ⟨⟨if row.id = other then { row with name := some name } else row, ?_, ?_, ?_⟩,
      hdetaching ▸ h.kept⟩
    · rw [interfaces_renamed_self]
      exact List.mem_map.2 ⟨row, hrow, rfl⟩
    · split <;> exact hid
    · split <;> exact hifac
  · constructor
    · rw [interfaces_renamed_ne other name hr]
      exact h.listed
    · simpa [World.detaching, World.renamed, World.mapSession, hr] using h.kept

/-! ## Operations -/

theorem AllAttached.of_held (h : AllAttached env w)
    (hsession : ∀ r, (w'.sessions r).isSome = true → (w.sessions r).isSome = true)
    (hsaved : ∀ d ∈ w'.settings.interfaces, d ∈ w.settings.interfaces)
    (hheld : ∀ r, ∀ d ∈ w'.settings.interfaces, Role.parse d.role = some r → ∀ a,
      d.attachable = .ok a → Held w r (env.interfaceId a) d.runtimeIfac →
        Held w' r (env.interfaceId a) d.runtimeIfac) :
    AllAttached env w' := by
  intro r hsome d hd hrole
  rcases h r (hsession r hsome) d (hsaved d hd) hrole with ⟨a, hasked, hold⟩
  exact ⟨a, hasked, hheld r d hd hrole a hasked hold⟩

theorem AllAttached.quiet (h : AllAttached env w) (hquiet : Quiet w w') : AllAttached env w' := by
  refine h.of_held ?_ ?_ ?_
  · intro r hsome
    rwa [hquiet.sessions] at hsome
  · intro d hd
    rwa [hquiet.saved] at hd
  · intro r d _ _ a _ hold
    exact hold.of_sessions hquiet.sessions

theorem AllAttached.stop (h : AllAttached env w) (r : Role) : AllAttached env (w.stop r) := by
  intro r' hsome d hd hrole
  by_cases hr : r' = r
  · subst hr
    simp [World.stop] at hsome
  · have hold : (w.sessions r').isSome = true := by simpa [World.stop, hr] using hsome
    rcases h r' hold d (by simpa [World.stop] using hd) hrole with ⟨a, hasked, hheld⟩
    refine ⟨a, hasked, ?_, ?_⟩
    · rw [interfaces_stop_ne hr]
      exact hheld.listed
    · simpa [World.detaching, World.stop, hr] using hheld.kept

theorem AllAttached.start (h : AllAttached env w) {args : r.Args}
    (hcovers : CoversSaved env w r args) : AllAttached env (w.start env r args) := by
  intro r' hsome d hd hrole
  have hsaved : d ∈ w.settings.interfaces := by simpa [World.start] using hd
  by_cases hr : r' = r
  · subst hr
    rcases hcovers d hsaved hrole with ⟨a, hasked, hmem, -⟩
    refine ⟨a, hasked, ?_, by simp [World.detaching, World.start, Session.new]⟩
    rwa [interfaces_start_self]
  · have hold : (w.sessions r').isSome = true := by simpa [World.start, hr] using hsome
    rcases h r' hold d hsaved hrole with ⟨a, hasked, hheld⟩
    refine ⟨a, hasked, ?_, ?_⟩
    · rw [interfaces_start_ne args hr]
      exact hheld.listed
    · simpa [World.detaching, World.start, hr] using hheld.kept

theorem AllAttached.change {c : NodeChange} (h : AllAttached env w) (hstays : Stays env w r c) :
    AllAttached env (w.change r c) := by
  refine h.of_held ?_ (fun d hd => hd) ?_
  · intro r' hsome
    rwa [World.change, isSome_mapSession] at hsome
  · intro r' d hd hrole a hasked hold
    refine hold.change ?_
    rintro rfl
    exact hstays d hd hrole a hasked hold

/-! ## Resuming -/

/-- What is saved for a running session is attached, or still to be attached. -/
def Pending (env : Env) (w : World) (cs : List Component) : Prop :=
  ∀ r, (w.sessions r).isSome = true → ∀ d ∈ w.settings.interfaces, Role.parse d.role = some r →
    Attached env w r d ∨ ∃ t, Component.interface t ∈ cs ∧ t.role = d.role ∧
      t.attachable = d.attachable ∧ t.runtimeIfac = d.runtimeIfac

theorem pending_nil : Pending env w [] ↔ AllAttached env w := by
  simp [Pending, AllAttached]

/-- An attach that has come about settles its component. -/
theorem Pending.added {t written : InterfaceDescriptor} (h : Pending env w (.interface t :: cs))
    (hrole : Role.parse t.role = some r) (hsession : (w.sessions r).isSome = true)
    (hasked : t.attachable = .ok a) (hwritten : written.role = t.role)
    (hasked' : written.attachable = t.attachable) (hifac : written.runtimeIfac = t.runtimeIfac)
    (hfirm : FirmAdd env w r a) : Pending env (w.added env r a written) cs := by
  have hself : Held (w.added env r a written) r (env.interfaceId a) written.runtimeIfac :=
    held_added_self hsession hfirm
  intro r' hsome d hd hdrole
  rw [World.added_settings, recordInterface_eq_upsert] at hd
  rcases Keyed.mem_upsert hd with rfl | hold
  · -- the descriptor just recorded
    have hr : r' = r := by
      have hparse : Role.parse written.role = some r' := hdrole
      rw [hwritten, hrole] at hparse
      exact (Option.some.inj hparse).symm
    subst hr
    exact .inl ⟨a, hasked'.trans hasked, hself⟩
  · have hsome' : (w.sessions r').isSome = true := by
      rwa [isSome_added] at hsome
    rcases h r' hsome' d hold hdrole with ⟨a', hasked₁, hheld⟩ | ⟨t', hmem, htrole, htasked, htifac⟩
    · refine .inl ⟨a', hasked₁, hheld.added ?_ ?_⟩
      · rintro rfl heq
        exact hfirm.new (heq ▸ hheld.mem_ids)
      · rintro rfl
        exact hfirm.others d hold hdrole a' hasked₁ hheld
    · rcases List.mem_cons.1 hmem with heq | hrest
      · cases heq
        have hr : r' = r := by
          rw [← htrole, hrole] at hdrole
          exact (Option.some.inj hdrole).symm
        subst hr
        rw [hifac, htifac] at hself
        exact .inl ⟨a, htasked.symm.trans hasked, hself⟩
      · exact .inr ⟨t', hrest, htrole, htasked, htifac⟩

theorem Pending.quiet (h : Pending env w cs) (hquiet : Quiet w w') : Pending env w' cs := by
  intro r hsome d hd hrole
  rw [hquiet.sessions] at hsome
  rw [hquiet.saved] at hd
  rcases h r hsome d hd hrole with ⟨a, hasked, hheld⟩ | hpending
  · exact .inl ⟨a, hasked, hheld.of_sessions hquiet.sessions⟩
  · exact .inr hpending

/-- An attach for a role that is not running settles its component too. -/
theorem Pending.absent {t : InterfaceDescriptor} (h : Pending env w (.interface t :: cs))
    (habsent : ∀ r, Role.parse t.role = some r → (w.sessions r).isSome ≠ true) :
    Pending env w cs := by
  intro r hsome d hd hrole
  rcases h r hsome d hd hrole with hattached | ⟨t', hmem, htrole, hsame⟩
  · exact .inl hattached
  · rcases List.mem_cons.1 hmem with heq | hrest
    · cases heq
      exact absurd hsome (habsent r (htrole ▸ hrole))
    · exact .inr ⟨t', hrest, htrole, hsame⟩

theorem Pending.reattach {t : InterfaceDescriptor} (h : Pending env w (.interface t :: cs))
    (hrestores : (Component.interface t).Restores env w) :
    Pending env (reattach env t w).2 cs := by
  -- what fails is for a role that is not running
  have hfailed : ∀ {e w'}, Controller.reattach env t w = (.error e, w') → Quiet w w' →
      Pending env w' cs := by
    intro e w' hrun hquiet
    refine (h.absent ?_).quiet hquiet
    intro r hrole hsome
    have hok := (hrestores r hrole hsome).1
    rw [hrun] at hok
    cases hok
  rcases reattach_written env t with ⟨e, hthrow⟩ | ⟨hshaped, hwritten⟩
  · have hrun : Controller.reattach env t w = (.error e, w) := by rw [hthrow]; rfl
    rw [hrun]
    exact hfailed hrun (Quiet.refl w)
  · rcases reattach_cases hshaped env w with
      ⟨e, hrun | hrun⟩ | ⟨r, a, hrole, hsession, hasked, -, hrun⟩
    · rw [← hwritten] at hrun
      rw [hrun]
      exact hfailed hrun (Quiet.refl w)
    · rw [← hwritten] at hrun
      rw [hrun]
      exact hfailed hrun ⟨rfl, rfl⟩
    · rw [InterfaceDescriptor.written_role] at hrole
      rw [InterfaceDescriptor.written_attachable] at hasked
      rw [hwritten, hrun]
      exact h.added hrole hsession hasked t.written_role t.written_attachable t.written_runtimeIfac
        ((hrestores r hrole hsession).2 a hasked)

/-- The attempts for what is not a session leave nothing pending. -/
theorem Pending.attempts (h : Pending env w cs)
    (hcs : ∀ c ∈ cs, (∃ t, c = .interface t) ∨ ∃ args, c = .ds args)
    (hrestores : DuringAttempts env (fun w c => c.Restores env w) cs w) :
    AllAttached env (attempts env cs w).2 := by
  induction cs generalizing w with
  | nil =>
      exact pending_nil.1 h
  | cons c cs ih =>
      refine ih ?_ (fun c hc => hcs c (List.mem_cons_of_mem _ hc)) hrestores.2
      rcases hcs c List.mem_cons_self with ⟨t, rfl⟩ | ⟨args, rfl⟩
      · exact (h.reattach hrestores.1).quiet ⟨rfl, rfl⟩
      · have hrest : Pending env w cs := by
          intro r hsome d hd hrole
          simpa using h r hsome d hd hrole
        refine Pending.quiet (w := (restartDs env args w).2) (hrest.quiet ?_) ⟨rfl, rfl⟩
        rcases restartDs_cases env args w with ⟨ds, ⟨e, hrun⟩ | hrun⟩
        · rw [hrun]
          exact ⟨rfl, rfl⟩
        · rw [hrun]
          apply Quiet.save
          exact ⟨rfl, rfl⟩

/-- Bringing up sessions leaves the saved interfaces alone. -/
theorem saved_attempts (hcs : ∀ c ∈ cs, (∃ args, c = .server args) ∨ ∃ args, c = .client args) :
    (attempts env cs w).2.settings.interfaces = w.settings.interfaces := by
  have hstart : ∀ (r : Role) (running : String) (args : r.Args) (w : World),
      (startRole env r running args w).2.settings.interfaces = w.settings.interfaces := by
    intro r running args w
    rcases startRole_effect env r running args w with hquiet | ⟨-, hquiet⟩
    · exact hquiet.saved
    · rw [hquiet.saved]
      simp [World.start]
  induction cs generalizing w with
  | nil =>
      rfl
  | cons c cs ih =>
      refine (ih fun c hc => hcs c (List.mem_cons_of_mem _ hc)).trans ?_
      rcases hcs c List.mem_cons_self with ⟨args, rfl⟩ | ⟨args, rfl⟩
      · exact hstart .server _ args w
      · exact hstart .client _ args w

theorem duringAttempts_append {P : World → Component → Prop} {cs' : List Component}
    (h : DuringAttempts env P (cs ++ cs') w) :
    DuringAttempts env P cs' (attempts env cs w).2 := by
  induction cs generalizing w with
  | nil =>
      exact h
  | cons c cs ih =>
      exact ih h.2

/-- Whatever was attached before, `resume` attaches what is saved for the running sessions. -/
theorem allAttached_resume
    (hrestores : DuringAttempts env (fun w c => c.Restores env w) (components w.settings.deduped)
      (w.collapsed env)) : AllAttached env (resume env w).2 := by
  let s := w.settings.deduped
  let starts := (ifRunning s.bridgeRunning s.bridge).map Component.server ++
    (ifRunning s.clientRunning s.client).map .client
  let others := s.interfaces.map (fun d => Component.interface d.unattached) ++
    (ifRunning s.dsRunning s.ds).map .ds
  have hcomponents : components s = starts ++ others := by
    simp [components, starts, others]
  rw [resume_run, collapsed_settings, hcomponents, attempts_append]
  rw [hcomponents] at hrestores
  have hsaved : (attempts env starts (w.collapsed env)).2.settings.interfaces = s.interfaces := by
    rw [saved_attempts, collapsed_settings]
    intro c hc
    simp only [starts, List.mem_append, List.mem_map] at hc
    rcases hc with ⟨args, -, rfl⟩ | ⟨args, -, rfl⟩
    · exact .inl ⟨args, rfl⟩
    · exact .inr ⟨args, rfl⟩
  refine Pending.attempts ?_ ?_ (duringAttempts_append hrestores)
  · -- the sessions are up, and every saved interface has its turn ahead
    intro r _ d hd _
    rw [hsaved] at hd
    refine .inr ⟨d.unattached, ?_, rfl, rfl, rfl⟩
    exact List.mem_append_left _ (List.mem_map.2 ⟨d, hd, rfl⟩)
  · intro c hc
    simp only [others, List.mem_append, List.mem_map] at hc
    rcases hc with ⟨d, -, rfl⟩ | ⟨args, -, rfl⟩
    · exact .inl ⟨_, rfl⟩
    · exact .inr ⟨args, rfl⟩

/-! ## Runs -/

theorem AllAttached.added (h : AllAttached env w) (hrole : Role.parse d.role = some r)
    (hsession : (w.sessions r).isSome = true) (hasked : d.attachable = .ok a)
    (hfirm : FirmAdd env w r a) : AllAttached env (w.added env r a d) := by
  have hpending : Pending env w [.interface d] := fun r hsome d hd hrole =>
    .inl (h r hsome d hd hrole)
  exact pending_nil.1 (hpending.added hrole hsession hasked rfl rfl rfl hfirm)

theorem AllAttached.removed {idHex : String} (h : AllAttached env w)
    (hremoves : ∀ d ∈ w.settings.interfaces, Role.parse d.role = some r →
      d.attachable.map env.interfaceId = .ok id → d.hasId idHex = true) :
    AllAttached env (w.removed r id idHex) := by
  refine h.of_held ?_ ?_ ?_
  · intro r' hsome
    exact (isSome_mapSession w r _ r').symm.trans hsome
  · intro d hd
    exact (List.mem_filter.1 hd).1
  · intro r' d hd hrole a hasked hold
    refine hold.removed ?_
    rintro rfl rfl
    have hkept := List.mem_filter.1 hd
    have hid := hremoves d hkept.1 hrole (by rw [hasked]; rfl)
    simp [hid] at hkept

theorem AllAttached.renamed (h : AllAttached env w) (other : InterfaceId) (name : String) :
    AllAttached env (w.renamed r other name) := by
  refine h.of_held ?_ (fun d hd => hd) fun r' d _ _ a _ hold => hold.renamed other name
  intro r' hsome
  rwa [World.renamed, isSome_mapSession] at hsome

theorem AllAttached.run {o : Op} (h : AllAttached env w) (hok : KeepsAttached env w (.op o)) :
    AllAttached env (o.run env w).2 := by
  by_cases hresume : o = .resume
  · subst hresume
    exact allAttached_resume hok
  have hargs : ∀ r args, o.argsFor w r = some args → CoversSaved env w r args := by
    cases o with
    | resume => exact absurd rfl hresume
    | removeInterface idHex =>
        intro r args hargs
        cases r <;> cases hargs
    | _ => exact hok.1
  have hadds : ∀ d r a, o.adds = some d → Role.parse d.role = some r → d.attachable = .ok a →
      FirmAdd env w r a := by
    cases o with
    | resume => exact absurd rfl hresume
    | removeInterface idHex =>
        intro d r a hadds
        cases hadds
    | _ => exact hok.2
  cases (effect_of_run hresume : Effect env w o (o.run env w).2) with
  | quiet hquiet => exact h.quiet hquiet
  | stopped r hquiet => exact (h.stop r).quiet hquiet
  | started r ho _ hquiet => exact (h.start (hargs r _ ho)).quiet hquiet
  | restarted r ho hquiet =>
      refine ((h.stop r).start ?_).quiet hquiet
      intro d hd hrole
      exact hargs r _ ho d (by simpa [World.stop] using hd) hrole
  | added ho hrole hsession hasked _ heq =>
      rw [heq]
      exact h.added hrole hsession hasked (hadds _ _ _ ho hrole hasked)
  | removed ho howner hfound hquiet =>
      subst ho
      exact (h.removed (hok _ _ howner hfound)).quiet hquiet
  | renamed hquiet => exact (h.renamed _ _).quiet hquiet

theorem AllAttached.after {x : Action} (h : AllAttached env w) (hok : KeepsAttached env w x) :
    AllAttached env (w.after env x) := by
  cases x with
  | op o => exact h.run hok
  | node r c => exact h.change hok
  | dsTask ds => exact h.quiet ⟨rfl, rfl⟩

/-- In every run whose steps lose no saved interface, whenever a session is running every interface
saved for its role is attached to its node, with its access code. -/
theorem saved_attached (h : (machine env file).Reachable (KeepsAttached env) w)
    (hsession : (w.sessions r).isSome = true) (hd : d ∈ w.settings.interfaces)
    (hrole : Role.parse d.role = some r) : Attached env w r d := by
  have hall : AllAttached env w := by
    refine Machine.Reachable.invariant ?_ ?_ h
    · intro r hsome
      cases hsome
    · intro w a w' hw hok hstep
      cases hstep
      exact hw.after hok
  exact hall r hsession d hd hrole

/-- A client is started after a resume, and an interface is added. -/
theorem exists_saved_attached : ∃ w d, d ∈ w.settings.interfaces ∧
    (w.sessions .client).isSome = true ∧ Attached .calm w .client d := by
  let w₁ := (World.new .calm none).after .calm (.op .resume)
  let w₂ := w₁.after .calm (.op (.startClient .bare))
  let w₃ := w₂.after .calm (.op (.addInterfaceAuto "client" none none))
  let d : InterfaceDescriptor :=
    { id := some "0600000000000000", kind := "auto", role := "client", addr := none,
      peerAddr := none, ifacName := none, ifacPassphrase := none }
  have hresume : KeepsAttached .calm (.new .calm none) (.op .resume) := trivial
  have hstart : KeepsAttached .calm w₁ (.op (.startClient .bare)) := by
    refine ⟨?_, fun d r a hd => by cases hd⟩
    intro r args _ d hd
    cases hd
  have hadd : KeepsAttached .calm w₂ (.op (.addInterfaceAuto "client" none none)) := by
    refine ⟨?_, ?_⟩
    · intro r args hargs
      cases r <;> cases hargs
    · rintro d r a hd hrole hasked
      cases hd
      cases hrole
      cases hasked
      refine ⟨by decide +kernel, by decide +kernel, ⟨by decide +kernel, by decide +kernel⟩, ?_⟩
      intro d hd
      cases hd
  have hw : (machine .calm none).Reachable (KeepsAttached .calm) w₃ :=
    .tail (.tail (.tail .refl hresume rfl) hstart rfl) hadd rfl
  have hd : d ∈ w₃.settings.interfaces := by decide +kernel
  have hsession : (w₃.sessions .client).isSome = true := by decide +kernel
  exact ⟨w₃, d, hd, hsession, saved_attached hw hsession hd rfl⟩

/-- After a resume a server is started, an interface is added, and the server is restarted; nothing
fails, and the new node does not list the interface that is still saved. -/
theorem restart_forgets : ∃ w₁ w d, (∀ n, (Env.calm.outcome n).result = .ok ()) ∧
    w₁ = (World.new .calm none).after .calm (.op .resume) ∧
    (machine .calm none).Leads Machine.always w₁ w ∧
    (w.sessions .server).isSome = true ∧ d ∈ w.settings.interfaces ∧
    Role.parse d.role = some .server ∧ ¬ Attached .calm w .server d := by
  let w₁ := (World.new .calm none).after .calm (.op .resume)
  let w₂ := w₁.after .calm (.op (.startBridgeServer .bare))
  let w₃ := w₂.after .calm (.op (.addInterfaceTcp "h:1" "server" none none))
  let w₄ := w₃.after .calm (.op .restartBridgeServer)
  let d : InterfaceDescriptor :=
    { id := some "01683a3100000000", kind := "tcp", role := "server", addr := some "h:1",
      peerAddr := none, ifacName := none, ifacPassphrase := none }
  have hw : (machine .calm none).Leads Machine.always w₁ w₄ :=
    .tail (.tail (.tail .refl trivial rfl) trivial rfl) trivial rfl
  have hids : w₄.ids .server = [] := by decide +kernel
  refine ⟨w₁, w₄, d, fun _ => rfl, rfl, hw, by decide +kernel, by decide +kernel, rfl, ?_⟩
  rintro ⟨a, -, hheld⟩
  have hlisted := hheld.mem_ids
  rw [hids] at hlisted
  cases hlisted

/-- A client is started with the address of a saved interface as its own: the node lists the id, but
without the access code that is saved. -/
theorem own_client_lacks_code : ∃ w d, (machine .calm none).Reachable Machine.always w ∧
    (w.sessions .client).isSome = true ∧ d ∈ w.settings.interfaces ∧
    Role.parse d.role = some .client ∧ d.attachable = .ok (.tcpClient "h:1") ∧
    Env.calm.interfaceId (.tcpClient "h:1") ∈ w.ids .client ∧ ¬ Attached .calm w .client d := by
  let w₁ := (World.new .calm none).after .calm (.op (.startClient .bare))
  let w₂ := w₁.after .calm (.op (.addInterfaceTcp "h:1" "client" (some "n") none))
  let w₃ := w₂.after .calm (.op .stopClient)
  let w₄ := w₃.after .calm (.op (.startClient { ClientArgs.bare with tcp := some "h:1" }))
  let d : InterfaceDescriptor :=
    { id := some "01683a3100000000", kind := "tcp", role := "client", addr := some "h:1",
      peerAddr := none, ifacName := some "n", ifacPassphrase := none }
  have hw : (machine .calm none).Reachable Machine.always w₄ :=
    .tail (.tail (.tail (.tail .refl trivial rfl) trivial rfl) trivial rfl) trivial rfl
  have hopen : (w₄.interfaces .client).all (fun row => row.ifac.isNone) = true := by decide +kernel
  have hcode : d.runtimeIfac.isSome = true := by decide +kernel
  refine ⟨w₄, d, hw, by decide +kernel, by decide +kernel, rfl, by decide +kernel,
    by decide +kernel, ?_⟩
  rintro ⟨a, -, ⟨row, hrow, -, hifac⟩, -⟩
  have hnone := List.all_eq_true.1 hopen row hrow
  rw [hifac] at hnone
  rw [Option.isNone_iff_eq_none.1 hnone] at hcode
  cases hcode

end Controller
end SvenBridge
