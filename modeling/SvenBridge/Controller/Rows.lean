import SvenBridge.Controller.Effect
import SvenBridge.Controller.Resume

/-!
# Controller.Rows — what each effect does to the rows of the nodes

The theorems about single interfaces follow rows through the effects of the operations and the
attempts of a resume.  This file contains

* `World.ids`, `World.detaching` — the ids a node lists, and those it has been told to drop;
* what stopping, starting, attaching, removing and renaming leave of them;
* `reattach_written` — the shape a saved descriptor is recorded in when it is attached again;
* `DuringAttempts` — a condition met by every component when its turn comes.
-/

namespace SvenBridge
namespace Controller

open Lib

variable {env : Env} {w w' : World} {r : Role} {row : Interface} {d e : InterfaceDescriptor}

/-! ## Rows -/

/-- `list_interfaces`: the rows of both nodes, the server's first. -/
def World.listInterfaces (w : World) : List (Role × Interface) :=
  [Role.server, Role.client].flatMap fun r => (w.interfaces r).map fun row => (r, row)

theorem mem_listInterfaces : (r, row) ∈ w.listInterfaces ↔ row ∈ w.interfaces r := by
  cases r <;> simp [World.listInterfaces]

/-- The ids the role's node lists. -/
def World.ids (w : World) (r : Role) : List InterfaceId :=
  (w.interfaces r).map Interface.id

/-- The ids the role's node has been told to drop and still lists. -/
def World.detaching (w : World) (r : Role) : List InterfaceId :=
  ((w.sessions r).map Session.detaching).getD []

theorem Quiet.interfaces (h : Quiet w w') (r : Role) : w'.interfaces r = w.interfaces r := by
  rw [World.interfaces, World.interfaces, h.sessions]

theorem Quiet.detaching (h : Quiet w w') (r : Role) : w'.detaching r = w.detaching r := by
  rw [World.detaching, World.detaching, h.sessions]

/-- Changing rows starts and stops no session. -/
theorem isSome_mapSession (w : World) (r : Role) (f : Session r → Session r) (r' : Role) :
    ((w.mapSession r f).sessions r').isSome = (w.sessions r').isSome := by
  by_cases hr : r' = r
  · subst hr
    simp [World.mapSession]
  · simp [World.mapSession, hr]

/-! ## Stopping and starting -/

@[simp] theorem interfaces_stop_self (w : World) (r : Role) : (w.stop r).interfaces r = [] := by
  simp [World.interfaces, World.stop]

theorem interfaces_stop_ne {r' : Role} (h : r' ≠ r) :
    (w.stop r).interfaces r' = w.interfaces r' := by
  simp [World.interfaces, World.stop, h]

@[simp] theorem interfaces_start_self (env : Env) (w : World) (r : Role) (args : r.Args) :
    (w.start env r args).interfaces r = attachInterfaces env (r.tcp args) (r.auto args) := by
  simp [World.interfaces, World.start, Session.new]

theorem interfaces_start_ne {r' : Role} (args : r.Args) (h : r' ≠ r) :
    (w.start env r args).interfaces r' = w.interfaces r' := by
  simp [World.interfaces, World.start, h]

theorem attachInterfaces_own {tcp : Option String} {auto : Bool}
    (h : row ∈ attachInterfaces env tcp auto) : row.addedFor = none := by
  simp only [attachInterfaces, List.mem_map] at h
  rcases h with ⟨id, -, rfl⟩
  rfl

/-! ## Rows that come and go -/

theorem interfaces_change_ne {r' : Role} (w : World) (c : NodeChange) (h : r' ≠ r) :
    (w.change r c).interfaces r' = w.interfaces r' := by
  simp [World.interfaces, World.change, World.mapSession, h]

/-- A row joins under an id of the node's choice, or has been there before. -/
theorem mem_apply {c : NodeChange} {rows : List Interface} (h : row ∈ c.apply rows) :
    (∃ id ∈ c.joined, row = .own id) ∨ row ∈ rows := by
  have hfold : ∀ (joined : List InterfaceId) (rows : List Interface),
      row ∈ joined.foldl (fun rows id => Keyed.upsert Interface.id (.own id) rows) rows →
        (∃ id ∈ joined, row = .own id) ∨ row ∈ rows := by
    intro joined
    induction joined with
    | nil =>
        intro rows hmem
        exact .inr hmem
    | cons id joined ih =>
        intro rows hmem
        rcases ih _ hmem with ⟨id', hid', heq⟩ | hmem
        · exact .inl ⟨id', List.mem_cons_of_mem _ hid', heq⟩
        · rcases Keyed.mem_upsert hmem with heq | hmem
          · exact .inl ⟨id, List.mem_cons_self, heq⟩
          · exact .inr hmem
  exact (hfold _ _ h).imp_right fun hmem => (List.mem_filter.1 hmem).1

theorem mem_change {c : NodeChange} (h : row ∈ (w.change r c).interfaces r) :
    (∃ id ∈ c.joined, row = .own id) ∨ row ∈ w.interfaces r := by
  cases hs : w.sessions r with
  | none =>
      simp [World.interfaces, World.change, World.mapSession, hs] at h
  | some s =>
      have hrows : (w.change r c).interfaces r = c.apply (w.interfaces r) := by
        simp [World.interfaces, World.change, World.mapSession, hs]
      rw [hrows] at h
      exact mem_apply h

/-! ## Attaching -/

/-- The rows after an attach: the one attached, the ones that joined meanwhile, and the old ones. -/
theorem mem_added_self {a : Attachable} (h : row ∈ (w.added env r a d).interfaces r) :
    row = { id := env.interfaceId a, name := none, ifac := d.runtimeIfac,
            addedFor := some d.unattached } ∨
      (∃ id ∈ (env.outcome (w.bound a).clock).node.joined, row = .own id) ∨
        row ∈ w.interfaces r := by
  have hchange : row ∈ (w.joined env r a d).interfaces r := by
    simpa [World.interfaces, World.added, World.setInterfaces] using h
  rcases mem_change hchange with hjoined | hattached
  · exact .inr (.inl hjoined)
  · cases hs : w.sessions r with
    | none =>
        simp [World.interfaces, World.elapse, World.attach, World.mapSession, hs] at hattached
    | some s =>
        have hold : s.interfaces = w.interfaces r := by simp [World.interfaces, hs]
        have hupsert : row ∈ Keyed.upsert Interface.id
            { id := env.interfaceId a, name := none, ifac := d.runtimeIfac,
              addedFor := some d.unattached }
            s.interfaces := by
          simpa [World.interfaces, World.elapse, World.attach, World.mapSession, hs]
            using hattached
        rw [← hold]
        exact (Keyed.mem_upsert hupsert).imp_right .inr

theorem interfaces_added_ne {r' : Role} {a : Attachable} (h : r' ≠ r) :
    (w.added env r a d).interfaces r' = w.interfaces r' := by
  simp [World.interfaces, World.added, World.setInterfaces, World.joined, World.change,
    World.elapse, World.attach, World.mapSession, h]

theorem isSome_added (env : Env) (w : World) (r : Role) (a : Attachable) (d : InterfaceDescriptor)
    (r' : Role) : ((w.added env r a d).sessions r').isSome = (w.sessions r').isSome := by
  have hattach : ∀ x desc, (((w.bound a).attach env x desc).elapse.sessions r').isSome =
      ((w.bound a).sessions r').isSome := fun x _ => isSome_mapSession _ x.role _ r'
  calc ((w.added env r a d).sessions r').isSome
      = ((w.joined env r a d).sessions r').isSome := by simp [World.added, World.setInterfaces]
    _ = ((w.bound a).sessions r').isSome := by rw [World.joined, World.change, isSome_mapSession, hattach]
    _ = (w.sessions r').isSome := by rw [World.bound_sessions]

/-! ## Removing and renaming -/

theorem interfaces_removed (w : World) (r : Role) (id : InterfaceId) (idHex : String) (r' : Role) :
    (w.removed r id idHex).interfaces r' = w.interfaces r' := by
  by_cases hr : r' = r
  · subst hr
    cases hs : w.sessions r' <;>
      simp [World.interfaces, World.removed, World.setInterfaces, World.detach, World.mapSession, hs]
  · simp [World.interfaces, World.removed, World.setInterfaces, World.detach, World.mapSession, hr]

theorem interfaces_renamed_ne {r' : Role} (id : InterfaceId) (name : String) (h : r' ≠ r) :
    (w.renamed r id name).interfaces r' = w.interfaces r' := by
  simp [World.interfaces, World.renamed, World.mapSession, h]

/-- A new name leaves a row's id and what it was attached for. -/
theorem interfaces_renamed_self (w : World) (r : Role) (id : InterfaceId) (name : String) :
    (w.renamed r id name).interfaces r = (w.interfaces r).map fun row =>
      if row.id = id then { row with name := some name } else row := by
  cases hs : w.sessions r <;> simp [World.interfaces, World.renamed, World.mapSession, hs]

/-! ## Attaching again -/

theorem attachable_eq_of_endpoint (h : d.endpoint = e.endpoint) : d.attachable = e.attachable := by
  simp only [InterfaceDescriptor.endpoint, Prod.mk.injEq] at h
  rcases h with ⟨hkind, -, haddr, hpeer⟩
  simp only [InterfaceDescriptor.attachable, hkind, haddr, hpeer]

/-- The descriptor that a new attachment of this one is recorded as. -/
def InterfaceDescriptor.written (d : InterfaceDescriptor) : InterfaceDescriptor :=
  match d.kind with
  | "tcp" | "websocket" =>
      { d.unattached with addr := some (d.addr.getD ""), peerAddr := none }
  | "auto" => { d.unattached with addr := none, peerAddr := none }
  | "udp" =>
      { d.unattached with addr := some (d.addr.getD ""), peerAddr := some (d.peerAddr.getD "") }
  | _ => d.unattached

@[simp] theorem InterfaceDescriptor.written_role (d : InterfaceDescriptor) :
    d.written.role = d.role := by
  unfold written
  split <;> rfl

@[simp] theorem InterfaceDescriptor.written_attachable (d : InterfaceDescriptor) :
    d.written.attachable = d.attachable := by
  rcases d with ⟨id, kind, role, addr, peerAddr, ifacName, ifacPassphrase⟩
  unfold written
  split <;> simp_all [attachable, unattached, withId]

@[simp] theorem InterfaceDescriptor.written_runtimeIfac (d : InterfaceDescriptor) :
    d.written.runtimeIfac = d.runtimeIfac := by
  rcases d with ⟨id, kind, role, addr, peerAddr, ifacName, ifacPassphrase⟩
  unfold written
  split <;> simp_all [runtimeIfac, networkName, unattached, withId]

/-- A kind `resume` does not know attaches nothing; the others are recorded in their shape. -/
theorem reattach_written (env : Env) (d : InterfaceDescriptor) :
    (∃ e, reattach env d = throw e) ∨
      Shaped d.written ∧ reattach env d = reattach env d.written := by
  rcases d with ⟨id, kind, role, addr, peerAddr, ifacName, ifacPassphrase⟩
  by_cases htcp : kind = "tcp"
  · subst htcp
    exact .inr ⟨.tcp, by
      simp [reattach, InterfaceDescriptor.written, InterfaceDescriptor.unattached,
        InterfaceDescriptor.withId]⟩
  by_cases hauto : kind = "auto"
  · subst hauto
    exact .inr ⟨.auto, by
      simp [reattach, InterfaceDescriptor.written, InterfaceDescriptor.unattached,
        InterfaceDescriptor.withId]⟩
  by_cases hudp : kind = "udp"
  · subst hudp
    exact .inr ⟨.udp, by
      simp [reattach, InterfaceDescriptor.written, InterfaceDescriptor.unattached,
        InterfaceDescriptor.withId]⟩
  by_cases hwebsocket : kind = "websocket"
  · subst hwebsocket
    exact .inr ⟨.websocket, by
      simp [reattach, InterfaceDescriptor.written, InterfaceDescriptor.unattached,
        InterfaceDescriptor.withId]⟩
  · refine .inl ⟨s!"unknown interface kind {kind} in settings", ?_⟩
    simp [reattach]

/-! ## Resuming -/

theorem collapsed_sessions (env : Env) (w : World) : (w.collapsed env).sessions = w.sessions := by
  simp only [World.collapsed]
  split <;> simp

/-- Every component meets the condition when its turn comes. -/
def DuringAttempts (env : Env) (P : World → Component → Prop) : List Component → World → Prop
  | [], _ => True
  | c :: cs, w => P w c ∧ DuringAttempts env P cs (w.attempted env c)

end Controller
end SvenBridge
