import SvenBridge.Controller.Rows

/-!
# Controller.Removal — removing exactly the chosen interface

A removal names an interface by its id alone: the owner is looked up in both sessions, and the saved
descriptor is the one that was recorded with this id.  This file contains

* `Tracked` — a row for which that is enough: no row of the server shadows it, and the descriptors
  saved with its id are those of its endpoint;
* `Unambiguous` — the steps that keep every added row tracked;
* `remove_exactly` — in runs of such steps a removal hits the chosen interface and nothing else.
-/

namespace SvenBridge
namespace Controller

open Lib

variable {env : Env} {file : Option ByteArray} {w w' : World} {r : Role} {row : Interface}
  {d e : InterfaceDescriptor}

/-! ## Tracked rows -/

/-- None of the ids is the id of an interface that was added to the client's node. -/
def OffClient (w : World) (ids : List InterfaceId) : Prop :=
  ∀ row ∈ w.interfaces .client, row.addedFor ≠ none → row.id ∉ ids

/-- A removal of the row can find it and its descriptor. -/
structure Tracked (env : Env) (w : World) (r : Role) (row : Interface) (e : InterfaceDescriptor) :
    Prop where
  role : e.role = r.name
  id : e.attachable.map env.interfaceId = .ok row.id
  owner : r = .client → row.id ∉ w.ids .server
  captured : ∀ d ∈ w.settings.interfaces, d.hasId row.id.hex = d.sameEndpoint e

/-- Every interface that an `add_interface_*` has attached is tracked. -/
def AllTracked (env : Env) (w : World) : Prop :=
  ∀ r, ∀ row ∈ w.interfaces r, ∀ e, row.addedFor = some e → Tracked env w r row e

/-! ## Conditions -/

/-- An attach that can be told from everything else: its id is the first new one the registry
lists; the saved descriptors with this id are then those of its endpoint; the other node has no row
that a removal would confuse it with; and no row joins the server's node under the id of an
interface added to the client's. -/
structure CleanAdd (env : Env) (w : World) (r : Role) (a : Attachable) (d : InterfaceDescriptor) :
    Prop where
  captured : w.captured env r a d = some (env.interfaceId a)
  saved : ∀ s ∈ recordInterface w.settings.interfaces (d.withId (some (env.interfaceId a).hex)),
    s.hasId (env.interfaceId a).hex = s.sameEndpoint d
  client : r = .client → env.interfaceId a ∉ w.ids .server
  server : r = .server →
    OffClient w (env.interfaceId a :: (env.outcome (w.bound a).clock).node.joined)

/-- The attach a descriptor asks for is clean, if it comes about. -/
def CleanAttach (env : Env) (w : World) (d : InterfaceDescriptor) : Prop :=
  ∀ r a, Role.parse d.role = some r → (w.sessions r).isSome = true → d.attachable = .ok a →
    (a.binds = true → (env.outcome w.clock).result = .ok ()) → CleanAdd env w r a d

/-- The rows a server with these arguments starts with. -/
def CleanStart (env : Env) (w : World) : (r : Role) → r.Args → Prop
  | .server, args =>
      OffClient w ((attachInterfaces env (Role.server.tcp args) (Role.server.auto args)).map
        Interface.id)
  | .client, _ => True

def Component.Clean (env : Env) (w : World) : Component → Prop
  | .server args => w.sessions .server = none → CleanStart env w .server args
  | .interface d => CleanAttach env w d.written
  | .client _ | .ds _ => True

/-- Whatever the step attaches to a node can be told from the interfaces that were added. -/
def Unambiguous (env : Env) (w : World) : Action → Prop
  | .op .resume =>
      DuringAttempts env (fun w c => c.Clean env w) (components w.settings.deduped)
        (w.collapsed env)
  | .op o =>
      (∀ r args, o.argsFor w r = some args → CleanStart env w r args) ∧
        ∀ d, o.adds = some d → CleanAttach env w d
  | .node .server c => OffClient w c.joined
  | .node .client _ | .dsTask _ => True

/-! ## What keeps rows tracked -/

/-- The rows of `w'` that were added are among those of `w`, the saved descriptors too, and no row
of the server newly shadows one of them. -/
theorem AllTracked.shrink (h : AllTracked env w)
    (hrows : ∀ r, ∀ row ∈ w'.interfaces r, ∀ e, row.addedFor = some e →
      ∃ old ∈ w.interfaces r, old.id = row.id ∧ old.addedFor = some e)
    (hsaved : ∀ d ∈ w'.settings.interfaces, d ∈ w.settings.interfaces)
    (hserver : ∀ row ∈ w.interfaces .client, row.addedFor ≠ none → row.id ∈ w'.ids .server →
      row.id ∈ w.ids .server) : AllTracked env w' := by
  intro r row hrow e hadded
  rcases hrows r row hrow e hadded with ⟨old, hold, hid, holdAdded⟩
  have htracked := h r old hold e holdAdded
  refine ⟨htracked.role, ?_, ?_, ?_⟩
  · rw [← hid]
    exact htracked.id
  · rintro rfl hmem
    rw [← hid] at hmem
    exact htracked.owner rfl (hserver old hold (by simp [holdAdded]) hmem)
  · intro d hd
    rw [← hid]
    exact htracked.captured d (hsaved d hd)

theorem AllTracked.quiet (h : AllTracked env w) (hquiet : Quiet w w') : AllTracked env w' := by
  refine h.shrink ?_ ?_ ?_
  · intro r row hrow e hadded
    rw [hquiet.interfaces] at hrow
    exact ⟨row, hrow, rfl, hadded⟩
  · intro d hd
    rwa [hquiet.saved] at hd
  · intro row _ _ hmem
    rwa [World.ids, hquiet.interfaces] at hmem

theorem AllTracked.stop (h : AllTracked env w) (r : Role) : AllTracked env (w.stop r) := by
  have hrows : ∀ r', ∀ row ∈ (w.stop r).interfaces r', row ∈ w.interfaces r' := by
    intro r' row hrow
    by_cases hr : r' = r
    · subst hr
      simp at hrow
    · rwa [interfaces_stop_ne hr] at hrow
  refine h.shrink (fun r' row hrow e hadded => ⟨row, hrows r' row hrow, rfl, hadded⟩) ?_ ?_
  · intro d hd
    simpa [World.stop] using hd
  · intro row _ _ hmem
    rcases List.mem_map.1 hmem with ⟨old, hold, hid⟩
    exact List.mem_map.2 ⟨old, hrows .server old hold, hid⟩

theorem AllTracked.start (h : AllTracked env w) {args : r.Args} (hclean : CleanStart env w r args) :
    AllTracked env (w.start env r args) := by
  refine h.shrink ?_ ?_ ?_
  · intro r' row hrow e hadded
    by_cases hr : r' = r
    · subst hr
      rw [interfaces_start_self] at hrow
      rw [attachInterfaces_own hrow] at hadded
      cases hadded
    · rw [interfaces_start_ne args hr] at hrow
      exact ⟨row, hrow, rfl, hadded⟩
  · intro d hd
    simpa [World.start] using hd
  · intro row hrow hadded hmem
    cases r with
    | server =>
        rw [World.ids, interfaces_start_self] at hmem
        exact absurd hmem (hclean row hrow hadded)
    | client =>
        rwa [World.ids, interfaces_start_ne args (by simp)] at hmem

theorem AllTracked.change {c : NodeChange} (h : AllTracked env w)
    (hoff : r = .server → OffClient w c.joined) : AllTracked env (w.change r c) := by
  have hrows : ∀ r', ∀ row ∈ (w.change r c).interfaces r',
      (r' = r ∧ ∃ id ∈ c.joined, row = .own id) ∨ row ∈ w.interfaces r' := by
    intro r' row hrow
    by_cases hr : r' = r
    · subst hr
      exact (mem_change hrow).imp_left fun hown => ⟨rfl, hown⟩
    · rw [interfaces_change_ne w c hr] at hrow
      exact .inr hrow
  refine h.shrink ?_ (fun d hd => hd) ?_
  · intro r' row hrow e hadded
    rcases hrows r' row hrow with ⟨-, id, -, rfl⟩ | hold
    · cases hadded
    · exact ⟨row, hold, rfl, hadded⟩
  · intro row hrow hadded hmem
    rcases List.mem_map.1 hmem with ⟨other, hother, hid⟩
    rcases hrows .server other hother with ⟨hr, id, hjoined, rfl⟩ | hold
    · -- the row has joined just now: it is none of the client's added ones
      have hjoinedRow : row.id ∈ c.joined := hid ▸ hjoined
      exact absurd hjoinedRow (hoff hr.symm row hrow hadded)
    · exact List.mem_map.2 ⟨other, hold, hid⟩

/-! ## Attaching -/

@[simp] theorem InterfaceId.lowerAscii_hex (id : InterfaceId) : Hex.lowerAscii id.hex = id.hex :=
  Hex.lowerAscii_encode id.bytes

/-- Saved under an id of the node: under this id only. -/
theorem hasId_withId (d : InterfaceDescriptor) (id other : InterfaceId) :
    (d.withId (some id.hex)).hasId other.hex = decide (id = other) := by
  by_cases h : id = other
  · simp [InterfaceDescriptor.hasId, InterfaceDescriptor.withId, h]
  · have hhex : id.hex ≠ other.hex := fun heq => h (InterfaceId.hex_injective heq)
    simp [InterfaceDescriptor.hasId, InterfaceDescriptor.withId, h, hhex]

/-- What is captured was not there before. -/
theorem not_mem_of_captured {a : Attachable} {id : InterfaceId}
    (h : w.captured env r a d = some id) : id ∉ w.ids r := by
  simp only [World.captured, newInterface] at h
  have hmem := List.mem_of_getElem? h
  simpa [World.ids] using (List.mem_filter.1 hmem).2

theorem AllTracked.added {a : Attachable} (h : AllTracked env w)
    (hrole : Role.parse d.role = some r) (hasked : d.attachable = .ok a)
    (hclean : CleanAdd env w r a d) : AllTracked env (w.added env r a d) := by
  have hid : d.attachable.map env.interfaceId = .ok (env.interfaceId a) := by
    rw [hasked]
    rfl
  have hsaved : (w.added env r a d).settings.interfaces = recordInterface w.settings.interfaces
      (d.withId (some (env.interfaceId a).hex)) := by
    rw [World.added_settings, hclean.captured]
    rfl
  -- the server's rows are old, the one just attached to it, or ones that joined it
  have hserver : ∀ id ∈ (w.added env r a d).ids .server, id ∈ w.ids .server ∨
      r = .server ∧ id ∈ env.interfaceId a :: (env.outcome (w.bound a).clock).node.joined := by
    intro id hmem
    rcases List.mem_map.1 hmem with ⟨row, hrow, rfl⟩
    cases r with
    | server =>
        rcases mem_added_self hrow with rfl | ⟨id, hjoined, rfl⟩ | hold
        · exact .inr ⟨rfl, List.mem_cons_self⟩
        · exact .inr ⟨rfl, List.mem_cons_of_mem _ hjoined⟩
        · exact .inl (List.mem_map_of_mem hold)
    | client =>
        rw [interfaces_added_ne (by simp)] at hrow
        exact .inl (List.mem_map_of_mem hrow)
  -- an interface that was attached before keeps its descriptor and is kept from the new one
  have hold : ∀ r', ∀ row ∈ w.interfaces r', ∀ e, row.addedFor = some e →
      Tracked env (w.added env r a d) r' row e := by
    intro r' row hrow e hadded
    have htracked := h r' row hrow e hadded
    refine ⟨htracked.role, htracked.id, ?_, ?_⟩
    · rintro rfl hmem
      rcases hserver _ hmem with hmem | ⟨rfl, hnew⟩
      · exact htracked.owner rfl hmem
      · exact hclean.server rfl row hrow (by simp [hadded]) hnew
    · intro s hs
      rw [hsaved, recordInterface_eq_upsert] at hs
      rcases Keyed.mem_upsert hs with rfl | hs
      · have hne : env.interfaceId a ≠ row.id := by
          intro heq
          by_cases hr : r' = r
          · subst hr
            have hfresh := not_mem_of_captured hclean.captured
            exact hfresh (List.mem_map.2 ⟨row, hrow, heq.symm⟩)
          · cases r <;> cases r' <;> simp at hr
            · exact hclean.server rfl row hrow (by simp [hadded]) (by simp [heq])
            · exact hclean.client rfl (List.mem_map.2 ⟨row, hrow, heq.symm⟩)
        have hother : d.endpoint ≠ e.endpoint := by
          intro heq
          have hsame := htracked.id
          rw [← attachable_eq_of_endpoint heq, hid] at hsame
          exact hne (Except.ok.inj hsame)
        have hsameEndpoint : (d.withId (some (env.interfaceId a).hex)).sameEndpoint e = false := by
          rw [Bool.eq_false_iff]
          exact fun htrue => hother ((d.withId _).sameEndpoint_iff e |>.1 htrue)
        rw [hasId_withId, hsameEndpoint]
        simp [hne]
      · exact htracked.captured s hs
  intro r' row hrow e hadded
  by_cases hr : r' = r
  · subst hr
    rcases mem_added_self hrow with rfl | ⟨id, -, rfl⟩ | hrow
    · cases hadded
      refine ⟨Role.name_of_parse hrole, hid, ?_, ?_⟩
      · rintro rfl hmem
        rcases hserver _ hmem with hmem | ⟨heq, -⟩
        · exact hclean.client rfl hmem
        · cases heq
      · intro s hs
        rw [hsaved] at hs
        exact hclean.saved s hs
    · cases hadded
    · exact hold _ row hrow e hadded
  · rw [interfaces_added_ne hr] at hrow
    exact hold _ row hrow e hadded

/-! ## Resuming -/

theorem AllTracked.startRole (h : AllTracked env w) (running : String) {args : r.Args}
    (hclean : w.sessions r = none → CleanStart env w r args) :
    AllTracked env (startRole env r running args w).2 := by
  rcases startRole_effect env r running args w with hquiet | ⟨hnone, hquiet⟩
  · exact h.quiet hquiet
  · exact (h.start (hclean hnone)).quiet hquiet

theorem AllTracked.reattach (h : AllTracked env w) (hclean : CleanAttach env w d.written) :
    AllTracked env (reattach env d w).2 := by
  rcases reattach_written env d with ⟨e, hthrow⟩ | ⟨hshaped, hwritten⟩
  · rw [hthrow]
    exact h
  · rw [hwritten]
    rcases reattach_cases hshaped env w with
      ⟨e, hrun | hrun⟩ | ⟨r, a, hrole, hsession, hasked, hbound, hrun⟩
    · rw [hrun]
      exact h
    · rw [hrun]
      exact h.quiet ⟨rfl, rfl⟩
    · rw [hrun]
      exact h.added hrole hasked (hclean r a hrole hsession hasked hbound)

theorem AllTracked.attempted (h : AllTracked env w) {c : Component} (hclean : c.Clean env w) :
    AllTracked env (w.attempted env c) := by
  have hrun : AllTracked env (c.run env w).2 := by
    cases c with
    | server args => exact h.startRole _ hclean
    | client args => exact h.startRole _ fun _ => trivial
    | interface d => exact h.reattach hclean
    | ds args =>
        rcases restartDs_cases env args w with ⟨ds, ⟨e, hrun⟩ | hrun⟩
        · rw [Component.run, hrun]
          exact h.quiet ⟨rfl, rfl⟩
        · rw [Component.run, hrun]
          apply h.quiet
          apply Quiet.save
          exact ⟨rfl, rfl⟩
  exact hrun.quiet ⟨rfl, rfl⟩

theorem AllTracked.attempts {cs : List Component} (h : AllTracked env w)
    (hclean : DuringAttempts env (fun w c => c.Clean env w) cs w) :
    AllTracked env (attempts env cs w).2 := by
  induction cs generalizing w with
  | nil =>
      exact h
  | cons c cs ih =>
      exact ih (h.attempted hclean.1) hclean.2

theorem AllTracked.collapsed (h : AllTracked env w) : AllTracked env (w.collapsed env) := by
  have hinterfaces : ∀ r, (w.collapsed env).interfaces r = w.interfaces r := by
    intro r
    rw [World.interfaces, World.interfaces, collapsed_sessions]
  refine h.shrink ?_ ?_ ?_
  · intro r row hrow e hadded
    rw [hinterfaces] at hrow
    exact ⟨row, hrow, rfl, hadded⟩
  · intro d hd
    rw [collapsed_settings] at hd
    exact mem_dedupInterfaces hd
  · intro row _ _ hmem
    rwa [World.ids, hinterfaces] at hmem

/-! ## Runs -/

theorem AllTracked.renamed (h : AllTracked env w) (id : InterfaceId) (name : String) :
    AllTracked env (w.renamed r id name) := by
  have hrows : ∀ r', ∀ row ∈ (w.renamed r id name).interfaces r', ∃ old ∈ w.interfaces r',
      old.id = row.id ∧ old.addedFor = row.addedFor := by
    intro r' row hrow
    by_cases hr : r' = r
    · subst hr
      rw [interfaces_renamed_self] at hrow
      rcases List.mem_map.1 hrow with ⟨old, hold, rfl⟩
      refine ⟨old, hold, ?_⟩
      by_cases hid : old.id = id <;> simp [hid]
    · rw [interfaces_renamed_ne id name hr] at hrow
      exact ⟨row, hrow, rfl, rfl⟩
  refine h.shrink ?_ (fun d hd => hd) ?_
  · intro r' row hrow e hadded
    rcases hrows r' row hrow with ⟨old, hold, hid, hsame⟩
    exact ⟨old, hold, hid, hsame.trans hadded⟩
  · intro row _ _ hmem
    rcases List.mem_map.1 hmem with ⟨other, hother, hid⟩
    rcases hrows .server other hother with ⟨old, hold, holdId, -⟩
    exact List.mem_map.2 ⟨old, hold, holdId.trans hid⟩

theorem AllTracked.removed (h : AllTracked env w) (id : InterfaceId) (idHex : String) :
    AllTracked env (w.removed r id idHex) := by
  refine h.shrink ?_ ?_ ?_
  · intro r' row hrow e hadded
    rw [interfaces_removed] at hrow
    exact ⟨row, hrow, rfl, hadded⟩
  · intro d hd
    exact (List.mem_filter.1 hd).1
  · intro row _ _ hmem
    rwa [World.ids, interfaces_removed] at hmem

theorem AllTracked.run {o : Op} (h : AllTracked env w) (hok : Unambiguous env w (.op o)) :
    AllTracked env (o.run env w).2 := by
  by_cases hresume : o = .resume
  · subst hresume
    rw [Op.run, resume_run, collapsed_settings]
    exact h.collapsed.attempts hok
  have hclean : (∀ r args, o.argsFor w r = some args → CleanStart env w r args) ∧
      ∀ d, o.adds = some d → CleanAttach env w d := by
    cases o <;> first | exact hok | exact absurd rfl hresume
  cases (effect_of_run hresume : Effect env w o (o.run env w).2) with
  | quiet hquiet => exact h.quiet hquiet
  | stopped r hquiet => exact (h.stop r).quiet hquiet
  | started r ho _ hquiet => exact (h.start (hclean.1 r _ ho)).quiet hquiet
  | restarted r ho hquiet =>
      have hstart := hclean.1 r _ ho
      refine ((h.stop r).start ?_).quiet hquiet
      -- stopping this session leaves the client's rows, or clears them
      cases r with
      | client => trivial
      | server =>
          intro row hrow hadded
          rw [interfaces_stop_ne (by simp)] at hrow
          exact hstart row hrow hadded
  | added ho hrole hsession hasked hbound heq =>
      rw [heq]
      exact h.added hrole hasked (hclean.2 _ ho _ _ hrole hsession hasked hbound)
  | removed _ _ _ hquiet => exact (h.removed _ _).quiet hquiet
  | renamed hquiet => exact (h.renamed _ _).quiet hquiet

theorem AllTracked.after {a : Action} (h : AllTracked env w) (hok : Unambiguous env w a) :
    AllTracked env (w.after env a) := by
  cases a with
  | op o => exact h.run hok
  | node r c =>
      refine h.change ?_
      rintro rfl
      exact hok
  | dsTask ds => exact h.quiet ⟨rfl, rfl⟩

theorem allTracked_of_reachable (h : (machine env file).Reachable (Unambiguous env) w) :
    AllTracked env w := by
  refine Machine.Reachable.invariant ?_ ?_ h
  · intro r row hrow
    cases hrow
  · intro w a w' hw hok hstep
    cases hstep
    exact hw.after hok

/-! ## Removing -/

theorem findInterfaceByHex_eq {idHex : String} {id : InterfaceId}
    (hhex : Hex.lowerAscii idHex = id.hex) :
    findInterfaceByHex w r idHex = if id ∈ w.ids r then some id else none := by
  have hsame : ∀ other : InterfaceId, (other.hex == Hex.lowerAscii idHex) = (other == id) := by
    intro other
    rw [hhex, Bool.eq_iff_iff, beq_iff_eq, beq_iff_eq]
    exact ⟨InterfaceId.hex_injective, congrArg InterfaceId.hex⟩
  simp only [findInterfaceByHex, hsame]
  show (w.ids r).find? (fun other => other == id) = _
  by_cases hmem : id ∈ w.ids r
  · rw [if_pos hmem]
    cases hfind : (w.ids r).find? (fun other => other == id) with
    | none =>
        have hnone := List.find?_eq_none.1 hfind id hmem
        simp at hnone
    | some other =>
        have heq : other = id := by simpa using List.find?_some hfind
        rw [heq]
  · rw [if_neg hmem, List.find?_eq_none]
    intro other hother heq
    exact hmem (beq_iff_eq.1 heq ▸ hother)

/-- The server's node is asked first. -/
theorem sessionOwningInterface_eq {idHex : String} {id : InterfaceId}
    (hhex : Hex.lowerAscii idHex = id.hex) :
    sessionOwningInterface w idHex =
      if id ∈ w.ids .server then some .server
      else if id ∈ w.ids .client then some .client
      else none := by
  simp only [sessionOwningInterface, findInterfaceByHex_eq hhex, List.find?_cons, List.find?_nil]
  by_cases hserver : id ∈ w.ids .server
  · simp [hserver]
  · by_cases hclient : id ∈ w.ids .client <;> simp [hserver, hclient]

/-- In every run whose steps leave no room for confusion, for every row that an `add_interface_*`
has attached: a removal under its id, in either case, that returns `Ok` detaches this row from its
own node, and takes the saved descriptor of its endpoint out of the settings and no other. -/
theorem remove_exactly (h : (machine env file).Reachable (Unambiguous env) w)
    (hlisted : (r, row) ∈ w.listInterfaces) (hadded : row.addedFor = some e) {idHex : String}
    (hhex : Hex.lowerAscii idHex = row.id.hex) (hrun : removeInterface env idHex w = (.ok (), w')) :
    w'.detached = w.detached ++ [(r, row.id)] ∧
      w'.settings.interfaces = w.settings.interfaces.filter fun d => !d.sameEndpoint e := by
  have hrow := mem_listInterfaces.1 hlisted
  have htracked := allTracked_of_reachable h r row hrow e hadded
  have hmem : row.id ∈ w.ids r := List.mem_map_of_mem hrow
  have howner : sessionOwningInterface w idHex = some r := by
    rw [sessionOwningInterface_eq hhex]
    cases r with
    | server => simp [hmem]
    | client => simp [htracked.owner rfl, hmem]
  have hfound : findInterfaceByHex w r idHex = some row.id := by
    rw [findInterfaceByHex_eq hhex, if_pos hmem]
  rcases removeInterface_cases env idHex w with ⟨e, herror⟩ | ⟨r', id, howner', hfound', hok⟩
  · rw [herror] at hrun
    cases hrun
  · rw [howner] at howner'
    cases howner'
    rw [hfound] at hfound'
    cases hfound'
    rw [hok] at hrun
    cases hrun
    refine ⟨by simp [World.removed, World.setInterfaces, World.detach], ?_⟩
    have hsame : ∀ d ∈ w.settings.interfaces, (!d.hasId idHex) = !d.sameEndpoint e := by
      intro d hd
      rw [← htracked.captured d hd]
      simp [InterfaceDescriptor.hasId, hhex]
    simpa [World.removed, World.setInterfaces, World.detach] using List.filter_congr hsame

/-- The Wi-Fi interface of a client is removed while a server is running. -/
theorem exists_remove_exactly : ∃ w row e w', (.client, row) ∈ w.listInterfaces ∧
    row.addedFor = some e ∧ removeInterface .calm row.id.hex w = (.ok (), w') ∧
    w'.detached = w.detached ++ [(.client, row.id)] ∧
    w'.settings.interfaces = w.settings.interfaces.filter fun d => !d.sameEndpoint e := by
  let w₁ := (World.new .calm none).after .calm (.op (.startBridgeServer .bare))
  let w₂ := w₁.after .calm (.op (.startClient .bare))
  let w₃ := w₂.after .calm (.op (.addInterfaceAuto "client" none none))
  let id := Env.calm.interfaceId .autoWifi
  let e : InterfaceDescriptor :=
    { id := none, kind := "auto", role := "client", addr := none, peerAddr := none,
      ifacName := none, ifacPassphrase := none }
  let row : Interface := { id, name := none, ifac := none, addedFor := some e }
  have hserver : Unambiguous .calm (.new .calm none) (.op (.startBridgeServer .bare)) := by
    refine ⟨?_, fun d hd => by cases hd⟩
    rintro r args -
    cases r with
    | client => trivial
    | server =>
        intro row hrow
        cases hrow
  have hclient : Unambiguous .calm w₁ (.op (.startClient .bare)) := by
    refine ⟨?_, fun d hd => by cases hd⟩
    rintro r args hargs
    cases r with
    | client => trivial
    | server => cases hargs
  have hadd : Unambiguous .calm w₂ (.op (.addInterfaceAuto "client" none none)) := by
    refine ⟨?_, ?_⟩
    · intro r args hargs
      cases r <;> cases hargs
    rintro d hd r a hrole - hasked -
    cases hd
    cases hrole
    cases hasked
    refine ⟨by decide +kernel, by decide +kernel, fun _ => by decide +kernel, ?_⟩
    rintro ⟨⟩
  have hw : (machine .calm none).Reachable (Unambiguous .calm) w₃ :=
    .tail (.tail (.tail .refl hserver rfl) hclient rfl) hadd rfl
  have hlisted : (.client, row) ∈ w₃.listInterfaces := by decide +kernel
  have hrun : removeInterface .calm row.id.hex w₃ =
      (.ok (), (removeInterface .calm row.id.hex w₃).2) :=
    Command.eq_of_ok (by decide +kernel)
  exact ⟨w₃, row, e, _, hlisted, rfl, hrun,
    remove_exactly hw hlisted rfl (InterfaceId.lowerAscii_hex _) hrun⟩

/-- Both nodes have a TCP interface to the same address, and the client's is to be removed: the
server's is detached, and both saved descriptors are gone. -/
theorem remove_confuses_roles : ∃ w row e w', (machine .calm none).Reachable Machine.always w ∧
    (.client, row) ∈ w.listInterfaces ∧ row.addedFor = some e ∧
    removeInterface .calm row.id.hex w = (.ok (), w') ∧
    w'.detached = w.detached ++ [(.server, row.id)] ∧
    w.settings.interfaces.map InterfaceDescriptor.role = ["server", "client"] ∧
    w'.settings.interfaces = [] := by
  let w₁ := (World.new .calm none).after .calm (.op (.startBridgeServer .bare))
  let w₂ := w₁.after .calm (.op (.startClient .bare))
  let w₃ := w₂.after .calm (.op (.addInterfaceTcp "h:1" "server" none none))
  let w₄ := w₃.after .calm (.op (.addInterfaceTcp "h:1" "client" none none))
  let id := Env.calm.interfaceId (.tcpClient "h:1")
  let e : InterfaceDescriptor :=
    { id := none, kind := "tcp", role := "client", addr := some "h:1", peerAddr := none,
      ifacName := none, ifacPassphrase := none }
  let row : Interface := { id, name := none, ifac := none, addedFor := some e }
  have hw : (machine .calm none).Reachable Machine.always w₄ :=
    .tail (.tail (.tail (.tail .refl trivial rfl) trivial rfl) trivial rfl) trivial rfl
  have hrun : removeInterface .calm row.id.hex w₄ =
      (.ok (), (removeInterface .calm row.id.hex w₄).2) :=
    Command.eq_of_ok (by decide +kernel)
  exact ⟨w₄, row, e, _, hw, by decide +kernel, rfl, hrun, by decide +kernel, by decide +kernel,
    by decide +kernel⟩

end Controller
end SvenBridge
