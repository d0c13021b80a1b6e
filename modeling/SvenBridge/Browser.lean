import SvenBridge.Discovery

/-!
# Browser — the server list and the dial target over a whole run

The router handles announces in the order in which the engine reports them.  `remember_server`
updates the list under one lock and the client router sets the target under another, so that in
between a destination is listed and not dialed yet.  This file contains

* `Heard`, `heardEntry` and `Browses` — what the list has to be for the announces remembered;
* `announces_step` — announces are neither lost, doubled nor reordered on their way to the list;
* `Client.dialed` — the announces that have reached the target;
* `browser_and_dial_target` — list and target in every reachable state.
-/

namespace SvenBridge

open Lib

/-! ## The list -/

/-- An announce that was remembered: destination, name and time. -/
abbrev Heard := DestinationHash × Option String × ℕ

/-- The entry an announce makes. -/
def heardEntry (h : Heard) : DiscoveredServer where
  destinationHash := h.1
  lastSeen := h.2.2
  name := h.2.1

/-- Each heard destination once, in the order of first hearing, as it was heard last. -/
structure Browses (discovered : List DiscoveredServer) (heard : List Heard) : Prop where
  once : (discovered.map DiscoveredServer.destinationHash).Nodup
  order : discovered.map DiscoveredServer.destinationHash = (heard.map Prod.fst).eraseDups
  latest : ∀ server ∈ discovered, ∃ earlier later,
    heard = earlier ++ (server.destinationHash, server.name, server.lastSeen) :: later ∧
      ∀ h ∈ later, h.1 ≠ server.destinationHash

/-- The list that remembering announces one after the other makes. -/
def browserList (heard : List Heard) : List DiscoveredServer :=
  Keyed.gather DiscoveredServer.destinationHash [] (heard.map heardEntry)

theorem browserList_concat (heard : List Heard) (now : ℕ) (destination : DestinationHash)
    (name : Option String) :
    browserList (heard ++ [(destination, name, now)]) =
      rememberServer now destination name (browserList heard) := by
  rw [browserList, List.map_append, List.map_singleton, Keyed.gather_concat,
    rememberServer_eq_upsert]
  rfl

theorem browses_browserList (heard : List Heard) : Browses (browserList heard) heard where
  once := Keyed.nodup_gather (by simp) _
  order := by
    rw [browserList, Keyed.map_key_gather, List.map_map]
    rfl
  latest := by
    intro server hserver
    obtain ⟨front, back, hsplit, hback⟩ := Keyed.isLast_of_mem_gather hserver
    -- the announces are those the entries were made of
    obtain ⟨earlier, rest, rfl, rfl, hrest⟩ := List.map_eq_append_iff.1 hsplit
    obtain ⟨h, later, rfl, rfl, rfl⟩ := List.map_eq_cons_iff.1 hrest
    refine ⟨earlier, later, rfl, fun h' hh' => ?_⟩
    exact hback (heardEntry h') (List.mem_map_of_mem hh')

/-- The head of the list is the destination heard first. -/
theorem Browses.head?_eq {discovered : List DiscoveredServer} {heard : List Heard}
    (h : Browses discovered heard) :
    discovered.head?.map DiscoveredServer.destinationHash = heard.head?.map Prod.fst := by
  rw [← List.head?_map, h.order, ← List.head?_map]
  cases heard with
  | nil => rfl
  | cons x heard => simp [List.eraseDups_cons]

/-! ## Announces on their way to the list -/

/-- The announce an engine event reports. -/
def PrnsEvent.announces : PrnsEvent → List (DestinationHash × Option String)
  | .announceHeard destination appData => [(destination, announceAppDataToName appData)]
  | _ => []

def BridgeEvent.announce : BridgeEvent → Option (DestinationHash × Option String)
  | .announceHeard destination name => some (destination, name)
  | _ => none

theorem filterMap_funnelEvent (ev : PrnsEvent) :
    (funnelEvent ev).toList.filterMap BridgeEvent.announce = ev.announces := by
  cases ev <;> rfl

/-- What was announced, without the time. -/
def announced (heard : List Heard) : List (DestinationHash × Option String) :=
  heard.map fun h => (h.1, h.2.1)

@[simp] theorem announced_append (heard more : List Heard) :
    announced (heard ++ more) = announced heard ++ announced more :=
  List.map_append

/-! ## The client -/

namespace Client

variable {s t : State} {a : Action}

/-- The announces the router has not remembered yet. -/
def State.waiting (s : State) : List (DestinationHash × Option String) :=
  match s.router with
  | .remember destination name =>
      (destination, name) :: s.events.filterMap BridgeEvent.announce
  | _ => s.events.filterMap BridgeEvent.announce

def Action.reports : Action → List (DestinationHash × Option String)
  | .engine ev => ev.announces
  | _ => []

/-- The engine's reports are remembered or wait, in their order. -/
theorem announces_step (h : Step s a t) :
    announced t.heard ++ t.waiting = announced s.heard ++ s.waiting ++ a.reports := by
  cases h with
  | @engine ev hev =>
      simp only [State.waiting, Action.reports, ← filterMap_funnelEvent, List.filterMap_append]
      split <;> simp
  | delivered =>
      simp only [State.waiting, Action.reports, PrnsEvent.announces, List.filterMap_append]
      split <;> simp [BridgeEvent.announce]
  | takeAnnounce hrouter hevents | takeClosed hrouter hevents | takeData hrouter hevents =>
      simp [State.waiting, Action.reports, BridgeEvent.announce, hrouter, hevents,
        List.filterMap_cons]
  | takeIgnored hrouter hevents hev =>
      rcases hev with ⟨l, rfl⟩ | ⟨l, id, rfl⟩ <;>
        simp [State.waiting, Action.reports, BridgeEvent.announce, hrouter, hevents,
          List.filterMap_cons]
  | remember hrouter =>
      simp [State.waiting, Action.reports, hrouter, announced]
  | setTarget hrouter | removeClosed hrouter | forwardUnknown hrouter | forwardDropped hrouter
  | forwardQueued hrouter =>
      simp [State.waiting, Action.reports, hrouter]
  | _ =>
      exact (List.append_nil _).symm

/-- The client, observed for the announces its engine reports. -/
def browser (serverHash : Option DestinationHash) :
    Machine (State × List (DestinationHash × Option String)) Action :=
  (machine serverHash).observed [] fun seen a => seen ++ a.reports

/-- The announces that both the list and the target know of. -/
def State.dialed (s : State) : List Heard :=
  match s.router with
  | .setTarget _ => s.heard.dropLast
  | _ => s.heard

/-- The first announce dialed is the first one heard. -/
theorem State.head?_dialed (h : s.dialed ≠ []) : s.dialed.head? = s.heard.head? := by
  have hprefix : s.dialed <+: s.heard := by
    unfold State.dialed
    split
    · exact List.dropLast_prefix _
    · exact List.prefix_refl _
  obtain ⟨rest, hrest⟩ := hprefix
  rw [← hrest, List.head?_append_of_ne_nil _ h]

/-- List and target are made of the announces remembered. -/
structure Dials (serverHash : Option DestinationHash) (s : State) : Prop where
  list : s.discovered = browserList s.heard
  inHand : ∀ d, s.router = .setTarget d → ∃ earlier name now, s.heard = earlier ++ [(d, name, now)]
  target : s.target = serverHash.or (s.dialed.head?.map Prod.fst)

theorem Dials.step {serverHash : Option DestinationHash} (h : Step s a t)
    (hd : Dials serverHash s) : Dials serverHash t where
  list := by
    have hlist := hd.list
    cases h with
    | remember hrouter => rw [browserList_concat, ← hlist]
    | _ => exact hlist
  inHand := by
    intro d hrouter'
    have hinHand := hd.inHand d
    cases h with
    | remember hrouter =>
        cases hrouter'
        exact ⟨s.heard, _, _, rfl⟩
    | _ => first
      | exact hinHand hrouter'
      | cases hrouter'
  target := by
    have htarget := hd.target
    cases h with
    | remember hrouter =>
        -- the announce is listed, and still to be dialed
        simpa [State.dialed, hrouter] using htarget
    | setTarget hrouter =>
        obtain ⟨earlier, name, now, hheard⟩ := hd.inHand _ hrouter
        rw [State.dialed, hrouter, hheard] at htarget
        rw [List.dropLast_concat] at htarget
        cases hserver : serverHash with
        | some hash =>
            simp [htarget, hserver]
        | none =>
            -- the first announce fills the target, a later one finds it filled
            cases earlier with
            | nil => simp [State.dialed, htarget, hserver, hheard]
            | cons first earlier => simp [State.dialed, htarget, hserver, hheard]
    | takeAnnounce hrouter | takeIgnored hrouter | takeClosed hrouter | takeData hrouter
    | removeClosed hrouter | forwardUnknown hrouter | forwardDropped hrouter
    | forwardQueued hrouter =>
        simpa [State.dialed, hrouter] using htarget
    | _ => exact htarget

theorem Dials.of_reachable {serverHash : Option DestinationHash} {Ok : State → Action → Prop}
    (h : (machine serverHash).Reachable Ok s) : Dials serverHash s := by
  refine Machine.Reachable.invariant (I := Dials serverHash) ⟨rfl, ?_, ?_⟩ ?_ h
  · intro d hrouter
    cases hrouter
  · exact (Option.or_none).symm
  · intro s a t hd _ hstep
    exact hd.step (step_sound hstep)

/-- A target that is known stays. -/
theorem target_step (h : Step s a t) {d : DestinationHash} (htarget : s.target = some d) :
    t.target = some d := by
  cases h with
  | setTarget => simp [htarget]
  | _ => exact htarget

theorem target_leads {serverHash : Option DestinationHash} {Ok : State → Action → Prop}
    (h : (machine serverHash).Leads Ok s t) {d : DestinationHash} (htarget : s.target = some d) :
    t.target = some d :=
  Machine.Leads.invariant (I := fun s => s.target = some d)
    (fun _ _ _ hI _ hstep => target_step (step_sound hstep) hI) htarget h

theorem announces_of_reachable {serverHash : Option DestinationHash}
    {seen : List (DestinationHash × Option String)}
    (h : (browser serverHash).Reachable Machine.always (s, seen)) :
    announced s.heard ++ s.waiting = seen := by
  refine Machine.Reachable.invariant (M := browser serverHash)
    (I := fun s => announced s.1.heard ++ s.1.waiting = s.2) rfl ?_ h
  intro s a t hI _ hstep
  obtain ⟨hstep, hseen⟩ := Machine.observed_step.1 hstep
  rw [hseen, announces_step (step_sound hstep), hI]

end Client

/-! ## The server -/

namespace Server

variable {s t : State} {a : Action}

def State.waiting (s : State) : List (DestinationHash × Option String) :=
  match s.router with
  | .remember destination name =>
      (destination, name) :: s.events.filterMap BridgeEvent.announce
  | _ => s.events.filterMap BridgeEvent.announce

def Action.reports : Action → List (DestinationHash × Option String)
  | .engine ev => ev.announces
  | _ => []

theorem announces_step (h : Step s a t) :
    announced t.heard ++ t.waiting = announced s.heard ++ s.waiting ++ a.reports := by
  cases h with
  | reportEstablished | reportClosed | delivered | announced | reportIdentified =>
      simp only [State.waiting, Action.reports, PrnsEvent.announces, List.filterMap_append]
      split <;> simp [BridgeEvent.announce]
  | takeAnnounce hrouter hevents | takeIdentified hrouter hevents | takeEstablished hrouter hevents
  | takeClosed hrouter hevents | takeData hrouter hevents =>
      simp [State.waiting, Action.reports, BridgeEvent.announce, hrouter, hevents,
        List.filterMap_cons]
  | remember hrouter =>
      simp [State.waiting, Action.reports, hrouter, SvenBridge.announced]
  | insertClient hrouter | checkKnown hrouter | checkNew hrouter | spawn hrouter
  | removeSender hrouter | removeUnknown hrouter | endDropped hrouter | endQueued hrouter
  | removeClient hrouter | forwardUnknown hrouter | forwardDropped hrouter
  | forwardQueued hrouter =>
      simp [State.waiting, Action.reports, hrouter]
  | _ =>
      exact (List.append_nil _).symm

def browser : Machine (State × List (DestinationHash × Option String)) Action :=
  machine.observed [] fun seen a => seen ++ a.reports

theorem discovered_of_reachable {Ok : State → Action → Prop} (h : machine.Reachable Ok s) :
    s.discovered = browserList s.heard := by
  refine Machine.Reachable.invariant (I := fun s => s.discovered = browserList s.heard) rfl ?_ h
  intro s a t hI _ hstep
  cases step_sound hstep with
  | remember hrouter => rw [browserList_concat, ← hI]
  | _ => exact hI

theorem announces_of_reachable {seen : List (DestinationHash × Option String)}
    (h : browser.Reachable Machine.always (s, seen)) :
    announced s.heard ++ s.waiting = seen := by
  refine Machine.Reachable.invariant (M := browser)
    (I := fun s => announced s.1.heard ++ s.1.waiting = s.2) rfl ?_ h
  intro s a t hI _ hstep
  obtain ⟨hstep, hseen⟩ := Machine.observed_step.1 hstep
  rw [hseen, announces_step (step_sound hstep), hI]

end Server

/-! ## Main result -/

/-- In every reachable state the announces the engine has reported are those remembered and those
that still wait, in order, and the list is made of those remembered.  With `--server-hash` the
target is that hash; without, it is the head of the list as soon as one announce has been handled to
its end.  A target that is set stays. -/
theorem browser_and_dial_target :
    (∀ serverHash s reported,
      (Client.browser serverHash).Reachable Machine.always (s, reported) →
        announced s.heard ++ s.waiting = reported ∧
        Browses s.discovered s.heard ∧
        s.discovered.head?.map DiscoveredServer.destinationHash = s.heard.head?.map Prod.fst ∧
        (∀ hash, serverHash = some hash → s.target = some hash) ∧
        (serverHash = none → s.target =
          if s.dialed = [] then none
          else s.discovered.head?.map DiscoveredServer.destinationHash) ∧
        ∀ t d, (Client.machine serverHash).Leads Machine.always s t →
          s.target = some d → t.target = some d) ∧
    ∀ s reported, Server.browser.Reachable Machine.always (s, reported) →
      announced s.heard ++ s.waiting = reported ∧ Browses s.discovered s.heard := by
  constructor
  · intro serverHash s reported h
    have hd : Client.Dials serverHash s := Client.Dials.of_reachable h.of_observed
    have hbrowses : Browses s.discovered s.heard := hd.list ▸ browses_browserList s.heard
    refine ⟨Client.announces_of_reachable h, hbrowses, hbrowses.head?_eq, ?_, ?_, ?_⟩
    · intro hash hserver
      rw [hd.target, hserver]
      rfl
    · intro hserver
      rw [hd.target, hserver, Option.none_or, hbrowses.head?_eq]
      split
      · rename_i hnone
        rw [hnone]
        rfl
      · rename_i hsome
        rw [Client.State.head?_dialed hsome]
    · intro t d hleads htarget
      exact Client.target_leads hleads htarget
  · intro s reported h
    have hlist := Server.discovered_of_reachable h.of_observed
    exact ⟨Server.announces_of_reachable h, hlist ▸ browses_browserList s.heard⟩

/-- A name that disappears, and a second server. -/
theorem exists_browser_and_dial_target :
    ∃ s reported, (Client.browser none).Reachable Machine.always (s, reported) ∧
      reported = [(1, some "a"), (2, none), (1, none)] ∧
      s.discovered = [⟨1, 1, none⟩, ⟨2, 0, none⟩] ∧ s.target = some 1 ∧
      Browses s.discovered s.heard := by
  have hrun : ((Client.browser none).run (Client.browser none).init
      ([.engine (.announceHeard 1 [0x61]), .engine (.announceHeard 2 []),
        .engine (.announceHeard 1 [])] ++ List.replicate 6 .router ++ [.tick] ++
        List.replicate 3 .router)).any (fun s =>
          s.2 == [(1, some "a"), (2, none), (1, none)] &&
            s.1.discovered == [⟨1, 1, none⟩, ⟨2, 0, none⟩] && s.1.target == some 1) = true := by
    decide +kernel
  obtain ⟨⟨s, reported⟩, hs, hP⟩ := Machine.exists_reachable_of_run hrun
  simp only [Bool.and_eq_true, beq_iff_eq] at hP
  exact ⟨s, reported, hs, hP.1.1, hP.1.2, hP.2, (browser_and_dial_target.1 none s reported hs).2.1⟩

end SvenBridge
