import SvenBridge.Client.Step
import SvenBridge.Server.Step

/-!
# Discovery — which destinations a node lists and dials

`funnel_event` passes every `AnnounceHeard` on, whatever name it was made under: the diagnostic
carries the destination hash and the app data only.  So the discovered-server list is exactly the
set of destinations the router has handled announces for, and a client without `--server-hash`
dials the first of them.  Both are Sven Co-op servers just when all those announces were made under
`sven-coop.server`.
-/

namespace SvenBridge

/-! ## Listed destinations are the heard ones -/

theorem mem_rememberServer {now : ℕ} {destination d : DestinationHash} {name : Option String}
    {l : List DiscoveredServer} :
    d ∈ (rememberServer now destination name l).map DiscoveredServer.destinationHash ↔
      d ∈ l.map DiscoveredServer.destinationHash ∨ d = destination := by
  rw [map_destinationHash_rememberServer]
  by_cases hmem : destination ∈ l.map DiscoveredServer.destinationHash
  · rw [if_pos hmem]
    exact ⟨.inl, fun h => h.elim id fun heq => heq ▸ hmem⟩
  · rw [if_neg hmem, List.mem_append, List.mem_singleton]

/-- A destination not listed yet changes the list. -/
theorem rememberServer_ne {now : ℕ} {destination : DestinationHash} {name : Option String}
    {l : List DiscoveredServer} (h : destination ∉ l.map DiscoveredServer.destinationHash) :
    rememberServer now destination name l ≠ l := by
  intro heq
  have hmem : destination ∈
      (rememberServer now destination name l).map DiscoveredServer.destinationHash :=
    mem_rememberServer.2 (.inr rfl)
  rw [heq] at hmem
  exact h hmem

/-- The list holds the heard destinations. -/
def Lists (discovered : List DiscoveredServer)
    (heard : List (DestinationHash × Option String × ℕ)) : Prop :=
  ∀ d, d ∈ discovered.map DiscoveredServer.destinationHash ↔ d ∈ heard.map Prod.fst

theorem Lists.remember {discovered : List DiscoveredServer}
    {heard : List (DestinationHash × Option String × ℕ)} (h : Lists discovered heard) (now : ℕ)
    (destination : DestinationHash) (name : Option String) :
    Lists (rememberServer now destination name discovered)
      (heard ++ [(destination, name, now)]) := by
  intro d
  rw [mem_rememberServer, List.map_append, List.mem_append, h d]
  simp

/-- The destination an event announces. -/
def BridgeEvent.announced : BridgeEvent → Option DestinationHash
  | .announceHeard destination _ => some destination
  | _ => none

/-! ## The client -/

namespace Client

variable {s t : State} {a : Action}

/-- Destinations whose announces the router has handled or has in hand. -/
def taken (s : State) : List DestinationHash :=
  s.heard.map Prod.fst ++
    match s.router with
    | .remember destination _ => [destination]
    | _ => []

/-- The same, with those still in the event queue. -/
def reported (s : State) : List DestinationHash :=
  taken s ++ s.events.filterMap BridgeEvent.announced

/-- Destinations are reported by the engine only. -/
theorem reported_step (h : Step s a t) :
    ∀ d ∈ reported t, d ∈ reported s ∨ ∃ appData, a = .engine (.announceHeard d appData) := by
  intro d hd
  cases h with
  | @engine ev hev =>
      cases ev with
      | announceHeard d' appData =>
          simp only [reported, taken, funnelEvent, Option.toList_some, List.filterMap_append,
            List.mem_append] at hd ⊢
          rcases hd with hd | hd | hd
          · exact .inl (.inl hd)
          · exact .inl (.inr hd)
          · obtain rfl : d = d' := by simpa [BridgeEvent.announced] using hd
            exact .inr ⟨appData, rfl⟩
      | _ =>
          left
          simpa [reported, taken, funnelEvent, BridgeEvent.announced] using hd
  | takeAnnounce hrouter hevents =>
      left
      simp only [reported, taken, hrouter, hevents, List.filterMap_cons, BridgeEvent.announced,
        List.mem_append, List.mem_cons] at hd ⊢
      grind -linarith
  | takeIgnored hrouter hevents hev =>
      left
      rcases hev with ⟨l, rfl⟩ | ⟨l, id, rfl⟩ <;>
        simpa [reported, taken, hrouter, hevents, BridgeEvent.announced,
          List.filterMap_cons] using hd
  | takeClosed hrouter hevents | takeData hrouter hevents =>
      left
      simpa [reported, taken, hrouter, hevents, BridgeEvent.announced] using hd
  | delivered =>
      left
      simpa [reported, taken, BridgeEvent.announced] using hd
  | remember hrouter | setTarget hrouter | removeClosed hrouter | forwardUnknown hrouter
  | forwardDropped hrouter | forwardQueued hrouter =>
      left
      simpa [reported, taken, hrouter] using hd
  | _ => exact .inl hd

/-- Every listed destination and, without `--server-hash`, the dial target is a server. -/
def OnlyServers (isServer : DestinationHash → Prop) (serverHash : Option DestinationHash)
    (s : State) : Prop :=
  (∀ d ∈ s.discovered.map DiscoveredServer.destinationHash, isServer d) ∧
    (serverHash = none → ∀ d, s.target = some d → isServer d)

/-- The announce in the router's hands changes list and target only if it is a server's. -/
def Undisturbed (isServer : DestinationHash → Prop) (s : State) : Prop :=
  ∀ t, step s .router = some t →
    (∀ d name, s.router = .remember d name → ¬ isServer d → t.discovered = s.discovered) ∧
      ∀ d, s.router = .setTarget d → ¬ isServer d → t.target = s.target

/-- List and target come from the announces handled. -/
structure Discovers (serverHash : Option DestinationHash) (s : State) : Prop where
  lists : Lists s.discovered s.heard
  inHand : ∀ d, s.router = .setTarget d → d ∈ s.heard.map Prod.fst
  target : serverHash = none → ∀ d, s.target = some d → d ∈ s.heard.map Prod.fst

theorem Discovers.step {serverHash : Option DestinationHash} (h : Step s a t)
    (hd : Discovers serverHash s) : Discovers serverHash t where
  lists := by
    have hlists := hd.lists
    cases h with
    | remember hrouter => exact hlists.remember _ _ _
    | _ => exact hlists
  inHand := by
    intro d
    have hinHand := hd.inHand d
    cases h <;> grind -linarith
  target := by
    intro hnone d
    have htarget := hd.target hnone d
    have hinHand := hd.inHand d
    cases h <;> grind -linarith

theorem Discovers.of_reachable {serverHash : Option DestinationHash} {Ok : State → Action → Prop}
    (h : (machine serverHash).Reachable Ok s) : Discovers serverHash s := by
  refine Lib.Machine.Reachable.invariant (I := Discovers serverHash) ⟨?_, ?_, ?_⟩ ?_ h
  · exact fun d => Iff.rfl
  · intro d hrouter
    cases hrouter
  · intro hnone d htarget
    rw [show (machine serverHash).init.target = serverHash from rfl, hnone] at htarget
    cases htarget
  · intro s a t hd _ hstep
    exact hd.step (step_sound hstep)

/-- Exactly when every announce taken is a server's, only servers are listed and dialed and no
other announce changes anything. -/
theorem onlyServers_iff {isServer : DestinationHash → Prop} {serverHash : Option DestinationHash}
    (hd : Discovers serverHash s) :
    OnlyServers isServer serverHash s ∧ Undisturbed isServer s ↔ ∀ d ∈ taken s, isServer d := by
  constructor
  · rintro ⟨⟨hlist, -⟩, hquiet⟩ d hmem
    rw [taken, List.mem_append] at hmem
    rcases hmem with hheard | hhand
    · exact hlist d ((hd.lists d).2 hheard)
    · cases hrouter : s.router with
      | remember d' name =>
          rw [hrouter, List.mem_singleton] at hhand
          subst hhand
          by_contra hnot
          have hnew : d ∉ s.discovered.map DiscoveredServer.destinationHash :=
            fun hmem => hnot (hlist d hmem)
          have hsame := (hquiet _ (by simp [step, routerStep, hrouter]; rfl)).1 d name hrouter hnot
          exact rememberServer_ne hnew hsame
      | recv | setTarget | removeLinkData | forward =>
          rw [hrouter] at hhand
          cases hhand
  · intro hall
    have hheard : ∀ d ∈ s.heard.map Prod.fst, isServer d := fun d hmem =>
      hall d (List.mem_append_left _ hmem)
    refine ⟨⟨fun d hmem => hheard d ((hd.lists d).1 hmem),
      fun hnone d htarget => hheard d (hd.target hnone d htarget)⟩, ?_⟩
    intro t _
    constructor
    · intro d name hrouter hnot
      exact absurd (hall d (by simp [taken, hrouter])) hnot
    · intro d hrouter hnot
      exact absurd (hheard d (hd.inHand d hrouter)) hnot

end Client

/-! ## The server -/

namespace Server

variable {s t : State} {a : Action}

def taken (s : State) : List DestinationHash :=
  s.heard.map Prod.fst ++
    match s.router with
    | .remember destination _ => [destination]
    | _ => []

def reported (s : State) : List DestinationHash :=
  taken s ++ s.events.filterMap BridgeEvent.announced

theorem reported_step (h : Step s a t) :
    ∀ d ∈ reported t, d ∈ reported s ∨ ∃ appData, a = .engine (.announceHeard d appData) := by
  intro d hd
  cases h with
  | @announced d' appData =>
      simp only [reported, taken, List.filterMap_append, List.mem_append] at hd ⊢
      rcases hd with hd | hd | hd
      · exact .inl (.inl hd)
      · exact .inl (.inr hd)
      · obtain rfl : d = d' := by simpa [BridgeEvent.announced] using hd
        exact .inr ⟨appData, rfl⟩
  | takeAnnounce hrouter hevents =>
      left
      simp only [reported, taken, hrouter, hevents, List.filterMap_cons, BridgeEvent.announced,
        List.mem_append, List.mem_cons] at hd ⊢
      grind -linarith
  | takeIdentified hrouter hevents | takeEstablished hrouter hevents | takeClosed hrouter hevents
  | takeData hrouter hevents =>
      left
      simpa [reported, taken, hrouter, hevents, BridgeEvent.announced] using hd
  | reportEstablished | reportClosed | delivered | reportIdentified =>
      left
      simpa [reported, taken, BridgeEvent.announced] using hd
  | remember hrouter | insertClient hrouter | checkKnown hrouter | checkNew hrouter
  | spawn hrouter | removeSender hrouter | removeUnknown hrouter | endDropped hrouter
  | endQueued hrouter | removeClient hrouter | forwardUnknown hrouter | forwardDropped hrouter
  | forwardQueued hrouter =>
      left
      simpa [reported, taken, hrouter] using hd
  | _ => exact .inl hd

def OnlyServers (isServer : DestinationHash → Prop) (s : State) : Prop :=
  ∀ d ∈ s.discovered.map DiscoveredServer.destinationHash, isServer d

def Undisturbed (isServer : DestinationHash → Prop) (s : State) : Prop :=
  ∀ t, step s .router = some t →
    ∀ d name, s.router = .remember d name → ¬ isServer d → t.discovered = s.discovered

theorem lists_of_reachable {Ok : State → Action → Prop} (h : machine.Reachable Ok s) :
    Lists s.discovered s.heard := by
  refine Lib.Machine.Reachable.invariant (I := fun s => Lists s.discovered s.heard)
    (fun d => Iff.rfl) ?_ h
  intro s a t hlists _ hstep
  cases step_sound hstep with
  | remember hrouter => exact hlists.remember _ _ _
  | _ => exact hlists

theorem onlyServers_iff {isServer : DestinationHash → Prop} (hlists : Lists s.discovered s.heard) :
    OnlyServers isServer s ∧ Undisturbed isServer s ↔ ∀ d ∈ taken s, isServer d := by
  constructor
  · rintro ⟨hlist, hquiet⟩ d hmem
    rw [taken, List.mem_append] at hmem
    rcases hmem with hheard | hhand
    · exact hlist d ((hlists d).2 hheard)
    · cases hrouter : s.router with
      | remember d' name =>
          rw [hrouter, List.mem_singleton] at hhand
          subst hhand
          by_contra hnot
          have hnew : d ∉ s.discovered.map DiscoveredServer.destinationHash :=
            fun hmem => hnot (hlist d hmem)
          have hsame := hquiet _ (by simp [step, routerStep, hrouter]; rfl) d name hrouter hnot
          exact rememberServer_ne hnew hsame
      | _ =>
          rw [hrouter] at hhand
          cases hhand
  · intro hall
    refine ⟨fun d hmem => hall d (List.mem_append_left _ ((hlists d).1 hmem)), ?_⟩
    intro t _ d name hrouter hnot
    exact absurd (hall d (by simp [taken, hrouter])) hnot

end Server

/-! ## The network -/

/-- A validated announce: its destination is derived from the announcer's identity and the dotted
application name it was made under. -/
structure Announce where
  identity : IdentityHash
  name : String
  appData : List UInt8

/-- `SC_APP_NAME` with the aspect `SC_ASPECT_SERVER`. -/
def serverName : String := "sven-coop.server"

section Network

variable (deriveDestinationHash : IdentityHash → String → DestinationHash)

/-- The engine reports every validated announce, whatever its name. -/
def Announce.event (an : Announce) : PrnsEvent :=
  .announceHeard (deriveDestinationHash an.identity an.name) an.appData

/-- Some announce heard so far was made for `d` under `name`. -/
def AnnouncedAs (announced : List Announce) (name : String) (d : DestinationHash) : Prop :=
  ∃ an ∈ announced, an.name = name ∧ deriveDestinationHash an.identity an.name = d

/-- A node and the announces it has heard. -/
structure OnNetwork (σ : Type) where
  node : σ
  announced : List Announce

/-- Announces reach a node from the network only. -/
def onNetwork {σ α : Type} (M : Lib.Machine σ α) (engine : PrnsEvent → α)
    (announces : α → Bool) : Lib.Machine (OnNetwork σ) (Announce ⊕ α) where
  init := { node := M.init, announced := [] }
  step s
    | .inl an => (M.step s.node (engine (an.event deriveDestinationHash))).map fun t =>
        { node := t, announced := s.announced ++ [an] }
    | .inr a =>
        if announces a then none else (M.step s.node a).map fun t => { s with node := t }

variable {deriveDestinationHash}

theorem AnnouncedAs.append {announced : List Announce} {name : String} {d : DestinationHash}
    (h : AnnouncedAs deriveDestinationHash announced name d) (more : List Announce) :
    AnnouncedAs deriveDestinationHash (announced ++ more) name d := by
  obtain ⟨an, hmem, hname, hd⟩ := h
  exact ⟨an, List.mem_append_left _ hmem, hname, hd⟩

/-- A step on the network is a step of the node. -/
theorem onNetwork_step {σ α : Type} {M : Lib.Machine σ α} {engine : PrnsEvent → α}
    {announces : α → Bool} {s t : OnNetwork σ} {a : Announce ⊕ α}
    (h : (onNetwork deriveDestinationHash M engine announces).step s a = some t) :
    (∃ an, M.step s.node (engine (an.event deriveDestinationHash)) = some t.node ∧
        t.announced = s.announced ++ [an]) ∨
      ∃ b, announces b = false ∧ M.step s.node b = some t.node ∧ t.announced = s.announced := by
  cases a with
  | inl an =>
      obtain ⟨u, hu, rfl⟩ := Option.map_eq_some_iff.1 h
      exact .inl ⟨an, hu, rfl⟩
  | inr b =>
      by_cases hb : announces b = true
      · simp [onNetwork, hb] at h
      · simp only [onNetwork, hb] at h
        obtain ⟨u, hu, rfl⟩ := Option.map_eq_some_iff.1 h
        exact .inr ⟨b, by simpa using hb, hu, rfl⟩

theorem onNetwork_reachable {σ α : Type} {M : Lib.Machine σ α} {engine : PrnsEvent → α}
    {announces : α → Bool} {s : OnNetwork σ}
    (h : (onNetwork deriveDestinationHash M engine announces).Reachable Lib.Machine.always s) :
    M.Reachable Lib.Machine.always s.node := by
  refine Lib.Machine.Reachable.map (f := OnNetwork.node) rfl ?_ h
  intro s a t _ hstep
  rcases onNetwork_step hstep with ⟨an, hnode, -⟩ | ⟨b, -, hnode, -⟩
  · exact .tail .refl trivial hnode
  · exact .tail .refl trivial hnode

/-- What a node's engine reports was announced on the network, under some name. -/
theorem onNetwork_reported {σ α : Type} {M : Lib.Machine σ α} {engine : PrnsEvent → α}
    {announces : α → Bool} (reported : σ → List DestinationHash)
    (hengine : ∀ ev ev', engine ev = engine ev' → ev = ev')
    (hannounces : ∀ d appData, announces (engine (.announceHeard d appData)) = true)
    (hinit : reported M.init = [])
    (hstep : ∀ s a t, M.step s a = some t → ∀ d ∈ reported t,
      d ∈ reported s ∨ ∃ appData, a = engine (.announceHeard d appData))
    {s : OnNetwork σ}
    (h : (onNetwork deriveDestinationHash M engine announces).Reachable Lib.Machine.always s) :
    ∀ d ∈ reported s.node, ∃ name, AnnouncedAs deriveDestinationHash s.announced name d := by
  refine Lib.Machine.Reachable.invariant (I := fun s : OnNetwork σ => ∀ d ∈ reported s.node,
    ∃ name, AnnouncedAs deriveDestinationHash s.announced name d) ?_ ?_ h
  · intro d hd
    rw [show (onNetwork deriveDestinationHash M engine announces).init.node = M.init from rfl,
      hinit] at hd
    cases hd
  · intro s a t hold _ hst d hd
    rcases onNetwork_step hst with ⟨an, hnode, hann⟩ | ⟨b, hb, hnode, hann⟩
    · rw [hann]
      rcases hstep _ _ _ hnode d hd with hd | ⟨appData, heq⟩
      · obtain ⟨name, hname⟩ := hold d hd
        exact ⟨name, hname.append [an]⟩
      · have hev := hengine _ _ heq
        simp only [Announce.event, PrnsEvent.announceHeard.injEq] at hev
        exact ⟨an.name, an, by simp, rfl, hev.1⟩
    · rw [hann]
      rcases hstep _ _ _ hnode d hd with hd | ⟨appData, rfl⟩
      · exact hold d hd
      · rw [hannounces] at hb
        cases hb

end Network

/-- The actions that report an announce. -/
def Client.Action.announces : Client.Action → Bool
  | .engine (.announceHeard _ _) => true
  | _ => false

def Server.Action.announces : Server.Action → Bool
  | .engine (.announceHeard _ _) => true
  | _ => false

section Main

variable (deriveDestinationHash : IdentityHash → String → DestinationHash)

/-- The client bridge on a network. -/
def clientOnNetwork (serverHash : Option DestinationHash) :
    Lib.Machine (OnNetwork Client.State) (Announce ⊕ Client.Action) :=
  onNetwork deriveDestinationHash (Client.machine serverHash) .engine Client.Action.announces

/-- The server bridge on a network. -/
def serverOnNetwork : Lib.Machine (OnNetwork Server.State) (Announce ⊕ Server.Action) :=
  onNetwork deriveDestinationHash Server.machine .engine Server.Action.announces

/-- In every state of every run, on either side: only Sven Co-op servers are listed and dialed, and
other announces change nothing, exactly when every announce the router has taken was made under
`sven-coop.server`; and it takes no destination that was not announced. -/
theorem discovers_only_servers_iff :
    (∀ serverHash s, (clientOnNetwork deriveDestinationHash serverHash).Reachable
        Lib.Machine.always s →
      (Client.OnlyServers (AnnouncedAs deriveDestinationHash s.announced serverName) serverHash
            s.node ∧
          Client.Undisturbed (AnnouncedAs deriveDestinationHash s.announced serverName) s.node ↔
        ∀ d ∈ Client.taken s.node, AnnouncedAs deriveDestinationHash s.announced serverName d) ∧
      ∀ d ∈ Client.taken s.node, ∃ name, AnnouncedAs deriveDestinationHash s.announced name d) ∧
    ∀ s, (serverOnNetwork deriveDestinationHash).Reachable Lib.Machine.always s →
      (Server.OnlyServers (AnnouncedAs deriveDestinationHash s.announced serverName) s.node ∧
          Server.Undisturbed (AnnouncedAs deriveDestinationHash s.announced serverName) s.node ↔
        ∀ d ∈ Server.taken s.node, AnnouncedAs deriveDestinationHash s.announced serverName d) ∧
      ∀ d ∈ Server.taken s.node, ∃ name, AnnouncedAs deriveDestinationHash s.announced name d := by
  constructor
  · intro serverHash s h
    refine ⟨Client.onlyServers_iff (Client.Discovers.of_reachable (onNetwork_reachable h)), ?_⟩
    intro d hd
    exact onNetwork_reported Client.reported (fun _ _ heq => by cases heq; rfl)
      (fun _ _ => rfl) rfl (fun _ _ _ hstep => Client.reported_step (Client.step_sound hstep)) h
      d (List.mem_append_left _ hd)
  · intro s h
    refine ⟨Server.onlyServers_iff (Server.lists_of_reachable (onNetwork_reachable h)), ?_⟩
    intro d hd
    exact onNetwork_reported Server.reported (fun _ _ heq => by cases heq; rfl)
      (fun _ _ => rfl) rfl (fun _ _ _ hstep => Server.reported_step (Server.step_sound hstep)) h
      d (List.mem_append_left _ hd)

end Main

/-- The destinations of the all-zero identity under `sven-coop.server` and `lxmf.delivery`. -/
def zeroIdentityDestination (_ : IdentityHash) (name : String) : DestinationHash :=
  if name == "sven-coop.server" then
    0xad239685eef24b498324d180419f2220
  else
    0x061e06ee8d11fdc76a98f644d9639e60

/-- A node that has heard one Sven Co-op server. -/
theorem exists_discovers_only_servers :
    (∃ s, (clientOnNetwork zeroIdentityDestination none).Reachable Lib.Machine.always s ∧
      s.node.target = some 0xad239685eef24b498324d180419f2220 ∧
      Client.OnlyServers (AnnouncedAs zeroIdentityDestination s.announced serverName) none
        s.node) ∧
    ∃ s, (serverOnNetwork zeroIdentityDestination).Reachable Lib.Machine.always s ∧
      s.node.discovered ≠ [] ∧
      Server.OnlyServers (AnnouncedAs zeroIdentityDestination s.announced serverName) s.node := by
  have hclient : ((clientOnNetwork zeroIdentityDestination none).run
      (clientOnNetwork zeroIdentityDestination none).init
      [.inl ⟨0, "sven-coop.server", []⟩, .inr .router, .inr .router, .inr .router]).any (fun s =>
        s.node.target == some 0xad239685eef24b498324d180419f2220 &&
          Client.taken s.node == [0xad239685eef24b498324d180419f2220] &&
          s.announced.any fun an => an.name == serverName && an.identity == 0) = true := by
    decide +kernel
  have hserver : ((serverOnNetwork zeroIdentityDestination).run
      (serverOnNetwork zeroIdentityDestination).init
      [.inl ⟨0, "sven-coop.server", []⟩, .inr .router, .inr .router]).any (fun s =>
        s.node.discovered != [] &&
          Server.taken s.node == [0xad239685eef24b498324d180419f2220] &&
          s.announced.any fun an => an.name == serverName && an.identity == 0) = true := by
    decide +kernel
  obtain ⟨s, hs, hP⟩ := Lib.Machine.exists_reachable_of_run hclient
  obtain ⟨s', hs', hP'⟩ := Lib.Machine.exists_reachable_of_run hserver
  simp only [Bool.and_eq_true, beq_iff_eq, bne_iff_ne, List.any_eq_true] at hP hP'
  obtain ⟨⟨htarget, htaken⟩, an, hmem, hname, -⟩ := hP
  obtain ⟨⟨hlist, htaken'⟩, an', hmem', hname', -⟩ := hP'
  have hann : ∀ d ∈ Client.taken s.node,
      AnnouncedAs zeroIdentityDestination s.announced serverName d := by
    intro d hd
    rw [htaken, List.mem_singleton] at hd
    exact ⟨an, hmem, hname, by rw [hname, hd]; rfl⟩
  have hann' : ∀ d ∈ Server.taken s'.node,
      AnnouncedAs zeroIdentityDestination s'.announced serverName d := by
    intro d hd
    rw [htaken', List.mem_singleton] at hd
    exact ⟨an', hmem', hname', by rw [hname', hd]; rfl⟩
  have hall := discovers_only_servers_iff zeroIdentityDestination
  exact ⟨⟨s, hs, htarget, ((hall.1 none s hs).1.2 hann).1⟩,
    ⟨s', hs', hlist, ((hall.2 s' hs').1.2 hann').1⟩⟩

/-- One announce of another application fills the list and becomes the dial target. -/
theorem exists_foreign_target :
    ∃ s, (clientOnNetwork zeroIdentityDestination none).Reachable Lib.Machine.always s ∧
      ¬ Client.OnlyServers (AnnouncedAs zeroIdentityDestination s.announced serverName) none
        s.node := by
  have hrun : ((clientOnNetwork zeroIdentityDestination none).run
      (clientOnNetwork zeroIdentityDestination none).init
      [.inl ⟨0, "lxmf.delivery", []⟩, .inr .router, .inr .router, .inr .router]).any (fun s =>
        s.node.target.isSome && s.announced.all fun an => an.name != serverName) = true := by
    decide +kernel
  obtain ⟨s, hs, hP⟩ := Lib.Machine.exists_reachable_of_run hrun
  simp only [Bool.and_eq_true, List.all_eq_true, bne_iff_ne] at hP
  obtain ⟨d, htarget⟩ := Option.isSome_iff_exists.1 hP.1
  refine ⟨s, hs, fun honly => ?_⟩
  obtain ⟨an, hmem, hname, -⟩ := honly.2 rfl d htarget
  exact hP.2 an hmem hname

end SvenBridge
