import SvenBridge.Server.Deadlock

/-!
# Server.Lifetime — both pumps or none

The main task of a relay joins both pumps, and nothing makes one pump end when the other has: the
end of `to_sc` leaves `from_sc` in `sock_recv.recv`, and the end of `from_sc` leaves the sender of
`to_sc` in the map.  `LifetimeSafe` names the steps that do not end one pump of a running relay
alone; in runs of such steps every relay at rest is either running with its link open, or gone
with its socket released and its link closed.
-/

namespace SvenBridge
namespace Server

variable {s t : State} {a : Action}

/-! ## The two conditions of a relay -/

def ToScPc.alive : ToScPc → Bool
  | .recv | .sending _ => true
  | .unspawned | .ended => false

def FromScPc.alive : FromScPc → Bool
  | .recv => true
  | .unspawned | .ended => false

/-- Some task of the relay holds the UDP socket. -/
def Relay.holdsSocket (x : Relay) : Bool :=
  match x.main with
  | .connecting | .removeFailed | .joining | .removeEnded => true
  | .unborn | .binding | .ended => x.toSc.alive || x.fromSc.alive

/-- Reported established, and neither reported closed nor closed by the bridge. -/
def LinkOpen (s : State) (l : LinkId) : Prop :=
  l ∈ s.established ∧ l ∉ s.closed ∧ .closeLink l ∉ s.commands

/-- Reported closed or closed by the bridge, or gone with the node. -/
def LinkDown (s : State) (l : LinkId) : Prop :=
  l ∈ s.closed ∨ .closeLink l ∈ s.commands ∨ s.stopped = true

/-- Both pumps alive, the link open, the sender registered. -/
def RelayAlive (s : State) (r : ℕ) : Prop :=
  (s.relay r).toSc.alive = true ∧ (s.relay r).fromSc.alive = true ∧
    LinkOpen s (s.relay r).link ∧ s.senders (s.relay r).link = some r

/-- Both pumps ended, the socket released, the sender unregistered, the link closed. -/
def RelayGone (s : State) (r : ℕ) : Prop :=
  (s.relay r).toSc.alive = false ∧ (s.relay r).fromSc.alive = false ∧
    (s.relay r).holdsSocket = false ∧ s.senders (s.relay r).link = none ∧
    LinkDown s (s.relay r).link

/-- Steps of the bridge's own tasks: all but the engine's, the game server's and the clock's. -/
def Action.internal : Action → Bool
  | .router | .bind _ _ | .connect _ _ | .main _ | .toSc _ | .scSend _ _ => true
  | .engine _ | .scRecv _ _ | .tick | .nodeStop => false

def Quiescent (s : State) : Prop :=
  ∀ a, a.internal = true → step s a = none

/-! ## The condition on steps -/

/-- The pump `to_sc` has ended, or ends without a further event. -/
def ToScEnding (s : State) (r : ℕ) : Prop :=
  (s.relay r).toSc = .ended ∨ [] ∈ (s.relay r).rx ∨ s.senders (s.relay r).link ≠ some r

/-- The same, counting a `LinkClosed` on its way to the router. -/
def ToScDoomed (s : State) (r : ℕ) : Prop :=
  ToScEnding s r ∨ .linkClosed (s.relay r).link ∈ s.events ∨
    s.router = .removeSender (s.relay r).link

instance (s : State) (r : ℕ) : Decidable (ToScEnding s r) := by
  unfold ToScEnding
  infer_instance

instance (s : State) (r : ℕ) : Decidable (ToScDoomed s r) := by
  unfold ToScDoomed
  infer_instance

/-- If `l` has a running relay, its pump `from_sc` has ended. -/
def FromScEnded (s : State) (l : LinkId) : Prop :=
  match s.senders l with
  | some r => (s.relay r).main = .joining → (s.relay r).fromSc = .ended
  | none => True

instance (s : State) (l : LinkId) : Decidable (FromScEnded s l) := by
  unfold FromScEnded
  generalize s.senders l = entry
  rcases entry with _ | _ <;> infer_instance

/-- What the router hands to `to_sc` does not end it alone. -/
def RouterSafe (s : State) : Prop :=
  match s.router with
  | .removeSender l => FromScEnded s l
  | .forward l bytes => bytes = [] → FromScEnded s l
  | _ => True

instance (s : State) : Decidable (RouterSafe s) := by
  unfold RouterSafe
  generalize s.router = router
  rcases router with _ | _ <;> infer_instance

/-- The engine reports a link established once, before it reports it closed. -/
def EngineSafe (s : State) (event : PrnsEvent) : Prop :=
  match event with
  | .linkEstablished l => l ∉ s.established ∧ l ∉ s.closed
  | _ => True

instance (s : State) (event : PrnsEvent) : Decidable (EngineSafe s event) := by
  unfold EngineSafe
  rcases event with _ | _ <;> infer_instance

/-- What `sock_recv.recv` returns does not end `from_sc` alone. -/
def ScRecvSafe (s : State) (r : ℕ) (datagram : Option Datagram) : Prop :=
  match datagram with
  | none => ToScDoomed s r
  | some payload => s.stopped = true → payload.take udpReadBuf ≠ [] → ToScDoomed s r

instance (s : State) (r : ℕ) (datagram : Option Datagram) :
    Decidable (ScRecvSafe s r datagram) := by
  unfold ScRecvSafe
  rcases datagram with _ | _ <;> infer_instance

/-- No step gives one pump of a relay a reason to end while the other has none. -/
def LifetimeSafe (s : State) (a : Action) : Prop :=
  LockSafe s a ∧
    match a with
    | .engine event => EngineSafe s event
    | .router => RouterSafe s
    | .connect r true => ¬ ToScEnding s r
    | .scSend r false => (s.relay r).fromSc = .ended
    | .scRecv r datagram => ScRecvSafe s r datagram
    | _ => True

instance (s : State) (a : Action) : Decidable (LifetimeSafe s a) := by
  unfold LifetimeSafe
  refine @instDecidableAnd _ _ inferInstance ?_
  rcases a with _ | _ | _ | ⟨_, _ | _⟩ | _ | _ | ⟨_, _ | _⟩ | _ <;> infer_instance

/-! ## Links are established once -/

/-- The link the router is about to spawn a relay for. -/
def RouterPc.spawning : RouterPc → Option LinkId
  | .checkSenders l | .insertSender l => some l
  | _ => none

def establishedEvent : BridgeEvent → Option LinkId
  | .linkEstablished l => some l
  | _ => none

/-- Links reported established that have no relay yet, oldest first. -/
def pending (s : State) : List LinkId :=
  s.router.spawning.toList ++ s.events.filterMap establishedEvent

/-- Links on their way to a relay, and links that have one. -/
structure Fresh (s : State) : Prop where
  nodup : (pending s).Nodup
  reported : ∀ l ∈ pending s, l ∈ s.established
  unused : ∀ l ∈ pending s, ∀ r, (s.relay r).main ≠ .unborn → (s.relay r).link ≠ l
  known : ∀ r, (s.relay r).main ≠ .unborn → (s.relay r).link ∈ s.established
  distinct : ∀ r r', (s.relay r).main ≠ .unborn → (s.relay r').main ≠ .unborn →
    (s.relay r).link = (s.relay r').link → r = r'

/-- The pending links are a queue: the engine appends, the router takes from the front. -/
theorem pending_step (h : Step s a t) :
    (pending t = pending s ∧ t.established = s.established) ∨
      (∃ l, a = .engine (.linkEstablished l) ∧ pending t = pending s ++ [l] ∧
        t.established = s.established ++ [l]) ∨
      ∃ l, pending s = l :: pending t ∧ t.established = s.established := by
  cases h with
  | @reportEstablished l =>
      exact .inr (.inl ⟨l, rfl, by simp [pending, establishedEvent], rfl⟩)
  | @checkKnown l hrouter hentry =>
      exact .inr (.inr ⟨l, by simp [pending, hrouter, RouterPc.spawning], rfl⟩)
  | @spawn l hrouter =>
      exact .inr (.inr ⟨l, by simp [pending, hrouter, RouterPc.spawning], rfl⟩)
  | other =>
      exact .inl ⟨rfl, rfl⟩
  | _ =>
      exact .inl ⟨by simp_all [pending, RouterPc.spawning, establishedEvent,
        List.filterMap_cons], rfl⟩

/-- A relay keeps its link; a new one takes the first pending link. -/
theorem link_step (h : Step s a t) (hI : Inv s) {r : ℕ} (hmain : (t.relay r).main ≠ .unborn) :
    ((s.relay r).main ≠ .unborn ∧ (t.relay r).link = (s.relay r).link) ∨
      (r = s.spawned ∧ pending s = (t.relay r).link :: pending t) := by
  have hunborn := hI.unborn r
  cases h with
  | @spawn l hrouter =>
      by_cases hr : r = s.spawned
      · subst hr
        exact .inr ⟨rfl, by simp [pending, hrouter, RouterPc.spawning]⟩
      · exact .inl (by simpa [hr] using hmain)
  | _ => grind -linarith [Function.update_apply]

theorem Fresh.step (h : Step s a t) (hI : Inv s) (hf : Fresh s) (hok : LifetimeSafe s a) :
    Fresh t := by
  -- Pending links stay pending or are taken; a new one is unknown so far.
  have hsub : ∀ l ∈ pending t, l ∈ pending s ∨ l ∉ s.established := by
    intro l hl
    rcases pending_step h with ⟨heq, -⟩ | ⟨l', rfl, heq, -⟩ | ⟨l', heq, -⟩
    · exact .inl (heq ▸ hl)
    · rw [heq, List.mem_append, List.mem_singleton] at hl
      rcases hl with hl | rfl
      · exact .inl hl
      · exact .inr hok.2.1
    · exact .inl (heq ▸ List.mem_cons_of_mem _ hl)
  have hmono : ∀ l ∈ s.established, l ∈ t.established := by
    intro l hl
    rcases pending_step h with ⟨-, heq⟩ | ⟨l', -, -, heq⟩ | ⟨l', -, heq⟩ <;> rw [heq]
    · exact hl
    · exact List.mem_append_left _ hl
    · exact hl
  have hlink := fun r => link_step (r := r) h hI
  refine ⟨?_, ?_, ?_, ?_, ?_⟩
  · rcases pending_step h with ⟨heq, -⟩ | ⟨l, rfl, heq, -⟩ | ⟨l, heq, -⟩
    · exact heq ▸ hf.nodup
    · rw [heq, List.nodup_append]
      refine ⟨hf.nodup, by simp, fun l' hl' l'' hl'' heq' => ?_⟩
      rw [List.mem_singleton.1 hl''] at heq'
      exact hok.2.1 (heq' ▸ hf.reported l' hl')
    · exact (List.nodup_cons.1 (heq ▸ hf.nodup)).2
  · intro l hl
    rcases pending_step h with ⟨heq, -⟩ | ⟨l', -, heq, hest⟩ | ⟨l', heq, -⟩
    · exact hmono l (hf.reported l (heq ▸ hl))
    · rw [heq, List.mem_append, List.mem_singleton] at hl
      rcases hl with hl | rfl
      · exact hmono l (hf.reported l hl)
      · simp [hest]
    · exact hmono l (hf.reported l (heq ▸ List.mem_cons_of_mem _ hl))
  · intro l hl r hmain
    rcases hlink r hmain with ⟨hmain', heq⟩ | ⟨-, hpend⟩
    · rw [heq]
      rcases hsub l hl with hold | hnew
      · exact hf.unused l hold r hmain'
      · exact fun hl' => hnew (hl' ▸ hf.known r hmain')
    · have hnodup := hf.nodup
      rw [hpend, List.nodup_cons] at hnodup
      exact fun hl' => hnodup.1 (hl' ▸ hl)
  · intro r hmain
    rcases hlink r hmain with ⟨hmain', heq⟩ | ⟨-, hpend⟩
    · exact hmono _ (heq ▸ hf.known r hmain')
    · exact hmono _ (hf.reported _ (hpend ▸ List.mem_cons_self))
  · intro r r' hmain hmain' heq
    rcases hlink r hmain with ⟨hr, hl⟩ | ⟨hr, hl⟩ <;>
      rcases hlink r' hmain' with ⟨hr', hl'⟩ | ⟨hr', hl'⟩
    · exact hf.distinct r r' hr hr' (by rw [← hl, ← hl', heq])
    · have hmem : (t.relay r').link ∈ pending s := hl' ▸ List.mem_cons_self
      exact absurd (by rw [← hl, heq]) (hf.unused _ hmem r hr)
    · have hmem : (t.relay r).link ∈ pending s := hl ▸ List.mem_cons_self
      exact absurd (by rw [← hl', heq]) (hf.unused _ hmem r' hr')
    · rw [hr, hr']

theorem Fresh.init : Fresh ({} : State) where
  nodup := List.nodup_nil
  reported := by
    intro l h
    cases h
  unused := by
    intro l h
    cases h
  known := fun _ h => absurd rfl h
  distinct := fun _ _ h => absurd rfl h

/-! ## Closed links lose their sender -/

/-- A reported close is still in the queue, behind the link's establishment, or the router has
taken it and no establishment is left. -/
def CloseQueued (s : State) : Prop :=
  ∀ l ∈ s.closed,
    (∃ pre post, s.events = pre ++ .linkClosed l :: post ∧ .linkEstablished l ∉ post) ∨
      (l ∉ pending s ∧ (s.router = .removeSender l ∨ s.senders l = none))

/-- The engine appends to the event queue, the router takes from its front. -/
theorem events_step (h : Step s a t) :
    (t.events = s.events ∧ t.closed = s.closed) ∨
      (∃ ev, t.events = s.events ++ [ev] ∧
        ((t.closed = s.closed ∧ ∀ l, ev = .linkEstablished l → a = .engine (.linkEstablished l)) ∨
          ∃ l, ev = .linkClosed l ∧ t.closed = s.closed ++ [l])) ∨
      ∃ ev, s.events = ev :: t.events ∧ t.closed = s.closed ∧
        ∀ l, ev = .linkClosed l → t.router = .removeSender l := by
  cases h <;> grind -linarith

/-- Without a pending establishment no sender of that link comes back. -/
theorem senders_none_step (h : Step s a t) {l : LinkId} (hpend : l ∉ pending s)
    (hout : s.router = .removeSender l ∨ s.senders l = none) :
    t.router = .removeSender l ∨ t.senders l = none := by
  cases h with
  | @spawn l' hrouter =>
      have hne : l' ≠ l := by
        rintro rfl
        simp [pending, hrouter, RouterPc.spawning] at hpend
      exact .inr (by simpa [hrouter, hne.symm] using hout)
  | _ => grind -linarith [Function.update_apply]

/-- The engine does not report a closed link established. -/
theorem not_pending_step (h : Step s a t) (hok : LifetimeSafe s a) {l : LinkId}
    (hclosed : l ∈ s.closed) (hpend : l ∉ pending s) : l ∉ pending t := by
  rcases pending_step h with ⟨heq, -⟩ | ⟨l', rfl, heq, -⟩ | ⟨l', heq, -⟩
  · rwa [heq]
  · rw [heq, List.mem_append, List.mem_singleton]
    rintro (hl | rfl)
    · exact hpend hl
    · exact hok.2.2 hclosed
  · exact fun hl => hpend (heq ▸ List.mem_cons_of_mem _ hl)

theorem mem_filterMap_establishedEvent {events : List BridgeEvent} {l : LinkId} :
    l ∈ events.filterMap establishedEvent ↔ .linkEstablished l ∈ events := by
  rw [List.mem_filterMap]
  constructor
  · rintro ⟨ev, hev, heq⟩
    cases ev <;> simp_all [establishedEvent]
  · intro hmem
    exact ⟨_, hmem, rfl⟩

theorem CloseQueued.step (h : Step s a t) (hq : CloseQueued s) (hok : LifetimeSafe s a) :
    CloseQueued t := by
  have hout : ∀ l ∈ s.closed, l ∉ pending s → (s.router = .removeSender l ∨ s.senders l = none) →
      l ∉ pending t ∧ (t.router = .removeSender l ∨ t.senders l = none) :=
    fun l hl hpend hnone => ⟨not_pending_step h hok hl hpend, senders_none_step h hpend hnone⟩
  intro l hl
  rcases events_step h with ⟨hevents, hclosed⟩ | ⟨ev, hevents, hclosed⟩ | ⟨ev, hevents, hclosed, hev⟩
  · rw [hclosed] at hl
    rcases hq l hl with ⟨pre, post, heq, hpost⟩ | ⟨hpend, hnone⟩
    · exact .inl ⟨pre, post, by rw [hevents, heq], hpost⟩
    · exact .inr (hout l hl hpend hnone)
  · have hold : l ∈ s.closed → (∀ l, ev = .linkEstablished l → a = .engine (.linkEstablished l)) →
        (∃ pre post, t.events = pre ++ .linkClosed l :: post ∧ .linkEstablished l ∉ post) ∨
          (l ∉ pending t ∧ (t.router = .removeSender l ∨ t.senders l = none)) := by
      intro hl hev
      rcases hq l hl with ⟨pre, post, heq, hpost⟩ | ⟨hpend, hnone⟩
      · refine .inl ⟨pre, post ++ [ev], by simp [hevents, heq], ?_⟩
        rw [List.mem_append, List.mem_singleton]
        rintro (hmem | hmem)
        · exact hpost hmem
        · have ha := hev l hmem.symm
          subst ha
          exact hok.2.2 hl
      · exact .inr (hout l hl hpend hnone)
    rcases hclosed with ⟨hsame, hev⟩ | ⟨l', rfl, hnew⟩
    · exact hold (hsame ▸ hl) hev
    · rw [hnew, List.mem_append, List.mem_singleton] at hl
      rcases hl with hl | rfl
      · exact hold hl (by simp)
      · exact .inl ⟨s.events, [], hevents, by simp⟩
  · rw [hclosed] at hl
    rcases hq l hl with ⟨pre, post, heq, hpost⟩ | ⟨hpend, hnone⟩
    · rw [hevents] at heq
      cases pre with
      | nil =>
          obtain ⟨rfl, hpost'⟩ := List.cons.inj heq
          have hrouter := hev l rfl
          have hnil : t.router.spawning = none := by rw [hrouter]; rfl
          refine .inr ⟨?_, .inl hrouter⟩
          rw [pending, hnil, hpost', Option.toList_none, List.nil_append,
            mem_filterMap_establishedEvent]
          exact hpost
      | cons x pre =>
          exact .inl ⟨pre, post, (List.cons.inj heq).2, hpost⟩
    · exact .inr (hout l hl hpend hnone)

/-! ## The pumps of a running relay end together -/

structure Balanced (s : State) : Prop where
  doomed : ∀ r, (s.relay r).main = .joining → (s.relay r).fromSc = .ended → ToScDoomed s r
  ending : ∀ r, (s.relay r).main = .joining → ToScEnding s r → (s.relay r).fromSc = .ended

/-- A relay keeps its running condition, or was just started. -/
theorem joining_step (h : Step s a t) {r : ℕ} (hmain : (t.relay r).main = .joining) :
    (s.relay r).main = .joining ∧ (t.relay r).link = (s.relay r).link ∨
      a = .connect r true ∧ (s.relay r).main = .connecting ∧ (t.relay r).toSc = .recv ∧
        (t.relay r).fromSc = .recv ∧ (t.relay r).rx = (s.relay r).rx ∧
        (t.relay r).link = (s.relay r).link ∧ t.senders = s.senders := by
  cases h <;> grind -linarith [Function.update_apply]

/-- Reasons for `to_sc` to end do not go away. -/
theorem ToScEnding.step (h : Step s a t) (hI : Inv s) {r : ℕ}
    (hmain : (s.relay r).main = .joining) (hending : ToScEnding s r) : ToScEnding t r := by
  have hunborn := hI.unborn r
  have hpumps := hI.pumps r
  simp only [Relay.PumpsOk, hmain] at hpumps
  rcases hending with hended | hempty | hentry
  · refine .inl ?_
    cases h <;> grind -linarith [Function.update_apply]
  · cases h <;> grind -linarith [Function.update_apply, ToScEnding]
  · refine .inr (.inr ?_)
    cases h <;> grind -linarith [Function.update_apply]

theorem link_eq_step (h : Step s a t) (hI : Inv s) {r : ℕ} (hmain : (s.relay r).main ≠ .unborn) :
    (t.relay r).link = (s.relay r).link := by
  have hunborn := hI.unborn r
  cases h <;> grind -linarith [Function.update_apply]

theorem ToScDoomed.step (h : Step s a t) (hI : Inv s) {r : ℕ}
    (hmain : (s.relay r).main = .joining) (hdoomed : ToScDoomed s r) : ToScDoomed t r := by
  have hlink := link_eq_step h hI (r := r) (by simp [hmain])
  rcases hdoomed with hending | hqueued | hrouter
  · exact .inl (hending.step h hI hmain)
  · rcases events_step h with ⟨heq, -⟩ | ⟨ev, heq, -⟩ | ⟨ev, heq, -, hev⟩
    · exact .inr (.inl (by rwa [heq, hlink]))
    · exact .inr (.inl (by rw [heq, hlink]; exact List.mem_append_left _ hqueued))
    · rw [heq, List.mem_cons] at hqueued
      rcases hqueued with hhead | hrest
      · exact .inr (.inr (by rw [hlink]; exact hev _ hhead.symm))
      · exact .inr (.inl (by rwa [hlink]))
  · unfold ToScDoomed ToScEnding
    rw [hlink]
    cases h <;> grind -linarith [Function.update_apply]

/-- Only a returning `sock_recv.recv` ends `from_sc`. -/
theorem fromSc_step (h : Step s a t) {r : ℕ} (hmain : (s.relay r).main = .joining)
    (hended : (t.relay r).fromSc = .ended) (hok : LifetimeSafe s a) :
    (s.relay r).fromSc = .ended ∨ ToScDoomed s r := by
  cases h with
  | @scRecvFailed r' hfromSc =>
      by_cases hr : r = r'
      · subst hr
        exact .inr hok.2
      · exact .inl (by simpa [hr] using hended)
  | @scRecvRefused r' payload hfromSc hne hstop =>
      by_cases hr : r = r'
      · subst hr
        exact .inr (hok.2 hstop hne)
      · exact .inl (by simpa [hr] using hended)
  | _ => grind -linarith [Function.update_apply]

/-- A step that gives `to_sc` of a running relay a reason to end finds `from_sc` ended. -/
theorem toScEnding_step (h : Step s a t) (hI : Inv s) (hf : Fresh s) {r : ℕ}
    (hmain : (s.relay r).main = .joining) (hmain' : (t.relay r).main = .joining)
    (hending : ToScEnding t r) (hok : LifetimeSafe s a) :
    ToScEnding s r ∨ (s.relay r).fromSc = .ended := by
  have hne : (s.relay r).main ≠ .unborn := by simp [hmain]
  have hrouter : ∀ l, s.senders l = some r → FromScEnded s l → (s.relay r).fromSc = .ended := by
    intro l hentry hended
    simp only [FromScEnded, hentry] at hended
    exact hended hmain
  have hend : ∀ l, s.router = .sendEnd l r → s.senders (s.relay r).link ≠ some r := by
    intro l hl
    obtain ⟨hlink, hnone, -⟩ := hI.ending l r hl
    simp [hlink, hnone]
  have hunused : ∀ l, s.router = .insertSender l → (s.relay r).link ≠ l := fun l hl =>
    hf.unused l (by simp [pending, hl, RouterPc.spawning]) r hne
  have hdistinct := hf.distinct r
  have hsenders := hI.senders (s.relay r).link r
  have hunborn := hI.unborn r
  cases h with
  | @forwardQueued l c r' hfwd hentry hrx hroom =>
      by_cases hr : r = r'
      · subst hr
        by_cases hc : c = []
        · simp only [LifetimeSafe, RouterSafe, hfwd] at hok
          exact .inr (hrouter l hentry (hok.2 hc))
        · refine .inl ?_
          simpa [ToScEnding, Ne.symm hc] using hending
      · exact .inl (by simpa [ToScEnding, hr] using hending)
  | @removeSender l r' hremove hentry =>
      simp only [LifetimeSafe, RouterSafe, hremove] at hok
      by_cases hl : (s.relay r).link = l
      · by_cases hr : r' = r
        · subst hr
          exact .inr (hrouter l hentry hok.2)
        · exact .inl (.inr (.inr (by rw [hl, hentry]; simpa using hr)))
      · exact .inl (by simpa [ToScEnding, hl] using hending)
  | @scSendFailed r' d htoSc =>
      by_cases hr : r = r'
      · subst hr
        exact .inr hok.2
      · exact .inl (by simpa [ToScEnding, hr] using hending)
  | toScDone htoSc hrx hsender =>
      grind -linarith [Function.update_apply, ToScEnding, State.sender]
  | _ => grind -linarith [Function.update_apply, ToScEnding]

theorem Balanced.step (h : Step s a t) (hI : Inv s) (hf : Fresh s) (hb : Balanced s)
    (hok : LifetimeSafe s a) : Balanced t where
  doomed := by
    intro r hmain hended
    rcases joining_step h hmain with ⟨hmain', -⟩ | ⟨-, -, -, hrecv, -⟩
    · have hdoomed : ToScDoomed s r := by
        rcases fromSc_step h hmain' hended hok with hold | hdoomed
        · exact hb.doomed r hmain' hold
        · exact hdoomed
      exact hdoomed.step h hI hmain'
    · rw [hrecv] at hended
      cases hended
  ending := by
    intro r hmain hending
    rcases joining_step h hmain with ⟨hmain', -⟩ | ⟨rfl, hconn, htoSc, -, hrx, hlink, hsenders⟩
    · have hended : (s.relay r).fromSc = .ended := by
        rcases toScEnding_step h hI hf hmain' hmain hending hok with hold | hended
        · exact hb.ending r hmain' hold
        · exact hended
      have hunborn := hI.unborn r
      cases h <;> grind -linarith [Function.update_apply]
    · have hpumps := hI.pumps r
      simp only [Relay.PumpsOk, hconn] at hpumps
      exfalso
      refine hok.2 ?_
      simpa [ToScEnding, htoSc, hrx, hlink, hsenders, hpumps.1] using hending

/-! ## The bridge closes the links of ended relays -/

structure ClosesLinks (s : State) : Prop where
  requested : ∀ l, .closeLink l ∈ s.commands →
    ∃ r, (s.relay r).main = .ended ∧ (s.relay r).link = l
  ended : ∀ r, (s.relay r).main = .ended →
    .closeLink (s.relay r).link ∈ s.commands ∨ s.stopped = true

/-- Close commands come from a relay's last step. -/
theorem closeLink_step (h : Step s a t) {l : LinkId} (hmem : .closeLink l ∈ t.commands) :
    .closeLink l ∈ s.commands ∨ ∃ r, (s.relay r).link = l ∧ (t.relay r).main = .ended ∧
      (t.relay r).link = l := by
  cases h with
  | @unregisterFailed r hmain hguard =>
      rw [List.mem_append] at hmem
      refine hmem.imp id fun hclose => ⟨r, ?_⟩
      have hl : l = (s.relay r).link := by
        cases hstop : s.stopped <;> simp_all [issueClose]
      simp [hl]
  | @unregister r hmain hguard =>
      rw [List.mem_append] at hmem
      refine hmem.imp id fun hclose => ⟨r, ?_⟩
      have hl : l = (s.relay r).link := by
        cases hstop : s.stopped <;> simp_all [issueClose]
      simp [hl]
  | scRecvChunks hfromSc hne hrun =>
      exact .inl (by simpa using hmem)
  | _ => exact .inl hmem

/-- Only its last step makes a relay ended. -/
theorem ended_step (h : Step s a t) {r : ℕ} (hmain : (t.relay r).main = .ended) :
    (s.relay r).main = .ended ∨
      t.commands = s.commands ++ issueClose s.stopped (t.relay r).link ∧
        t.stopped = s.stopped := by
  cases h <;> grind -linarith [Function.update_apply]

theorem commands_mono (h : Step s a t) : ∀ c ∈ s.commands, c ∈ t.commands := by
  intro c hc
  cases h <;> first | exact hc | exact List.mem_append_left _ hc

theorem stopped_mono (h : Step s a t) (hstop : s.stopped = true) : t.stopped = true := by
  cases h <;> first | exact hstop | rfl

theorem ended_mono (h : Step s a t) (hI : Inv s) {r : ℕ} (hmain : (s.relay r).main = .ended) :
    (t.relay r).main = .ended := by
  have hunborn := hI.unborn r
  cases h <;> grind -linarith [Function.update_apply]

theorem ClosesLinks.step (h : Step s a t) (hI : Inv s) (hc : ClosesLinks s) :
    ClosesLinks t where
  requested := by
    intro l hmem
    rcases closeLink_step h hmem with hold | ⟨r, -, hmain, hlink⟩
    · obtain ⟨r, hmain, hlink⟩ := hc.requested l hold
      exact ⟨r, ended_mono h hI hmain, by
        rw [link_eq_step h hI (by simp [hmain]), hlink]⟩
    · exact ⟨r, hmain, hlink⟩
  ended := by
    intro r hmain
    rcases ended_step h hmain with hold | ⟨hcommands, hstopped⟩
    · rcases hc.ended r hold with hclose | hstop
      · left
        rw [link_eq_step h hI (by simp [hold])]
        exact commands_mono h _ hclose
      · exact .inr (stopped_mono h hstop)
    · cases hstop : s.stopped with
      | true =>
          exact .inr (by rw [hstopped, hstop])
      | false =>
          left
          simp [hcommands, hstop, issueClose]

/-! ## The invariant -/

structure Lifetime (s : State) : Prop where
  unlocked : Unlocked s
  fresh : Fresh s
  closeQueued : CloseQueued s
  balanced : Balanced s
  closesLinks : ClosesLinks s

theorem Lifetime.of_reachable (h : machine.Reachable LifetimeSafe s) : Lifetime s := by
  refine Lib.Machine.Reachable.invariant_of_reachable (I := Lifetime) ?_ ?_ h
  · refine ⟨?_, Fresh.init, ?_, ⟨?_, ?_⟩, ⟨?_, ?_⟩⟩
    · intro l r hrouter
      cases hrouter
    · intro l hl
      cases hl
    · intro r hmain
      cases hmain
    · intro r hmain
      cases hmain
    · intro l hmem
      cases hmem
    · intro r hmain
      cases hmain
  · intro s a t hs hlife hok hstep
    have hI : Inv s := Inv.of_reachable hs
    have h := step_sound hstep
    exact ⟨hlife.unlocked.step h hI hok.1, hlife.fresh.step h hI hok,
      hlife.closeQueued.step h hok, hlife.balanced.step h hI hlife.fresh hok,
      hlife.closesLinks.step h hI⟩

/-! ## Relays at rest -/

/-- At rest the router has nothing left to do: a full channel would have a moving owner. -/
theorem router_of_quiescent (hu : Unlocked s) (hq : Quiescent s) :
    s.router = .recv ∧ s.events = [] := by
  have hnone : routerStep s = none := hq .router rfl
  unfold routerStep at hnone
  split at hnone
  case h_1 hrouter =>
      refine ⟨hrouter, ?_⟩
      split at hnone
      case h_1 hevents =>
          exact hevents
      all_goals cases hnone
  case h_4 | h_6 =>
      split at hnone <;> cases hnone
  case h_7 l r hrouter =>
      exfalso
      dsimp only at hnone
      split at hnone
      · cases hnone
      case isFalse hrx =>
          split at hnone
          · cases hnone
          case isFalse hfull =>
              have hbind : step s (.bind r true) = none := hq _ rfl
              have hconnect : step s (.connect r true) = none := hq _ rfl
              have htoSc : toScStep s r = none := hq (.toSc r) rfl
              have hscSend : scSendStep s r true = none := hq (.scSend r true) rfl
              have hrx' : (s.relay r).receiver = true := by simpa using hrx
              have hfailed : (s.relay r).main ≠ .removeFailed := fun hm =>
                hfull (hu l r hrouter hm)
              have hne : (s.relay r).rx ≠ [] := by
                intro hnil
                rw [hnil] at hfull
                exact hfull (by decide)
              cases hpc : (s.relay r).toSc with
              | sending d =>
                  simp [scSendStep, hpc] at hscSend
              | recv =>
                  cases hqueue : (s.relay r).rx with
                  | nil =>
                      exact hne hqueue
                  | cons c rest =>
                      unfold toScStep at htoSc
                      simp only [hpc, hqueue] at htoSc
                      split at htoSc <;> cases htoSc
              | unspawned | ended =>
                  have howns : (s.relay r).main.ownsReceiver = true := by
                    simpa [Relay.receiver, hpc] using hrx'
                  cases hmain : (s.relay r).main <;>
                    simp_all [MainPc.ownsReceiver, step]
  case h_9 =>
      split at hnone
      · cases hnone
      · dsimp only at hnone
        split at hnone <;> cases hnone
  all_goals cases hnone

/-- At rest a spawned relay is running or has ended. -/
theorem main_of_quiescent (hI : Inv s) (hu : Unlocked s) (hq : Quiescent s) {r : ℕ}
    (hr : r < s.spawned) : (s.relay r).main = .joining ∨ (s.relay r).main = .ended := by
  obtain ⟨hrouter, -⟩ := router_of_quiescent hu hq
  have hguard : s.writeGuard = false := by simp [State.writeGuard, hrouter]
  have hbind : step s (.bind r true) = none := hq _ rfl
  have hconnect : step s (.connect r true) = none := hq _ rfl
  have hmainNone : mainStep s r = none := hq (.main r) rfl
  cases hmain : (s.relay r).main with
  | joining =>
      exact .inl rfl
  | ended =>
      exact .inr rfl
  | unborn =>
      exact absurd ((hI.unborn r).1 hmain) (Nat.not_le.2 hr)
  | binding =>
      simp [step, hmain] at hbind
  | connecting =>
      simp [step, hmain] at hconnect
  | removeFailed | removeEnded =>
      simp [mainStep, hmain, hguard] at hmainNone

/-- At rest a running relay has both pumps waiting on an open link. -/
theorem relayAlive_of_joining (hI : Inv s) (hlife : Lifetime s) (hq : Quiescent s) {r : ℕ}
    (hmain : (s.relay r).main = .joining) : RelayAlive s r := by
  obtain ⟨hrouter, hevents⟩ := router_of_quiescent hlife.unlocked hq
  have hne : (s.relay r).main ≠ .unborn := by simp [hmain]
  have hpumps := hI.pumps r
  simp only [Relay.PumpsOk, hmain] at hpumps
  have hmainNone : mainStep s r = none := hq (.main r) rfl
  have htoScNone : toScStep s r = none := hq (.toSc r) rfl
  have hscSendNone : scSendStep s r true = none := hq (.scSend r true) rfl
  have hfromSc : (s.relay r).fromSc = .recv := by
    cases hpc : (s.relay r).fromSc with
    | recv =>
        rfl
    | unspawned =>
        exact absurd hpc hpumps.2
    | ended =>
        -- `to_sc` has a reason to end, so it ends or has ended and the join goes on.
        exfalso
        have hending : ToScEnding s r := by
          rcases hlife.balanced.doomed r hmain hpc with hending | hqueued | hclosing
          · exact hending
          · rw [hevents] at hqueued
            cases hqueued
          · rw [hrouter] at hclosing
            cases hclosing
        cases htoSc : (s.relay r).toSc with
        | unspawned =>
            exact hpumps.1 htoSc
        | ended =>
            simp [mainStep, hmain, htoSc, hpc] at hmainNone
        | sending d =>
            simp [scSendStep, htoSc] at hscSendNone
        | recv =>
            unfold toScStep at htoScNone
            simp only [htoSc] at htoScNone
            cases hrx : (s.relay r).rx with
            | nil =>
                have hentry : s.senders (s.relay r).link ≠ some r := by
                  simpa [ToScEnding, htoSc, hrx] using hending
                have hsender : s.sender r = false := by
                  simp [State.sender, hentry, hrouter]
                simp [hrx, hsender] at htoScNone
            | cons c rest =>
                simp only [hrx] at htoScNone
                split at htoScNone <;> cases htoScNone
  have hnotEnding : ¬ ToScEnding s r := by
    intro hending
    have hended := hlife.balanced.ending r hmain hending
    rw [hfromSc] at hended
    cases hended
  have hentry : s.senders (s.relay r).link = some r := by
    by_contra hentry
    exact hnotEnding (.inr (.inr hentry))
  refine ⟨?_, by rw [hfromSc]; rfl, ⟨hlife.fresh.known r hne, ?_, ?_⟩, hentry⟩
  · cases htoSc : (s.relay r).toSc with
    | recv | sending =>
        rfl
    | unspawned =>
        exact absurd htoSc hpumps.1
    | ended =>
        exact absurd (.inl htoSc) hnotEnding
  · intro hclosed
    rcases hlife.closeQueued _ hclosed with ⟨pre, post, heq, -⟩ | ⟨-, hclosing | hnone⟩
    · simp [hevents] at heq
    · rw [hrouter] at hclosing
      cases hclosing
    · rw [hentry] at hnone
      cases hnone
  · intro hclose
    obtain ⟨r', hmain', hlink⟩ := hlife.closesLinks.requested _ hclose
    have heq := hlife.fresh.distinct r' r (by simp [hmain']) hne hlink
    rw [heq, hmain] at hmain'
    cases hmain'

theorem relayGone_of_ended (hI : Inv s) (hlife : Lifetime s) {r : ℕ}
    (hmain : (s.relay r).main = .ended) : RelayGone s r := by
  have hne : (s.relay r).main ≠ .unborn := by simp [hmain]
  have hpumps := hI.pumps r
  simp only [Relay.PumpsOk, hmain] at hpumps
  have halive : (s.relay r).toSc.alive = false ∧ (s.relay r).fromSc.alive = false := by
    rcases hpumps with ⟨h1, h2⟩ | ⟨h1, h2⟩ <;> rw [h1, h2] <;> exact ⟨rfl, rfl⟩
  refine ⟨halive.1, halive.2, ?_, ?_, ?_⟩
  · simp [Relay.holdsSocket, hmain, halive]
  · cases hentry : s.senders (s.relay r).link with
    | none =>
        rfl
    | some r' =>
        obtain ⟨hlink, hne', hended⟩ := hI.senders _ _ hentry
        have heq := hlife.fresh.distinct r' r hne' hne hlink
        rw [heq] at hended
        exact absurd hmain hended
  · exact .inr (hlife.closesLinks.ended r hmain)

/-! ## Main result -/

/-- In runs of lifetime-safe steps, in every state where no task can step, each relay is running
with its link open, or gone with its link closed. -/
theorem relay_alive_or_gone (h : machine.Reachable LifetimeSafe s) (hq : Quiescent s) :
    ∀ r < s.spawned, RelayAlive s r ∨ RelayGone s r := by
  intro r hr
  have hI : Inv s := Inv.of_reachable h
  have hlife : Lifetime s := Lifetime.of_reachable h
  rcases main_of_quiescent hI hlife.unlocked hq hr with hmain | hmain
  · exact .inl (relayAlive_of_joining hI hlife hq hmain)
  · exact .inr (relayGone_of_ended hI hlife hmain)

/-- The steps of relay `r` that need nothing from outside. -/
def ownActions (r : ℕ) : List Action :=
  [.bind r true, .bind r false, .connect r true, .connect r false, .main r, .toSc r,
    .scSend r true, .scSend r false]

/-- Rest is checked on the spawned relays. -/
theorem quiescent_of_spawned (hI : Inv s) (hrouter : routerStep s = none)
    (hown : ∀ r < s.spawned, ∀ a ∈ ownActions r, step s a = none) : Quiescent s := by
  have hblank : ∀ r, ¬ r < s.spawned → (s.relay r).main = .unborn ∧
      (s.relay r).toSc = .unspawned := by
    intro r hr
    have hmain := (hI.unborn r).2 (Nat.le_of_not_lt hr)
    have hpumps := hI.pumps r
    simp only [Relay.PumpsOk, hmain] at hpumps
    exact ⟨hmain, hpumps.1⟩
  have hall : ∀ r, ∀ a ∈ ownActions r, step s a = none := by
    intro r a ha
    by_cases hr : r < s.spawned
    · exact hown r hr a ha
    · obtain ⟨hmain, htoSc⟩ := hblank r hr
      simp only [ownActions, List.mem_cons, List.not_mem_nil, or_false] at ha
      rcases ha with rfl | rfl | rfl | rfl | rfl | rfl | rfl | rfl <;>
        simp [step, mainStep, toScStep, scSendStep, hmain, htoSc]
  intro a ha
  cases a with
  | router =>
      exact hrouter
  | bind r ok | connect r ok | scSend r ok =>
      cases ok <;> exact hall r _ (by simp [ownActions])
  | main r | toSc r =>
      exact hall r _ (by simp [ownActions])
  | engine | scRecv | tick | nodeStop =>
      cases ha

/-- Two relays in a run that meets the condition: the first ends because the game server's ICMP
error meets a `LinkClosed` on its way, the second keeps running. -/
theorem exists_relay_alive_or_gone :
    ∃ s, s.spawned = 2 ∧ Quiescent s ∧ (s.relay 0).main = .ended ∧ (s.relay 1).main = .joining ∧
      ∀ r < s.spawned, RelayAlive s r ∨ RelayGone s r := by
  have hrun : (machine.runWhile LifetimeSafe machine.init
      [.engine (.linkEstablished 5), .router, .router, .router, .bind 0 true, .connect 0 true,
        .engine (.linkEstablished 6), .router, .router, .router, .bind 1 true, .connect 1 true,
        .engine (.linkClosed 5), .scRecv 0 none, .router, .router, .router, .router, .toSc 0,
        .main 0, .main 0]).any (fun s => s.spawned == 2 && (s.relay 0).main == .ended &&
          (s.relay 1).main == .joining && (routerStep s).isNone &&
          decide (∀ r < s.spawned, (ownActions r).all (fun a => (step s a).isNone) = true)) =
        true := by
    decide +kernel
  obtain ⟨s, hs, hP⟩ := Lib.Machine.exists_reachable_of_runWhile hrun
  simp only [Bool.and_eq_true, beq_iff_eq, decide_eq_true_eq, List.all_eq_true,
    Option.isNone_iff_eq_none] at hP
  obtain ⟨⟨⟨⟨hspawned, hended⟩, hjoining⟩, hrouter⟩, hown⟩ := hP
  have hq : Quiescent s := quiescent_of_spawned (Inv.of_reachable hs) hrouter hown
  exact ⟨s, hspawned, hq, hended, hjoining, relay_alive_or_gone hs hq⟩

/-- The ordinary close: `to_sc` ends, `from_sc` and the socket stay. -/
theorem exists_half_open_relay :
    ∃ s, machine.Reachable Lib.Machine.always s ∧ Quiescent s ∧ s.spawned = 1 ∧
      ¬ RelayAlive s 0 ∧ ¬ RelayGone s 0 := by
  have hrun : (machine.run machine.init
      [.engine (.linkEstablished 5), .router, .router, .router, .bind 0 true, .connect 0 true,
        .engine (.linkClosed 5), .router, .router, .router, .router, .toSc 0]).any (fun s =>
          s.spawned == 1 && (s.relay 0).toSc == .ended && (s.relay 0).fromSc == .recv &&
          (routerStep s).isNone &&
          decide (∀ r < s.spawned, (ownActions r).all (fun a => (step s a).isNone) = true)) =
        true := by
    decide +kernel
  obtain ⟨s, hs, hP⟩ := Lib.Machine.exists_reachable_of_run hrun
  simp only [Bool.and_eq_true, beq_iff_eq, decide_eq_true_eq, List.all_eq_true,
    Option.isNone_iff_eq_none] at hP
  obtain ⟨⟨⟨⟨hspawned, htoSc⟩, hfromSc⟩, hrouter⟩, hown⟩ := hP
  have hq : Quiescent s := quiescent_of_spawned (Inv.of_reachable hs) hrouter hown
  refine ⟨s, hs, hq, hspawned, ?_, ?_⟩
  · rintro ⟨halive, -⟩
    rw [htoSc] at halive
    cases halive
  · rintro ⟨-, hgone, -⟩
    rw [hfromSc] at hgone
    cases hgone

end Server
end SvenBridge
