import SvenBridge.Client.Isolation

/-!
# Client.Lossless — the client half of an unbroken link

`Unbroken l` rules out what the surroundings can do to the relay of link `l`: a `LinkClosed`, a
socket error, a full channel.  Two habits of the code still lose datagrams then, and `Intact l`
names the steps that avoid them: an empty datagram ends the send pump with whatever is queued
behind it, and the receive pump starts in the middle of a datagram when the router has dropped its
first chunks before the link was registered.

In runs of such steps the client issues on `l` the frames of the datagrams it took for the relay,
and its receive pump gets every chunk from a datagram boundary on.
-/

namespace SvenBridge
namespace Client

variable {s t : State} {a : Action} {l : LinkId}

/-! ## The conditions on steps -/

/-- The router does not find the channel of the relay of link `l` full. -/
def DownRoom (l : LinkId) (s : State) : Prop :=
  match s.router, s.linkData l with
  | .forward l' _, some r => l' = l → (s.relay r).down.length < channelCapacity
  | _, _ => True

instance (l : LinkId) (s : State) : Decidable (DownRoom l s) := by
  unfold DownRoom
  generalize s.router = router, s.linkData l = entry
  rcases router with _ | _ <;> rcases entry with _ | _ <;> infer_instance

/-- No `LinkClosed`, socket error or full channel for the relay of link `l`. -/
def Unbroken (l : LinkId) (s : State) (a : Action) : Prop :=
  match a with
  | .engine event => event ≠ .linkClosed l
  | .sendTo r ok => (s.relay r).link = l → ok = true
  | .router => DownRoom l s
  | _ => True

instance (l : LinkId) (s : State) (a : Action) : Decidable (Unbroken l s a) := by
  unfold Unbroken
  rcases a with _ | _ <;> infer_instance

/-- The UDP task queues nothing but empty datagrams behind an empty one. -/
def EmptyLast (l : LinkId) (s : State) : Prop :=
  match s.udp with
  | .sending _ r pkt =>
      (s.relay r).link = l → (s.relay r).upReceiver = true → [] ∈ (s.relay r).queued → pkt = []
  | _ => True

instance (l : LinkId) (s : State) : Decidable (EmptyLast l s) := by
  unfold EmptyLast
  generalize s.udp = udp
  rcases udp with _ | _ <;> infer_instance

/-- The node runs, nothing is queued behind an empty datagram, and the chunks dropped before the
relay's registration end with a datagram. -/
def Intact (l : LinkId) (s : State) (a : Action) : Prop :=
  match a with
  | .nodeStop => False
  | .udp => EmptyLast l s
  | .main r =>
      (s.relay r).main = .insertLinkData → (s.relay r).link = l →
        endsComplete (chunksOn l s.unclaimed) = true
  | _ => True

instance (l : LinkId) (s : State) (a : Action) : Decidable (Intact l s a) := by
  unfold Intact
  rcases a with _ | _ <;> infer_instance

/-! ## Queues and sizes in any run -/

/-- What holds of a relay's queues before its tasks are up, and of every datagram's size. -/
structure Queues (s : State) : Prop where
  fresh : ∀ r, (s.relay r).main.pending = true →
    (s.relay r).queued = [] ∧ (s.relay r).up = []
  idle : ∀ r, (s.relay r).main.pending = true ∨ (s.relay r).main = .insertLinkData →
    (s.relay r).accepted = []
  received : ∀ p ∈ s.received, p.2.length ≤ udpReadBuf
  queued : ∀ r, ∀ d ∈ (s.relay r).queued, d.length ≤ udpReadBuf

namespace Queues

theorem fresh_step (h : Step s a t) (hI : Inv s) (hq : Queues s) :
    ∀ r, (t.relay r).main.pending = true → (t.relay r).queued = [] ∧ (t.relay r).up = [] := by
  intro r hmain
  have hfresh := hq.fresh r
  cases h with
  | @sendQueued src r' pkt hudp hrx hroom =>
      by_cases hr : r = r'
      · subst hr
        have hreg := (hI.links src r (hI.guarded src r (.inl ⟨pkt, hudp⟩))).2
        simp only [Function.update_self] at hmain
        rw [not_registered_of_pending hmain] at hreg
        cases hreg
      · simpa [hr] using hfresh (by simpa [hr] using hmain)
  | _ => grind -linarith [Function.update_apply, MainPc.pending]

theorem idle_step (h : Step s a t) (hI : Inv s) (hq : Queues s) :
    ∀ r, (t.relay r).main.pending = true ∨ (t.relay r).main = .insertLinkData →
      (t.relay r).accepted = [] := by
  intro r hmain
  have hidle := hq.idle r
  have hdata := fun l => hI.data l r
  cases h <;> grind -linarith [Function.update_apply, MainPc.pending]

theorem received_step (h : Step s a t) (hq : Queues s) :
    ∀ p ∈ t.received, p.2.length ≤ udpReadBuf := by
  have hreceived := hq.received
  cases h with
  | @datagram src payload hudp =>
      intro p hp
      rw [List.mem_append, List.mem_singleton] at hp
      rcases hp with hp | rfl
      · exact hreceived p hp
      · exact List.length_take_le _ _
  | _ => exact hreceived

theorem queued_step (h : Step s a t) (hsrc : Sources s) (hq : Queues s) :
    ∀ r, ∀ d ∈ (t.relay r).queued, d.length ≤ udpReadBuf := by
  intro r d hd
  have hqueued := hq.queued r d
  cases h with
  | @sendQueued src r' pkt hudp hrx hroom =>
      by_cases hr : r = r'
      · subst hr
        simp only [Function.update_self, List.mem_append, List.mem_singleton] at hd
        rcases hd with hd | rfl
        · exact hqueued hd
        · exact hq.received (src, d) (hsrc.udp _ (by rw [hudp]; rfl))
      · exact hqueued (by simpa [hr] using hd)
  | _ => grind -linarith [Function.update_apply]

theorem of_reachable {serverHash : Option DestinationHash} {Ok : State → Action → Prop}
    (h : (machine serverHash).Reachable Ok s) : Queues s := by
  refine Lib.Machine.Reachable.invariant_of_reachable (I := Queues) ⟨?_, ?_, ?_, ?_⟩ ?_ h
  · intro r hmain
    cases hmain
  · intro r hmain
    rfl
  · intro p hp
    cases hp
  · intro r d hd
    cases hd
  · intro s a t hs hq _ hstep
    have h := step_sound hstep
    have hI : Inv s := Inv.of_reachable hs
    exact ⟨hq.fresh_step h hI, hq.idle_step h hI, hq.received_step h,
      hq.queued_step h (Sources.of_reachable hs)⟩

end Queues

/-! ## The send pump -/

/-- The first packet and a first part of the queue, all non-empty, have been issued.  The rest is
still on the channel, or the pump has ended and the rest is empty datagrams. -/
def Sent (pkt : Datagram) (queued up : List Datagram) (send : SendPc) (issued : List Chunk) :
    Prop :=
  ∃ taken rest, queued = taken ++ rest ∧ (∀ d ∈ taken, d ≠ []) ∧
    issued = (pkt :: taken).flatMap frame ∧
    if send = .ended then up = [] ∧ ∀ d ∈ rest, d = [] else rest = up

namespace Sent

variable {pkt d : Datagram} {queued up : List Datagram} {send send' : SendPc}
  {issued : List Chunk}

theorem start (pkt : Datagram) (hsend : send ≠ .ended) : Sent pkt [] [] send (frame pkt) :=
  ⟨[], [], rfl, by simp, by simp, by simp [hsend]⟩

/-- While the pump has not ended, the rest of the queue is what is on the channel. -/
theorem split (h : Sent pkt queued up send issued) (hsend : send ≠ .ended) :
    ∃ taken, queued = taken ++ up ∧ (∀ d ∈ taken, d ≠ []) ∧
      issued = (pkt :: taken).flatMap frame := by
  obtain ⟨taken, rest, hqueued, htaken, hissued, hrest⟩ := h
  rw [if_neg hsend] at hrest
  exact ⟨taken, by rw [hqueued, hrest], htaken, hissued⟩

theorem of_split {taken : List Datagram} (hsend : send ≠ .ended) (hqueued : queued = taken ++ up)
    (htaken : ∀ d ∈ taken, d ≠ []) (hissued : issued = (pkt :: taken).flatMap frame) :
    Sent pkt queued up send issued :=
  ⟨taken, up, hqueued, htaken, hissued, by rw [if_neg hsend]⟩

theorem spawn (h : Sent pkt queued up send issued) (hsend : send ≠ .ended) :
    Sent pkt queued up .running issued := by
  obtain ⟨taken, hqueued, htaken, hissued⟩ := h.split hsend
  exact .of_split (by simp) hqueued htaken hissued

theorem enqueue (h : Sent pkt queued up send issued) (hsend : send ≠ .ended) (d : Datagram) :
    Sent pkt (queued ++ [d]) (up ++ [d]) send issued := by
  obtain ⟨taken, hqueued, htaken, hissued⟩ := h.split hsend
  exact .of_split hsend (by rw [hqueued, List.append_assoc]) htaken hissued

theorem take (h : Sent pkt queued (d :: up) send issued) (hsend : send ≠ .ended) (hd : d ≠ []) :
    Sent pkt queued up send (issued ++ frame d) := by
  obtain ⟨taken, hqueued, htaken, hissued⟩ := h.split hsend
  have htaken' : ∀ d' ∈ taken ++ [d], d' ≠ [] := by
    intro d' hd'
    rcases List.mem_append.1 hd' with hmem | hmem
    · exact htaken d' hmem
    · rwa [List.mem_singleton.1 hmem]
  exact .of_split hsend (by simp [hqueued]) htaken' (by simp [hissued])

/-- The pump ends on an empty channel. -/
theorem done (h : Sent pkt queued [] send issued) (hsend : send ≠ .ended) :
    Sent pkt queued [] .ended issued := by
  obtain ⟨taken, hqueued, htaken, hissued⟩ := h.split hsend
  exact ⟨taken, [], hqueued, htaken, hissued, by simp⟩

/-- The pump ends on an empty datagram; behind it there are only empty ones. -/
theorem empty (h : Sent pkt queued ([] :: up) send issued) (hsend : send ≠ .ended)
    (hordered : queued.Pairwise fun d d' => d = [] → d' = []) :
    Sent pkt queued [] .ended issued := by
  obtain ⟨taken, hqueued, htaken, hissued⟩ := h.split hsend
  rw [hqueued, List.pairwise_append, List.pairwise_cons] at hordered
  refine ⟨taken, [] :: up, hqueued, htaken, hissued, ?_⟩
  simpa using fun d hd => hordered.2.1.1 d hd rfl

/-- What has been issued are the frames of a first part of the datagrams the relay took, and of
all of them when nothing is on the channel. -/
theorem issued_grows (h : Sent pkt queued up send issued) :
    ∃ ds, issued = ds.flatMap frame ∧ ds <+: pkt :: nonEmpty queued ∧
      (up = [] → ds = pkt :: nonEmpty queued) := by
  obtain ⟨taken, rest, hqueued, htaken, hissued, hrest⟩ := h
  have hsame : nonEmpty queued = taken ++ nonEmpty rest := by
    rw [hqueued, nonEmpty_append, nonEmpty_eq_self htaken]
  refine ⟨pkt :: taken, hissued, ?_, fun hup => ?_⟩
  · rw [hsame]
    exact List.cons_prefix_cons.2 ⟨rfl, List.prefix_append _ _⟩
  · have hnone : nonEmpty rest = [] := by
      split at hrest
      case isTrue hsend =>
          exact nonEmpty_eq_nil hrest.2
      case isFalse hsend =>
          rw [hrest, hup]
          rfl
    rw [hsame, hnone, List.append_nil]

end Sent

/-- A relay issues nothing before it registers. -/
def Relay.Sends (x : Relay) (issued : List Chunk) : Prop :=
  if x.main.pending then issued = [] else Sent x.pkt x.queued x.up x.send issued

theorem Relay.Sends.of_sent {x : Relay} {issued : List Chunk} (hmain : x.main.pending = false)
    (h : Sent x.pkt x.queued x.up x.send issued) : x.Sends issued := by
  simpa [Relay.Sends, hmain] using h

theorem Relay.Sends.sent {x : Relay} {issued : List Chunk} (h : x.Sends issued)
    (hmain : x.main.pending = false) : Sent x.pkt x.queued x.up x.send issued := by
  simpa [Relay.Sends, hmain] using h

/-! ## The invariant of an unbroken link -/

/-- Established, with neither pump joined. -/
def MainPc.live : MainPc → Bool
  | .identifying | .insertLinks | .insertLinkData | .joining => true
  | _ => false

/-- Chunks the router has handed to the relay of a link. -/
def claimed (s : State) (l : LinkId) : List Chunk :=
  match s.linkData l with
  | some r => (s.relay r).accepted
  | none => []

theorem claimed_congr (hdata : t.linkData l = s.linkData l)
    (hacc : ∀ r, s.linkData l = some r → (t.relay r).accepted = (s.relay r).accepted) :
    claimed t l = claimed s l := by
  unfold claimed
  rw [hdata]
  split
  case h_1 r hentry =>
      exact hacc r hentry
  case h_2 =>
      rfl

structure Carries (l : LinkId) (s : State) : Prop where
  running : s.stopped = false
  unclosed : .linkClosed l ∉ s.events ∧ s.router ≠ .removeLinkData l
  live : ∀ r, (s.relay r).main.established = true → (s.relay r).link = l →
    (s.relay r).main.live = true ∧ (s.relay r).recv ≠ .ended
  registered : ∀ r, (s.relay r).main = .joining → (s.relay r).link = l → s.linkData l = some r
  /-- Only empty datagrams are queued behind an empty one. -/
  ordered : ∀ r, (s.relay r).main.established = true → (s.relay r).link = l →
    (s.relay r).queued.Pairwise fun d d' => d = [] → d' = []
  sends : ∀ r, (s.relay r).main.established = true → (s.relay r).link = l →
    (s.relay r).Sends (issuedOn l s.commands)
  flow : chunksOn l s.delivered = chunksOn l s.unclaimed ++ claimed s l ++ inFlight s l
  /-- Once the link is registered, what was dropped before ends with a datagram. -/
  whole : s.linkData l ≠ none → endsComplete (chunksOn l s.unclaimed) = true

namespace Carries

theorem running_step (h : Step s a t) (hok : Intact l s a) (hc : Carries l s) :
    t.stopped = false := by
  have hrun := hc.running
  cases h <;> first | exact hrun | exact hok.elim

theorem unclosed_step (h : Step s a t) (hu : Unbroken l s a) (hc : Carries l s) :
    .linkClosed l ∉ t.events ∧ t.router ≠ .removeLinkData l := by
  obtain ⟨hevents, hrouter⟩ := hc.unclosed
  cases h with
  | @engine ev hev =>
      refine ⟨?_, hrouter⟩
      rw [List.mem_append]
      rintro (hmem | hmem)
      · exact hevents hmem
      · cases ev <;> simp_all [funnelEvent, Unbroken]
  | _ => grind -linarith

theorem live_step (h : Step s a t) (hI : Inv s) (hu : Unbroken l s a) (hc : Carries l s) :
    ∀ r, (t.relay r).main.established = true → (t.relay r).link = l →
      (t.relay r).main.live = true ∧ (t.relay r).recv ≠ .ended := by
  intro r hest hlink
  have hlive := hc.live r
  have hregistered := hc.registered r
  have hpumps := hI.pumps r
  have hrun := hc.running
  cases h with
  | @sendBackFailed r' d hrecv =>
      by_cases hr : r = r'
      · subst hr
        have hok : false = true := hu (by simpa using hlink)
        cases hok
      · simpa [hr] using hlive (by simpa [hr] using hest) (by simpa [hr] using hlink)
  | _ => grind -linarith [Function.update_apply, MainPc.established, MainPc.live, Relay.PumpsOk,
      State.downSender]

theorem registered_step (h : Step s a t) (hI : Inv s) (hc : Carries l s) :
    ∀ r, (t.relay r).main = .joining → (t.relay r).link = l → t.linkData l = some r := by
  intro r hmain hlink
  have hregistered := hc.registered r
  have hlive := hc.live
  have hclosed := hc.unclosed.2
  have hdistinct := hI.distinct r
  cases h <;> grind -linarith [Function.update_apply, MainPc.established, MainPc.live]

theorem ordered_step (h : Step s a t) (hI : Inv s) (hq : Queues s) (hok : Intact l s a)
    (hc : Carries l s) :
    ∀ r, (t.relay r).main.established = true → (t.relay r).link = l →
      (t.relay r).queued.Pairwise fun d d' => d = [] → d' = [] := by
  intro r hest hlink
  have hordered := hc.ordered r
  have hfresh := hq.fresh r
  have hunborn := hI.unborn r
  cases h with
  | @sendQueued src r' pkt hudp hrx hroom =>
      by_cases hr : r = r'
      · subst hr
        have hreg := (hI.links src r (hI.guarded src r (.inl ⟨pkt, hudp⟩))).2
        have hlink' : (s.relay r).link = l := by simpa using hlink
        have hempty : [] ∈ (s.relay r).queued → pkt = [] := by
          simpa [Intact, EmptyLast, hudp, hlink', hrx] using hok
        simp only [Function.update_self, List.pairwise_append, List.mem_singleton]
        refine ⟨hordered (established_of_registered hreg) hlink', List.pairwise_singleton _ _, ?_⟩
        rintro d hd d' rfl rfl
        exact hempty hd
      · simpa [hr] using hordered (by simpa [hr] using hest) (by simpa [hr] using hlink)
  | @establishOk r' l' hmain hfreshLink =>
      by_cases hr : r = r'
      · subst hr
        have hnil := (hfresh (by rcases hmain with hm | hm <;> simp [hm, MainPc.pending])).1
        simp [hnil]
      · simpa [hr] using hordered (by simpa [hr] using hest) (by simpa [hr] using hlink)
  | _ => grind -linarith [Function.update_apply, MainPc.established]

/-- Nothing is issued on a link before it is established. -/
theorem issuedOn_eq_nil (hsrc : Sources s)
    (hnone : ∀ r, (s.relay r).main.established = true → (s.relay r).link ≠ l) :
    issuedOn l s.commands = [] := by
  rw [List.eq_nil_iff_forall_not_mem]
  intro c hc
  obtain ⟨r, hest, hlink, -⟩ := hsrc.issued l c (mem_issuedOn.1 hc)
  exact hnone r hest hlink

theorem sends_step (h : Step s a t) (hI : Inv s) (hsrc : Sources s) (hq : Queues s)
    (hc : Carries l s) :
    ∀ r, (t.relay r).main.established = true → (t.relay r).link = l →
      (t.relay r).Sends (issuedOn l t.commands) := by
  intro r hest hlink
  have hsends := hc.sends r
  have hpumps := hI.pumps r
  have hunborn := hI.unborn r
  -- A chunk issued on `l` is the relay's own.
  have hother : ∀ r', (s.relay r').main.established = true → (s.relay r).main.established = true →
      (s.relay r).link = l → r ≠ r' → (s.relay r').link ≠ l :=
    fun r' hest' hestr hlinkr hne heq => hne (hI.distinct r r' hestr hest' (by rw [hlinkr, heq]))
  cases h with
  | @sendQueued src r' pkt hudp hrx hroom =>
      by_cases hr : r = r'
      · subst hr
        have hreg := (hI.links src r (hI.guarded src r (.inl ⟨pkt, hudp⟩))).2
        have hpending : (s.relay r).main.pending = false := by
          cases hm : (s.relay r).main <;> simp_all [MainPc.pending, MainPc.registered]
        have hsend : (s.relay r).send ≠ .ended := by
          cases hm : (s.relay r).main <;>
            simp_all [Relay.upReceiver, Relay.PumpsOk]
        have hold := (hsends (established_of_registered hreg) (by simpa using hlink)).sent hpending
        exact .of_sent (by simpa using hpending) (by simpa using hold.enqueue hsend pkt)
      · simpa [hr] using hsends (by simpa [hr] using hest) (by simpa [hr] using hlink)
  | @establishOk r' l' hmain hfreshLink =>
      by_cases hr : r = r'
      · subst hr
        have hl : l' = l := by simpa using hlink
        subst hl
        have hnil := issuedOn_eq_nil hsrc (hI.freshLink_iff.1 hfreshLink)
        simpa [Relay.Sends, MainPc.pending] using hnil
      · simpa [hr] using hsends (by simpa [hr] using hest) (by simpa [hr] using hlink)
  | @identified r' hmain =>
      by_cases hr : r = r'
      · subst hr
        have hold := hsends (by rw [hmain]; rfl) (by simpa using hlink)
        simpa [Relay.Sends, hmain, MainPc.pending] using hold
      · simpa [hr] using hsends (by simpa [hr] using hest) (by simpa [hr] using hlink)
  | @register r' hmain hguard hrun =>
      have hest' : (s.relay r').main.established = true := by
        rw [hmain]
        rfl
      by_cases hr : r = r'
      · subst hr
        have hlink' : (s.relay r).link = l := by simpa using hlink
        have hpending : (s.relay r).main.pending = true := by
          rw [hmain]
          rfl
        have hnil : issuedOn l s.commands = [] := by
          simpa [Relay.Sends, hpending] using hsends hest' hlink'
        have hsend : (s.relay r).send ≠ .ended := by
          simp [Relay.PumpsOk, hmain] at hpumps
          simp [hpumps.1]
        obtain ⟨hqueued, hup⟩ := hq.fresh r hpending
        refine .of_sent (by simp [MainPc.pending]) ?_
        simpa [hqueued, hup, hnil, issuedOn_map_sendToLink, hlink'] using
          Sent.start (s.relay r).pkt hsend
      · simp only [Function.update_of_ne hr] at hest hlink ⊢
        simpa [issuedOn_map_sendToLink, hother r' hest' hest hlink hr] using hsends hest hlink
  | @registerRefused r' hmain hguard hstop =>
      rw [hc.running] at hstop
      cases hstop
  | @spawnPumps r' hmain =>
      by_cases hr : r = r'
      · subst hr
        have hpending : (s.relay r).main.pending = false := by
          rw [hmain]
          rfl
        have hsend : (s.relay r).send ≠ .ended := by
          simp [Relay.PumpsOk, hmain] at hpumps
          simp [hpumps.1]
        have hold := (hsends (by rw [hmain]; rfl) (by simpa using hlink)).sent hpending
        exact .of_sent (by simp [MainPc.pending]) (by simpa using hold.spawn hsend)
      · simpa [hr] using hsends (by simpa [hr] using hest) (by simpa [hr] using hlink)
  | @join r' hmain hsend hrecv =>
      by_cases hr : r = r'
      · subst hr
        exact absurd hrecv (hc.live r (by rw [hmain]; rfl) (by simpa using hlink)).2
      · simpa [hr] using hsends (by simpa [hr] using hest) (by simpa [hr] using hlink)
  | @unregisterRefused r' hmain hguard | @unregisterData r' hmain | @unregister r' hmain hguard =>
      by_cases hr : r = r'
      · subst hr
        have hlive := (hc.live r (by rw [hmain]; rfl) (by simpa using hlink)).1
        rw [hmain] at hlive
        cases hlive
      · simpa [hr] using hsends (by simpa [hr] using hest) (by simpa [hr] using hlink)
  | @sendDone r' hsend hup hsender | @sendEmpty r' rest hsend hup =>
      have hmain := hI.joining_of_running hsend
      by_cases hr : r = r'
      · subst hr
        have hest' : (s.relay r).main.established = true := by
          rw [hmain]
          rfl
        have hlink' : (s.relay r).link = l := by simpa using hlink
        have hold := (hsends hest' hlink').sent (by rw [hmain]; rfl)
        rw [hup] at hold
        refine .of_sent (by simp [hmain, MainPc.pending]) ?_
        first
        | simpa [hup] using hold.done (by simp [hsend])
        | simpa using hold.empty (by simp [hsend]) (hc.ordered r hest' hlink')
      · simpa [hr] using hsends (by simpa [hr] using hest) (by simpa [hr] using hlink)
  | @sendChunks r' bytes rest hsend hup hbytes hrun =>
      have hmain := hI.joining_of_running hsend
      have hest' : (s.relay r').main.established = true := by
        rw [hmain]
        rfl
      by_cases hr : r = r'
      · subst hr
        have hlink' : (s.relay r).link = l := by simpa using hlink
        have hold := (hsends hest' hlink').sent (by rw [hmain]; rfl)
        rw [hup] at hold
        refine .of_sent (by simp [hmain, MainPc.pending]) ?_
        simpa [issuedOn_map_sendToLink, hlink'] using hold.take (by simp [hsend]) hbytes
      · simp only [Function.update_of_ne hr] at hest hlink ⊢
        simpa [issuedOn_map_sendToLink, hother r' hest' hest hlink hr] using hsends hest hlink
  | @sendRefused r' bytes rest hsend hup hbytes hstop =>
      rw [hc.running] at hstop
      cases hstop
  | _ => grind -linarith [Function.update_apply, MainPc.established, Relay.Sends, MainPc.pending]

/-- A chunk delivered on `l` is unclaimed, on the relay's channel or past it, or in flight. -/
theorem flow_step (h : Step s a t) (hI : Inv s) (hq : Queues s) (hu : Unbroken l s a)
    (hc : Carries l s) :
    chunksOn l t.delivered = chunksOn l t.unclaimed ++ claimed t l ++ inFlight t l := by
  have hflow := hc.flow
  have hsame : claimed t l = claimed s l → inFlight t l = inFlight s l →
      t.unclaimed = s.unclaimed → t.delivered = s.delivered →
      chunksOn l t.delivered = chunksOn l t.unclaimed ++ claimed t l ++ inFlight t l := by
    intro hclaimed hin hunclaimed hdelivered
    rw [hclaimed, hin, hunclaimed, hdelivered, hflow]
  have hunborn := hI.unborn
  have hdata := hI.data l
  cases h with
  | @delivered l' c =>
      by_cases hl : l' = l
      · subst hl
        simp [hflow, claimed, inFlight, BridgeEvent.dataOn]
      · simp [hflow, claimed, inFlight, BridgeEvent.dataOn, hl]
  | @engine ev hev =>
      have hnone : (funnelEvent ev).toList.filterMap (BridgeEvent.dataOn l) = [] := by
        cases ev with
        | delivered l' c =>
            exact absurd rfl (hev l' c)
        | _ => simp [funnelEvent, BridgeEvent.dataOn]
      simpa [claimed, inFlight, SvenBridge.dataOn, hnone] using hflow
  | @forwardUnknown l' c hrouter hentry =>
      by_cases hl : l' = l
      · subst hl
        simpa [claimed, hentry, inFlight, hrouter, RouterPc.dataOn] using hflow
      · simpa [claimed, inFlight, hrouter, RouterPc.dataOn, hl] using hflow
  | @forwardDropped l' c r hrouter hentry hdrop =>
      by_cases hl : l' = l
      · subst hl
        exfalso
        have hroom : (s.relay r).down.length < channelCapacity := by
          simpa [Unbroken, DownRoom, hrouter, hentry] using hu
        obtain ⟨hlink, hmain⟩ := hI.data l' r hentry
        have hest : (s.relay r).main.established = true := by
          rcases hmain with hm | hm <;> simp [hm, MainPc.established]
        obtain ⟨hlive, hrecv⟩ := hc.live r hest hlink
        have hpumps := hI.pumps r
        rcases hmain with hm | hm
        · simp only [Relay.PumpsOk, hm] at hpumps
          rcases hdrop with hrx | hfull
          · cases hr : (s.relay r).recv <;> simp_all [Relay.downReceiver]
          · omega
        · simp [hm, MainPc.live] at hlive
      · simpa [claimed, inFlight, hrouter, RouterPc.dataOn, hl] using hflow
  | @forwardQueued l' c r hrouter hentry hrx =>
      by_cases hl : l' = l
      · subst hl
        simpa [claimed, hentry, inFlight, hrouter, RouterPc.dataOn] using hflow
      · have hother : s.linkData l ≠ some r := by
          intro heq
          exact hl ((hI.data l' r hentry).1.symm.trans (hI.data l r heq).1)
        cases hdata : s.linkData l with
        | none =>
            simpa [claimed, hdata, inFlight, hrouter, RouterPc.dataOn, hl] using hflow
        | some r' =>
            have hne : r' ≠ r := fun heq => hother (by rw [hdata, heq])
            simpa [claimed, hdata, hne, inFlight, hrouter, RouterPc.dataOn, hl] using hflow
  | @takeData l' c events hrouter hevents =>
      by_cases hl : l' = l <;>
        simpa [claimed, inFlight, hrouter, hevents, RouterPc.dataOn, BridgeEvent.dataOn, hl]
          using hflow
  | @removeClosed l' hrouter =>
      have hl : l ≠ l' := fun heq => hc.unclosed.2 (by rw [heq, hrouter])
      exact hsame (claimed_congr (Function.update_of_ne hl _ _) fun _ _ => rfl)
        (by simp [inFlight, hrouter, RouterPc.dataOn]) rfl rfl
  | @spawnPumps r' hmain =>
      by_cases hl : l = (s.relay r').link
      · subst hl
        have hnone : s.linkData (s.relay r').link = none := by
          cases hentry : s.linkData (s.relay r').link with
          | none =>
              rfl
          | some r =>
              obtain ⟨hlink, hr⟩ := hdata r hentry
              have hest : (s.relay r).main.established = true := by
                rcases hr with hm | hm <;> simp [hm, MainPc.established]
              have heq := hI.distinct r r' hest (by rw [hmain]; rfl) hlink
              subst heq
              simp [hmain] at hr
        have hidle := hq.idle r' (.inr hmain)
        exact hsame (by simp [claimed, hnone, hidle]) rfl rfl rfl
      · exact hsame (claimed_congr (Function.update_of_ne hl _ _) fun r _ => by
          by_cases hr : r = r' <;> simp [hr]) rfl rfl rfl
  | @unregisterData r' hmain =>
      have hl : l ≠ (s.relay r').link := by
        intro heq
        have hlive := (hc.live r' (by rw [hmain]; rfl) heq.symm).1
        rw [hmain] at hlive
        cases hlive
      exact hsame (claimed_congr (Function.update_of_ne hl _ _) fun r _ => by
        by_cases hr : r = r' <;> simp [hr]) rfl rfl rfl
  | @takeIgnored ev events hrouter hevents hev =>
      refine hsame rfl ?_ rfl rfl
      rcases hev with ⟨l', rfl⟩ | ⟨l', id, rfl⟩ <;>
        simp [inFlight, hrouter, hevents, BridgeEvent.dataOn]
  | _ =>
      refine hsame (claimed_congr rfl ?_) ?_ rfl rfl
      · grind -linarith [Function.update_apply]
      · simp_all [inFlight, RouterPc.dataOn, BridgeEvent.dataOn]

theorem whole_step (h : Step s a t) (hok : Intact l s a) (hc : Carries l s) :
    t.linkData l ≠ none → endsComplete (chunksOn l t.unclaimed) = true := by
  have hwhole := hc.whole
  cases h with
  | @forwardUnknown l' c hrouter hentry =>
      intro hdata
      have hl : l' ≠ l := by
        rintro rfl
        exact hdata hentry
      simpa [hl] using hwhole hdata
  | @spawnPumps r' hmain =>
      intro hdata
      by_cases hl : l = (s.relay r').link
      · exact hok hmain hl.symm
      · exact hwhole (by simpa [hl] using hdata)
  | _ => grind -linarith [Function.update_apply]

theorem of_reachable {serverHash : Option DestinationHash} {Ok : State → Action → Prop}
    (hok : ∀ s a, Ok s a → Unbroken l s a ∧ Intact l s a)
    (h : (machine serverHash).Reachable Ok s) : Carries l s := by
  refine Lib.Machine.Reachable.invariant_of_reachable (I := Carries l)
    ⟨rfl, ⟨?_, ?_⟩, ?_, ?_, ?_, ?_, rfl, ?_⟩ ?_ h
  · intro hmem
    cases hmem
  · intro hrouter
    cases hrouter
  · intro r hest
    cases hest
  · intro r hmain
    cases hmain
  · intro r hest
    cases hest
  · intro r hest
    cases hest
  · intro hdata
    exact absurd rfl hdata
  · intro s a t hs hc hsafe hstep
    obtain ⟨hu, hin⟩ := hok s a hsafe
    have h := step_sound hstep
    have hI : Inv s := Inv.of_reachable hs
    have hq : Queues s := Queues.of_reachable hs
    exact ⟨hc.running_step h hin, hc.unclosed_step h hu, hc.live_step h hI hu,
      hc.registered_step h hI, hc.ordered_step h hI hq hin,
      hc.sends_step h hI (Sources.of_reachable hs) hq, hc.flow_step h hI hq hu,
      hc.whole_step h hin⟩

end Carries

/-! ## What goes out and what comes in -/

/-- On the link of a relay the client issues the frames of the first packet and the non-empty
datagrams queued, in order. -/
theorem issuedOn_of_carries (hc : Carries l s) {r : ℕ}
    (hest : (s.relay r).main.established = true) (hlink : (s.relay r).link = l) :
    ∃ ds, issuedOn l s.commands = ds.flatMap frame ∧
      ds <+: (s.relay r).pkt :: nonEmpty (s.relay r).queued ∧
      ((s.relay r).main.pending = false → (s.relay r).up = [] →
        ds = (s.relay r).pkt :: nonEmpty (s.relay r).queued) := by
  have hsends := hc.sends r hest hlink
  cases hpending : (s.relay r).main.pending with
  | true =>
      refine ⟨[], ?_, List.nil_prefix, fun hfalse => by cases hfalse⟩
      simpa [Relay.Sends, hpending] using hsends
  | false =>
      obtain ⟨ds, hissued, hpre, hall⟩ := (hsends.sent hpending).issued_grows
      exact ⟨ds, hissued, hpre, fun _ => hall⟩

/-- Every datagram of a relay fits the read buffer. -/
theorem length_le_of_carries (hsrc : Sources s) (hq : Queues s) {r : ℕ}
    (hest : (s.relay r).main.established = true) :
    ∀ d ∈ (s.relay r).pkt :: nonEmpty (s.relay r).queued, d.length ≤ udpReadBuf := by
  intro d hd
  rcases List.mem_cons.1 hd with rfl | hd
  · have hborn : (s.relay r).main ≠ .unborn := by
      intro hm
      rw [hm] at hest
      cases hest
    exact hq.received _ (hsrc.first r hborn)
  · exact hq.queued r d (mem_of_mem_nonEmpty hd)

/-- When the chunks delivered on the link start a stream of frames, the relay sends back the
datagrams of the stream from the first one that was not dropped. -/
theorem sentBack_of_carries (hc : Carries l s) {r : ℕ} (hre : (s.relay r).Reassembles)
    (hmain : (s.relay r).main = .joining) (hlink : (s.relay r).link = l) {ds : List Datagram}
    (hdelivered : chunksOn l s.delivered <+: ds.flatMap frame)
    (hsize : ∀ d ∈ ds, d.length ≤ maxDatagram) :
    ∃ n, chunksOn l s.unclaimed = (ds.take n).flatMap frame ∧
      (s.relay r).sentBack <+: ds.drop n ∧
      (chunksOn l s.delivered = ds.flatMap frame → inFlight s l = [] → (s.relay r).down = [] →
        (s.relay r).recv = .recv → (s.relay r).sentBack = ds.drop n) := by
  have hdata := hc.registered r hmain hlink
  have hflow := hc.flow
  simp only [claimed, hdata, List.append_assoc] at hflow
  have hunclaimed : chunksOn l s.unclaimed <+: ds.flatMap frame :=
    (hflow ▸ List.prefix_append _ _ : chunksOn l s.unclaimed <+: chunksOn l s.delivered).trans
      hdelivered
  obtain ⟨n, hn⟩ := exists_take_of_prefix_frames hunclaimed (hc.whole (by simp [hdata]))
  have hsplit : ds.flatMap frame = (ds.take n).flatMap frame ++ (ds.drop n).flatMap frame := by
    rw [← List.flatMap_append, List.take_append_drop]
  rw [hflow, hn, hsplit, List.prefix_append_right_inj] at hdelivered
  have haccepted : (s.relay r).accepted <+: (ds.drop n).flatMap frame :=
    (List.prefix_append _ _).trans hdelivered
  have hdropped : ∀ d ∈ ds.drop n, d.length ≤ maxDatagram :=
    fun d hd => hsize d (List.mem_of_mem_drop hd)
  refine ⟨n, hn, hre.emits.prefix_of_frames haccepted hdropped, ?_⟩
  intro hall hnone hdown hrecv
  rw [hflow, hn, hsplit, List.append_cancel_left_eq, hnone, List.append_nil] at hall
  simp only [Relay.Reassembles, hrecv, hdown, hall] at hre
  exact hre.eq_of_frames hdropped

/-- Before the relay is registered nothing is sent back. -/
theorem sentBack_eq_nil (hq : Queues s) (hc : Carries l s) {r : ℕ}
    (hre : (s.relay r).Reassembles) (hest : (s.relay r).main.established = true)
    (hlink : (s.relay r).link = l) (hmain : (s.relay r).main ≠ .joining) :
    (s.relay r).sentBack = [] := by
  have hlive := (hc.live r hest hlink).1
  have hidle : (s.relay r).accepted = [] := by
    refine hq.idle r ?_
    cases hm : (s.relay r).main <;> simp_all [MainPc.live, MainPc.pending]
  have hemits := hre.emits
  rw [hidle] at hemits
  have hnil : (s.relay r).sentBack <+: [] := hemits.prefix_of_frames List.nil_prefix (by simp)
  exact List.prefix_nil.1 hnil

end Client
end SvenBridge
