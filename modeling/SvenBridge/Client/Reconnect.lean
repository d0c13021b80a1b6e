import SvenBridge.Client.Deadlock

/-!
# Client.Reconnect — what is left of a relay after `LinkClosed`

The router answers `LinkClosed` by dropping the sender in `link_data`, which ends the receive pump
only.  The send pump keeps waiting on the channel whose sender sits in `udp_links`, and that entry
is removed only after both pumps have ended.  A close processed before the relay registers its link
is forgotten altogether.

`CloseSafe` names the closes the code does finish.  In runs of such steps a relay that has come to
rest after `LinkClosed` has left both maps for good.
-/

namespace SvenBridge
namespace Client

variable {s t : State} {a : Action}

/-- The send pump has ended, or ends without a further datagram. -/
def SendEnding (s : State) (r : ℕ) : Prop :=
  (s.relay r).send = .ended ∨ [] ∈ (s.relay r).up ∨ (s.stopped = true ∧ (s.relay r).up ≠ []) ∨
    s.udpLinks (s.relay r).src ≠ some r

instance (s : State) (r : ℕ) : Decidable (SendEnding s r) := by
  unfold SendEnding
  infer_instance

/-- A relay whose link closes is past registration and its send pump is ending. -/
def Relay.ClosesCleanly (s : State) (r : ℕ) : Prop :=
  match (s.relay r).main with
  | .identifying | .insertLinks | .insertLinkData => False
  | .joining => SendEnding s r
  | _ => True

instance (s : State) (r : ℕ) : Decidable (Relay.ClosesCleanly s r) := by
  unfold Relay.ClosesCleanly
  generalize (s.relay r).main = main
  rcases main with _ | _ <;> infer_instance

/-- The steps that let a close finish: lock-safe ones, a `LinkClosed` that finds its relay past
registration with an ending send pump, and links established before they are reported closed. -/
def CloseSafe (s : State) (a : Action) : Prop :=
  LockSafe s a ∧
    match a, s.router with
    | .router, .removeLinkData l =>
        ∀ r < s.spawned, (s.relay r).main.established = true → (s.relay r).link = l →
          Relay.ClosesCleanly s r
    | .establishOk _ l, _ => l ∉ s.closed
    | _, _ => True

instance (s : State) (a : Action) : Decidable (CloseSafe s a) := by
  unfold CloseSafe
  refine @instDecidableAnd _ _ inferInstance ?_
  generalize s.router = router
  rcases a with _ | _ <;> rcases router with _ | _ <;> infer_instance

/-! ## The invariant -/

/-- Every relay of a closed link is on its way out. -/
def Closing (s : State) : Prop :=
  ∀ r, (s.relay r).main.established = true → (s.relay r).link ∈ s.closed →
    Relay.ClosesCleanly s r ∧ ((s.relay r).main = .joining → s.linkData (s.relay r).link = none)

/-- What one step does to a running send pump: it ends, or its queue stays, grows at the end, or
loses a non-empty datagram the engine took. -/
theorem running_step (h : Step s a t) (hI : Inv s) {r : ℕ}
    (hsend : (s.relay r).send = .running) :
    (t.relay r).send = .ended ∨
      ((t.relay r).up = (s.relay r).up ∨ (∃ pkt, (t.relay r).up = (s.relay r).up ++ [pkt]) ∨
        ∃ bytes, bytes ≠ [] ∧ s.stopped = false ∧
          (s.relay r).up = bytes :: (t.relay r).up) := by
  have hpumps := hI.pumps r
  have hunborn := hI.unborn r
  cases h with
  | @sendQueued src r' pkt hudp hrx hroom =>
      by_cases hr : r = r'
      · subst hr
        exact .inr (.inr (.inl ⟨pkt, by simp⟩))
      · exact .inr (.inl (by simp [hr]))
  | @sendChunks r' bytes rest hsend' hup hbytes hrun =>
      by_cases hr : r = r'
      · subst hr
        exact .inr (.inr (.inr ⟨bytes, hbytes, hrun, by simpa using hup⟩))
      · exact .inr (.inl (by simp [hr]))
  | _ => grind -linarith [Function.update_apply, Relay.PumpsOk]

/-- The send pump of a joining relay keeps ending. -/
theorem SendEnding.step (h : Step s a t) (hI : Inv s) {r : ℕ}
    (hmain : (s.relay r).main = .joining) (hending : SendEnding s r) : SendEnding t r := by
  have hpumps := hI.pumps r
  have hunborn := hI.unborn r
  by_cases hended : (s.relay r).send = .ended
  · refine .inl ?_
    cases h <;> grind -linarith [Function.update_apply]
  have hrunning : (s.relay r).send = .running := by
    simp only [Relay.PumpsOk, hmain] at hpumps
    cases hsend : (s.relay r).send <;> simp_all
  rcases running_step h hI hrunning with hdone | hup
  · exact .inl hdone
  rcases hending with hended' | hempty | ⟨hstop, hne⟩ | hentry
  · exact absurd hended' hended
  · refine .inr (.inl ?_)
    rcases hup with hsame | ⟨pkt, hgrow⟩ | ⟨bytes, hbytes, _, hpop⟩
    · rwa [hsame]
    · simp [hgrow, hempty]
    · rw [hpop, List.mem_cons] at hempty
      exact hempty.resolve_left fun heq => hbytes heq.symm
  · have hstop' : t.stopped = true := by
      cases h <;> first | exact hstop | rfl
    refine .inr (.inr (.inl ⟨hstop', ?_⟩))
    rcases hup with hsame | ⟨pkt, hgrow⟩ | ⟨bytes, _, hrun, _⟩
    · rwa [hsame]
    · simp [hgrow]
    · rw [hstop] at hrun
      cases hrun
  · refine .inr (.inr (.inr ?_))
    cases h <;> grind -linarith [Function.update_apply]

theorem closesCleanly_iff {r : ℕ} :
    Relay.ClosesCleanly s r ↔
      (s.relay r).main ≠ .identifying ∧ (s.relay r).main ≠ .insertLinks ∧
        (s.relay r).main ≠ .insertLinkData ∧
        ((s.relay r).main = .joining → SendEnding s r) := by
  cases hmain : (s.relay r).main <;> simp [Relay.ClosesCleanly, hmain]

/-- Past registration, a relay only moves on along its teardown. -/
theorem main_step (h : Step s a t) (hI : Inv s) {r : ℕ}
    (hest : (s.relay r).main.established = true)
    (hpast : (s.relay r).main ≠ .identifying ∧ (s.relay r).main ≠ .insertLinks ∧
      (s.relay r).main ≠ .insertLinkData) :
    (t.relay r).link = (s.relay r).link ∧
      ((t.relay r).main = (s.relay r).main ∨ (t.relay r).main = .removeLinkData ∨
        (t.relay r).main = .removeLinks ∨ (t.relay r).main = .ended) := by
  have hunborn := hI.unborn r
  cases h <;> grind -linarith [Function.update_apply, MainPc.established]

/-- A relay that has a link after a step had it before, or just got it from the engine. -/
theorem established_step (h : Step s a t) {r : ℕ}
    (hest : (t.relay r).main.established = true) :
    ((s.relay r).main.established = true ∧ (t.relay r).link = (s.relay r).link) ∨
      a = .establishOk r (t.relay r).link := by
  cases h <;> grind -linarith [Function.update_apply, MainPc.established]

theorem closed_step (h : Step s a t) :
    t.closed = s.closed ∨
      ∃ l, a = .router ∧ s.router = .removeLinkData l ∧ t.closed = s.closed ++ [l] ∧
        t.relay = s.relay ∧ t.udpLinks = s.udpLinks ∧ t.stopped = s.stopped ∧
        t.linkData = Function.update s.linkData l none := by
  cases h with
  | @removeClosed l hrouter =>
      exact .inr ⟨l, rfl, hrouter, rfl, rfl, rfl, rfl, rfl⟩
  | _ =>
      exact .inl rfl

/-- A removed entry comes back only when a relay of that link spawns its pumps. -/
theorem linkData_step (h : Step s a t) {l : LinkId} (hnone : s.linkData l = none) :
    t.linkData l = none ∨
      ∃ r, (s.relay r).main = .insertLinkData ∧ (s.relay r).link = l := by
  cases h <;> grind -linarith [Function.update_apply]

theorem Closing.step (h : Step s a t) (hI : Inv s) (hc : Closing s) (hok : CloseSafe s a) :
    Closing t := by
  intro r hest hmem
  rcases closed_step h with hsame | ⟨l, rfl, hrouter, hclosed, hrelay, hlinks, hstop, hdata⟩
  · rw [hsame] at hmem
    -- The link was closed before this step, so the engine cannot have handed it out in it.
    obtain ⟨hest', hlink⟩ := (established_step h hest).resolve_right fun ha => by
      simp only [CloseSafe, ha] at hok
      exact hok.2 hmem
    rw [hlink] at hmem
    obtain ⟨hclean, hnone⟩ := hc r hest' hmem
    obtain ⟨hid, hins, hdata, hsend⟩ := closesCleanly_iff.1 hclean
    obtain ⟨-, hmain⟩ := main_step h hI hest' ⟨hid, hins, hdata⟩
    have hjoin : (t.relay r).main = .joining → (s.relay r).main = .joining := by
      intro hj
      rcases hmain with heq | heq | heq | heq <;> rw [heq] at hj
      · exact hj
      all_goals cases hj
    refine ⟨closesCleanly_iff.2 ?_, ?_⟩
    · refine ⟨?_, ?_, ?_, fun hj => SendEnding.step h hI (hjoin hj) (hsend (hjoin hj))⟩ <;>
        (intro heq; rcases hmain with hm | hm | hm | hm <;> simp_all)
    · intro hj
      rw [hlink]
      refine (linkData_step h (hnone (hjoin hj))).resolve_right ?_
      rintro ⟨r', hmain', hlink'⟩
      have heq := hI.distinct r' r (by rw [hmain']; rfl) hest' hlink'
      rw [heq, hjoin hj] at hmain'
      cases hmain'
  · have hclean : ∀ r, (s.relay r).main.established = true → (s.relay r).link = l →
        Relay.ClosesCleanly s r := by
      intro r hr hlink
      simp only [CloseSafe, hrouter] at hok
      exact hok.2 r (hI.lt_spawned_of_established hr) hr hlink
    have hiff : Relay.ClosesCleanly t r ↔ Relay.ClosesCleanly s r := by
      rw [closesCleanly_iff, closesCleanly_iff]
      unfold SendEnding
      rw [hrelay, hlinks, hstop]
    rw [hclosed, List.mem_append, List.mem_singleton] at hmem
    rw [hrelay] at hest hmem
    rw [hiff, hrelay, hdata]
    by_cases hl : (s.relay r).link = l
    · exact ⟨hclean r hest hl, fun _ => by simp [hl]⟩
    · obtain ⟨hcleanr, hnone⟩ := hc r hest (hmem.resolve_right hl)
      exact ⟨hcleanr, fun hj => by simp [hl, hnone hj]⟩

theorem Closing.of_reachable {serverHash : Option DestinationHash}
    (h : (machine serverHash).Reachable CloseSafe s) : Closing s := by
  refine Lib.Machine.Reachable.invariant_of_reachable (I := Closing) ?_ ?_ h
  · intro r hest
    cases hest
  · intro s a t hs hc hok hstep
    exact hc.step (step_sound hstep) (Inv.of_reachable hs) hok

/-! ## Relays at rest -/

/-- The steps of relay `r`'s own tasks. -/
def ownActions (r : ℕ) : List Action :=
  [.identified r, .main r, .send r, .recv r, .sendTo r true, .sendTo r false]

/-- No task of relay `r` can step: if the main task is queued on `udp_links`, it is so for good. -/
def Settled (s : State) (r : ℕ) : Prop :=
  (∀ a ∈ ownActions r, step s a = none) ∧
    ((s.relay r).main.writesLinks = true → Lib.Deadlocked (WaitsFor s))

/-- The entries of `udp_links` and `link_data` behind which a link may be registered. -/
def Unregistered (s : State) (l : LinkId) : Prop :=
  s.linkData l = none ∧ ∀ src r, s.udpLinks src = some r → (s.relay r).link ≠ l

/-- A looked-up datagram goes to a relay of another link or, once a server is known, starts a fresh
`establish_link`. -/
def NextDatagramElsewhere (s : State) (l : LinkId) : Prop :=
  ∀ src pkt, s.udp = .lookup src pkt →
    (∃ r, s.udpLinks src = some r ∧ (s.relay r).link ≠ l) ∨
      ∀ target, s.target = some target →
        ∃ t u, step s .udp = some t ∧ step t .udp = some u ∧
          u.relay s.spawned =
            { main := .establishing, src := src, pkt := pkt, target := target }

/-- The send pump of a relay at rest has ended. -/
theorem send_ended_of_settled (hI : Inv s) {r : ℕ} (hsettled : Settled s r)
    (hmain : (s.relay r).main = .joining) (hending : SendEnding s r) :
    (s.relay r).send = .ended := by
  have hpumps := hI.pumps r
  simp only [Relay.PumpsOk, hmain] at hpumps
  have hnone : sendStep s r = none := hsettled.1 (.send r) (by simp [ownActions])
  cases hsend : (s.relay r).send with
  | ended =>
      rfl
  | unspawned =>
      exact absurd hsend hpumps.1
  | running =>
      cases hup : (s.relay r).up with
      | nil =>
          have hentry : s.udpLinks (s.relay r).src ≠ some r := by
            simpa [SendEnding, hsend, hup] using hending
          have hholds : s.udpHolds r = false := by
            cases hudp : s.udp with
            | sending src r' pkt =>
                have hguard := hI.guarded src r' (.inl ⟨pkt, hudp⟩)
                have hsrc := (hI.links src r' hguard).1
                have hne : r' ≠ r := by
                  rintro rfl
                  exact hentry (by rw [hsrc, hguard])
                simpa [State.udpHolds, hudp] using hne
            | removing src r' =>
                have hguard := hI.guarded src r' (.inr hudp)
                have hsrc := (hI.links src r' hguard).1
                have hne : r' ≠ r := by
                  rintro rfl
                  exact hentry (by rw [hsrc, hguard])
                simpa [State.udpHolds, hudp] using hne
            | recvFrom | lookup | readTarget | dead =>
                simp [State.udpHolds, hudp]
          have hsender : s.upSender r = false := by
            simp [State.upSender, hholds, hentry]
          simp [sendStep, hsend, hup, hsender] at hnone
      | cons bytes rest =>
          unfold sendStep at hnone
          simp only [hsend, hup] at hnone
          split at hnone
          · cases hnone
          · split at hnone <;> cases hnone

/-- The receive pump of a relay at rest has ended, once its link has left `link_data`. -/
theorem recv_ended_of_settled (hI : Inv s) {r : ℕ} (hsettled : Settled s r)
    (hmain : (s.relay r).main = .joining) (hnone : s.linkData (s.relay r).link = none) :
    (s.relay r).recv = .ended := by
  have hpumps := hI.pumps r
  simp only [Relay.PumpsOk, hmain] at hpumps
  have hrecvNone : recvStep s r = none := hsettled.1 (.recv r) (by simp [ownActions])
  have hsendToNone : sendToStep s r true = none :=
    hsettled.1 (.sendTo r true) (by simp [ownActions])
  cases hrecv : (s.relay r).recv with
  | ended =>
      rfl
  | unspawned =>
      exact absurd hrecv hpumps.2
  | sending d =>
      simp [sendToStep, hrecv] at hsendToNone
  | recv =>
      cases hdown : (s.relay r).down with
      | nil =>
          simp [recvStep, hrecv, hdown, State.downSender, hnone] at hrecvNone
      | cons c rest =>
          simp [recvStep, hrecv, hdown] at hrecvNone

/-- A relay of a closed link rests only after its teardown. -/
theorem ended_of_settled (hI : Inv s) (hu : Unlocked s) (hc : Closing s) {r : ℕ}
    (hest : (s.relay r).main.established = true) (hclosed : (s.relay r).link ∈ s.closed)
    (hsettled : Settled s r) : (s.relay r).main = .ended := by
  obtain ⟨hclean, hnone⟩ := hc r hest hclosed
  obtain ⟨hid, hins, hdata, hsend⟩ := closesCleanly_iff.1 hclean
  have hmainNone : mainStep s r = none := hsettled.1 (.main r) (by simp [ownActions])
  cases hmain : (s.relay r).main with
  | ended =>
      rfl
  | joining =>
      have hs := send_ended_of_settled hI hsettled hmain (hsend hmain)
      have hr := recv_ended_of_settled hI hsettled hmain (hnone hmain)
      simp [mainStep, hmain, hs, hr] at hmainNone
  | removeLinkData =>
      simp [mainStep, hmain] at hmainNone
  | firstSendFailed | removeLinks =>
      exact absurd (hsettled.2 (by rw [hmain]; rfl)) (not_deadlocked hu)
  | identifying =>
      exact absurd hmain hid
  | insertLinks =>
      exact absurd hmain hins
  | insertLinkData =>
      exact absurd hmain hdata
  | unborn | establishing | requestingPath | reestablishing | failed =>
      rw [hmain] at hest
      cases hest

/-! ## Nothing comes back -/

/-- An ended relay stays ended, and nobody issues on its link any more. -/
theorem ended_step (h : Step s a t) (hI : Inv s) {r : ℕ} (hended : (s.relay r).main = .ended) :
    (t.relay r).main = .ended ∧ (t.relay r).link = (s.relay r).link ∧
      issuedOn (s.relay r).link t.commands = issuedOn (s.relay r).link s.commands := by
  have hest : (s.relay r).main.established = true := by
    rw [hended]
    rfl
  have hlt := hI.lt_spawned_of_established hest
  have hother : ∀ r', (s.relay r').main.established = true → r' ≠ r →
      (s.relay r').link ≠ (s.relay r).link :=
    fun r' hr' hne hlink => hne (hI.distinct r' r hr' hest hlink)
  have hpumps := hI.pumps
  refine ⟨?_, ?_, ?_⟩
  · cases h <;> grind -linarith [Function.update_apply]
  · cases h <;> grind -linarith [Function.update_apply]
  · cases h with
    | @register r' hmain hguard hrun =>
        have hne : r' ≠ r := by
          rintro rfl
          rw [hended] at hmain
          cases hmain
        have hlink := hother r' (by rw [hmain]; rfl) hne
        simp [issuedOn_map_sendToLink, hlink]
    | @sendChunks r' bytes rest hsend hup hbytes hrun =>
        have hpumps' := hpumps r'
        have hmain : (s.relay r').main = .joining := by
          cases hm : (s.relay r').main <;> simp_all [Relay.PumpsOk]
        have hne : r' ≠ r := by
          rintro rfl
          rw [hended] at hmain
          cases hmain
        have hlink := hother r' (by rw [hmain]; rfl) hne
        simp [issuedOn_map_sendToLink, hlink]
    | unregister | unregisterRefused =>
        simp
    | _ =>
        rfl

theorem ended_leads {serverHash : Option DestinationHash} {Ok : State → Action → Prop}
    (hI : Inv s) {r : ℕ} (hended : (s.relay r).main = .ended)
    (h : (machine serverHash).Leads Ok s t) :
    Inv t ∧ (t.relay r).main = .ended ∧ (t.relay r).link = (s.relay r).link ∧
      issuedOn (s.relay r).link t.commands = issuedOn (s.relay r).link s.commands := by
  refine Lib.Machine.Leads.invariant (I := fun t => Inv t ∧ (t.relay r).main = .ended ∧
    (t.relay r).link = (s.relay r).link ∧
      issuedOn (s.relay r).link t.commands = issuedOn (s.relay r).link s.commands) ?_
    ⟨hI, hended, rfl, rfl⟩ h
  rintro t a u ⟨hIt, hmain, hlink, hissued⟩ _ hstep
  obtain ⟨hmain', hlink', hissued'⟩ := ended_step (step_sound hstep) hIt hmain
  rw [hlink] at hlink' hissued'
  exact ⟨hIt.step (step_sound hstep), hmain', hlink', hissued'.trans hissued⟩

theorem unregistered_of_ended (hI : Inv s) {r : ℕ} (hended : (s.relay r).main = .ended) :
    Unregistered s (s.relay r).link := by
  have hest : (s.relay r).main.established = true := by
    rw [hended]
    rfl
  constructor
  · cases hentry : s.linkData (s.relay r).link with
    | none =>
        rfl
    | some r' =>
        obtain ⟨hlink, hmain⟩ := hI.data _ _ hentry
        have hest' : (s.relay r').main.established = true := by
          rcases hmain with hm | hm <;> rw [hm] <;> rfl
        have heq := hI.distinct r' r hest' hest hlink
        rw [heq, hended] at hmain
        rcases hmain with hm | hm <;> cases hm
  · intro src r' hentry hlink
    obtain ⟨-, hreg⟩ := hI.links _ _ hentry
    have heq := hI.distinct r' r (established_of_registered hreg) hest hlink
    rw [heq, hended] at hreg
    cases hreg

theorem nextDatagramElsewhere_of_unregistered {l : LinkId} (h : Unregistered s l) :
    NextDatagramElsewhere s l := by
  intro src pkt hudp
  cases hentry : s.udpLinks src with
  | some r =>
      exact .inl ⟨r, rfl, h.2 src r hentry⟩
  | none =>
      refine .inr fun target htarget => ?_
      refine ⟨{ s with udp := .readTarget src pkt },
        { s.setRelay s.spawned
            { main := .establishing, src := src, pkt := pkt, target := target } with
          udp := .recvFrom, spawned := s.spawned + 1 }, ?_, ?_, ?_⟩
      · simp [step, udpStep, hudp, hentry]
      · simp [step, udpStep, htarget, State.setRelay]
      · simp [State.setRelay]

/-! ## Main result -/

/-- In runs of close-safe steps: once the router has processed the `LinkClosed` of a relay's link
and the relay has come to rest, the link is in neither map, now and after any further steps; no
chunk is issued on it and no datagram is handed to it. -/
theorem unregistered_after_close {serverHash : Option DestinationHash}
    (h : (machine serverHash).Reachable CloseSafe s) {r : ℕ}
    (hest : (s.relay r).main.established = true) (hclosed : (s.relay r).link ∈ s.closed)
    (hsettled : Settled s r) :
    ∀ t, (machine serverHash).Leads Lib.Machine.always s t →
      Unregistered t (s.relay r).link ∧ NextDatagramElsewhere t (s.relay r).link ∧
        issuedOn (s.relay r).link t.commands = issuedOn (s.relay r).link s.commands := by
  intro t hlead
  have hI : Inv s := Inv.of_reachable h
  have hu : Unlocked s := Unlocked.of_reachable (h.mono fun _ _ hok => hok.1)
  have hended := ended_of_settled hI hu (Closing.of_reachable h) hest hclosed hsettled
  obtain ⟨hIt, hended', hlink, hissued⟩ := ended_leads hI hended hlead
  have hgone : Unregistered t (s.relay r).link := hlink ▸ unregistered_of_ended hIt hended'
  exact ⟨hgone, nextDatagramElsewhere_of_unregistered hgone, hissued⟩

/-- A run that meets the condition: an empty datagram ends the send pump before the link closes. -/
theorem exists_unregistered_after_close :
    ∃ s, (s.relay 0).link = 5 ∧ (5 : LinkId) ∈ s.closed ∧ Settled s 0 ∧
      ∀ t, (machine (some 7)).Leads Lib.Machine.always s t →
        Unregistered t 5 ∧ NextDatagramElsewhere t 5 ∧
          issuedOn 5 t.commands = issuedOn 5 s.commands := by
  have hrun : ((machine (some 7)).runWhile CloseSafe (machine (some 7)).init
      [.datagram ⟨2130706433, 40000⟩ [1], .udp, .udp, .establishOk 0 5, .identified 0, .main 0,
        .main 0, .datagram ⟨2130706433, 40000⟩ [], .udp, .udp, .send 0, .engine (.linkClosed 5),
        .router, .router, .recv 0, .main 0, .main 0, .main 0]).any (fun s =>
          (s.relay 0).main.established && (s.relay 0).link == 5 && s.closed.contains 5 &&
            (ownActions 0).all (fun a => (step s a).isNone) &&
            !(s.relay 0).main.writesLinks) = true := by
    decide +kernel
  obtain ⟨s, hs, hP⟩ := Lib.Machine.exists_reachable_of_runWhile hrun
  simp only [Bool.and_eq_true, beq_iff_eq, List.contains_iff_mem, List.all_eq_true,
    Option.isNone_iff_eq_none, Bool.not_eq_true'] at hP
  obtain ⟨⟨⟨⟨hest, hlink⟩, hclosed⟩, hnone⟩, hwrites⟩ := hP
  have hsettled : Settled s 0 := ⟨hnone, fun h => by rw [hwrites] at h; cases h⟩
  refine ⟨s, hlink, hclosed, hsettled, ?_⟩
  have hgone := unregistered_after_close hs (r := 0) hest (by rwa [hlink]) hsettled
  rwa [hlink] at hgone

/-- The ordinary close: the receive pump ends, the send pump and the entry in `udp_links` stay. -/
theorem exists_registered_after_close :
    ∃ s, (machine (some 7)).Reachable Lib.Machine.always s ∧ (s.relay 0).main.established = true ∧
      (s.relay 0).link ∈ s.closed ∧ Settled s 0 ∧ ¬ Unregistered s (s.relay 0).link := by
  have hrun : ((machine (some 7)).run (machine (some 7)).init
      [.datagram ⟨2130706433, 40000⟩ [1], .udp, .udp, .establishOk 0 5, .identified 0, .main 0,
        .main 0, .engine (.linkClosed 5), .router, .router, .recv 0]).any (fun s =>
          (s.relay 0).main.established && s.closed.contains (s.relay 0).link &&
            (ownActions 0).all (fun a => (step s a).isNone) &&
            !(s.relay 0).main.writesLinks &&
            s.udpLinks ⟨2130706433, 40000⟩ == some 0) = true := by
    decide +kernel
  obtain ⟨s, hs, hP⟩ := Lib.Machine.exists_reachable_of_run hrun
  simp only [Bool.and_eq_true, beq_iff_eq, List.contains_iff_mem, List.all_eq_true,
    Option.isNone_iff_eq_none, Bool.not_eq_true'] at hP
  obtain ⟨⟨⟨⟨hest, hclosed⟩, hnone⟩, hwrites⟩, hentry⟩ := hP
  have hsettled : Settled s 0 := ⟨hnone, fun h => by rw [hwrites] at h; cases h⟩
  exact ⟨s, hs, hest, hclosed, hsettled, fun hgone => hgone.2 _ _ hentry rfl⟩

end Client
end SvenBridge
