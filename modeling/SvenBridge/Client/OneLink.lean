import SvenBridge.Client.Invariant

/-!
# Client.OneLink — one relay per game-client address

`udp_links` is read when a datagram arrives and written several awaits later, so two datagrams that
arrive while the first link is still being established spawn two relays.  In runs where a missing
entry is only looked up while no relay of that address is pending, the law of the README holds:
each source address has at most one relay, the entry is that relay's, and only that relay's own
teardown removes it.
-/

namespace SvenBridge
namespace Client

variable {s t : State} {a : Action}

/-- A link is being established, or is established and its relay is running. -/
def MainPc.active (m : MainPc) : Bool :=
  m.pending || m.registered

/-- The relays of one address. -/
def AtMostOneRelay (s : State) : Prop :=
  ∀ r r', (s.relay r).main.active = true → (s.relay r').main.active = true →
    (s.relay r).src = (s.relay r').src → r = r'

/-- Entries belong to the active relay of their address. -/
def EntriesOwned (s : State) : Prop :=
  ∀ src r, s.udpLinks src = some r →
    (s.relay r).src = src ∧ (s.relay r).main.active = true

/-- Whatever step comes next, an entry goes away only by its own relay's teardown. -/
def RemovedByOwner (s : State) : Prop :=
  ∀ a t, step s a = some t → ∀ src r, s.udpLinks src = some r → t.udpLinks src ≠ some r →
    a = .main r ∧
      ((s.relay r).main = .removeLinks ∨ (s.relay r).main = .firstSendFailed) ∧
      t.udpLinks src = none

/-- A datagram finds no entry only while no relay of its address is pending. -/
def LookupSettled (s : State) (a : Action) : Prop :=
  match a, s.udp with
  | .udp, .lookup src _ =>
      s.udpLinks src = none →
        ∀ r < s.spawned, (s.relay r).src = src → (s.relay r).main.pending = false
  | _, _ => True

instance (s : State) (a : Action) : Decidable (LookupSettled s a) := by
  unfold LookupSettled
  generalize s.udp = udp
  rcases a with _ | _ <;> rcases udp with _ | _ <;> infer_instance

/-! ## The invariant -/

structure OneLink (s : State) : Prop where
  unique : AtMostOneRelay s
  /-- The entry of a registered relay is not overwritten. -/
  entry : ∀ r, (s.relay r).main.registered = true → s.udpLinks (s.relay r).src = some r
  /-- Once the lookup has failed, there is nobody to share the address with. -/
  vacant : ∀ src pkt, s.udp = .readTarget src pkt →
    ∀ r, (s.relay r).main.active = true → (s.relay r).src ≠ src

theorem active_of_registered {m : MainPc} (h : m.registered = true) : m.active = true := by
  simp [MainPc.active, h]

theorem active_iff {m : MainPc} : m.active = true ↔ m.pending = true ∨ m.registered = true := by
  simp [MainPc.active]

namespace OneLink

theorem unique_step (h : Step s a t) (hI : Inv s) (hone : OneLink s) : AtMostOneRelay t := by
  intro r r' hr hr' hsrc
  have hunique := hone.unique r r'
  -- only a spawn adds a relay, and then there is none of its address
  have hvacant := hone.vacant
  have hunborn := hI.unborn
  cases h <;>
    first
    | exact hunique hr hr' hsrc
    | grind -linarith [Function.update_apply, MainPc.active, MainPc.pending, MainPc.registered]

theorem entry_step (h : Step s a t) (hone : OneLink s) :
    ∀ r, (t.relay r).main.registered = true → t.udpLinks (t.relay r).src = some r := by
  intro r hr
  have hentry := hone.entry r
  -- an entry is overwritten or removed by a relay of its own address, which is the only one
  have hunique := hone.unique r
  cases h <;>
    first
    | exact hentry hr
    | grind -linarith [Function.update_apply, MainPc.active, MainPc.pending, MainPc.registered]

/-- A failed lookup leaves no relay of the address: none is pending by the condition, and a
registered one would have been found. -/
theorem vacant_of_lookup (hI : Inv s) (hone : OneLink s) {src : SocketAddr} {pkt : Datagram}
    (hudp : s.udp = .lookup src pkt) (hentry : s.udpLinks src = none)
    (hok : LookupSettled s .udp) :
    ∀ r, (s.relay r).main.active = true → (s.relay r).src ≠ src := by
  intro r hr hsrc
  simp only [LookupSettled, hudp] at hok
  rcases active_iff.1 hr with hpending | hregistered
  · have hlt : r < s.spawned := by
      refine hI.lt_spawned fun hm => ?_
      rw [hm] at hpending
      cases hpending
    rw [hok hentry r hlt hsrc] at hpending
    cases hpending
  · have hfound := hone.entry r hregistered
    rw [hsrc, hentry] at hfound
    cases hfound

theorem vacant_step (h : Step s a t) (hI : Inv s) (hone : OneLink s) (hok : LookupSettled s a) :
    ∀ src pkt, t.udp = .readTarget src pkt →
      ∀ r, (t.relay r).main.active = true → (t.relay r).src ≠ src := by
  intro src pkt hudp r hr
  have hvacant := hone.vacant src pkt
  -- the address is vacant when the lookup fails, and nobody else spawns before the task does
  have hlookup := fun pkt => @vacant_of_lookup s hI hone src pkt
  cases h <;>
    first
    | exact hvacant hudp r hr
    | grind -linarith [Function.update_apply, MainPc.active, MainPc.pending, MainPc.registered]

theorem step (h : Step s a t) (hI : Inv s) (hone : OneLink s) (hok : LookupSettled s a) :
    OneLink t where
  unique := hone.unique_step h hI
  entry := hone.entry_step h
  vacant := hone.vacant_step h hI hok

theorem init (serverHash : Option DestinationHash) : OneLink (State.init serverHash) where
  unique := by
    intro r r' h
    cases h
  entry := by
    intro r h
    cases h
  vacant := by
    intro src pkt h
    cases h

theorem of_reachable {serverHash : Option DestinationHash}
    (h : (machine serverHash).Reachable LookupSettled s) : OneLink s :=
  Lib.Machine.Reachable.invariant_of_reachable (init serverHash)
    (fun _ _ _ hs hone hok hstep => hone.step (step_sound hstep) (Inv.of_reachable hs) hok) h

/-- With one relay per address, nobody else writes the entry. -/
theorem removedByOwner (hI : Inv s) (hone : OneLink s) : RemovedByOwner s := by
  intro a t hstep src r hentry hgone
  obtain ⟨hsrc, hregistered⟩ := hI.links src r hentry
  -- a relay of the address that could write the entry is the one it names
  have hunique : ∀ r', (s.relay r').main.active = true → (s.relay r').src = src → r' = r :=
    fun r' hr' hsrc' => hone.unique r' r hr' (active_of_registered hregistered) (by rw [hsrc', hsrc])
  cases step_sound hstep <;>
    first
    | exact absurd hentry hgone
    | grind -linarith [Function.update_apply, MainPc.active, MainPc.pending, MainPc.registered]

end OneLink

/-! ## Main result -/

/-- One relay per source address, in every run whose lookups are settled. -/
theorem one_link_per_address {serverHash : Option DestinationHash}
    (h : (machine serverHash).Reachable LookupSettled s) :
    AtMostOneRelay s ∧ EntriesOwned s ∧ RemovedByOwner s := by
  have hI : Inv s := Inv.of_reachable h
  have hone : OneLink s := OneLink.of_reachable h
  refine ⟨hone.unique, ?_, hone.removedByOwner hI⟩
  intro src r hentry
  -- an entry belongs to a relay that has registered, and so is active
  obtain ⟨hsrc, hregistered⟩ := hI.links src r hentry
  exact ⟨hsrc, active_of_registered hregistered⟩

/-- A run that meets the condition and registers a relay. -/
theorem exists_one_link_per_address :
    ∃ s, (AtMostOneRelay s ∧ EntriesOwned s ∧ RemovedByOwner s) ∧
      s.udpLinks ⟨2130706433, 40000⟩ = some 0 ∧ (s.relay 0).main = .joining := by
  have hrun : ((machine (some 7)).runWhile LookupSettled (machine (some 7)).init
      [.datagram ⟨2130706433, 40000⟩ [1], .udp, .udp, .establishOk 0 5, .identified 0, .main 0,
        .main 0]).any (fun s => s.udpLinks ⟨2130706433, 40000⟩ == some 0 &&
          (s.relay 0).main == .joining) = true := by
    decide
  obtain ⟨s, hs, hP⟩ := Lib.Machine.exists_reachable_of_runWhile hrun
  simp only [Bool.and_eq_true, beq_iff_eq] at hP
  exact ⟨s, one_link_per_address hs, hP⟩

/-- Two datagrams from one address while `establish_link` is pending: two relays. -/
theorem exists_two_relays_of_one_address :
    ∃ s, (machine (some 7)).Reachable Lib.Machine.always s ∧ ¬ AtMostOneRelay s := by
  have hrun : ((machine (some 7)).run (machine (some 7)).init
      [.datagram ⟨2130706433, 40000⟩ [1], .udp, .udp,
        .datagram ⟨2130706433, 40000⟩ [2], .udp, .udp]).any (fun s =>
          (s.relay 0).main.active && (s.relay 1).main.active &&
            (s.relay 0).src == (s.relay 1).src) = true := by
    decide
  obtain ⟨s, hs, hP⟩ := Lib.Machine.exists_reachable_of_run hrun
  simp only [Bool.and_eq_true, beq_iff_eq] at hP
  refine ⟨s, hs, fun hone => ?_⟩
  have heq : (0 : ℕ) = 1 := hone 0 1 hP.1.1 hP.1.2 hP.2
  cases heq

end Client
end SvenBridge
