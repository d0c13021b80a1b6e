import SvenBridge.Ds.Manager

/-!
# Ds.Agreement — do status and start agree?

`start` and `is_running` go by the recorded phase, `status` looks at the child first.  This file
contains

* `Agrees` — the answers of the three, for what a `status` has seen of the child;
* `agrees_iff` — they agree exactly when a recorded `Running` is a child that was seen alive, and
  nothing is recorded while idle;
* `Watched` — the steps that keep it;
* `status_agrees` — in runs of such steps status, start and `is_running` agree.
-/

namespace SvenBridge
namespace Ds

open Controller Lib

variable {S : Setup} {disk : Disk} {s s' : State} {sh : Shared} {t : Task} {e : Event} {i : ℕ}

/-! ## Agreement -/

/-- The phases in which a start is refused. -/
def DsPhase.busy : DsPhase → Bool
  | pulling | starting | running => true
  | idle | error => false

/-- The text of the refusal. -/
def busyError : String :=
  "dedicated server is already starting/running; stop it first"

/-- The answers of `start`, `is_running` and a `status` that has seen `running` agree. -/
structure Agrees (S : Setup) (s : State) (running : Bool) : Prop where
  start : s.startError S = some busyError ↔ (s.status running).phase.busy = true
  isRunning : s.isRunning = true ↔ (s.status running).phase.busy = true
  idle : (s.status running).running = false → (s.status running).phase = .idle →
    (s.status running).port = none ∧ (s.status running).installDir = none ∧
      (s.status running).svCheats = false

/-- Nothing is recorded of a server. -/
def DsLive.Blank (l : DsLive) : Prop :=
  l.port = none ∧ l.installDir = none ∧ l.svCheats = false

theorem isBusy_eq (l : DsLive) : l.isBusy = l.phase.busy := by
  cases l with
  | mk phase _ _ _ => cases phase <;> rfl

theorem startError_eq_busy : s.startError S = some busyError ↔ s.shared.live.phase.busy = true := by
  unfold State.startError busyError
  rw [isBusy_eq]
  cases s.shared.live.phase.busy with
  | true => simp
  | false => cases S.os.supportsDedicatedServer <;> simp

/-- The answers agree exactly when a recorded `Running` is a child that was seen alive, and nothing
is recorded beside `Idle`. -/
theorem agrees_iff {running : Bool} : Agrees S s running ↔
    (s.shared.live.phase = .running → running = true) ∧
      (s.shared.live.phase = .idle → s.shared.live.Blank) := by
  have hphase : (s.status running).phase =
      if s.shared.live.phase = .running ∧ running = false then .idle
      else s.shared.live.phase := by
    simp only [State.status]
    cases running <;> cases s.shared.live.phase <;> rfl
  have hrunning : s.isRunning = s.shared.live.phase.busy := isBusy_eq _
  constructor
  · intro h
    refine ⟨?_, ?_⟩
    · intro hlive
      by_contra hdead
      have hbusy := h.isRunning.1 (by rw [hrunning, hlive]; rfl)
      rw [hphase, if_pos ⟨hlive, by simpa using hdead⟩] at hbusy
      cases hbusy
    · intro hidle
      refine h.idle ?_ (by simp [hphase, hidle])
      simp [State.status, hidle]
  · rintro ⟨hchild, hblank⟩
    have hsame : (s.status running).phase = s.shared.live.phase := by
      rw [hphase, if_neg]
      rintro ⟨hlive, hdead⟩
      rw [hchild hlive] at hdead
      cases hdead
    refine ⟨?_, ?_, ?_⟩
    · rw [hsame, startError_eq_busy]
    · rw [hsame, hrunning]
    · intro _ hidle
      exact hblank (hsame.symm.trans hidle)

/-! ## Conditions -/

/-- A task records `Running` only of a child that is alive, or while a stop is in progress; and not
between the two reads of a `status` that has seen none alive. -/
def watchedPc (s : State) : Pc → Bool
  | .running _ _ => s.call.stopping || (s.shared.childAlive && s.call != .readLive false)
  | _ => true

/-- The child does not exit behind the recorded `Running`, except during a stop; `Running` is
recorded of a live child only, and not between the two reads of a `status`; and cheats are not
switched on while the phase is idle. -/
def watched (s : State) : Act → Bool
  | .exit p => s.call.stopping || s.shared.child != some p || s.shared.live.phase != .running
  | .current _ => s.current.all fun t => watchedPc s t.pc
  | .aborted i _ => s.aborted[i]?.all fun t => watchedPc s t.pc
  | .call _ =>
      match s.call with
      | .recordCheats enabled => !enabled || s.shared.live.phase != .idle
      | _ => true
  | _ => true

abbrev Watched (s : State) (a : Act) : Prop :=
  watched s a = true

/-! ## The invariant -/

/-- What the shared state keeps, but for the child during a stop. -/
structure Watch (stopping : Bool) (sh : Shared) : Prop where
  running : stopping = false → sh.live.phase = .running → sh.childAlive = true
  idle : sh.live.phase = .idle → sh.live.Blank
  exited : ∀ p ∈ sh.exited, p < sh.spawned
  child : ∀ p ∈ sh.child, p < sh.spawned

theorem Watch.setLive {b : Bool} (h : Watch b sh) {f : DsLive → DsLive}
    (hrunning : (f sh.live).phase = .running → b = true ∨ sh.childAlive = true)
    (hidle : (f sh.live).phase = .idle → (f sh.live).Blank) : Watch b (sh.setLive f) := by
  refine ⟨?_, hidle, h.exited, h.child⟩
  intro hb hphase
  rcases hrunning hphase with htrue | halive
  · rw [hb] at htrue
    cases htrue
  · exact halive

/-- The process just put into the slot is a new one: it has not exited. -/
theorem Watch.place {b : Bool} (h : Watch b sh) :
    Watch b { sh with
      child := some sh.spawned, spawned := sh.spawned + 1,
      exited := sh.child.toList ++ sh.exited } := by
  have hexited : ∀ p ∈ sh.child.toList ++ sh.exited, p < sh.spawned := by
    intro p hp
    rcases List.mem_append.1 hp with hchild | hold
    · exact h.child p (by simpa using hchild)
    · exact h.exited p hold
  refine ⟨?_, h.idle, ?_, ?_⟩
  · intro _ _
    have hnew : sh.spawned ∉ sh.child.toList ++ sh.exited := fun hmem =>
      Nat.lt_irrefl _ (hexited _ hmem)
    simpa [Shared.childAlive, Shared.alive] using hnew
  · intro p hp
    exact Nat.lt_succ_of_lt (hexited p hp)
  · intro p hp
    cases hp
    exact Nat.lt_succ_self _

theorem Watch.changed {b : Bool} {sh' : Shared} (h : Watch b sh) (hchange : t.Change sh sh')
    (hpc : ∀ dir p, t.pc = .running dir p → b = true ∨ sh.childAlive = true) : Watch b sh' := by
  cases hchange with
  | disk disk => exact ⟨h.running, h.idle, h.exited, h.child⟩
  | phase hphase =>
      rcases hphase with rfl | rfl
      · exact h.setLive nofun nofun
      · exact h.setLive nofun nofun
  | place _ => exact h.place
  | running hrunning => exact h.setLive (fun _ => hpc _ _ hrunning) nofun
  | fill _ => exact ⟨h.running, h.idle, h.exited, h.child⟩
  | idle _ => exact h.setLive nofun fun _ => ⟨rfl, rfl, rfl⟩
  | error _ => exact h.setLive nofun nofun

theorem Watch.doomed {b : Bool} (h : Watch b sh) (S : Setup) (t : Task) :
    Watch b (t.doomed S sh) := by
  obtain ⟨disk, heq⟩ := t.doomed_eq S sh
  rw [heq]
  exact ⟨h.running, h.idle, h.exited, h.child⟩

theorem spawned_doomed (S : Setup) (t : Task) (sh : Shared) :
    (t.doomed S sh).spawned = sh.spawned := by
  obtain ⟨disk, heq⟩ := t.doomed_eq S sh
  rw [heq]

theorem live_doomed (S : Setup) (t : Task) (sh : Shared) : (t.doomed S sh).live = sh.live := by
  obtain ⟨disk, heq⟩ := t.doomed_eq S sh
  rw [heq]

theorem Task.Change.spawned_le {sh' : Shared} (h : t.Change sh sh') : sh.spawned ≤ sh'.spawned := by
  cases h with
  | place _ => exact Nat.le_succ _
  | _ => exact Nat.le_refl _

/-- Only a task at that place records `Running`. -/
theorem Task.Change.of_running {sh' : Shared} (h : t.Change sh sh')
    (hphase : sh'.live.phase = .running) :
    sh.live.phase = .running ∨ ∃ dir p, t.pc = .running dir p := by
  cases h with
  | running hpc => exact .inr ⟨_, _, hpc⟩
  | phase hset =>
      rcases hset with rfl | rfl
      · cases hphase
      · cases hphase
  | idle _ => cases hphase
  | error _ => cases hphase
  | _ => exact .inl hphase

/-- The invariant of the manager. -/
structure State.Watch (s : State) : Prop where
  shared : Ds.Watch s.call.stopping s.shared
  killed : ∀ p, s.call = .killChild (some p) → p < s.shared.spawned
  /-- Between its two reads, a `status` has seen the child of a recorded `Running`. -/
  seen : ∀ running, s.call = .readLive running → s.shared.live.phase = .running → running = true

/-- A step of the tasks, the processes or the files. -/
theorem State.Watch.background (h : s.Watch) (hcall : s'.call = s.call)
    (hspawned : s.shared.spawned ≤ s'.shared.spawned)
    (hphase : s'.shared.live.phase = .running →
      s.shared.live.phase = .running ∨ s.call ≠ .readLive false)
    (hshared : Ds.Watch s.call.stopping s'.shared) : s'.Watch := by
  refine ⟨hcall ▸ hshared, fun p hp => ?_, fun running hread hrunning => ?_⟩
  · exact Nat.lt_of_lt_of_le (h.killed p (hcall ▸ hp)) hspawned
  · rw [hcall] at hread
    rcases hphase hrunning with hold | hnew
    · exact h.seen running hread hold
    · cases running with
      | true => rfl
      | false => exact absurd hread hnew

/-- A step of a task. -/
theorem State.Watch.changed {sh' : Shared} (h : s.Watch) (hchange : t.Change s.shared sh')
    (hok : watchedPc s t.pc = true) :
    Ds.Watch s.call.stopping sh' ∧
      (sh'.live.phase = .running → s.shared.live.phase = .running ∨ s.call ≠ .readLive false) := by
  have hpc : ∀ dir p, t.pc = .running dir p →
      s.call.stopping = true ∨ s.shared.childAlive = true ∧ s.call ≠ .readLive false := by
    intro dir p hpc
    simpa [watchedPc, hpc] using hok
  refine ⟨h.shared.changed hchange fun dir p hrunning => ?_, fun hphase => ?_⟩
  · exact (hpc dir p hrunning).imp_right And.left
  · refine (hchange.of_running hphase).imp_right ?_
    rintro ⟨dir, p, hrunning⟩ hread
    rcases hpc dir p hrunning with hstop | ⟨-, hnew⟩
    · rw [hread] at hstop
      cases hstop
    · exact hnew hread

/-! ## Calls -/

theorem Watch.abortCurrent {b : Bool} (h : Ds.Watch b s.shared) (S : Setup) :
    Ds.Watch b (s.abortCurrent S).shared := by
  unfold State.abortCurrent
  split
  · exact h
  · exact h.doomed S _

theorem State.Watch.callStep {ok : Bool} (h : s.Watch) (hok : Watched s (.call ok))
    (hstep : s.callStep S ok s.call = some s') : s'.Watch := by
  have hshared := h.shared
  cases hcall : s.call with
  | idle =>
      rw [hcall] at hstep
      cases hstep
  | lowerCancel args | spawnTask args =>
      rw [hcall] at hstep hshared
      cases hstep
      exact ⟨⟨hshared.running, hshared.idle, hshared.exited, hshared.child⟩, nofun, nofun⟩
  | abortPrior args =>
      rw [hcall] at hstep hshared
      cases hstep
      exact ⟨hshared.abortCurrent S, nofun, nofun⟩
  | markPulling args =>
      rw [hcall] at hstep hshared
      cases hstep
      exact ⟨hshared.setLive nofun nofun, nofun, nofun⟩
  | raiseCancel | clearStdin =>
      rw [hcall] at hstep hshared
      cases hstep
      exact ⟨⟨nofun, hshared.idle, hshared.exited, hshared.child⟩, nofun, nofun⟩
  | abortTask =>
      rw [hcall] at hstep hshared
      cases hstep
      exact ⟨hshared.abortCurrent S, nofun, nofun⟩
  | takeChild =>
      rw [hcall] at hstep hshared
      cases hstep
      refine ⟨⟨nofun, hshared.idle, hshared.exited, nofun⟩, ?_, nofun⟩
      intro p hp
      exact hshared.child p (Call.killChild.inj hp)
  | killChild child =>
      have hkilled := h.killed
      rw [hcall] at hstep hshared hkilled
      cases hstep
      refine ⟨⟨nofun, hshared.idle, ?_, hshared.child⟩, nofun, nofun⟩
      intro p hp
      rcases List.mem_append.1 hp with hchild | hold
      · exact hkilled p (congrArg Call.killChild (by simpa using hchild))
      · exact hshared.exited p hold
  | setIdle =>
      rw [hcall] at hstep hshared
      cases hstep
      exact ⟨⟨nofun, fun _ => ⟨rfl, rfl, rfl⟩, hshared.exited, hshared.child⟩, nofun, nofun⟩
  | sendCheats enabled =>
      rw [hcall] at hstep hshared
      cases hstep
      cases hsent : s.shared.stdin.isSome && ok
      · refine ⟨?_, by simp, by simp⟩
        exact ⟨fun _ => hshared.running rfl, hshared.idle, hshared.exited, hshared.child⟩
      · refine ⟨?_, by simp, by simp⟩
        exact ⟨fun _ => hshared.running rfl, hshared.idle, hshared.exited, hshared.child⟩
  | recordCheats enabled =>
      have hphase : enabled = false ∨ s.shared.live.phase ≠ .idle := by
        simpa [Watched, watched, hcall] using hok
      rw [hcall] at hstep hshared
      cases hstep
      refine ⟨⟨hshared.running, ?_, hshared.exited, hshared.child⟩, nofun, nofun⟩
      intro hidle
      rcases hphase with rfl | hbusy
      · have hblank := hshared.idle hidle
        exact ⟨hblank.1, hblank.2.1, rfl⟩
      · exact absurd hidle hbusy
  | readLive running =>
      rw [hcall] at hstep hshared
      cases hstep
      exact ⟨⟨hshared.running, hshared.idle, hshared.exited, hshared.child⟩, nofun, nofun⟩

theorem State.Watch.begin {call : Call} (h : s.Watch) (hstep : s.begin call = some s')
    (hkill : ∀ p, call ≠ .killChild (some p))
    (hseen : ∀ running, call = .readLive running → s.call.stopping = false →
      s.shared.live.phase = .running → running = true) : s'.Watch := by
  unfold State.begin at hstep
  split at hstep
  · rename_i hidle
    cases hstep
    have hshared := h.shared
    rw [hidle] at hshared hseen
    refine ⟨⟨fun _ => hshared.running rfl, hshared.idle, hshared.exited, hshared.child⟩, ?_, ?_⟩
    · exact fun p hp => absurd hp (hkill p)
    · exact fun running hread => hseen running hread rfl
  · cases hstep

theorem State.Watch.start {args : DsStartArgs} (h : s.Watch) (hstep : s.start S args = some s') :
    s'.Watch := by
  unfold State.start at hstep
  split at hstep
  · exact h.begin hstep nofun nofun
  · exact State.Watch.begin (s := { s with stopped := false }) ⟨h.shared, h.killed, h.seen⟩ hstep
      nofun nofun

/-- `status` leaves a child that is alive in its slot. -/
theorem childAlive_reap : s.reap.shared.childAlive = s.shared.childAlive := by
  show (s.shared.child.filter s.shared.alive).any s.shared.alive = s.shared.child.any s.shared.alive
  cases s.shared.child with
  | none => rfl
  | some p => cases hp : s.shared.alive p <;> simp [Option.filter, hp]

/-- The child `status` clears away has exited. -/
theorem State.Watch.reap (h : s.Watch) : s.reap.Watch := by
  have hshared := h.shared
  refine ⟨⟨?_, hshared.idle, hshared.exited, ?_⟩, h.killed, h.seen⟩
  · intro hcall hphase
    exact childAlive_reap.trans (hshared.running hcall hphase)
  · intro p hp
    have hp' : s.shared.child.filter s.shared.alive = some p := hp
    exact hshared.child p (Option.filter_eq_some_iff.1 hp').1

/-- What the first half of `status` has seen fits the recorded phase. -/
theorem State.Watch.pollChild (h : s.Watch) (hstep : s.pollChild = some s') : s'.Watch := by
  refine h.reap.begin hstep nofun ?_
  rintro running ⟨⟩ hcall hphase
  exact h.shared.running hcall hphase

/-! ## Runs -/

theorem State.Watch.step {a : Act} (h : s.Watch) (hok : Watched s a)
    (hstep : s.step S a = some s') : s'.Watch := by
  cases a with
  | start args => exact h.start hstep
  | stop => exact h.begin hstep nofun nofun
  | setCheats enabled => exact h.begin hstep nofun nofun
  | status => exact h.pollChild hstep
  | call ok => exact h.callStep hok hstep
  | current e =>
      obtain ⟨t, ht, rfl⟩ := Option.map_eq_some_iff.1 hstep
      have hchange := t.step_change S e s.shared
      have hpc : watchedPc s t.pc = true := by simpa [Watched, watched, ht] using hok
      obtain ⟨hshared, hphase⟩ := h.changed hchange hpc
      exact h.background rfl hchange.spawned_le hphase hshared
  | aborted i e =>
      simp only [State.step, State.abortedStep] at hstep
      split at hstep
      · cases hstep
      · rename_i t ht
        split at hstep
        · cases hstep
        · cases hstep
          have hchange := t.step_change S e s.shared
          have hspawned : s.shared.spawned ≤ (Task.doomed S { t with pc := (t.step S e s.shared).2 }
              (t.step S e s.shared).1).spawned := by
            rw [spawned_doomed]
            exact hchange.spawned_le
          have hpc : watchedPc s t.pc = true := by simpa [Watched, watched, ht] using hok
          obtain ⟨hshared, hphase⟩ := h.changed hchange hpc
          refine h.background rfl hspawned ?_ (hshared.doomed S _)
          rw [live_doomed]
          exact hphase
  | drop i =>
      simp only [State.step, State.dropTask] at hstep
      split at hstep
      · cases hstep
      · split at hstep
        · cases hstep
          exact h.background rfl (Nat.le_refl _) .inl h.shared
        · cases hstep
  | exit p =>
      simp only [State.step] at hstep
      split at hstep
      · rename_i hlt
        cases hstep
        refine h.background rfl (Nat.le_refl _) .inl ⟨?_, h.shared.idle, ?_, h.shared.child⟩
        · intro hcall hphase
          have hphase' : s.shared.live.phase = .running := hphase
          have hother : s.shared.child ≠ some p := by
            simpa [Watched, watched, hcall, hphase'] using hok
          have halive := h.shared.running hcall hphase
          show s.shared.child.any (s.shared.exit p).alive = true
          cases hchild : s.shared.child with
          | none =>
              rw [Shared.childAlive, hchild] at halive
              cases halive
          | some q =>
              rw [Shared.childAlive, hchild] at halive
              rw [hchild] at hother
              have hne : q ≠ p := fun heq => hother (congrArg some heq)
              simpa [Shared.alive, Shared.exit, hne] using halive
        · intro q hq
          rcases List.mem_cons.1 hq with rfl | hold
          · exact hlt
          · exact h.shared.exited q hold
      · cases hstep
  | file dir exe =>
      cases hstep
      exact h.background rfl (Nat.le_refl _) .inl
        ⟨h.shared.running, h.shared.idle, h.shared.exited, h.shared.child⟩

/-- In every run in which no server exits behind a recorded `Running`, none is recorded between the
reads of a `status`, and cheats are not switched on while idle: when a `status` that has seen
`running` reads the record, `start` would refuse as already running, and `is_running` hold, exactly
in the busy phases it reports; and with `running = false` and phase idle it reports no port, no
directory and no cheats. -/
theorem status_agrees {running : Bool} (h : (machine S disk).Reachable Watched s)
    (hcall : s.call = .readLive running) :
    (s.startError S = some busyError ↔ (s.status running).phase.busy = true) ∧
      (s.isRunning = true ↔ (s.status running).phase.busy = true) ∧
      ((s.status running).running = false → (s.status running).phase = .idle →
        (s.status running).port = none ∧ (s.status running).installDir = none ∧
          (s.status running).svCheats = false) := by
  have hwatch : s.Watch := by
    refine Machine.Reachable.invariant ?_ ?_ h
    · refine ⟨⟨nofun, fun _ => ⟨rfl, rfl, rfl⟩, ?_, nofun⟩, nofun, nofun⟩
      intro p hp
      cases hp
    · intro s a s' hs hok hstep
      exact hs.step hok hstep
  have hagrees : Agrees S s running :=
    agrees_iff.2 ⟨hwatch.seen running hcall, hwatch.shared.idle⟩
  exact ⟨hagrees.start, hagrees.isRunning, hagrees.idle⟩

/-- A server is started, and runs. -/
theorem exists_status_agrees : ∃ s : State, (s.status true).phase = .running ∧
    s.startError Setup.sample = some busyError ∧ s.isRunning = true := by
  have hrun : ((machine .sample .installed).runWhile Watched (.new .installed)
      (startSteps ++ List.replicate 11 (.current .ok) ++ [.status])).any (fun s =>
        s.call == .readLive true && (s.status true).phase == .running) = true := by decide +kernel
  obtain ⟨s, hs, hP⟩ := Machine.exists_reachable_of_runWhile hrun
  simp only [Bool.and_eq_true, beq_iff_eq] at hP
  have hagrees := status_agrees hs hP.1
  refine ⟨s, hP.2, hagrees.1.2 ?_, hagrees.2.1.2 ?_⟩ <;> rw [hP.2] <;> rfl

/-- What `status` and `start` say when the one is about to report and the other refuses. -/
def confused (s : State) : Bool :=
  s.call == .readLive false && !(s.status false).running && (s.status false).phase == .idle &&
    s.startError Setup.sample == some busyError && s.isRunning && (s.status false).port.isSome

/-- A server has exited by itself: `status` says idle, `start` refuses, and the port is still
shown. -/
theorem exit_confuses_status : ∃ s, (machine .sample .installed).Reachable Machine.always s ∧
    s.call = .readLive false ∧ (s.status false).running = false ∧ (s.status false).phase = .idle ∧
    s.startError Setup.sample = some busyError ∧ s.isRunning = true ∧
    (s.status false).port ≠ none := by
  have hrun : ((machine .sample .installed).run (.new .installed)
      (startSteps ++ List.replicate 11 (.current .ok) ++ [.exit 0, .status])).any confused =
      true := by decide +kernel
  obtain ⟨s, hs, hP⟩ := Machine.exists_reachable_of_run hrun
  simp only [confused, Bool.and_eq_true, Bool.not_eq_true', beq_iff_eq] at hP
  obtain ⟨⟨⟨⟨⟨hread, hrunning⟩, hphase⟩, herror⟩, hbusy⟩, hport⟩ := hP
  exact ⟨s, hs, hread, hrunning, hphase, herror, hbusy, Option.isSome_iff_ne_none.1 hport⟩

/-- No server exits: `status` looks at the child slot before the task fills it, and at the record
after the task has set it to `Running`. -/
theorem start_confuses_status : ∃ s, (machine .sample .installed).Reachable Machine.always s ∧
    s.shared.exited = [] ∧ confused s = true := by
  have hrun : ((machine .sample .installed).run (.new .installed)
      (startSteps ++ List.replicate 8 (.current .ok) ++ [.status] ++
        List.replicate 2 (.current .ok))).any (fun s => s.shared.exited.isEmpty && confused s) =
      true := by decide +kernel
  obtain ⟨s, hs, hP⟩ := Machine.exists_reachable_of_run hrun
  rw [Bool.and_eq_true, List.isEmpty_iff] at hP
  exact ⟨s, hs, hP⟩

end Ds
end SvenBridge
