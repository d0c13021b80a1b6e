import SvenBridge.Ds.Manager

/-!
# Ds.Stop — what a stop leaves running

`stop` raises the cancel flag, aborts the task and clears what the task shares, one lock after the
other; the task goes on up to its next await, and looks at the flag for the last time before it
spawns.  This file contains

* `Pc.places`, `Pc.fills`, `Pc.shows` — where a task still fills the child slot, the stdin slot or
  the live record before its next await;
* `settled` — the steps of a stop that come when nothing of this is left to do;
* `stopped_for_good` — in runs of such steps a stop really stops the server.
-/

namespace SvenBridge
namespace Ds

open Controller Lib

variable {S : Setup} {disk : Disk} {s s' : State} {sh : Shared} {t : Task} {e : Event} {i : ℕ}

/-! ## What is left to do before the next await -/

namespace Pc

/-- A child is still put into the slot. -/
def places : Pc → Bool
  | spawn _ | place _ => true
  | _ => false

/-- A child's stdin is still put into the slot. -/
def fills : Pc → Bool
  | running _ _ | fill _ => true
  | _ => false

/-- The live record still gets a phase other than idle, when the cancel flag is up. -/
def shows : Pc → Bool
  | found _ | pulling | spawnPull | pullLoop | line | prepare _ | spawn _ | place _ | running _ _
  | failed => true
  | _ => false

end Pc

/-- The branch taken leads on to an await, not to an error or a download. -/
def calm (S : Setup) (s : Shared) (e : Event) : Pc → Bool
  | .testSteamcmd => !s.disk.steamcmd
  | .extracting => e == .ok || e == .line
  | .testExtracted => s.disk.steamcmd && S.os == .linux
  | _ => true

/-- `stop` takes the child, clears the stdin and sets the phase only when no aborted task is still to
fill them; and after a stop an aborted task in the middle of `ensure_steamcmd` reaches its next
await. -/
def settled (S : Setup) (s : State) : Act → Bool
  | .call _ =>
      match s.call with
      | .takeChild => s.aborted.all fun t => !t.pc.places
      | .clearStdin => s.aborted.all fun t => !t.pc.fills
      | .setIdle => s.aborted.all fun t => !t.pc.shows
      | _ => true
  | .aborted i e => !s.stopped || s.aborted[i]?.all fun t => calm S s.shared e t.pc
  | _ => true

abbrev Settled (S : Setup) (s : State) (a : Act) : Prop :=
  settled S s a = true

/-! ## Steps of a task under the cancel flag -/

theorem Task.Searched.places_eq {pc : Pc} (h : Task.Searched pc) : pc.places = false := by
  cases h <;> rfl

theorem Task.Searched.fills_eq {pc : Pc} (h : Task.Searched pc) : pc.fills = false := by
  cases h <;> rfl

namespace Task.Change

variable {sh' : Shared}

theorem cancel_eq (h : t.Change sh sh') : sh'.cancel = sh.cancel := by
  cases h <;> rfl

theorem child_eq (h : t.Change sh sh') (hpc : t.pc.places = false) : sh'.child = sh.child := by
  cases h with
  | place hplace =>
      rw [hplace] at hpc
      cases hpc
  | _ => rfl

theorem stdin_eq (h : t.Change sh sh') (hpc : t.pc.fills = false) : sh'.stdin = sh.stdin := by
  cases h with
  | fill hfill =>
      rw [hfill] at hpc
      cases hpc
  | _ => rfl

end Task.Change

theorem step_cancel (S : Setup) (t : Task) (e : Event) (sh : Shared) :
    (t.step S e sh).1.cancel = sh.cancel :=
  (t.step_change S e sh).cancel_eq

/-- The spawn is come to only past the last look at the flag, with the flag down. -/
theorem places_of_step (h : (t.step S e sh).2.places = true) :
    (∃ dir, t.pc = .checkSpawn dir ∧ sh.cancel = false) ∨ t.pc.places = true := by
  have hsearch : t.pc.searches = false := by
    by_contra hsearch
    rw [(Task.step_searched (by simpa using hsearch) e sh).places_eq] at h
    cases h
  obtain ⟨args, pc⟩ := t
  cases pc with
  | checkSpawn dir =>
      cases hcancel : sh.cancel with
      | true => simp [Task.step, hcancel, Pc.places] at h
      | false => exact .inl ⟨dir, rfl, rfl⟩
  | spawn dir | place dir => exact .inr rfl
  | findLocal | findMarker | findMarked dir | findSteam dirs => cases hsearch
  | _ =>
      revert h
      simp only [Task.step]
      (repeat' split) <;> simp [Pc.places]

theorem step_not_places (hcancel : sh.cancel = true) (h : t.pc.places = false) :
    (t.step S e sh).1.child = sh.child ∧ (t.step S e sh).2.places = false := by
  refine ⟨(t.step_change S e sh).child_eq h, ?_⟩
  by_contra hplaces
  rcases places_of_step (by simpa using hplaces) with ⟨-, -, hdown⟩ | hbefore
  · rw [hcancel] at hdown
    cases hdown
  · rw [h] at hbefore
    cases hbefore

/-- The stdin is come to only from the child slot. -/
theorem fills_of_step (h : (t.step S e sh).2.fills = true) :
    t.pc.places = true ∨ t.pc.fills = true := by
  have hsearch : t.pc.searches = false := by
    by_contra hsearch
    rw [(Task.step_searched (by simpa using hsearch) e sh).fills_eq] at h
    cases h
  obtain ⟨args, pc⟩ := t
  cases pc with
  | place dir => exact .inl rfl
  | running dir p | fill p => exact .inr rfl
  | findLocal | findMarker | findMarked dir | findSteam dirs => cases hsearch
  | _ =>
      revert h
      simp only [Task.step]
      (repeat' split) <;> simp [Pc.fills]

theorem step_not_fills (hplaces : t.pc.places = false) (h : t.pc.fills = false) :
    (t.step S e sh).1.stdin = sh.stdin ∧ (t.step S e sh).2.fills = false := by
  refine ⟨(t.step_change S e sh).stdin_eq h, ?_⟩
  by_contra hfills
  rcases fills_of_step (by simpa using hfills) with hbefore | hbefore
  · rw [hplaces] at hbefore
    cases hbefore
  · rw [h] at hbefore
    cases hbefore

/-- Up to its next await a task that does nothing wrong leaves the phase alone, or sets it to idle. -/
theorem step_not_shows (hcancel : sh.cancel = true) (h : t.pc.shows = false)
    (hawake : t.pc.suspended = false) (hcalm : calm S sh e t.pc = true) :
    ((t.step S e sh).1.live.phase = sh.live.phase ∨ (t.step S e sh).1.live.phase = .idle) ∧
      (t.step S e sh).2.shows = false := by
  obtain ⟨args, pc⟩ := t
  cases pc with
  | notFound | pulled | checkReady dir | checkSpawn dir =>
      -- with the flag up, the task is cancelled
      simp [Task.step, hcancel, Pc.shows]
  | cancelled => exact ⟨.inr rfl, rfl⟩
  | testSteamcmd =>
      have hmissing : sh.disk.steamcmd = false := by simpa [calm] using hcalm
      simp [Task.step, hmissing, Pc.shows]
  | extracting =>
      cases e with
      | ok | line => exact ⟨.inl rfl, rfl⟩
      | err | tick => cases hcalm
  | testExtracted =>
      have hfound : sh.disk.steamcmd = true ∧ S.os = .linux := by simpa [calm] using hcalm
      simp [Task.step, hfound, Pc.shows]
  | cheats | finished => exact ⟨.inl rfl, rfl⟩
  | fill p => cases hsvCheats : args.svCheats <;> simp [Task.step, hsvCheats, Pc.shows]
  | _ =>
      -- the others await, or are still to set the phase
      first
        | (cases hawake; done)
        | cases h

/-! ## The invariant -/

/-- How far the last stop has come; nothing is promised while none has begun. -/
def State.stage (s : State) : ℕ :=
  if s.stopped then 5
  else match s.call with
    | .abortTask => 1
    | .takeChild => 2
    | .killChild _ | .clearStdin => 3
    | .setIdle => 4
    | _ => 0

/-- What a stop has achieved at each stage. -/
structure StopInv (s : State) : Prop where
  cancel : 1 ≤ s.stage → s.shared.cancel = true
  current : 2 ≤ s.stage → s.current = none
  child : 3 ≤ s.stage → s.shared.child = none ∧ ∀ t ∈ s.aborted, t.pc.places = false
  stdin : 4 ≤ s.stage → s.shared.stdin = none ∧ ∀ t ∈ s.aborted, t.pc.fills = false
  live : 5 ≤ s.stage → s.shared.live.phase = .idle ∧ ∀ t ∈ s.aborted, t.pc.shows = false
  /-- A start that has been accepted ends what a stop has promised. -/
  starting : s.stopped = true → ∀ args, s.call ≠ .lowerCancel args ∧ s.call ≠ .markPulling args ∧
    s.call ≠ .abortPrior args ∧ s.call ≠ .spawnTask args

/-- A step of the tasks, the processes or the files, as the invariant sees it. -/
theorem StopInv.background (h : StopInv s) (hcall : s'.call = s.call)
    (hstopped : s'.stopped = s.stopped) (hcancel : s'.shared.cancel = s.shared.cancel)
    (hcurrent : s.current = none → s'.current = none)
    (hchild : 3 ≤ s.stage → s'.shared.child = none ∧ ∀ t ∈ s'.aborted, t.pc.places = false)
    (hstdin : 4 ≤ s.stage → s'.shared.stdin = none ∧ ∀ t ∈ s'.aborted, t.pc.fills = false)
    (hlive : 5 ≤ s.stage → s'.shared.live.phase = .idle ∧ ∀ t ∈ s'.aborted, t.pc.shows = false) :
    StopInv s' := by
  have hstage : s'.stage = s.stage := by rw [State.stage, State.stage, hcall, hstopped]
  constructor
  · intro hle
    rw [hcancel]
    exact h.cancel (hstage ▸ hle)
  · intro hle
    exact hcurrent (h.current (hstage ▸ hle))
  · intro hle
    exact hchild (hstage ▸ hle)
  · intro hle
    exact hstdin (hstage ▸ hle)
  · intro hle
    exact hlive (hstage ▸ hle)
  · rw [hcall, hstopped]
    exact h.starting

/-- Nothing the invariant reads changes. -/
theorem StopInv.same (h : StopInv s) (hcall : s'.call = s.call) (hstopped : s'.stopped = s.stopped)
    (hcancel : s'.shared.cancel = s.shared.cancel) (hcurrent : s'.current = s.current)
    (haborted : s'.aborted = s.aborted) (hchild : s.shared.child = none → s'.shared.child = none)
    (hstdin : s'.shared.stdin = s.shared.stdin) (hlive : s'.shared.live = s.shared.live) :
    StopInv s' := by
  refine h.background hcall hstopped hcancel (fun hnone => hcurrent.trans hnone) ?_ ?_ ?_
  · intro hle
    rw [haborted]
    exact ⟨hchild (h.child hle).1, (h.child hle).2⟩
  · intro hle
    rw [haborted, hstdin]
    exact h.stdin hle
  · intro hle
    rw [haborted, hlive]
    exact h.live hle

/-! ## Tasks -/

theorem doomed_frame (S : Setup) (t : Task) (sh : Shared) :
    (t.doomed S sh).cancel = sh.cancel ∧ (t.doomed S sh).child = sh.child ∧
      (t.doomed S sh).stdin = sh.stdin ∧ (t.doomed S sh).live = sh.live := by
  obtain ⟨disk, heq⟩ := t.doomed_eq S sh
  rw [heq]
  exact ⟨rfl, rfl, rfl, rfl⟩

theorem StopInv.currentStep (h : StopInv s) (hstep : s.currentStep S e = some s') : StopInv s' := by
  obtain ⟨t, ht, heq⟩ := Option.map_eq_some_iff.1 hstep
  -- the handle is still held: the stop has not come to the abort
  have hearly : ¬ 2 ≤ s.stage := by
    intro hle
    rw [h.current hle] at ht
    cases ht
  subst heq
  refine h.background rfl rfl (step_cancel S t e s.shared) ?_ ?_ ?_ ?_
  · intro hnone
    rw [hnone] at ht
    cases ht
  all_goals
    intro hle
    exact absurd (by omega) hearly

theorem StopInv.abortedStep (h : StopInv s) (hok : Settled S s (.aborted i e))
    (hstep : s.abortedStep S i e = some s') : StopInv s' := by
  unfold State.abortedStep at hstep
  split at hstep
  · cases hstep
  · rename_i t ht
    split at hstep
    · cases hstep
    · rename_i hawake
      cases hstep
      have hmem : t ∈ s.aborted := List.mem_of_getElem? ht
      obtain ⟨hcancel, hchild, hstdin, hlive⟩ :=
        doomed_frame S { t with pc := (t.step S e s.shared).2 } (t.step S e s.shared).1
      refine h.background rfl rfl (hcancel.trans (step_cancel S t e s.shared)) (fun hnone => hnone)
        ?_ ?_ ?_
      · intro hle
        have hcancel := h.cancel (by omega)
        have hold := h.child hle
        have hstep := step_not_places (S := S) (e := e) hcancel (hold.2 t hmem)
        refine ⟨hchild.trans (hstep.1.trans hold.1), fun u hu => ?_⟩
        rcases List.mem_or_eq_of_mem_set hu with hu | rfl
        · exact hold.2 u hu
        · exact hstep.2
      · intro hle
        have hplaces := (h.child (by omega)).2 t hmem
        have hold := h.stdin hle
        have hstep : (t.step S e s.shared).1.stdin = s.shared.stdin ∧
            (t.step S e s.shared).2.fills = false := step_not_fills hplaces (hold.2 t hmem)
        refine ⟨hstdin.trans (hstep.1.trans hold.1), fun u hu => ?_⟩
        rcases List.mem_or_eq_of_mem_set hu with hu | rfl
        · exact hold.2 u hu
        · exact hstep.2
      · intro hle
        have hcancel := h.cancel (by omega)
        have hold := h.live hle
        have hstopped : s.stopped = true := by
          by_contra hno
          have hlt : s.stage < 5 := by
            simp only [State.stage, if_neg hno]
            split <;> omega
          omega
        have hcalm : calm S s.shared e t.pc = true := by
          simpa [Settled, settled, hstopped, ht] using hok
        have hstep := step_not_shows hcancel (hold.2 t hmem) (by simpa using hawake) hcalm
        refine ⟨(congrArg DsLive.phase hlive).trans ?_, fun u hu => ?_⟩
        · rcases hstep.1 with hsame | hidle
          · exact hsame.trans hold.1
          · exact hidle
        · rcases List.mem_or_eq_of_mem_set hu with hu | rfl
          · exact hold.2 u hu
          · exact hstep.2

theorem StopInv.dropTask (h : StopInv s) (hstep : s.dropTask i = some s') : StopInv s' := by
  unfold State.dropTask at hstep
  split at hstep
  · cases hstep
  · split at hstep
    · cases hstep
      refine h.background rfl rfl rfl (fun hnone => hnone) ?_ ?_ ?_
      · intro hle
        refine ⟨(h.child hle).1, fun u hu => ?_⟩
        rcases List.mem_or_eq_of_mem_set hu with hu | rfl
        · exact (h.child hle).2 u hu
        · rfl
      · intro hle
        refine ⟨(h.stdin hle).1, fun u hu => ?_⟩
        rcases List.mem_or_eq_of_mem_set hu with hu | rfl
        · exact (h.stdin hle).2 u hu
        · rfl
      · intro hle
        refine ⟨(h.live hle).1, fun u hu => ?_⟩
        rcases List.mem_or_eq_of_mem_set hu with hu | rfl
        · exact (h.live hle).2 u hu
        · rfl
    · cases hstep

/-! ## Calls -/

/-- No stop has begun. -/
theorem StopInv.unstopped (hstopped : s.stopped = false) (hstage : s.stage = 0) : StopInv s := by
  constructor
  all_goals first
    | (intro hle; omega)
    | (intro htrue; rw [hstopped] at htrue; cases htrue)

/-- The call goes on to a step of the same stage, and touches nothing the invariant reads. -/
theorem StopInv.goOn (h : StopInv s) (hstage : s'.stage = s.stage)
    (hcancel : s'.shared.cancel = s.shared.cancel) (hcurrent : s'.current = s.current)
    (haborted : s'.aborted = s.aborted) (hchild : s'.shared.child = s.shared.child)
    (hstdin : s'.shared.stdin = s.shared.stdin)
    (hlive : s'.shared.live.phase = s.shared.live.phase)
    (hstarting : s'.stopped = true → ∀ args, s'.call ≠ .lowerCancel args ∧
      s'.call ≠ .markPulling args ∧ s'.call ≠ .abortPrior args ∧ s'.call ≠ .spawnTask args) :
    StopInv s' := by
  refine ⟨?_, ?_, ?_, ?_, ?_, hstarting⟩
  · rw [hstage, hcancel]
    exact h.cancel
  · rw [hstage, hcurrent]
    exact h.current
  · rw [hstage, hchild, haborted]
    exact h.child
  · rw [hstage, hstdin, haborted]
    exact h.stdin
  · rw [hstage, hlive, haborted]
    exact h.live

theorem StopInv.callStep {ok : Bool} (h : StopInv s) (hok : Settled S s (.call ok))
    (hstep : s.callStep S ok s.call = some s') : StopInv s' := by
  cases hcall : s.call with
  | idle =>
      rw [hcall] at hstep
      cases hstep
  | lowerCancel args | markPulling args | abortPrior args | spawnTask args =>
      -- a start is under way, so no stop holds
      have hstopped : s.stopped = false := by
        by_contra htrue
        have hnot := h.starting (by simpa using htrue) args
        simp [hcall] at hnot
      rw [hcall] at hstep
      cases hstep
      exact .unstopped (by simp [hstopped]) (by simp [State.stage, hstopped])
  | raiseCancel =>
      rw [hcall] at hstep
      cases hstep
      refine ⟨fun _ => rfl, ?_, ?_, ?_, ?_, by simp⟩
      · exact fun hle => h.current (by grind [State.stage])
      · exact fun hle => h.child (by grind [State.stage])
      · exact fun hle => h.stdin (by grind [State.stage])
      · exact fun hle => h.live (by grind [State.stage])
  | abortTask =>
      rw [hcall] at hstep
      cases hstep
      -- after a stop there is no task to abort
      have hsame : 3 ≤ s.stage → s.abortCurrent S = s := fun hle =>
        s.abortCurrent_of_none S (h.current (by omega))
      have hstage : ∀ {n}, n ≤ State.stage { s.abortCurrent S with call := .takeChild } → 3 ≤ n →
          n ≤ s.stage := by
        intro n hle hn
        simp only [State.stage, State.abortCurrent_stopped, hcall] at hle ⊢
        split at hle <;> simp_all
        omega
      refine ⟨?_, fun _ => s.abortCurrent_current S, ?_, ?_, ?_, by simp⟩
      · intro hle
        have hle' : 1 ≤ s.stage := by grind [State.stage]
        exact (s.abortCurrent_cancel S).trans (h.cancel hle')
      · intro hle
        have hle' := hstage hle (by omega)
        simpa [hsame hle'] using h.child hle'
      · intro hle
        have hle' := hstage hle (by omega)
        simpa [hsame (by omega)] using h.stdin hle'
      · intro hle
        have hle' := hstage hle (by omega)
        simpa [hsame (by omega)] using h.live hle'
  | takeChild =>
      rw [hcall] at hstep
      cases hstep
      have hplaces : ∀ t ∈ s.aborted, t.pc.places = false := by
        simpa [Settled, settled, hcall] using hok
      refine ⟨?_, ?_, fun _ => ⟨rfl, hplaces⟩, ?_, ?_, by simp⟩
      · exact fun hle => h.cancel (by grind [State.stage])
      · exact fun hle => h.current (by grind [State.stage])
      · exact fun hle => h.stdin (by grind [State.stage])
      · exact fun hle => h.live (by grind [State.stage])
  | killChild child =>
      rw [hcall] at hstep
      cases hstep
      exact h.goOn (by simp [State.stage, hcall]) rfl rfl rfl rfl rfl rfl (by simp)
  | clearStdin =>
      rw [hcall] at hstep
      cases hstep
      have hfills : ∀ t ∈ s.aborted, t.pc.fills = false := by
        simpa [Settled, settled, hcall] using hok
      refine ⟨?_, ?_, ?_, fun _ => ⟨rfl, hfills⟩, ?_, by simp⟩
      · exact fun hle => h.cancel (by grind [State.stage])
      · exact fun hle => h.current (by grind [State.stage])
      · exact fun hle => h.child (by grind [State.stage])
      · exact fun hle => h.live (by grind [State.stage])
  | setIdle =>
      rw [hcall] at hstep
      cases hstep
      have hshows : ∀ t ∈ s.aborted, t.pc.shows = false := by
        simpa [Settled, settled, hcall] using hok
      refine ⟨?_, ?_, ?_, ?_, fun _ => ⟨rfl, hshows⟩, by simp⟩
      · exact fun hle => h.cancel (by grind [State.stage])
      · exact fun hle => h.current (by grind [State.stage])
      · exact fun hle => h.child (by grind [State.stage])
      · exact fun hle => h.stdin (by grind [State.stage])
  | sendCheats enabled =>
      rw [hcall] at hstep
      cases hstep
      refine h.goOn ?_ rfl rfl rfl rfl rfl rfl ?_
      · cases hsent : s.shared.stdin.isSome && ok <;> simp [State.stage, hcall]
      · intro _ args
        cases hsent : s.shared.stdin.isSome && ok <;> simp
  | recordCheats enabled =>
      rw [hcall] at hstep
      cases hstep
      exact h.goOn (by simp [State.stage, hcall]) rfl rfl rfl rfl rfl rfl (by simp)
  | readLive running =>
      rw [hcall] at hstep
      cases hstep
      exact h.goOn (by simp [State.stage, hcall]) rfl rfl rfl rfl rfl rfl (by simp)

/-! ## Runs -/

theorem StopInv.begin {call : Call} (h : StopInv s) (hstep : s.begin call = some s')
    (hcall : call = .idle ∨ call = .raiseCancel ∨ (∃ enabled, call = .sendCheats enabled) ∨
      ∃ running, call = .readLive running) :
    StopInv s' := by
  unfold State.begin at hstep
  split at hstep
  · rename_i hidle
    cases hstep
    rcases hcall with rfl | rfl | ⟨enabled, rfl⟩ | ⟨running, rfl⟩
    all_goals exact h.goOn (by simp [State.stage, hidle]) rfl rfl rfl rfl rfl rfl (by simp)
  · cases hstep

theorem StopInv.start {args : DsStartArgs} (h : StopInv s) (hstep : s.start S args = some s') :
    StopInv s' := by
  unfold State.start at hstep
  split at hstep
  · exact h.begin hstep (.inl rfl)
  · unfold State.begin at hstep
    split at hstep
    · cases hstep
      exact .unstopped rfl rfl
    · cases hstep

theorem StopInv.reap (h : StopInv s) : StopInv s.reap := by
  refine h.same rfl rfl rfl rfl rfl ?_ rfl rfl
  intro hnone
  simp [State.reap, hnone]

theorem StopInv.step {a : Act} (h : StopInv s) (hok : Settled S s a)
    (hstep : s.step S a = some s') : StopInv s' := by
  cases a with
  | start args => exact h.start hstep
  | stop => exact h.begin hstep (.inr (.inl rfl))
  | setCheats enabled => exact h.begin hstep (.inr (.inr (.inl ⟨enabled, rfl⟩)))
  | status => exact h.reap.begin hstep (.inr (.inr (.inr ⟨_, rfl⟩)))
  | call ok => exact h.callStep hok hstep
  | current e => exact h.currentStep hstep
  | aborted i e => exact h.abortedStep hok hstep
  | drop i => exact h.dropTask hstep
  | exit p =>
      simp only [State.step] at hstep
      split at hstep
      · cases hstep
        exact h.same rfl rfl rfl rfl rfl (fun hnone => hnone) rfl rfl
      · cases hstep
  | file dir exe =>
      cases hstep
      exact h.same rfl rfl rfl rfl rfl (fun hnone => hnone) rfl rfl

/-- In every run in which no stop comes while a task is still to fill what the stop clears: once
`stop` has returned, and until a start is accepted, no process is in the child slot, the stdin slot
is empty and the phase is idle, whatever the tasks still do. -/
theorem stopped_for_good (h : (machine S disk).Reachable (Settled S) s)
    (hstopped : s.stopped = true) :
    s.shared.child = none ∧ s.shared.stdin = none ∧ s.shared.live.phase = .idle := by
  have hinv : StopInv s := by
    refine Machine.Reachable.invariant ?_ ?_ h
    · exact .unstopped rfl rfl
    · intro s a s' hs hok hstep
      exact hs.step hok hstep
  have hstage : s.stage = 5 := by simp [State.stage, hstopped]
  exact ⟨(hinv.child (by omega)).1, (hinv.stdin (by omega)).1, (hinv.live (by omega)).1⟩

/-- A start is stopped while its task looks for an install. -/
theorem exists_stopped_for_good : ∃ s : State, s.stopped = true ∧ s.shared.child = none ∧
    s.shared.stdin = none ∧ s.shared.live.phase = .idle := by
  have hrun : ((machine .sample .installed).runWhile (Settled .sample) (.new .installed)
      (startSteps ++ stopSteps)).any (fun s => s.stopped) = true := by decide +kernel
  obtain ⟨s, hs, hstopped⟩ := Machine.exists_reachable_of_runWhile hrun
  exact ⟨s, hstopped, stopped_for_good hs hstopped⟩

/-- The stop lands after the last look at the cancel flag: once it has returned the task spawns the
server, and it runs. -/
theorem stop_misses_spawn : ∃ s, (machine .sample .installed).Reachable Machine.always s ∧
    s.stopped = true ∧ s.shared.child ≠ none ∧ s.shared.stdin ≠ none ∧
    s.shared.live.phase = .running := by
  have hrun : ((machine .sample .installed).run (.new .installed)
      (startSteps ++ List.replicate 7 (.current .ok) ++ stopSteps ++
        List.replicate 4 (.aborted 0 .ok))).any (fun s =>
          s.stopped && s.shared.child.isSome && s.shared.stdin.isSome &&
            s.shared.live.phase == .running) = true := by decide +kernel
  obtain ⟨s, hs, hP⟩ := Machine.exists_reachable_of_run hrun
  simp only [Bool.and_eq_true, beq_iff_eq] at hP
  obtain ⟨⟨⟨hstopped, hchild⟩, hstdin⟩, hphase⟩ := hP
  exact ⟨s, hs, hstopped, Option.isSome_iff_ne_none.1 hchild, Option.isSome_iff_ne_none.1 hstdin,
    hphase⟩

end Ds
end SvenBridge
