import SvenBridge.Ds.Task
import SvenBridge.Lib.Machine

/-!
# Ds.Manager — the dedicated-server manager and its tasks

The foreground runs one call at a time; every lock it takes is a step of its own, also in `status`,
so that the background tasks come in between.  This file contains

* `Call` — what the foreground is about to do;
* `State` — the shared state, the task whose handle is held, and the aborted ones;
* `State.status` and `State.isRunning` — what the interface shows;
* `machine` — calls, tasks, processes and files in any order.
-/

namespace SvenBridge
namespace Ds

open Controller Lib

/-- The next step of the call in progress. -/
inductive Call where
  | idle
  -- start
  | lowerCancel (args : DsStartArgs)
  | markPulling (args : DsStartArgs)
  | abortPrior (args : DsStartArgs)
  | spawnTask (args : DsStartArgs)
  -- stop
  | raiseCancel
  | abortTask
  | takeChild
  | killChild (child : Option ℕ)
  | clearStdin
  | setIdle
  -- set_cheats
  | sendCheats (enabled : Bool)
  | recordCheats (enabled : Bool)
  -- status; `running` is what the child slot has shown
  | readLive (running : Bool)
  deriving DecidableEq

/-- A stop is in progress. -/
def Call.stopping : Call → Bool
  | raiseCancel | abortTask | takeChild | killChild _ | clearStdin | setIdle => true
  | _ => false

structure State where
  shared : Shared
  /-- The task whose handle is held. -/
  current : Option Task
  /-- Tasks that have been aborted. -/
  aborted : List Task
  call : Call
  /-- A stop has returned, and no start has been accepted since. -/
  stopped : Bool

inductive Act where
  | start (args : DsStartArgs)
  | stop
  | setCheats (enabled : Bool)
  | status
  /-- The call in progress goes on; `ok` says whether a write succeeds. -/
  | call (ok : Bool)
  | current (e : Event)
  | aborted (i : ℕ) (e : Event)
  /-- The abort of a task takes effect. -/
  | drop (i : ℕ)
  /-- A server process exits by itself. -/
  | exit (p : ℕ)
  /-- The executable of a directory is written, or removed. -/
  | file (dir : PathBuf) (exe : Bool)

namespace State

variable (S : Setup) (s : State)

/-- `is_running`. -/
def isRunning : Bool :=
  s.shared.live.isBusy

/-- Why `start` refuses. -/
def startError : Option String :=
  if s.shared.live.isBusy then
    some "dedicated server is already starting/running; stop it first"
  else if !S.os.supportsDedicatedServer then
    some ("The Sven Co-op dedicated server (app 276060) has no native build for this OS — " ++
      "it ships only for Windows and Linux. Run the host side on Linux/a VM/Docker.")
  else
    none

/-- The `task.take()` and abort of `start` and `stop`. -/
def abortCurrent : State :=
  match s.current with
  | none => s
  | some t => { s with shared := t.doomed S s.shared, current := none, aborted := s.aborted ++ [t] }

/-- One step of the call in progress. -/
def callStep (ok : Bool) : Call → Option State
  | .idle => none
  | .lowerCancel args => some { s with shared.cancel := false, call := .markPulling args }
  | .markPulling args =>
      some { s with shared := s.shared.setLive DsLive.started, call := .abortPrior args }
  | .abortPrior args => some { s.abortCurrent S with call := .spawnTask args }
  | .spawnTask args => some { s with current := some { args, pc := .findLocal }, call := .idle }
  | .raiseCancel => some { s with shared.cancel := true, call := .abortTask }
  | .abortTask => some { s.abortCurrent S with call := .takeChild }
  | .takeChild => some { s with shared.child := none, call := .killChild s.shared.child }
  | .killChild child =>
      some { s with shared.exited := child.toList ++ s.shared.exited, call := .clearStdin }
  | .clearStdin => some { s with shared.stdin := none, call := .setIdle }
  | .setIdle =>
      some { s with shared := s.shared.setLive DsLive.setIdle, call := .idle, stopped := true }
  | .sendCheats enabled =>
      some { s with
        call := if s.shared.stdin.isSome && ok then .recordCheats enabled else .idle }
  | .recordCheats enabled =>
      some { s with
        shared := s.shared.setLive fun l => { l with svCheats := enabled }, call := .idle }
  -- the report is `status`
  | .readLive _ => some { s with call := .idle }

/-- A call begins when the last one has returned. -/
def begin (call : Call) : Option State :=
  if s.call = .idle then some { s with call } else none

/-- `start`, up to its first write. -/
def start (args : DsStartArgs) : Option State :=
  match s.startError S with
  | some _ => s.begin .idle
  | none => ({ s with stopped := false } : State).begin (.lowerCancel args)

/-- The child slot after the `try_wait` of `status`. -/
def reap : State :=
  { s with shared.child := s.shared.child.filter s.shared.alive }

/-- The first half of `status`; the lock of the live record is taken after that of the child slot
has been given back. -/
def pollChild : Option State :=
  s.reap.begin (.readLive s.shared.childAlive)

def currentStep (e : Event) : Option State :=
  s.current.map fun t =>
    let (shared, pc) := t.step S e s.shared
    { s with shared, current := some { t with pc } }

/-- An aborted task goes on up to its next await. -/
def abortedStep (i : ℕ) (e : Event) : Option State :=
  match s.aborted[i]? with
  | none => none
  | some t =>
      if t.pc.suspended then
        none
      else
        let (shared, pc) := t.step S e s.shared
        let t : Task := { t with pc }
        some { s with shared := t.doomed S shared, aborted := s.aborted.set i t }

def dropTask (i : ℕ) : Option State :=
  match s.aborted[i]? with
  | none => none
  | some t =>
      if t.pc.droppable then
        some { s with aborted := s.aborted.set i { t with pc := .finished } }
      else
        none

def step : Act → Option State
  | .start args => s.start S args
  | .stop => s.begin .raiseCancel
  | .setCheats enabled => s.begin (.sendCheats enabled)
  | .status => s.pollChild
  | .call ok => s.callStep S ok s.call
  | .current e => s.currentStep S e
  | .aborted i e => s.abortedStep S i e
  | .drop i => s.dropTask i
  | .exit p => if p < s.shared.spawned then some { s with shared := s.shared.exit p } else none
  | .file dir exe =>
      some { s with shared.disk.exe := Function.update s.shared.disk.exe dir exe }

@[simp] theorem abortCurrent_current : (s.abortCurrent S).current = none := by
  unfold abortCurrent
  split
  · assumption
  · rfl

@[simp] theorem abortCurrent_stopped : (s.abortCurrent S).stopped = s.stopped := by
  unfold abortCurrent
  split <;> rfl

@[simp] theorem abortCurrent_cancel : (s.abortCurrent S).shared.cancel = s.shared.cancel := by
  unfold abortCurrent
  split
  · rfl
  · obtain ⟨disk, heq⟩ := Task.doomed_eq S _ s.shared
    rw [heq]

theorem abortCurrent_of_none (h : s.current = none) : s.abortCurrent S = s := by
  unfold abortCurrent
  split
  · rfl
  · rename_i heq
    rw [h] at heq
    cases heq

end State

/-- What `status` returns. -/
structure DsStatus where
  running : Bool
  port : Option (BitVec 16)
  installDir : Option PathBuf
  phase : DsPhase
  svCheats : Bool

/-- The second half of `DsManager::status`: the report on the live record as it is now, when the
child slot has shown `running`. -/
def State.status (s : State) (running : Bool) : DsStatus :=
  let live := s.shared.live
  let phase := if !running && live.phase == .running then .idle else live.phase
  { running := running && phase == .running
    port := live.port
    installDir := live.installDir
    phase
    svCheats := live.svCheats }

/-- `DsManager::new` over the files of the disk. -/
def State.new (disk : Disk) : State where
  shared :=
    { live := .default, child := none, stdin := none, cancel := false, disk, spawned := 0,
      exited := [] }
  current := none
  aborted := []
  call := .idle
  stopped := false

def machine (S : Setup) (disk : Disk) : Machine State Act where
  init := .new disk
  step s a := s.step S a

/-! ## A small setup -/

/-- A bundle directory on Linux. -/
def Setup.sample : Setup where
  os := .linux
  localDir := .unicode "svends"
  candidates := []
  marked := some

/-- A disk on which the server is installed. -/
def Disk.installed : Disk where
  steamcmd := false
  extracted := false
  checked := false
  exe := fun _ => true
  marker := none
  pull := fun _ => .never

/-- `DsStartArgs::default`. -/
def defaultArgs : DsStartArgs where
  port := 27015
  maxplayers := 8
  map := "svencoop1"
  installDir := none
  svCheats := false

/-- A start that is accepted. -/
def startSteps : List Act :=
  .start defaultArgs :: List.replicate 4 (.call true)

/-- A whole stop. -/
def stopSteps : List Act :=
  .stop :: List.replicate 6 (.call true)

end Ds
end SvenBridge
