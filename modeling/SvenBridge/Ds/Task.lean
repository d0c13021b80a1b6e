import SvenBridge.Ds.Live

/-!
# Ds.Task — the background task of the dedicated server

`ds_background` finds an install or pulls one with steamcmd, and spawns the server.  A step is one
access to what it shares, or one end of an awaited call; between two awaits it cannot be stopped.
This file contains

* `Disk` — the files that say what is installed, and what is known of how they got there;
* `Shared` — the locked state and the processes;
* `Pc` and `Task.step` — the places in `ds_background`, with `find_svends_inner`, `pull_ds` and
  `ensure_steamcmd` written into it;
* `Task.doomed` — what goes with an aborted task.
-/

namespace SvenBridge
namespace Ds

open Controller

/-! ## What is shared -/

/-- How the most recent pull into a directory has gone. -/
inductive Pull where
  | never
  | going
  | failed
  | succeeded
  deriving DecidableEq

structure Disk where
  /-- The steamcmd executable is there. -/
  steamcmd : Bool
  /-- The bootstrap archive has been fully extracted at some time. -/
  extracted : Bool
  /-- The check for 32-bit libraries has succeeded at some time. -/
  checked : Bool
  /-- The directory holds an executable dedicated server. -/
  exe : PathBuf → Bool
  /-- The directory `.svends_path` names. -/
  marker : Option PathBuf
  pull : PathBuf → Pull

/-- What the locks protect, and the server processes; these are numbered as they are put into the
child slot. -/
structure Shared where
  live : DsLive
  child : Option ℕ
  stdin : Option ℕ
  cancel : Bool
  disk : Disk
  spawned : ℕ
  exited : List ℕ

/-- What a manager is made for. -/
structure Setup where
  os : Os
  /-- `<bundle>/svends`. -/
  localDir : PathBuf
  /-- The server's directory in each standard Steam install. -/
  candidates : List PathBuf
  /-- The directory read back from a marker that was written for this one. -/
  marked : PathBuf → Option PathBuf

namespace Shared

variable (s : Shared)

def alive (p : ℕ) : Bool :=
  !s.exited.contains p

/-- A process is in the child slot and has not exited. -/
def childAlive : Bool :=
  s.child.any s.alive

def exit (p : ℕ) : Shared :=
  { s with exited := p :: s.exited }

def pulls (dir : PathBuf) (pull : Pull) : Shared :=
  { s with disk.pull := Function.update s.disk.pull dir pull }

def setLive (live : DsLive → DsLive) : Shared :=
  { s with live := live s.live }

end Shared

/-! ## The task -/

/-- A place in `ds_background`. -/
inductive Pc where
  -- find_svends_inner
  | findLocal
  | findMarker
  | findMarked (dir : PathBuf)
  | findSteam (dirs : List PathBuf)
  | found (dir : PathBuf)
  | notFound
  -- pull_ds, and ensure_steamcmd inside
  | pulling
  | testSteamcmd
  | makeDir
  | download
  | extracting
  | testExtracted
  | probe
  | spawnPull
  | pullLoop
  | pullWait
  | line
  | pullExit
  -- after the pull
  | pulled
  | verify
  | mark
  -- the spawn part
  | checkReady (dir : PathBuf)
  | prepare (dir : PathBuf)
  | soundcache (dir : PathBuf)
  | mapcycle (dir : PathBuf)
  | checkSpawn (dir : PathBuf)
  | spawn (dir : PathBuf)
  | place (dir : PathBuf)
  | running (dir : PathBuf) (p : ℕ)
  | fill (p : ℕ)
  | cheats
  -- the ends
  | cancelled
  | failed
  | finished
  deriving DecidableEq

namespace Pc

/-- The task is waiting for files, the network or a process: an abort takes effect.  A wait that is
ready at once, as for a line already in the pipe or a process that has ended, touches nothing shared
and counts as over before the abort. -/
def suspended : Pc → Bool
  | findLocal | findMarker | findMarked _ | findSteam _ | makeDir | download | probe | pullWait
  | pullExit | verify | mark | soundcache _ | mapcycle _ => true
  | _ => false

/-- A place where an aborted task can end: it is suspended, or waits for a lock that may be taken. -/
def droppable : Pc → Bool
  | fill _ | cheats => true
  | pc => pc.suspended

/-- The next Steam install to look at. -/
def findNext : List PathBuf → Pc
  | [] => notFound
  | dirs => findSteam dirs

/-- The task is in the middle of `find_svends_inner`. -/
def searches : Pc → Bool
  | findLocal | findMarker | findMarked _ | findSteam _ => true
  | _ => false

end Pc

/-- How a step comes out. -/
inductive Event where
  | ok
  | err
  /-- An output line of steamcmd, or the steamcmd executable out of the archive. -/
  | line
  /-- Nothing to report. -/
  | tick
  deriving DecidableEq

structure Task where
  args : DsStartArgs
  pc : Pc

namespace Task

variable (S : Setup) (t : Task)

/-- Where a pull goes. -/
def installDir : PathBuf :=
  t.args.installDir.getD S.localDir

/-- One step of the task. -/
def step (e : Event) (s : Shared) : Shared × Pc :=
  match t.pc with
  | .findLocal => (s, if s.disk.exe S.localDir then .found S.localDir else .findMarker)
  | .findMarker =>
      (s, match e, s.disk.marker with
        | .ok, some marked => .findMarked marked
        | _, _ => .findNext S.candidates)
  | .findMarked marked =>
      (s, if s.disk.exe marked then .found marked else .findNext S.candidates)
  | .findSteam [] => (s, .notFound)
  | .findSteam (cand :: dirs) =>
      (s, if s.disk.exe cand then .found cand else .findNext dirs)
  | .found dir => (s.setLive (·.set .starting), .checkReady dir)
  | .notFound => (s, if s.cancel then .cancelled else .pulling)
  | .pulling => (s.setLive (·.set .pulling), .testSteamcmd)
  | .testSteamcmd => (s, if s.disk.steamcmd then .spawnPull else .makeDir)
  | .makeDir => (s, if e = .ok then .download else .failed)
  | .download => (s, if e = .ok then .extracting else .failed)
  | .extracting =>
      match e with
      | .line => ({ s with disk.steamcmd := true }, .extracting)
      | .ok => ({ s with disk.extracted := true }, .testExtracted)
      | .err | .tick => (s, .failed)
  | .testExtracted =>
      (s, if !s.disk.steamcmd then .failed else if S.os = .linux then .probe else .spawnPull)
  | .probe =>
      if e = .ok then ({ s with disk.checked := true }, .spawnPull) else (s, .failed)
  | .spawnPull => if e = .ok then (s.pulls (t.installDir S) .going, .pullLoop) else (s, .failed)
  | .pullLoop => if s.cancel then (s.pulls (t.installDir S) .failed, .failed) else (s, .pullWait)
  | .pullWait =>
      (s, match e with
        | .line => .line
        | .tick => .pullLoop
        -- the end of the output, or an error reading it
        | .ok | .err => .pullExit)
  | .line =>
      match e with
      | .tick => (s, .pullLoop)
      | .line => (s.setLive (·.set .pulling), .line)
      | .ok | .err => (s.setLive (·.set .pulling), .pullLoop)
  | .pullExit =>
      if e = .ok then
        (s.pulls (t.installDir S) .succeeded, .pulled)
      else
        (s.pulls (t.installDir S) .failed, .failed)
  | .pulled => (s, if s.cancel then .cancelled else .verify)
  | .verify => (s, if s.disk.exe (t.installDir S) then .mark else .failed)
  | .mark =>
      -- a failed write is ignored, and may have emptied the file
      match e with
      | .ok => ({ s with disk.marker := S.marked (t.installDir S) }, .checkReady (t.installDir S))
      | .err => ({ s with disk.marker := none }, .checkReady (t.installDir S))
      | .line | .tick => (s, .checkReady (t.installDir S))
  | .checkReady dir => (s, if s.cancel then .cancelled else .prepare dir)
  | .prepare dir => (s.setLive (·.set .starting), .soundcache dir)
  | .soundcache dir => (s, .mapcycle dir)
  | .mapcycle dir => (s, .checkSpawn dir)
  | .checkSpawn dir => (s, if s.cancel then .cancelled else .spawn dir)
  | .spawn dir => (s, if e = .ok then .place dir else .failed)
  | .place dir =>
      -- a child still in the slot is dropped, and killed with it
      ({ s with
        child := some s.spawned, spawned := s.spawned + 1, exited := s.child.toList ++ s.exited },
        .running dir s.spawned)
  | .running dir p =>
      (s.setLive fun l =>
        { l.set .running with
          port := some t.args.port, installDir := some dir, svCheats := t.args.svCheats }, .fill p)
  | .fill p => ({ s with stdin := some p }, if t.args.svCheats then .cheats else .finished)
  | .cheats => (s, .finished)
  | .cancelled => (s.setLive DsLive.setIdle, .finished)
  | .failed => (s.setLive DsLive.setError, .finished)
  | .finished => (s, .finished)

/-- What a step does to the shared state. -/
inductive Change (s : Shared) : Shared → Prop where
  /-- The files, or nothing. -/
  | disk (disk : Disk) : Change s { s with disk }
  | phase {phase : DsPhase} (h : phase = .starting ∨ phase = .pulling) :
      Change s (s.setLive (·.set phase))
  | place {dir : PathBuf} (h : t.pc = .place dir) :
      Change s { s with
        child := some s.spawned, spawned := s.spawned + 1, exited := s.child.toList ++ s.exited }
  | running {dir : PathBuf} {p : ℕ} (h : t.pc = .running dir p) :
      Change s (s.setLive fun l =>
        { l.set .running with
          port := some t.args.port, installDir := some dir, svCheats := t.args.svCheats })
  | fill {p : ℕ} (h : t.pc = .fill p) : Change s { s with stdin := some p }
  | idle (h : t.pc = .cancelled) : Change s (s.setLive DsLive.setIdle)
  | error (h : t.pc = .failed) : Change s (s.setLive DsLive.setError)

theorem step_change (e : Event) (s : Shared) : t.Change s (t.step S e s).1 := by
  have hsame : t.Change s s := .disk s.disk
  unfold step
  split
  all_goals (repeat' split)
  all_goals first
    | exact hsame
    | exact .disk _
    | exact .phase (.inl rfl)
    | exact .phase (.inr rfl)
    | exact .place ‹_›
    | exact .running ‹_›
    | exact .fill ‹_›
    | exact .idle ‹_›
    | exact .error ‹_›

/-- Where a step of `find_svends_inner` leads. -/
inductive Searched : Pc → Prop where
  | marker : Searched .findMarker
  | marked (dir : PathBuf) : Searched (.findMarked dir)
  | steam (dirs : List PathBuf) : Searched (.findSteam dirs)
  | found (dir : PathBuf) : Searched (.found dir)
  | notFound : Searched .notFound

theorem searched_findNext (dirs : List PathBuf) : Searched (.findNext dirs) := by
  cases dirs with
  | nil => exact .notFound
  | cons dir dirs => exact .steam (dir :: dirs)

variable {S t}

theorem step_searched (h : t.pc.searches = true) (e : Event) (s : Shared) :
    Searched (t.step S e s).2 := by
  obtain ⟨args, pc⟩ := t
  cases pc with
  | findLocal =>
      simp only [step]
      split
      · exact .found S.localDir
      · exact .marker
  | findMarker =>
      simp only [step]
      split
      · exact .marked _
      · exact searched_findNext S.candidates
  | findMarked marked =>
      simp only [step]
      split
      · exact .found marked
      · exact searched_findNext S.candidates
  | findSteam dirs =>
      cases dirs with
      | nil => exact .notFound
      | cons cand dirs =>
          simp only [step]
          split
          · exact .found cand
          · exact searched_findNext dirs
  | _ => cases h

variable (S t)

/-- An aborted task that waits does not go on: a steamcmd it waits for is killed. -/
def doomed (s : Shared) : Shared :=
  match t.pc with
  | .pullWait | .pullExit => s.pulls (t.installDir S) .failed
  | _ => s

theorem doomed_eq (s : Shared) : ∃ disk, t.doomed S s = { s with disk } := by
  unfold doomed
  split
  · exact ⟨_, rfl⟩
  · exact ⟨_, rfl⟩
  · exact ⟨s.disk, rfl⟩

end Task
end Ds
end SvenBridge
