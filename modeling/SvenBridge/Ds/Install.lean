import Mathlib.Logic.Equiv.Basic
import SvenBridge.Ds.Manager

/-!
# Ds.Install — is what is used completely installed?

That steamcmd and the server are installed is read off the presence of one file each.  This file
contains

* `Task.held`, `Task.pulled` — the directory a task is going to spawn from, or is pulling into;
* `Clean` — what is present is complete, or a task is still at it;
* `intact` — the steps that keep it: nothing unfinished is left behind, or found;
* `installs_complete` — in runs of such steps only complete installs are used.
-/

namespace SvenBridge
namespace Ds

open Controller Lib

variable {S : Setup} {disk : Disk} {s s' : State} {sh : Shared} {t : Task} {e : Event} {i : ℕ}
  {dir : PathBuf}

/-! ## Where a task is -/

namespace Pc

/-- The directory the server is going to be spawned from; `own` is the one of a pull. -/
def held (own : PathBuf) : Pc → Option PathBuf
  | found dir | checkReady dir | prepare dir | soundcache dir | mapcycle dir | checkSpawn dir
  | spawn dir => some dir
  | pulled | verify | mark => some own
  | _ => none

/-- A pull is going on. -/
def pulls : Pc → Bool
  | pullLoop | pullWait | line | pullExit => true
  | _ => false

/-- Steamcmd has begun to be unpacked and has not been checked yet. -/
def unpacks : Pc → Bool
  | extracting | testExtracted | probe => true
  | _ => false

end Pc

namespace Task

/-- The directory the task has found or pulled, and is going to spawn from. -/
def held (S : Setup) (t : Task) : Option PathBuf :=
  t.pc.held (t.installDir S)

/-- The directory the task is pulling into. -/
def pulling (S : Setup) (t : Task) : Option PathBuf :=
  if t.pc.pulls then some (t.installDir S) else none

/-- The task after a step. -/
def after (S : Setup) (e : Event) (sh : Shared) (t : Task) : Task :=
  { t with pc := (t.step S e sh).2 }

end Task

/-- The bootstrap has been extracted and, on Linux, checked. -/
def Disk.Ensured (S : Setup) (disk : Disk) : Prop :=
  disk.extracted = true ∧ (S.os = .linux → disk.checked = true)

/-- A directory whose latest pull has succeeded, or that was never pulled into. -/
def Pull.complete : Pull → Bool
  | never | succeeded => true
  | going | failed => false

/-! ## Conditions -/

/-- The task can go on: it has not been aborted, or is not waiting. -/
def State.awake (s : State) : List Task :=
  s.current.toList ++ s.aborted.filter fun t => !t.pc.suspended

/-- The task's step leaves nothing unfinished behind, and finds nothing that is. -/
def intactStep (S : Setup) (s : State) (t : Task) (e : Event) : Bool :=
  let disk := s.shared.disk
  let found dir := !disk.exe dir || disk.pull dir != .going
  match t.pc with
  | .findLocal => found S.localDir
  | .findMarked dir | .findSteam (dir :: _) => found dir
  | .testSteamcmd => !disk.steamcmd || s.awake.all fun u => !u.pc.unpacks
  | .extracting => e == .ok || e == .line || !disk.steamcmd
  | .probe => e == .ok || !disk.steamcmd
  | .spawnPull => e != .ok || s.awake.all fun u =>
      u.held S != some (t.installDir S) && u.pulling S != some (t.installDir S)
  | .pullLoop => !s.shared.cancel || !disk.exe (t.installDir S)
  | .pullExit => e == .ok || !disk.exe (t.installDir S)
  | _ => true

/-- What an abort leaves of a waiting task is not taken for complete. -/
def intactAbort (S : Setup) (disk : Disk) (t : Task) : Bool :=
  match t.pc with
  | .probe => !disk.steamcmd
  | .pullWait | .pullExit => !disk.exe (t.installDir S)
  | _ => true

/-- An unpacking of steamcmd that has failed, or was aborted before the check, has left no
executable, and a pull that has failed none of the server; what a task still unpacks or pulls is not
found by another, nor pulled twice; and no executable comes to a directory whose latest pull has
failed. -/
def intact (S : Setup) (s : State) : Act → Bool
  | .current e => s.current.all fun t => intactStep S s t e
  | .aborted i e => s.aborted[i]?.all fun t =>
      intactStep S s t e && intactAbort S (t.step S e s.shared).1.disk (t.after S e s.shared)
  | .call _ =>
      match s.call with
      | .abortPrior _ | .abortTask => s.current.all fun t => intactAbort S s.shared.disk t
      | _ => true
  | .file dir exe => !exe || s.shared.disk.pull dir != .failed
  | _ => true

abbrev Intact (S : Setup) (s : State) (a : Act) : Prop :=
  intact S s a = true

/-! ## What a step does to the disk -/

/-- The disk after a step, with the place the step is taken at. -/
inductive DiskStep (S : Setup) (t : Task) (e : Event) (sh : Shared) : Disk → Prop where
  | same : DiskStep S t e sh sh.disk
  | unpacked (hpc : t.pc = .extracting) : DiskStep S t e sh { sh.disk with steamcmd := true }
  | extracted (hpc : t.pc = .extracting) : DiskStep S t e sh { sh.disk with extracted := true }
  | checked (hpc : t.pc = .probe) : DiskStep S t e sh { sh.disk with checked := true }
  | begun (hpc : t.pc = .spawnPull) (he : e = .ok) :
      DiskStep S t e sh (sh.pulls (t.installDir S) .going).disk
  | succeeded (hpc : t.pc = .pullExit) (he : e = .ok) :
      DiskStep S t e sh (sh.pulls (t.installDir S) .succeeded).disk
  | failed (hpc : t.pc = .pullLoop ∧ sh.cancel = true ∨ t.pc = .pullExit ∧ e ≠ .ok) :
      DiskStep S t e sh (sh.pulls (t.installDir S) .failed).disk
  | marked (hpc : t.pc = .mark) (marker : Option PathBuf) :
      DiskStep S t e sh { sh.disk with marker }

theorem diskStep (S : Setup) (t : Task) (e : Event) (sh : Shared) :
    DiskStep S t e sh (t.step S e sh).1.disk := by
  obtain ⟨args, pc⟩ := t
  cases pc with
  | findSteam dirs => cases dirs <;> exact .same
  | extracting =>
      cases e with
      | line => exact .unpacked rfl
      | ok => exact .extracted rfl
      | err | tick => exact .same
  | probe =>
      cases e with
      | ok => exact .checked rfl
      | _ => exact .same
  | spawnPull =>
      cases e with
      | ok => exact .begun rfl rfl
      | _ => exact .same
  | pullLoop =>
      cases hcancel : sh.cancel with
      | true => simpa [Task.step, hcancel] using DiskStep.failed (.inl ⟨rfl, hcancel⟩)
      | false => simpa [Task.step, hcancel] using DiskStep.same
  | line => cases e <;> exact .same
  | pullExit =>
      by_cases he : e = .ok
      · simpa [Task.step, he] using DiskStep.succeeded rfl he
      · simpa [Task.step, he] using DiskStep.failed (.inr ⟨rfl, he⟩)
  | mark =>
      cases e with
      | ok => exact .marked rfl _
      | err => exact .marked rfl none
      | line | tick => exact .same
  | _ => exact .same

namespace DiskStep

theorem exe_eq (h : DiskStep S t e sh disk) : disk.exe = sh.disk.exe := by
  cases h <;> rfl

/-- Only three places touch the state of a pull. -/
theorem pull_eq (h : DiskStep S t e sh disk) (hspawn : t.pc ≠ .spawnPull)
    (hloop : t.pc ≠ .pullLoop) (hexit : t.pc ≠ .pullExit) : disk.pull = sh.disk.pull := by
  cases h with
  | begun hpc => exact absurd hpc hspawn
  | succeeded hpc => exact absurd hpc hexit
  | failed hpc => exact (hpc.elim (fun h => hloop h.1) fun h => hexit h.1).elim
  | _ => rfl

theorem steamcmd_eq (h : DiskStep S t e sh disk) :
    disk.steamcmd = sh.disk.steamcmd ∨ t.pc = .extracting := by
  cases h with
  | unpacked hpc => exact .inr hpc
  | _ => exact .inl rfl

/-- What is known of steamcmd stays known. -/
theorem known (h : DiskStep S t e sh disk) :
    (sh.disk.extracted = true → disk.extracted = true) ∧
      (sh.disk.checked = true → disk.checked = true) := by
  cases h with
  | extracted hpc => exact ⟨fun _ => rfl, id⟩
  | checked hpc => exact ⟨id, fun _ => rfl⟩
  | _ => exact ⟨id, id⟩

end DiskStep

theorem step_exe (S : Setup) (t : Task) (e : Event) (sh : Shared) :
    (t.step S e sh).1.disk.exe = sh.disk.exe :=
  (diskStep S t e sh).exe_eq

theorem step_pull_eq (hspawn : t.pc ≠ .spawnPull) (hloop : t.pc ≠ .pullLoop)
    (hexit : t.pc ≠ .pullExit) : (t.step S e sh).1.disk.pull = sh.disk.pull :=
  (diskStep S t e sh).pull_eq hspawn hloop hexit

/-- The state of a pull as a step changes it. -/
inductive PullStep (S : Setup) (t : Task) (e : Event) (sh : Shared) (dir : PathBuf) : Prop where
  | same (h : (t.step S e sh).1.disk.pull dir = sh.disk.pull dir)
  | begun (hpc : t.pc = .spawnPull) (he : e = .ok) (hdir : dir = t.installDir S)
      (h : (t.step S e sh).1.disk.pull dir = .going)
  | succeeded (hpc : t.pc = .pullExit) (he : e = .ok) (hdir : dir = t.installDir S)
      (h : (t.step S e sh).1.disk.pull dir = .succeeded)
  | failed (hpc : t.pc = .pullLoop ∧ sh.cancel = true ∨ t.pc = .pullExit ∧ e ≠ .ok)
      (hdir : dir = t.installDir S) (h : (t.step S e sh).1.disk.pull dir = .failed)

theorem pullStep (S : Setup) (t : Task) (e : Event) (sh : Shared) (dir : PathBuf) :
    PullStep S t e sh dir := by
  have hstep := diskStep S t e sh
  generalize hdisk : (t.step S e sh).1.disk = disk at hstep
  by_cases hdir : dir = t.installDir S
  · cases hstep with
    | begun hpc he => exact .begun hpc he hdir (by simp [hdisk, hdir, Shared.pulls])
    | succeeded hpc he => exact .succeeded hpc he hdir (by simp [hdisk, hdir, Shared.pulls])
    | failed hpc => exact .failed hpc hdir (by simp [hdisk, hdir, Shared.pulls])
    | _ => exact .same (by rw [hdisk])
  · -- a pull elsewhere
    refine .same ?_
    cases hstep with
    | begun | succeeded | failed => simp [hdisk, hdir, Shared.pulls]
    | _ => rw [hdisk]

/-! ## Where a step leads -/

@[simp] theorem Pc.held_findNext (own : PathBuf) (dirs : List PathBuf) :
    (findNext dirs).held own = none := by
  cases dirs <;> rfl

/-- A directory comes to be held when it is found with an executable, or when its pull succeeds. -/
theorem held_after (h : (t.after S e sh).held S = some dir) :
    t.held S = some dir ∨ (t.pc = .pullExit ∧ e = .ok ∧ dir = t.installDir S) ∨
      (sh.disk.exe dir = true ∧ (t.pc = .findLocal ∧ dir = S.localDir ∨ t.pc = .findMarked dir ∨
        ∃ dirs, t.pc = .findSteam (dir :: dirs))) := by
  obtain ⟨args, pc⟩ := t
  have hpc : (Task.step S ⟨args, pc⟩ e sh).2.held (Task.installDir S ⟨args, pc⟩) = some dir := h
  cases pc with
  | findLocal =>
      cases hexe : sh.disk.exe S.localDir with
      | true =>
          obtain rfl : S.localDir = dir := by simpa [Task.step, hexe, Pc.held] using hpc
          exact .inr (.inr ⟨hexe, .inl ⟨rfl, rfl⟩⟩)
      | false => simp [Task.step, hexe, Pc.held] at hpc
  | findMarker =>
      revert hpc
      simp only [Task.step]
      split
      · simp [Pc.held]
      · simp
  | findMarked marked =>
      cases hexe : sh.disk.exe marked with
      | true =>
          obtain rfl : marked = dir := by simpa [Task.step, hexe, Pc.held] using hpc
          exact .inr (.inr ⟨hexe, .inr (.inl rfl)⟩)
      | false => simp [Task.step, hexe] at hpc
  | findSteam dirs =>
      cases dirs with
      | nil => cases hpc
      | cons cand dirs =>
          cases hexe : sh.disk.exe cand with
          | true =>
              obtain rfl : cand = dir := by simpa [Task.step, hexe, Pc.held] using hpc
              exact .inr (.inr ⟨hexe, .inr (.inr ⟨dirs, rfl⟩)⟩)
          | false => simp [Task.step, hexe] at hpc
  | pullExit =>
      by_cases he : e = .ok
      · exact .inr (.inl ⟨rfl, he, by simpa [Task.step, he, Pc.held] using hpc.symm⟩)
      · simp [Task.step, he, Pc.held] at hpc
  | _ =>
      -- the directory is kept, or none is held
      left
      revert hpc
      simp only [Task.step]
      (repeat' split) <;> simp [Pc.held, Task.held]

theorem pulling_after (h : (t.after S e sh).pulling S = some dir) :
    t.pulling S = some dir ∨ t.pc = .spawnPull ∧ e = .ok ∧ dir = t.installDir S := by
  have hpc : (if (t.step S e sh).2.pulls then some (t.installDir S) else none) = some dir := h
  obtain ⟨hpulls, hdir⟩ := Option.ite_none_right_eq_some.1 hpc
  have hkept (hold : t.pc.pulls = true) : t.pulling S = some dir := by
    simpa [Task.pulling, hold] using hdir
  have hsearch : t.pc.searches = false := by
    by_contra hsearch
    generalize hnext : (t.step S e sh).2 = next at hpulls
    cases hnext ▸ Task.step_searched (by simpa using hsearch) e sh <;> cases hpulls
  obtain ⟨args, pc⟩ := t
  cases pc with
  | spawnPull =>
      by_cases he : e = .ok
      · exact .inr ⟨rfl, he, by simpa using hdir.symm⟩
      · simp [Task.step, he, Pc.pulls] at hpulls
  | pullLoop | pullWait | line | pullExit => exact .inl (hkept rfl)
  | findLocal | findMarker | findMarked dir | findSteam dirs => cases hsearch
  | _ =>
      revert hpulls
      simp only [Task.step]
      (repeat' split) <;> simp [Pc.pulls]

/-- How steamcmd comes to be present. -/
theorem steamcmd_after (S : Setup) (t : Task) (e : Event) (sh : Shared) :
    (t.step S e sh).1.disk.steamcmd = sh.disk.steamcmd ∨
      t.pc = .extracting ∧ (t.step S e sh).2 = .extracting := by
  rcases (diskStep S t e sh).steamcmd_eq with hsame | hpc
  · exact .inl hsame
  · obtain ⟨args, pc⟩ := t
    subst hpc
    cases e with
    | line => exact .inr ⟨rfl, rfl⟩
    | _ => exact .inl rfl

/-- Past the end of the archive it has been extracted. -/
theorem extracted_after (h : (t.step S e sh).2 = .testExtracted ∨ (t.step S e sh).2 = .probe) :
    (t.step S e sh).1.disk.extracted = true ∨ t.pc = .testExtracted := by
  have hsearch : t.pc.searches = false := by
    by_contra hsearch
    generalize hnext : (t.step S e sh).2 = next at h
    cases hnext ▸ Task.step_searched (by simpa using hsearch) e sh <;> simp at h
  obtain ⟨args, pc⟩ := t
  cases pc with
  | testExtracted => exact .inr rfl
  | extracting =>
      cases e with
      | ok => exact .inl rfl
      | _ => rcases h with h | h <;> cases h
  | findLocal | findMarker | findMarked dir | findSteam dirs => cases hsearch
  | _ =>
      revert h
      simp only [Task.step]
      (repeat' split) <;> simp

/-- The three ways out of `ensure_steamcmd`. -/
theorem enters_spawnPull (h : (t.step S e sh).2 = .spawnPull) :
    (t.pc = .testSteamcmd ∧ sh.disk.steamcmd = true) ∨ (t.pc = .testExtracted ∧ S.os ≠ .linux) ∨
      (t.pc = .probe ∧ (t.step S e sh).1.disk.checked = true) := by
  have hsearch : t.pc.searches = false := by
    by_contra hsearch
    have hnext := Task.step_searched (S := S) (by simpa using hsearch) e sh
    rw [h] at hnext
    cases hnext
  obtain ⟨args, pc⟩ := t
  cases pc with
  | testSteamcmd =>
      cases hpresent : sh.disk.steamcmd with
      | true => exact .inl ⟨rfl, rfl⟩
      | false => simp [Task.step, hpresent] at h
  | testExtracted =>
      refine .inr (.inl ⟨rfl, fun hos => ?_⟩)
      revert h
      simp only [Task.step, hos]
      split <;> simp
  | probe =>
      cases e with
      | ok => exact .inr (.inr ⟨rfl, rfl⟩)
      | _ => cases h
  | findLocal | findMarker | findMarked dir | findSteam dirs => cases hsearch
  | _ =>
      revert h
      simp only [Task.step]
      (repeat' split) <;> simp

/-- The ways out of unpacking steamcmd. -/
theorem unpacks_after (S : Setup) (e : Event) (sh : Shared) (h : t.pc.unpacks = true) :
    (t.step S e sh).2.unpacks = true ∨ (t.step S e sh).2 = .spawnPull ∨
      (t.pc = .extracting ∧ e ≠ .ok ∧ e ≠ .line ∧ (t.step S e sh).1 = sh) ∨
      ((t.step S e sh).1 = sh ∧ sh.disk.steamcmd = false) ∨
      (t.pc = .probe ∧ e ≠ .ok ∧ (t.step S e sh).1 = sh) := by
  obtain ⟨args, pc⟩ := t
  cases pc with
  | extracting =>
      cases e with
      | ok | line => exact .inl rfl
      | err | tick => exact .inr (.inr (.inl ⟨rfl, by simp, by simp, rfl⟩))
  | testExtracted =>
      cases hpresent : sh.disk.steamcmd with
      | false => exact .inr (.inr (.inr (.inl ⟨rfl, rfl⟩)))
      | true =>
          by_cases hos : S.os = .linux
          · exact .inl (by simp [Task.step, hpresent, hos, Pc.unpacks])
          · exact .inr (.inl (by simp [Task.step, hpresent, hos]))
  | probe =>
      cases e with
      | ok => exact .inr (.inl rfl)
      | _ => exact .inr (.inr (.inr (.inr ⟨rfl, by simp, rfl⟩)))
  | _ => cases h

/-! ## The invariant -/

section Tasks

variable {κ : Type} {f : κ → Option Task} {k : κ}

/-- What is present is complete or still being worked on by the awake tasks of the family. -/
structure Clean (S : Setup) (f : κ → Option Task) (disk : Disk) : Prop where
  steamcmd : disk.steamcmd = true → disk.Ensured S ∨ ∃ k t, f k = some t ∧ t.pc.unpacks = true
  extracted : ∀ k t, f k = some t → t.pc = .testExtracted ∨ t.pc = .probe → disk.extracted = true
  ensured : ∀ k t, f k = some t → t.pc = .spawnPull → disk.Ensured S
  files : ∀ dir, disk.exe dir = true → disk.pull dir ≠ .failed
  held : ∀ k t dir, f k = some t → t.held S = some dir → (disk.pull dir).complete = true
  going : ∀ k t dir, f k = some t → t.pulling S = some dir → disk.pull dir = .going
  alone : ∀ k l t u dir, f k = some t → f l = some u → t.pulling S = some dir →
    u.pulling S = some dir → k = l

/-- Another numbering of the tasks. -/
theorem Clean.comp (h : Clean S f disk) (e : κ ≃ κ) : Clean S (f ∘ e) disk := by
  refine ⟨?_, ?_, ?_, h.files, ?_, ?_, ?_⟩
  · intro hpresent
    refine (h.steamcmd hpresent).imp_right ?_
    rintro ⟨k, t, ht, hunpacks⟩
    exact ⟨e.symm k, t, by simpa using ht, hunpacks⟩
  · exact fun k t ht => h.extracted (e k) t ht
  · exact fun k t ht => h.ensured (e k) t ht
  · exact fun k t dir ht => h.held (e k) t dir ht
  · exact fun k t dir ht => h.going (e k) t dir ht
  · intro k l t u dir ht hu hpt hpu
    exact e.injective (h.alone (e k) (e l) t u dir ht hu hpt hpu)

/-- `intactStep`, as the other tasks of the family see it. -/
structure StepOk (S : Setup) (f : κ → Option Task) (t : Task) (e : Event) (sh : Shared) : Prop where
  found : ∀ dir, sh.disk.exe dir = true → (t.pc = .findLocal ∧ dir = S.localDir ∨
    t.pc = .findMarked dir ∨ ∃ dirs, t.pc = .findSteam (dir :: dirs)) → sh.disk.pull dir ≠ .going
  test : t.pc = .testSteamcmd → sh.disk.steamcmd = true → ∀ l u, f l = some u →
    u.pc.unpacks = false
  extracting : t.pc = .extracting → e ≠ .ok → e ≠ .line → sh.disk.steamcmd = false
  probe : t.pc = .probe → e ≠ .ok → sh.disk.steamcmd = false
  spawnPull : t.pc = .spawnPull → e = .ok → ∀ l u, f l = some u →
    u.held S ≠ some (t.installDir S) ∧ u.pulling S ≠ some (t.installDir S)
  failed : t.pc = .pullLoop ∧ sh.cancel = true ∨ t.pc = .pullExit ∧ e ≠ .ok →
    sh.disk.exe (t.installDir S) = false

theorem Disk.Ensured.step (h : sh.disk.Ensured S) (t : Task) (e : Event) :
    (t.step S e sh).1.disk.Ensured S :=
  ⟨(diskStep S t e sh).known.1 h.1, fun hos => (diskStep S t e sh).known.2 (h.2 hos)⟩

/-- `ensure_steamcmd` returns `Ok` with the bootstrap extracted and checked. -/
theorem Clean.ensures (h : Clean S f sh.disk) (ht : f k = some t) (hok : StepOk S f t e sh)
    (hpc : (t.step S e sh).2 = .spawnPull) : (t.step S e sh).1.disk.Ensured S := by
  rcases enters_spawnPull hpc with ⟨htest, hpresent⟩ | ⟨hextracted, hos⟩ | ⟨hprobe, hchecked⟩
  · rcases h.steamcmd hpresent with hensured | ⟨l, u, hu, hunpacks⟩
    · exact hensured.step t e
    · rw [hok.test htest hpresent l u hu] at hunpacks
      cases hunpacks
  · have hdone := h.extracted k t ht (.inl hextracted)
    exact ⟨(diskStep S t e sh).known.1 hdone, fun hlinux => absurd hlinux hos⟩
  · have hdone := h.extracted k t ht (.inr hprobe)
    exact ⟨(diskStep S t e sh).known.1 hdone, fun _ => hchecked⟩

/-- What the others hold and pull stays as it is for them. -/
theorem Clean.step_other {l : κ} {u : Task} (h : Clean S f sh.disk) (ht : f k = some t)
    (hok : StepOk S f t e sh) (hu : f l = some u) (hl : l ≠ k) :
    (u.held S = some dir → ((t.step S e sh).1.disk.pull dir).complete = true) ∧
      (u.pulling S = some dir → (t.step S e sh).1.disk.pull dir = .going) := by
  have hpulls : t.pc = .pullLoop ∨ t.pc = .pullExit → dir = t.installDir S →
      t.pulling S = some dir := by
    rintro (hpc | hpc) rfl <;> simp [Task.pulling, hpc, Pc.pulls]
  -- a pull that ends is the mover's own
  have hends : t.pulling S = some dir → u.held S ≠ some dir ∧ u.pulling S ≠ some dir := by
    intro htp
    refine ⟨?_, ?_⟩
    · intro huh
      have hcomplete := h.held l u dir hu huh
      rw [h.going k t dir ht htp] at hcomplete
      cases hcomplete
    · intro hup
      exact hl (h.alone l k u t dir hu ht hup htp)
  cases pullStep S t e sh dir with
  | same heq =>
      rw [heq]
      exact ⟨h.held l u dir hu, h.going l u dir hu⟩
  | begun hpc he hdir heq =>
      subst hdir
      exact ⟨fun huh => absurd huh (hok.spawnPull hpc he l u hu).1, fun _ => heq⟩
  | succeeded hpc he hdir heq =>
      have hno := hends (hpulls (.inr hpc) hdir)
      exact ⟨fun huh => absurd huh hno.1, fun hup => absurd hup hno.2⟩
  | failed hpc hdir heq =>
      have hno := hends (hpulls (hpc.imp And.left And.left) hdir)
      exact ⟨fun huh => absurd huh hno.1, fun hup => absurd hup hno.2⟩

/-- What the moving task holds and pulls itself. -/
theorem Clean.step_self (h : Clean S f sh.disk) (ht : f k = some t) (hok : StepOk S f t e sh) :
    ((t.after S e sh).held S = some dir →
      ((t.step S e sh).1.disk.pull dir).complete = true) ∧
      ((t.after S e sh).pulling S = some dir → (t.step S e sh).1.disk.pull dir = .going) := by
  constructor
  · intro hheld
    rcases held_after hheld with hold | ⟨hpc, he, rfl⟩ | ⟨hexe, hpc⟩
    · have hsame : (t.step S e sh).1.disk.pull = sh.disk.pull := by
        refine step_pull_eq ?_ ?_ ?_ <;> intro hpc <;> simp [Task.held, Pc.held, hpc] at hold
      rw [hsame]
      exact h.held k t dir ht hold
    · simp [Task.step, hpc, he, Shared.pulls, Pull.complete]
    · have hsame : (t.step S e sh).1.disk.pull = sh.disk.pull := by
        refine step_pull_eq ?_ ?_ ?_ <;> intro heq <;> simp [heq] at hpc
      have hgoing := hok.found dir hexe hpc
      have hfailed := h.files dir hexe
      rw [hsame]
      cases hpull : sh.disk.pull dir <;> simp_all [Pull.complete]
  · intro hpulling
    rcases pulling_after hpulling with hold | ⟨hpc, he, rfl⟩
    · cases pullStep S t e sh dir with
      | same heq =>
          rw [heq]
          exact h.going k t dir ht hold
      | begun hpc he hdir heq => exact heq
      | succeeded hpc he hdir heq =>
          simp [Task.pulling, Task.after, Task.step, hpc, he, Pc.pulls] at hpulling
      | failed hpc hdir heq =>
          rcases hpc with ⟨hpc, hcancel⟩ | ⟨hpc, he⟩
          · simp [Task.pulling, Task.after, Task.step, hpc, hcancel, Pc.pulls] at hpulling
          · simp [Task.pulling, Task.after, Task.step, hpc, he, Pc.pulls] at hpulling
    · simp [Task.step, hpc, he, Shared.pulls]

/-- A pull that nobody else is concerned with fails, and leaves no executable. -/
theorem Clean.failed (h : Clean S f disk) (hexe : disk.exe dir = false)
    (hnone : ∀ k t, f k = some t → t.held S ≠ some dir ∧ t.pulling S ≠ some dir) :
    Clean S f { disk with pull := Function.update disk.pull dir .failed } := by
  have hother : ∀ {d}, d ≠ dir → Function.update disk.pull dir .failed d = disk.pull d := by
    intro d hd
    simp [hd]
  refine ⟨h.steamcmd, h.extracted, h.ensured, ?_, ?_, ?_, h.alone⟩
  · intro d hd
    have hne : d ≠ dir := by
      rintro rfl
      rw [hexe] at hd
      cases hd
    show Function.update disk.pull dir .failed d ≠ .failed
    rw [hother hne]
    exact h.files d hd
  · intro k t d ht hheld
    have hne : d ≠ dir := by
      rintro rfl
      exact (hnone k t ht).1 hheld
    show (Function.update disk.pull dir .failed d).complete = true
    rw [hother hne]
    exact h.held k t d ht hheld
  · intro k t d ht hpulling
    have hne : d ≠ dir := by
      rintro rfl
      exact (hnone k t ht).2 hpulling
    show Function.update disk.pull dir .failed d = .going
    rw [hother hne]
    exact h.going k t d ht hpulling

/-! ### One task moves -/

variable [DecidableEq κ]

/-- The task at `k` does nothing that matters to the others, and is not unpacking. -/
theorem Clean.idle {t' : Option Task} (h : Clean S f disk)
    (hold : ∀ t, f k = some t → t.pc.unpacks = true → disk.steamcmd = false)
    (hnew : ∀ t, t' = some t → t.held S = none ∧ t.pulling S = none ∧ t.pc.unpacks = false ∧
      t.pc ≠ .spawnPull) : Clean S (Function.update f k t') disk := by
  have hother : ∀ {l u}, Function.update f k t' l = some u → (l = k ∧ t' = some u) ∨ f l = some u := by
    intro l u hu
    by_cases hl : l = k
    · subst hl
      exact .inl ⟨rfl, by simpa using hu⟩
    · exact .inr (by simpa [hl] using hu)
  refine ⟨?_, ?_, ?_, h.files, ?_, ?_, ?_⟩
  · intro hpresent
    refine (h.steamcmd hpresent).imp_right ?_
    rintro ⟨l, u, hu, hunpacks⟩
    refine ⟨l, u, ?_, hunpacks⟩
    have hl : l ≠ k := by
      rintro rfl
      rw [hold u hu hunpacks] at hpresent
      cases hpresent
    simpa [hl] using hu
  · intro l u hu hpc
    rcases hother hu with ⟨-, hnew'⟩ | hu
    · have hunpacks := (hnew u hnew').2.2.1
      rcases hpc with hpc | hpc <;> rw [hpc] at hunpacks <;> cases hunpacks
    · exact h.extracted l u hu hpc
  · intro l u hu hpc
    rcases hother hu with ⟨-, hnew'⟩ | hu
    · exact absurd hpc (hnew u hnew').2.2.2
    · exact h.ensured l u hu hpc
  · intro l u dir hu hheld
    rcases hother hu with ⟨-, hnew'⟩ | hu
    · rw [(hnew u hnew').1] at hheld
      cases hheld
    · exact h.held l u dir hu hheld
  · intro l u dir hu hpulling
    rcases hother hu with ⟨-, hnew'⟩ | hu
    · rw [(hnew u hnew').2.1] at hpulling
      cases hpulling
    · exact h.going l u dir hu hpulling
  · intro l m u v dir hu hv hpu hpv
    rcases hother hu with ⟨-, hnew'⟩ | hu
    · rw [(hnew u hnew').2.1] at hpu
      cases hpu
    rcases hother hv with ⟨-, hnew'⟩ | hv
    · rw [(hnew v hnew').2.1] at hpv
      cases hpv
    · exact h.alone l m u v dir hu hv hpu hpv

theorem Clean.step_steamcmd (h : Clean S f sh.disk) (ht : f k = some t) (hok : StepOk S f t e sh)
    (hpresent : (t.step S e sh).1.disk.steamcmd = true) :
    (t.step S e sh).1.disk.Ensured S ∨ ∃ l u, Function.update f k (some (t.after S e sh)) l = some u ∧
      u.pc.unpacks = true := by
  rcases steamcmd_after S t e sh with hsame | ⟨-, hextracting⟩
  · rw [hsame] at hpresent
    rcases h.steamcmd hpresent with hensured | ⟨l, u, hu, hunpacks⟩
    · exact .inl (hensured.step t e)
    · by_cases hl : l = k
      · subst hl
        rw [ht] at hu
        cases hu
        rcases unpacks_after S e sh hunpacks with
          hstill | hspawn | ⟨hpc, hne, hne', -⟩ | ⟨-, habsent⟩ | ⟨hpc, hne, -⟩
        · exact .inr ⟨l, t.after S e sh, by simp, hstill⟩
        · exact .inl (h.ensures ht hok hspawn)
        · rw [hok.extracting hpc hne hne'] at hpresent
          cases hpresent
        · rw [habsent] at hpresent
          cases hpresent
        · rw [hok.probe hpc hne] at hpresent
          cases hpresent
      · exact .inr ⟨l, u, by simpa [hl] using hu, hunpacks⟩
  · -- the executable has just come out of the archive
    refine .inr ⟨k, t.after S e sh, by simp, ?_⟩
    show (t.step S e sh).2.unpacks = true
    rw [hextracting]
    rfl

theorem update_cases {t' u : Task} {l : κ} (hu : Function.update f k (some t') l = some u) :
    (l = k ∧ u = t') ∨ (l ≠ k ∧ f l = some u) := by
  by_cases hl : l = k
  · subst hl
    exact .inl ⟨rfl, by simpa [eq_comm] using hu⟩
  · exact .inr ⟨hl, by simpa [hl] using hu⟩

theorem Clean.step (h : Clean S f sh.disk) (ht : f k = some t) (hok : StepOk S f t e sh) :
    Clean S (Function.update f k (some (t.after S e sh))) (t.step S e sh).1.disk := by
  refine ⟨h.step_steamcmd ht hok, ?_, ?_, ?_, ?_, ?_, ?_⟩
  · intro l u hu hpc
    rcases update_cases hu with ⟨rfl, rfl⟩ | ⟨-, hu⟩
    · rcases extracted_after hpc with hdone | htest
      · exact hdone
      · exact (diskStep S t e sh).known.1 (h.extracted l t ht (.inl htest))
    · exact (diskStep S t e sh).known.1 (h.extracted l u hu hpc)
  · intro l u hu hpc
    rcases update_cases hu with ⟨rfl, rfl⟩ | ⟨-, hu⟩
    · exact h.ensures ht hok hpc
    · exact (h.ensured l u hu hpc).step t e
  · intro dir hexe
    rw [step_exe] at hexe
    cases pullStep S t e sh dir with
    | same heq => rw [heq]; exact h.files dir hexe
    | begun _ _ _ heq => rw [heq]; nofun
    | succeeded _ _ _ heq => rw [heq]; nofun
    | failed hpc hdir heq =>
        subst hdir
        rw [hok.failed hpc] at hexe
        cases hexe
  · intro l u dir hu
    rcases update_cases hu with ⟨rfl, rfl⟩ | ⟨hl, hu⟩
    · exact (h.step_self ht hok).1
    · exact (h.step_other ht hok hu hl).1
  · intro l u dir hu
    rcases update_cases hu with ⟨rfl, rfl⟩ | ⟨hl, hu⟩
    · exact (h.step_self ht hok).2
    · exact (h.step_other ht hok hu hl).2
  · intro l m u v dir hu hv hpu hpv
    rcases update_cases hu with ⟨rfl, rfl⟩ | ⟨-, hu'⟩ <;>
      rcases update_cases hv with ⟨rfl, rfl⟩ | ⟨-, hv'⟩
    · rfl
    · rcases pulling_after hpu with hold | ⟨hpc, he, rfl⟩
      · exact h.alone l m t v dir ht hv' hold hpv
      · exact absurd hpv (hok.spawnPull hpc he m v hv').2
    · rcases pulling_after hpv with hold | ⟨hpc, he, rfl⟩
      · exact h.alone l m u t dir hu' ht hpu hold
      · exact absurd hpu (hok.spawnPull hpc he l u hu').2
    · exact h.alone l m u v dir hu' hv' hpu hpv

/-- A task that waits when it is aborted goes no further. -/
theorem Clean.doomed (h : Clean S f sh.disk) (ht : f k = some t) (hwaits : t.pc.suspended = true)
    (hok : intactAbort S sh.disk t = true) :
    Clean S (Function.update f k none) (t.doomed S sh).disk := by
  have hrest : Clean S (Function.update f k none) sh.disk := by
    refine h.idle ?_ (by simp)
    intro u hu hunpacks
    rw [ht] at hu
    cases hu
    cases hpc : t.pc <;> simp_all [Pc.unpacks, Pc.suspended, intactAbort]
  by_cases hpull : t.pc = .pullWait ∨ t.pc = .pullExit
  · have hpulling : t.pulling S = some (t.installDir S) := by
      rcases hpull with hpc | hpc <;> simp [Task.pulling, hpc, Pc.pulls]
    have hexe : sh.disk.exe (t.installDir S) = false := by
      rcases hpull with hpc | hpc <;> simpa [intactAbort, hpc] using hok
    have hdisk : (t.doomed S sh).disk =
        { sh.disk with pull := Function.update sh.disk.pull (t.installDir S) .failed } := by
      rcases hpull with hpc | hpc <;> simp [Task.doomed, hpc, Shared.pulls]
    rw [hdisk]
    refine hrest.failed hexe ?_
    intro l u hu
    have hl : l ≠ k ∧ f l = some u := by
      by_cases hl : l = k
      · subst hl
        simp at hu
      · exact ⟨hl, by simpa [hl] using hu⟩
    refine ⟨fun hheld => ?_, fun hup => ?_⟩
    · have hcomplete := h.held l u _ hl.2 hheld
      rw [h.going k t _ ht hpulling] at hcomplete
      cases hcomplete
    · exact hl.1 (h.alone l k u t _ hl.2 ht hup hpulling)
  · have hsame : t.doomed S sh = sh := by
      unfold Task.doomed
      split <;> simp_all
    rw [hsame]
    exact hrest

end Tasks

/-! ## The manager -/

/-- The tasks that can go on: the current one, and the aborted ones that are not waiting. -/
def State.runs (s : State) : Option ℕ → Option Task
  | none => s.current
  | some i => s.aborted[i]?.filter fun t => !t.pc.suspended

theorem mem_awake {k : Option ℕ} (h : s.runs k = some t) : t ∈ s.awake := by
  cases k with
  | none =>
      have hcurrent : s.current = some t := h
      simp [State.awake, hcurrent]
  | some i =>
      obtain ⟨hget, hawake⟩ := Option.filter_eq_some_iff.1 h
      refine List.mem_append_right _ (List.mem_filter.2 ⟨List.mem_of_getElem? hget, hawake⟩)

/-- What is used is complete, in every state of the manager. -/
structure Installs (S : Setup) (s : State) : Prop where
  clean : Clean S s.runs s.shared.disk
  /-- The handle of the last task has been given up before the next is spawned. -/
  spawning : ∀ args, s.call = .spawnTask args → s.current = none

theorem stepOk_of_intactStep (h : intactStep S s t e = true) : StepOk S s.runs t e s.shared := by
  refine ⟨?_, ?_, ?_, ?_, ?_, ?_⟩
  · rintro dir hexe (⟨hpc, rfl⟩ | hpc | ⟨dirs, hpc⟩) <;> simpa [intactStep, hpc, hexe] using h
  · intro hpc hpresent l u hu
    have hall : ∀ u ∈ s.awake, u.pc.unpacks = false := by
      simpa [intactStep, hpc, hpresent] using h
    exact hall u (mem_awake hu)
  · intro hpc hne hne'
    simpa [intactStep, hpc, hne, hne'] using h
  · intro hpc hne
    simpa [intactStep, hpc, hne] using h
  · intro hpc he l u hu
    have hall : ∀ u ∈ s.awake, u.held S ≠ some (t.installDir S) ∧
        u.pulling S ≠ some (t.installDir S) := by
      simpa [intactStep, hpc, he] using h
    exact hall u (mem_awake hu)
  · rintro (⟨hpc, hcancel⟩ | ⟨hpc, hne⟩)
    · simpa [intactStep, hpc, hcancel] using h
    · simpa [intactStep, hpc, hne] using h

theorem doomed_of_awake (h : t.pc.suspended = false) (sh : Shared) : t.doomed S sh = sh := by
  unfold Task.doomed
  split <;> simp_all [Pc.suspended]

theorem runs_set {i : ℕ} {t' : Task} (ht : s.aborted[i]? = some t) (shared : Shared) :
    State.runs { s with shared, aborted := s.aborted.set i t' } =
      Function.update s.runs (some i) (if t'.pc.suspended then none else some t') := by
  have hlt : i < s.aborted.length := (List.getElem?_eq_some_iff.1 ht).1
  funext k
  cases k with
  | none => simp [State.runs]
  | some j =>
      by_cases hj : j = i
      · subst hj
        cases hsuspended : t'.pc.suspended <;> simp [State.runs, hlt, hsuspended, Option.filter]
      · simp [State.runs, hj, List.getElem?_set_ne (Ne.symm hj)]

theorem Installs.currentStep (h : Installs S s) (hok : Intact S s (.current e))
    (hstep : s.currentStep S e = some s') : Installs S s' := by
  obtain ⟨t, ht, rfl⟩ := Option.map_eq_some_iff.1 hstep
  have hok' : intactStep S s t e = true := by simpa [Intact, intact, ht] using hok
  have hclean := h.clean.step (k := none) ht (stepOk_of_intactStep hok')
  refine ⟨?_, ?_⟩
  · convert hclean using 1
    funext k
    cases k <;> simp [State.runs, Task.after]
  · intro args hcall
    rw [h.spawning args hcall] at ht
    cases ht

/-- An aborted task goes on, and whatever it waits for then is given up. -/
theorem abortedStep_eq (h : s.abortedStep S i e = some s') :
    ∃ t, s.aborted[i]? = some t ∧ t.pc.suspended = false ∧
      s' = { s with
        shared := (t.after S e s.shared).doomed S (t.step S e s.shared).1
        aborted := s.aborted.set i (t.after S e s.shared) } := by
  unfold State.abortedStep at h
  split at h
  · cases h
  · rename_i t ht
    split at h
    · cases h
    · rename_i hawake
      exact ⟨t, ht, by simpa using hawake, (Option.some.inj h).symm⟩

theorem Installs.abortedStep (h : Installs S s) (hok : Intact S s (.aborted i e))
    (hstep : s.abortedStep S i e = some s') : Installs S s' := by
  obtain ⟨t, ht, hawake, rfl⟩ := abortedStep_eq hstep
  have hruns : s.runs (some i) = some t := by
    simp [State.runs, ht, Option.filter, hawake]
  have hok' : intactStep S s t e = true ∧
      intactAbort S (t.step S e s.shared).1.disk (t.after S e s.shared) = true := by
    simpa [Intact, intact, ht] using hok
  have hclean := h.clean.step hruns (stepOk_of_intactStep hok'.1)
  refine ⟨?_, h.spawning⟩
  rw [runs_set ht]
  cases hwaits : (t.after S e s.shared).pc.suspended with
  | false =>
      -- it comes to no await: nothing is given up
      have hsame := doomed_of_awake (S := S) hwaits (t.step S e s.shared).1
      simpa only [hsame, Bool.false_eq_true, if_false] using hclean
  | true =>
      have hdoomed := hclean.doomed (k := some i) (Function.update_self ..) hwaits hok'.2
      rw [Function.update_idem] at hdoomed
      simpa only [if_true] using hdoomed

theorem Installs.dropTask (h : Installs S s) (hstep : s.dropTask i = some s') : Installs S s' := by
  unfold State.dropTask at hstep
  split at hstep
  · cases hstep
  · rename_i t ht
    split at hstep
    · rename_i hdroppable
      cases hstep
      refine ⟨?_, h.spawning⟩
      rw [runs_set ht]
      refine h.clean.idle ?_ ?_
      · intro u hu hunpacks
        obtain ⟨hget, hawake⟩ := Option.filter_eq_some_iff.1 hu
        rw [ht] at hget
        cases hget
        cases hpc : t.pc <;> simp_all [Pc.unpacks, Pc.droppable, Pc.suspended]
      · intro u hu
        cases hu
        simp [Task.held, Task.pulling, Pc.held, Pc.pulls, Pc.unpacks]
    · cases hstep

/-- The handle of the current task is given up, and so is whatever the task waits for. -/
theorem Clean.abortCurrent (h : Clean S s.runs s.shared.disk)
    (hok : s.current.all (fun t => intactAbort S s.shared.disk t) = true) :
    Clean S (s.abortCurrent S).runs (s.abortCurrent S).shared.disk := by
  cases ht : s.current with
  | none =>
      rw [s.abortCurrent_of_none S ht]
      exact h
  | some t =>
      have hok' : intactAbort S s.shared.disk t = true := by simpa [ht] using hok
      have heq : s.abortCurrent S =
          { s with
            shared := t.doomed S s.shared, current := none, aborted := s.aborted ++ [t] } := by
        simp [State.abortCurrent, ht]
      have hruns : s.runs none = some t := ht
      have hlast : s.runs (some s.aborted.length) = none := by simp [State.runs]
      -- the task moves from the one slot to the end of the other ones
      have hmoved : (s.abortCurrent S).runs =
          (Function.update s.runs none (if t.pc.suspended then none else some t)) ∘
            Equiv.swap none (some s.aborted.length) := by
        rw [heq]
        funext k
        cases k with
        | none => simp [State.runs]
        | some i =>
            by_cases hi : i = s.aborted.length
            · subst hi
              cases hsuspended : t.pc.suspended <;> simp [State.runs, hsuspended, Option.filter]
            · have hswap : Equiv.swap none (some s.aborted.length) (some i) = some i :=
                Equiv.swap_apply_of_ne_of_ne (by simp) (by simpa using hi)
              have hget : (s.aborted ++ [t])[i]? = s.aborted[i]? := by
                rcases Nat.lt_or_gt_of_ne hi with hlt | hgt
                · exact List.getElem?_append_left hlt
                · have hpast : (s.aborted ++ [t]).length ≤ i := by
                    rw [List.length_append]
                    exact hgt
                  exact (List.getElem?_eq_none hpast).trans
                    (List.getElem?_eq_none (Nat.le_of_lt hgt)).symm
              simp [State.runs, hswap, hget]
      rw [hmoved, heq]
      apply Clean.comp
      cases hwaits : t.pc.suspended with
      | false =>
          rw [doomed_of_awake hwaits]
          simpa only [Bool.false_eq_true, if_false, ← hruns, Function.update_eq_self] using h
      | true => simpa only [if_true] using h.doomed hruns hwaits hok'

/-- Only the executable of a directory has changed. -/
theorem Clean.file {κ : Type} {f : κ → Option Task} {disk : Disk} {exe : Bool}
    (h : Clean S f disk) (hok : exe = true → disk.pull dir ≠ .failed) :
    Clean S f { disk with exe := Function.update disk.exe dir exe } := by
  refine ⟨h.steamcmd, h.extracted, h.ensured, ?_, h.held, h.going, h.alone⟩
  intro d hd
  by_cases hdir : d = dir
  · subst hdir
    exact hok (by simpa using hd)
  · exact h.files d (by simpa [hdir] using hd)

/-- The call in progress gives up a task, begins one, or comes near neither them nor the disk. -/
theorem Installs.callStep {ok : Bool} (h : Installs S s) (hok : Intact S s (.call ok))
    (hstep : s.callStep S ok s.call = some s') : Installs S s' := by
  cases hcall : s.call with
  | idle => simp [State.callStep, hcall] at hstep
  | abortPrior args =>
      rw [hcall] at hstep
      cases hstep
      refine ⟨h.clean.abortCurrent (by simpa [Intact, intact, hcall] using hok), ?_⟩
      intro args' _
      exact s.abortCurrent_current S
  | abortTask =>
      rw [hcall] at hstep
      cases hstep
      exact ⟨h.clean.abortCurrent (by simpa [Intact, intact, hcall] using hok), nofun⟩
  | spawnTask args =>
      rw [hcall] at hstep
      cases hstep
      refine ⟨?_, nofun⟩
      have hnone : s.runs none = none := h.spawning args hcall
      have hclean : Clean S (Function.update s.runs none (some { args, pc := .findLocal }))
          s.shared.disk := by
        apply h.clean.idle
        · simp [hnone]
        · simp [Task.held, Task.pulling, Pc.held, Pc.pulls, Pc.unpacks]
      convert hclean using 1
      funext k
      cases k <;> simp [State.runs]
  | sendCheats enabled =>
      rw [hcall] at hstep
      cases hstep
      refine ⟨h.clean, ?_⟩
      intro args hargs
      exfalso
      revert hargs
      dsimp only
      split <;> nofun
  | lowerCancel args | markPulling args | raiseCancel | takeChild | killChild child | clearStdin
  | setIdle | recordCheats enabled | readLive running =>
      rw [hcall] at hstep
      cases hstep
      exact ⟨h.clean, nofun⟩

theorem Installs.begin {call : Call} (h : Installs S s) (hcall : ∀ args, call ≠ .spawnTask args)
    (hstep : s.begin call = some s') : Installs S s' := by
  obtain ⟨-, heq⟩ := Option.ite_none_right_eq_some.1 hstep
  cases heq
  exact ⟨h.clean, fun args hargs => absurd hargs (hcall args)⟩

theorem Installs.step {a : Act} (h : Installs S s) (hok : Intact S s a)
    (hstep : s.step S a = some s') : Installs S s' := by
  cases a with
  | start args =>
      have hstart : s.start S args = some s' := hstep
      unfold State.start at hstart
      split at hstart
      · exact h.begin (by simp) hstart
      · have hopen : Installs S { s with stopped := false } := ⟨h.clean, h.spawning⟩
        exact hopen.begin (by simp) hstart
  | stop | setCheats enabled => exact h.begin (by simp) hstep
  | status =>
      have hreap : Installs S s.reap := ⟨h.clean, h.spawning⟩
      exact hreap.begin (by simp) hstep
  | call ok => exact h.callStep hok hstep
  | current e => exact h.currentStep hok hstep
  | aborted i e => exact h.abortedStep hok hstep
  | drop i => exact h.dropTask hstep
  | exit p =>
      obtain ⟨-, heq⟩ := Option.ite_none_right_eq_some.1 hstep
      cases heq
      exact ⟨h.clean, h.spawning⟩
  | file dir exe =>
      cases hstep
      refine ⟨h.clean.file ?_, h.spawning⟩
      intro hexe
      simpa [Intact, intact, hexe] using hok

/-! ## What is used -/

/-- What is present at the start is complete. -/
def Disk.Sound (S : Setup) (disk : Disk) : Prop :=
  (disk.steamcmd = true → disk.Ensured S) ∧ ∀ dir, disk.exe dir = true → disk.pull dir ≠ .failed

theorem Installs.new (hdisk : disk.Sound S) : Installs S (.new disk) := by
  have hnone : ∀ k, (State.new disk).runs k = none := by
    rintro (- | i) <;> rfl
  refine ⟨⟨fun hpresent => .inl (hdisk.1 hpresent), ?_, ?_, hdisk.2, ?_, ?_, ?_⟩, nofun⟩ <;>
    simp [hnone]

/-- In every run that leaves nothing unfinished behind where it is found, and finds nothing that a
task is still at: `ensure_steamcmd` returns `Ok` only when the bootstrap has been extracted and, on
Linux, checked; and the server is spawned only from a directory whose latest pull has succeeded or
that was never pulled into. -/
theorem installs_complete (hdisk : disk.Sound S) (h : (machine S disk).Reachable (Intact S) s)
    (ht : t ∈ s.current.toList ++ s.aborted) :
    (t.pc = .spawnPull → s.shared.disk.Ensured S) ∧
      ∀ dir, t.pc = .spawn dir →
        s.shared.disk.pull dir = .never ∨ s.shared.disk.pull dir = .succeeded := by
  have hinv : Installs S s := by
    refine Machine.Reachable.invariant (.new hdisk) ?_ h
    intro s a s' hs hok hstep
    exact hs.step hok hstep
  -- neither place is one to wait at, so that the task can go on
  have hruns : t.pc.suspended = false → ∃ k, s.runs k = some t := by
    intro hawake
    rcases List.mem_append.1 ht with hcurrent | haborted
    · exact ⟨none, by simpa [State.runs] using hcurrent⟩
    · obtain ⟨i, hi⟩ := List.mem_iff_getElem?.1 haborted
      exact ⟨some i, by simp [State.runs, hi, Option.filter, hawake]⟩
  refine ⟨?_, ?_⟩
  · intro hpc
    obtain ⟨k, hk⟩ := hruns (by rw [hpc]; rfl)
    exact hinv.clean.ensured k t hk hpc
  · intro dir hpc
    obtain ⟨k, hk⟩ := hruns (by rw [hpc]; rfl)
    have hcomplete := hinv.clean.held k t dir hk (by simp [Task.held, Pc.held, hpc])
    cases hpull : s.shared.disk.pull dir <;> simp_all [Pull.complete]

/-! ### Runs on an empty disk -/

/-- Nothing is installed. -/
def Disk.empty : Disk :=
  { Disk.installed with exe := fun _ => false }

/-- A task finds nothing, and fetches the archive of steamcmd; its executable comes out of it. -/
def unpackSteps : List Act :=
  List.replicate 7 (.current .ok) ++ [.current .line]

/-- The rest of the archive, the check, and the begin of a pull. -/
def pullSteps : List Act :=
  List.replicate 5 (.current .ok) ++ [.file (.unicode "svends") true, .current .ok]

/-- An install is pulled, and the server spawned from it. -/
theorem exists_installs_complete : ∃ s : State, ∃ t, s.current = some t ∧
    t.pc = .spawn (.unicode "svends") ∧
    s.shared.disk.pull (.unicode "svends") = .succeeded := by
  have hrun : ((machine .sample .empty).runWhile (Intact .sample) (.new .empty)
      (startSteps ++ unpackSteps ++ pullSteps ++ List.replicate 9 (.current .ok))).any (fun s =>
        s.current.any (fun t => t.pc == .spawn (.unicode "svends")) &&
          s.shared.disk.pull (.unicode "svends") != .never) = true := by decide +kernel
  obtain ⟨s, hs, hP⟩ := Machine.exists_reachable_of_runWhile hrun
  simp only [Bool.and_eq_true, Option.any_eq_true, beq_iff_eq, bne_iff_ne] at hP
  obtain ⟨⟨t, ht, hpc⟩, hpulled⟩ := hP
  have hsound : Disk.empty.Sound .sample := ⟨nofun, nofun⟩
  have hcomplete := installs_complete hsound hs (t := t) (by simp [ht])
  exact ⟨s, t, ht, hpc, (hcomplete.2 _ hpc).resolve_left hpulled⟩

/-- The archive breaks off after the executable, and the next start pulls with it; a pull fails with
the executable of the server there, and the next start spawns it. -/
theorem unfinished_used :
    (∃ s, (machine .sample .empty).Reachable Machine.always s ∧
      ∃ t, s.current = some t ∧ t.pc = .spawnPull ∧ s.shared.disk.extracted = false) ∧
    (∃ s, (machine .sample .empty).Reachable Machine.always s ∧
      ∃ t dir, s.current = some t ∧ t.pc = .spawn dir ∧ s.shared.disk.pull dir = .failed) := by
  constructor
  · have hrun : ((machine .sample .empty).run (.new .empty)
        (startSteps ++ unpackSteps ++ List.replicate 2 (.current .err) ++ startSteps ++
          List.replicate 5 (.current .ok))).any (fun s =>
            s.current.any (fun t => t.pc == .spawnPull) && !s.shared.disk.extracted) = true := by
      decide +kernel
    obtain ⟨s, hs, hP⟩ := Machine.exists_reachable_of_run hrun
    simp only [Bool.and_eq_true, Option.any_eq_true, beq_iff_eq, Bool.not_eq_true'] at hP
    obtain ⟨⟨t, ht, hpc⟩, hextracted⟩ := hP
    exact ⟨s, hs, t, ht, hpc, hextracted⟩
  · have hrun : ((machine .sample .empty).run (.new .empty)
        (startSteps ++ unpackSteps ++ pullSteps ++ List.replicate 2 (.current .err) ++
          startSteps ++ List.replicate 7 (.current .ok))).any (fun s =>
            s.current.any (fun t => t.pc == .spawn (.unicode "svends")) &&
              s.shared.disk.pull (.unicode "svends") == .failed) = true := by
      decide +kernel
    obtain ⟨s, hs, hP⟩ := Machine.exists_reachable_of_run hrun
    simp only [Bool.and_eq_true, Option.any_eq_true, beq_iff_eq] at hP
    obtain ⟨⟨t, ht, hpc⟩, hfailed⟩ := hP
    exact ⟨s, hs, t, _, ht, hpc, hfailed⟩

end Ds
end SvenBridge
