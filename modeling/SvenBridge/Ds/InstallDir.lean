import SvenBridge.Ds.Install

/-!
# Ds.InstallDir — which install is spawned

`install_dir` of a start says where to look for the server and where to install it; the search of
`find_svends_inner` looks elsewhere.  A directory is told apart by the spelling of its path: one with
a trailing slash, or a relative one where the current directory is another, is a path of its own.
This file contains

* `Setup.locations` — the places that are searched, in order;
* `Run` — a run of the task, with other accesses to the shared state in between;
* `runInv_run` — which directory the server is spawned from;
* `exists_run_spawn` — a run that spawns it;
* `honours_iff` — when that is the one the start has named.
-/

namespace SvenBridge
namespace Ds

open Controller Lib

variable {S : Setup} {args : DsStartArgs} {s₀ s : Shared} {pc : Pc} {trace : List (Pc × Event)}
  {e : Event} {dir : PathBuf}

/-- The directories `find_svends_inner` looks into. -/
def Setup.locations (S : Setup) (disk : Disk) : List PathBuf :=
  S.localDir :: (disk.marker.toList ++ S.candidates)

/-- The first of them that holds an executable. -/
def Setup.firstInstall (S : Setup) (disk : Disk) : Option PathBuf :=
  (S.locations disk).find? disk.exe

/-! ## Runs of one task -/

/-- A run of the task from its start, with the places it has been at.  Others may change the shared
state, but the files change only by its own pull, and the marker is read if it is there. -/
inductive Run (S : Setup) (args : DsStartArgs) (s₀ : Shared) :
    List (Pc × Event) → Shared → Pc → Prop where
  | start : Run S args s₀ [] { s₀ with cancel := false } .findLocal
  | step {trace : List (Pc × Event)} {s : Shared} {pc : Pc} (h : Run S args s₀ trace s pc)
      (e : Event) (hread : pc = .findMarker → e = .ok) :
      Run S args s₀ (trace ++ [(pc, e)]) (Task.step S ⟨args, pc⟩ e s).1
        (Task.step S ⟨args, pc⟩ e s).2
  | other {trace : List (Pc × Event)} {s : Shared} {pc : Pc} (h : Run S args s₀ trace s pc)
      (s' : Shared) (hdisk : s'.disk = s.disk) : Run S args s₀ trace s' pc
  | file {trace : List (Pc × Event)} {s : Shared} {pc : Pc} (h : Run S args s₀ trace s pc)
      (exe : Bool) (hpull : pc.pulls = true) :
      Run S args s₀ trace
        { s with disk.exe := Function.update s.disk.exe (args.installDir.getD S.localDir) exe } pc

/-- A pull has been started. -/
def Pulled (trace : List (Pc × Event)) : Prop :=
  (Pc.spawnPull, Event.ok) ∈ trace

/-- The directory was found to be installed, or it has been pulled into. -/
def SpawnsFrom (S : Setup) (args : DsStartArgs) (s₀ : Shared) (trace : List (Pc × Event))
    (s : Shared) (dir : PathBuf) : Prop :=
  s.disk.exe dir = true ∧
    (S.firstInstall s₀.disk = some dir ∧ ¬ Pulled trace ∨
      S.firstInstall s₀.disk = none ∧ Pulled trace ∧ dir = args.installDir.getD S.localDir ∧
        s.disk.pull dir = .succeeded)

/-- The places still to be searched. -/
def Setup.remaining (S : Setup) (disk : Disk) : Pc → List PathBuf
  | .findLocal => S.locations disk
  | .findMarker => disk.marker.toList ++ S.candidates
  | .findMarked dir => dir :: S.candidates
  | .findSteam dirs => dirs
  | _ => []

/-- What holds of a task at a place. -/
def RunInv (S : Setup) (args : DsStartArgs) (s₀ : Shared) (trace : List (Pc × Event))
    (s : Shared) (pc : Pc) : Prop :=
  match pc with
  | .findLocal | .findMarker | .findMarked _ | .findSteam _ =>
      ¬ Pulled trace ∧ s.disk = s₀.disk ∧
        (S.remaining s.disk pc).find? s.disk.exe = S.firstInstall s₀.disk
  | .notFound | .pulling | .testSteamcmd | .makeDir | .download | .extracting | .testExtracted
  | .probe | .spawnPull => ¬ Pulled trace ∧ S.firstInstall s₀.disk = none
  | .pullLoop | .pullWait | .line | .pullExit => Pulled trace ∧ S.firstInstall s₀.disk = none
  | .pulled | .verify =>
      Pulled trace ∧ S.firstInstall s₀.disk = none ∧
        s.disk.pull (args.installDir.getD S.localDir) = .succeeded
  | .mark => SpawnsFrom S args s₀ trace s (args.installDir.getD S.localDir)
  | .found dir | .checkReady dir | .prepare dir | .soundcache dir | .mapcycle dir | .checkSpawn dir
  | .spawn dir | .place dir | .running dir _ => SpawnsFrom S args s₀ trace s dir
  | .fill _ | .cheats | .cancelled | .failed | .finished => True

theorem runInv_other {s' : Shared} (h : RunInv S args s₀ trace s pc) (hdisk : s'.disk = s.disk) :
    RunInv S args s₀ trace s' pc := by
  -- the invariant speaks of the shared state only through its files
  cases pc <;> simp only [RunInv, SpawnsFrom, hdisk] at h ⊢ <;> exact h

theorem runInv_file {disk : Disk} (h : RunInv S args s₀ trace s pc) (hpull : pc.pulls = true) :
    RunInv S args s₀ trace { s with disk } pc := by
  cases pc <;> first | exact h | cases hpull

theorem pulled_append (hpc : pc ≠ .spawnPull) : Pulled (trace ++ [(pc, e)]) ↔ Pulled trace := by
  simp [Pulled, Ne.symm hpc]

/-- Any other step leaves what is known of a search that has failed, -/
theorem unpulled_append {P : Prop} (hpc : pc ≠ .spawnPull) (h : ¬ Pulled trace ∧ P) :
    ¬ Pulled (trace ++ [(pc, e)]) ∧ P :=
  h.imp_left (mt (pulled_append hpc).1)

/-- and of a pull. -/
theorem still_pulled_append {P : Prop} (hpc : pc ≠ .spawnPull) (h : Pulled trace ∧ P) :
    Pulled (trace ++ [(pc, e)]) ∧ P :=
  h.imp_left (pulled_append hpc).2

theorem spawnsFrom_append (hpc : pc ≠ .spawnPull) {s' : Shared} (hdisk : s'.disk.exe = s.disk.exe)
    (hpull : s'.disk.pull = s.disk.pull) (h : SpawnsFrom S args s₀ trace s dir) :
    SpawnsFrom S args s₀ (trace ++ [(pc, e)]) s' dir := by
  rw [SpawnsFrom, pulled_append hpc, hdisk, hpull]
  exact h

/-- The search goes on with the next Steam install, or is over. -/
theorem runInv_findNext {dirs : List PathBuf} (hpulled : ¬ Pulled trace) (hdisk : s.disk = s₀.disk)
    (hfind : dirs.find? s.disk.exe = S.firstInstall s₀.disk) :
    RunInv S args s₀ trace s (.findNext dirs) := by
  cases dirs with
  | nil => exact ⟨hpulled, hfind.symm⟩
  | cons dir dirs => exact ⟨hpulled, hdisk, hfind⟩

/-- A search that has come to an installed directory is over. -/
theorem runInv_found {dirs : List PathBuf} (hpulled : ¬ Pulled trace)
    (hfind : (dir :: dirs).find? s.disk.exe = S.firstInstall s₀.disk)
    (hexe : s.disk.exe dir = true) : RunInv S args s₀ trace s (.found dir) := by
  rw [List.find?_cons_of_pos hexe] at hfind
  exact ⟨hexe, .inl ⟨hfind.symm, hpulled⟩⟩

theorem runInv_step (h : RunInv S args s₀ trace s pc) (hread : pc = .findMarker → e = .ok) :
    RunInv S args s₀ (trace ++ [(pc, e)]) (Task.step S ⟨args, pc⟩ e s).1
      (Task.step S ⟨args, pc⟩ e s).2 := by
  -- while it searches the task drops one place after another; from a pull on it goes to its own
  -- directory, and from a find to the one it has found
  cases pc with
  | findLocal =>
      obtain ⟨hpulled, hdisk, hfind⟩ := h
      rw [← pulled_append (by simp : Pc.findLocal ≠ .spawnPull)] at hpulled
      simp only [Task.step]
      split
      · rename_i hexe
        exact runInv_found hpulled hfind hexe
      · rename_i hexe
        rw [Setup.remaining, Setup.locations, List.find?_cons_of_neg hexe] at hfind
        exact ⟨hpulled, hdisk, hfind⟩
  | findMarker =>
      obtain ⟨hpulled, hdisk, hfind⟩ := h
      rw [← pulled_append (by simp : Pc.findMarker ≠ .spawnPull)] at hpulled
      cases hread rfl
      simp only [Task.step]
      cases hmarker : s.disk.marker with
      | none =>
          rw [Setup.remaining, hmarker] at hfind
          exact runInv_findNext hpulled hdisk hfind
      | some marked =>
          rw [Setup.remaining, hmarker] at hfind
          exact ⟨hpulled, hdisk, hfind⟩
  | findMarked marked =>
      obtain ⟨hpulled, hdisk, hfind⟩ := h
      rw [← pulled_append (by simp : Pc.findMarked marked ≠ .spawnPull)] at hpulled
      simp only [Task.step]
      split
      · rename_i hexe
        exact runInv_found hpulled hfind hexe
      · rename_i hexe
        rw [Setup.remaining, List.find?_cons_of_neg hexe] at hfind
        exact runInv_findNext hpulled hdisk hfind
  | findSteam dirs =>
      obtain ⟨hpulled, hdisk, hfind⟩ := h
      rw [← pulled_append (by simp : Pc.findSteam dirs ≠ .spawnPull)] at hpulled
      cases dirs with
      | nil => exact ⟨hpulled, hfind.symm⟩
      | cons cand dirs =>
          simp only [Task.step]
          split
          · rename_i hexe
            exact runInv_found hpulled hfind hexe
          · rename_i hexe
            rw [Setup.remaining, List.find?_cons_of_neg hexe] at hfind
            exact runInv_findNext hpulled hdisk hfind
  -- the search has failed, and nothing has been pulled yet
  | notFound =>
      simp only [Task.step]
      split
      · trivial
      · exact unpulled_append (by simp) h
  | pulling => exact unpulled_append (by simp) h
  | testSteamcmd =>
      simp only [Task.step]
      split <;> exact unpulled_append (by simp) h
  | makeDir =>
      simp only [Task.step]
      split
      · exact unpulled_append (by simp) h
      · trivial
  | download =>
      simp only [Task.step]
      split
      · exact unpulled_append (by simp) h
      · trivial
  | extracting =>
      cases e with
      | line | ok => exact unpulled_append (by simp) h
      | err | tick => trivial
  | testExtracted =>
      simp only [Task.step]
      split
      · trivial
      split <;> exact unpulled_append (by simp) h
  | probe =>
      simp only [Task.step]
      split
      · exact unpulled_append (by simp) h
      · trivial
  -- the only step that adds a pull to the trace
  | spawnPull =>
      simp only [Task.step]
      split
      · rename_i he
        exact ⟨by simp [Pulled, he], h.2⟩
      · trivial
  | pullLoop =>
      simp only [Task.step]
      split
      · trivial
      · exact still_pulled_append (by simp) h
  | pullWait =>
      cases e <;> exact still_pulled_append (by simp) h
  | line =>
      cases e <;> exact still_pulled_append (by simp) h
  | pullExit =>
      simp only [Task.step]
      split
      -- the pull is recorded for the directory it went into
      · obtain ⟨hpulled, hnone⟩ :=
          still_pulled_append (e := e) (by simp : Pc.pullExit ≠ .spawnPull) h
        exact ⟨hpulled, hnone, Function.update_self ..⟩
      · trivial
  | pulled =>
      simp only [Task.step]
      split
      · trivial
      · exact still_pulled_append (by simp) h
  | verify =>
      simp only [Task.step]
      split
      · rename_i hexe
        -- the executable is there, and it comes from the pull
        obtain ⟨hpulled, hnone, hpull⟩ :=
          still_pulled_append (e := e) (by simp : Pc.verify ≠ .spawnPull) h
        exact ⟨hexe, .inr ⟨hnone, hpulled, rfl, hpull⟩⟩
      · trivial
  | mark =>
      cases e <;> exact spawnsFrom_append (by simp) rfl rfl h
  | found dir => exact spawnsFrom_append (by simp) rfl rfl h
  | checkReady dir =>
      simp only [Task.step]
      split
      · trivial
      · exact spawnsFrom_append (by simp) rfl rfl h
  | prepare dir => exact spawnsFrom_append (by simp) rfl rfl h
  | soundcache dir => exact spawnsFrom_append (by simp) rfl rfl h
  | mapcycle dir => exact spawnsFrom_append (by simp) rfl rfl h
  | checkSpawn dir =>
      simp only [Task.step]
      split
      · trivial
      · exact spawnsFrom_append (by simp) rfl rfl h
  | spawn dir =>
      simp only [Task.step]
      split
      · exact spawnsFrom_append (by simp) rfl rfl h
      · trivial
  | place dir => exact spawnsFrom_append (by simp) rfl rfl h
  | running dir p => trivial
  -- past the spawn nothing is claimed any more
  | fill p =>
      simp only [Task.step]
      split <;> trivial
  | cheats => trivial
  | cancelled => trivial
  | failed => trivial
  | finished => trivial

theorem runInv_run (h : Run S args s₀ trace s pc) : RunInv S args s₀ trace s pc := by
  induction h with
  | start => exact ⟨by simp [Pulled], rfl, rfl⟩
  | step _ e hread ih => exact runInv_step ih hread
  | other _ s' hdisk ih => exact runInv_other ih hdisk
  | file _ exe hpull ih => exact runInv_file ih hpull

/-! ## Runs that get there -/

/-- Some run comes to `pc` without having been cancelled, with a disk that `P` holds of. -/
def Comes (S : Setup) (args : DsStartArgs) (s₀ : Shared) (P : Disk → Prop) (pc : Pc) : Prop :=
  ∃ trace s, Run S args s₀ trace s pc ∧ s.cancel = false ∧ P s.disk

namespace Comes

variable {P Q : Disk → Prop} {pc' : Pc}

theorem step (h : Comes S args s₀ P pc) (e : Event) (hread : pc = .findMarker → e = .ok)
    (hstep : ∀ s : Shared, s.cancel = false → P s.disk →
      (Task.step S ⟨args, pc⟩ e s).2 = pc' ∧ (Task.step S ⟨args, pc⟩ e s).1.cancel = false ∧
        Q (Task.step S ⟨args, pc⟩ e s).1.disk) : Comes S args s₀ Q pc' := by
  obtain ⟨trace, s, hrun, hcancel, hdisk⟩ := h
  obtain ⟨hpc, hcancel', hdisk'⟩ := hstep s hcancel hdisk
  rw [← hpc]
  exact ⟨_, _, hrun.step e hread, hcancel', hdisk'⟩

theorem weaken (h : Comes S args s₀ P pc) (hPQ : ∀ disk, P disk → Q disk) :
    Comes S args s₀ Q pc := by
  obtain ⟨trace, s, hrun, hcancel, hdisk⟩ := h
  exact ⟨trace, s, hrun, hcancel, hPQ _ hdisk⟩

end Comes

/-- Where the search ends. -/
def searchEnd : Option PathBuf → Pc
  | some dir => .found dir
  | none => .notFound

theorem comes_findNext {dirs : List PathBuf} (h : Comes S args s₀ (· = s₀.disk) (.findNext dirs)) :
    Comes S args s₀ (· = s₀.disk) (searchEnd (dirs.find? s₀.disk.exe)) := by
  -- the candidates that are left, one step each
  induction dirs with
  | nil => exact h
  | cons cand dirs ih =>
      by_cases hexe : s₀.disk.exe cand = true
      · rw [List.find?_cons_of_pos hexe]
        apply h.step .tick (by simp [Pc.findNext])
        rintro s hcancel hdisk
        simp [Pc.findNext, Task.step, hdisk, hexe, hcancel, searchEnd]
      · rw [List.find?_cons_of_neg hexe]
        apply ih
        apply h.step .tick (by simp [Pc.findNext])
        rintro s hcancel hdisk
        simp [Pc.findNext, Task.step, hdisk, hexe, hcancel]

/-- The search ends at the first location with an executable. -/
theorem comes_searchEnd : Comes S args s₀ (· = s₀.disk) (searchEnd (S.firstInstall s₀.disk)) := by
  have hstart : Comes S args s₀ (· = s₀.disk) .findLocal := ⟨_, _, .start, rfl, rfl⟩
  rw [Setup.firstInstall, Setup.locations]
  -- first the directory next to the controller
  by_cases hlocal : s₀.disk.exe S.localDir = true
  · rw [List.find?_cons_of_pos hlocal]
    apply hstart.step .tick (by simp)
    intro s hcancel hdisk
    simp [Task.step, hdisk, hlocal, hcancel, searchEnd]
  rw [List.find?_cons_of_neg hlocal]
  have hmarker : Comes S args s₀ (· = s₀.disk) .findMarker := by
    apply hstart.step .tick (by simp)
    intro s hcancel hdisk
    simp [Task.step, hdisk, hlocal, hcancel]
  -- then the one the marker names, then the candidates
  cases hmark : s₀.disk.marker with
  | none =>
      apply comes_findNext
      apply hmarker.step .ok (fun _ => rfl)
      intro s hcancel hdisk
      simp [Task.step, hdisk, hmark, hcancel]
  | some marked =>
      have hmarked : Comes S args s₀ (· = s₀.disk) (.findMarked marked) := by
        apply hmarker.step .ok (fun _ => rfl)
        intro s hcancel hdisk
        simp [Task.step, hdisk, hmark, hcancel]
      rw [Option.toList_some, List.singleton_append]
      by_cases hexe : s₀.disk.exe marked = true
      · rw [List.find?_cons_of_pos hexe]
        apply hmarked.step .tick (by simp)
        intro s hcancel hdisk
        simp [Task.step, hdisk, hexe, hcancel, searchEnd]
      · rw [List.find?_cons_of_neg hexe]
        apply comes_findNext
        apply hmarked.step .tick (by simp)
        intro s hcancel hdisk
        simp [Task.step, hdisk, hexe, hcancel]

/-- What has been found is spawned. -/
theorem comes_spawn (h : Comes S args s₀ (fun _ => True) (.checkReady dir)) :
    Comes S args s₀ (fun _ => True) (.spawn dir) := by
  have hprepare : Comes S args s₀ (fun _ => True) (.prepare dir) :=
    h.step .tick (by simp) fun s hcancel _ => by simp [Task.step, hcancel]
  have hsoundcache : Comes S args s₀ (fun _ => True) (.soundcache dir) :=
    hprepare.step .tick (by simp) fun s hcancel _ => ⟨rfl, hcancel, trivial⟩
  have hmapcycle : Comes S args s₀ (fun _ => True) (.mapcycle dir) :=
    hsoundcache.step .tick (by simp) fun s hcancel _ => ⟨rfl, hcancel, trivial⟩
  have hcheck : Comes S args s₀ (fun _ => True) (.checkSpawn dir) :=
    hmapcycle.step .tick (by simp) fun s hcancel _ => ⟨rfl, hcancel, trivial⟩
  exact hcheck.step .tick (by simp) fun s hcancel _ => by simp [Task.step, hcancel]

/-- Steamcmd can be got. -/
theorem comes_spawnPull (h : Comes S args s₀ (fun _ => True) .testSteamcmd) :
    Comes S args s₀ (fun _ => True) .spawnPull := by
  obtain ⟨trace, s, hrun, hcancel, -⟩ := h
  by_cases hsteamcmd : s.disk.steamcmd = true
  · have hthere : Comes S args s₀ (·.steamcmd = true) .testSteamcmd :=
      ⟨trace, s, hrun, hcancel, hsteamcmd⟩
    exact hthere.step .tick (by simp) fun s hcancel hdisk => by simp [Task.step, hcancel, hdisk]
  -- otherwise it is downloaded and unpacked, and on Linux it is probed
  have hmissing : Comes S args s₀ (·.steamcmd = false) .testSteamcmd :=
    ⟨trace, s, hrun, hcancel, by simpa using hsteamcmd⟩
  have hmake : Comes S args s₀ (fun _ => True) .makeDir :=
    hmissing.step .tick (by simp) fun s hcancel hdisk => by simp [Task.step, hcancel, hdisk]
  have hdownload : Comes S args s₀ (fun _ => True) .download :=
    hmake.step .ok (by simp) fun s hcancel _ => ⟨rfl, hcancel, trivial⟩
  have hextracting : Comes S args s₀ (fun _ => True) .extracting :=
    hdownload.step .ok (by simp) fun s hcancel _ => ⟨rfl, hcancel, trivial⟩
  -- unpacking writes it
  have hunpacked : Comes S args s₀ (·.steamcmd = true) .extracting :=
    hextracting.step .line (by simp) fun s hcancel _ => ⟨rfl, hcancel, rfl⟩
  have htest : Comes S args s₀ (·.steamcmd = true) .testExtracted :=
    hunpacked.step .ok (by simp) fun s hcancel hdisk => ⟨rfl, hcancel, hdisk⟩
  by_cases hos : S.os = .linux
  · have hprobe : Comes S args s₀ (fun _ => True) .probe :=
      htest.step .tick (by simp) fun s hcancel hdisk => by simp [Task.step, hcancel, hdisk, hos]
    exact hprobe.step .ok (by simp) fun s hcancel _ => ⟨rfl, hcancel, trivial⟩
  · exact htest.step .tick (by simp) fun s hcancel hdisk => by
      simp [Task.step, hcancel, hdisk, hos]

/-- What has not been found can be pulled. -/
theorem comes_pulled (h : Comes S args s₀ (fun _ => True) .notFound) :
    Comes S args s₀ (fun _ => True) (.checkReady (args.installDir.getD S.localDir)) := by
  have hpulling : Comes S args s₀ (fun _ => True) .pulling :=
    h.step .tick (by simp) fun s hcancel _ => by simp [Task.step, hcancel]
  have htest : Comes S args s₀ (fun _ => True) .testSteamcmd :=
    hpulling.step .tick (by simp) fun s hcancel _ => ⟨rfl, hcancel, trivial⟩
  have hloop : Comes S args s₀ (fun _ => True) .pullLoop :=
    (comes_spawnPull htest).step .ok (by simp) fun s hcancel _ => ⟨rfl, hcancel, trivial⟩
  have hwait : Comes S args s₀ (fun _ => True) .pullWait :=
    hloop.step .tick (by simp) fun s hcancel _ => by simp [Task.step, hcancel]
  -- steamcmd writes the executable
  have hwritten : Comes S args s₀ (·.exe (args.installDir.getD S.localDir) = true) .pullWait := by
    obtain ⟨trace, s, hrun, hcancel, -⟩ := hwait
    exact ⟨trace, _, hrun.file true rfl, hcancel, Function.update_self ..⟩
  have hexit : Comes S args s₀ (·.exe (args.installDir.getD S.localDir) = true) .pullExit :=
    hwritten.step .ok (by simp) fun s hcancel hdisk => ⟨rfl, hcancel, hdisk⟩
  have hdone : Comes S args s₀ (·.exe (args.installDir.getD S.localDir) = true) .pulled :=
    hexit.step .ok (by simp) fun s hcancel hdisk => ⟨rfl, hcancel, hdisk⟩
  have hverify : Comes S args s₀ (·.exe (args.installDir.getD S.localDir) = true) .verify :=
    hdone.step .tick (by simp) fun s hcancel hdisk => by simp [Task.step, hcancel, hdisk]
  have hmark : Comes S args s₀ (fun _ => True) .mark :=
    hverify.step .tick (by simp) fun s hcancel hdisk => by
      simp [Task.step, Task.installDir, hcancel, hdisk]
  exact hmark.step .ok (by simp) fun s hcancel _ => ⟨rfl, hcancel, trivial⟩

/-- A run that spawns the server. -/
theorem exists_run_spawn (S : Setup) (args : DsStartArgs) (s₀ : Shared) :
    ∃ trace s, Run S args s₀ trace s
      (.spawn ((S.firstInstall s₀.disk).getD (args.installDir.getD S.localDir))) := by
  have hend : Comes S args s₀ (· = s₀.disk) (searchEnd (S.firstInstall s₀.disk)) := comes_searchEnd
  have hready : Comes S args s₀ (fun _ => True)
      (.checkReady ((S.firstInstall s₀.disk).getD (args.installDir.getD S.localDir))) := by
    cases hfirst : S.firstInstall s₀.disk with
    | none =>
        rw [hfirst] at hend
        exact comes_pulled (hend.weaken fun _ _ => trivial)
    | some dir =>
        rw [hfirst] at hend
        exact hend.step .tick (by simp [searchEnd]) fun s hcancel _ => ⟨rfl, hcancel, trivial⟩
  obtain ⟨trace, s, hrun, -⟩ := comes_spawn hready
  exact ⟨trace, s, hrun⟩

/-! ## The directory a start names -/

/-- The server is spawned from `dir`, which is pulled into only when it holds no executable; and
`status` names it then. -/
def Honours (S : Setup) (args : DsStartArgs) (s₀ : Shared) (dir : PathBuf) : Prop :=
  ∀ trace s pc, Run S args s₀ trace s pc →
    (∀ src, pc = .spawn src →
      src = dir ∧ s.disk.exe dir = true ∧ (Pulled trace ↔ s₀.disk.exe dir = false) ∧
        (Pulled trace → s.disk.pull dir = .succeeded)) ∧
    ∀ src p, pc = .running src p → ∀ (m m' : State) (e : Event), m.shared = s →
      m.current = some ⟨args, pc⟩ → m.currentStep S e = some m' →
        ∀ running, (m'.status running).installDir = some dir

theorem firstInstall_of_honours {d : PathBuf}
    (h : Honours S { args with installDir := some d } s₀ d) :
    S.firstInstall s₀.disk = if s₀.disk.exe d then some d else none := by
  obtain ⟨trace, s, hrun⟩ := exists_run_spawn S { args with installDir := some d } s₀
  obtain ⟨hdir, -, hpulled, -⟩ := (h trace s _ hrun).1 _ rfl
  obtain ⟨-, ⟨hfirst, hnot⟩ | ⟨hfirst, hpull, -, -⟩⟩ := runInv_run hrun
  · have hexe : s₀.disk.exe d = true := by
      cases hexe : s₀.disk.exe d with
      | true => rfl
      | false => exact absurd (hpulled.2 hexe) hnot
    rw [hfirst, if_pos hexe, hdir]
  · rw [hfirst, hpulled.1 hpull]
    rfl

/-- The directory that a start names is used exactly when it is the first location that is
installed, or when nothing is installed there and at no location. -/
theorem honours_iff (S : Setup) (args : DsStartArgs) (s₀ : Shared) (d : PathBuf) :
    Honours S { args with installDir := some d } s₀ d ↔
      S.firstInstall s₀.disk = if s₀.disk.exe d then some d else none := by
  constructor
  · exact firstInstall_of_honours
  · intro hfirst trace s pc hrun
    have hinv := runInv_run hrun
    have hsrc : ∀ src, SpawnsFrom S { args with installDir := some d } s₀ trace s src →
        src = d ∧ s.disk.exe d = true ∧ (Pulled trace ↔ s₀.disk.exe d = false) ∧
          (Pulled trace → s.disk.pull d = .succeeded) := by
      rintro src ⟨hexe, ⟨hsome, hnot⟩ | ⟨hnone, hpull, rfl, hsucceeded⟩⟩
      · rw [hsome] at hfirst
        split at hfirst
        · rename_i hd
          cases hfirst
          exact ⟨rfl, hexe, by simp [hnot, hd], fun h => absurd h hnot⟩
        · cases hfirst
      · rw [hnone] at hfirst
        split at hfirst
        · cases hfirst
        · rename_i hd
          exact ⟨rfl, hexe, by simp [hpull, hd], fun _ => hsucceeded⟩
    refine ⟨?_, ?_⟩
    · rintro src rfl
      exact hsrc src hinv
    · rintro src p rfl m m' e - hcurrent hstep
      obtain ⟨rfl, -⟩ := hsrc src hinv
      rw [State.currentStep, hcurrent] at hstep
      cases hstep
      exact fun _ => rfl

/-- With a server in the bundle directory, another directory is not looked at. -/
theorem exists_dir_not_honoured :
    ¬ Honours .sample { defaultArgs with installDir := some (.unicode "games/ds") }
      (State.new .installed).shared (.unicode "games/ds") := by
  intro h
  have hfirst := firstInstall_of_honours h
  have hlocal : Setup.sample.firstInstall (State.new .installed).shared.disk =
      some (.unicode "svends") := rfl
  have hexe : (State.new .installed).shared.disk.exe (.unicode "games/ds") = true := rfl
  rw [hlocal, if_pos hexe] at hfirst
  simp at hfirst

end Ds
end SvenBridge
