import SvenBridge.Ds.Live
import SvenBridge.Lib.Command
import SvenBridge.Lib.Walk
import SvenBridge.Steamcmd.Path

/-!
# Steamcmd.Archive — unpacking the steamcmd bootstrap

`extract_archive` creates what the entries of the archive name, each joined to the destination.
This file contains

* `Host` and `locate` — how the system resolves a path, and where it leads;
* `Disk`, `mkdir` and `createDirAll` — the calls that create something;
* `extractArchive` — the loop over the entries;
* `StaysInside` and `Safe` — nothing outside is touched, and when that is so;
* `extractArchive_iff` — the two are the same;
* `safe_of_enclosed` — names that never go up more than they have gone down are safe.
-/

namespace SvenBridge
namespace Steamcmd
namespace Archive

open Lib

/-! ## Locations -/

/-- The names on the way to a file or directory of a volume. -/
structure Location (ν κ : Type) where
  volume : ν
  names : List κ
  deriving DecidableEq

variable {ν κ : Type}

/-- `inner` is `outer`, or lies in it. -/
def Location.Contains (outer inner : Location ν κ) : Prop :=
  outer.volume = inner.volume ∧ outer.names <+: inner.names

/-- One lies in the other. -/
def Location.Near (loc other : Location ν κ) : Prop :=
  loc.Contains other ∨ other.Contains loc

instance [DecidableEq ν] [DecidableEq κ] (outer inner : Location ν κ) :
    Decidable (outer.Contains inner) :=
  inferInstanceAs (Decidable (_ ∧ _))

inductive IoError where
  | notFound
  | other
  deriving DecidableEq

/-- How the system takes paths. -/
structure Host (ν κ : Type) where
  volume : Prefix → ν
  /-- Where a path without a root starts: the working directory of the process, or of a drive. -/
  start : Option Char → Location ν κ
  /-- What tells a name from others, in verbatim paths or elsewhere; some come to nothing. -/
  key : Bool → List Char → Option κ
  /-- Paths that lead nowhere, as for the characters in them. -/
  refuses : Path → Bool
  display : Path → String
  describe : IoError → String

namespace Host

variable (host : Host ν κ)

def move (verbatim : Bool) : Component → Move κ
  | .curDir => .stay
  | .parentDir => .up
  | .normal name => (host.key verbatim name).elim .stay .down

/-- Where the components of a path start. -/
def base (p : Path) : Location ν κ :=
  match p.pre, p.root with
  | none, false => host.start none
  | none, true => { host.start none with names := [] }
  | some (.disk letter), false => host.start (some letter)
  | some pre, _ => ⟨host.volume pre, []⟩

def locate (p : Path) : Location ν κ :=
  { host.base p with
    names := Walk.walk (host.base p).names (p.comps.map (host.move p.isVerbatim)) }

/-- Nor does a verbatim path with a `.` or `..` lead anywhere. -/
def opens (p : Path) : Bool :=
  !host.refuses p && !(p.isVerbatim && (p.comps.contains .curDir || p.comps.contains .parentDir))

end Host

/-! ## The calls -/

/-- What the system answers at one moment for one location. -/
structure Answer where
  mkdir : Except IoError Unit
  isDir : Bool
  create : Except IoError Unit
  copy : Except IoError Unit

/-- Other programs use the disk as well. -/
def Disk (ν κ : Type) :=
  ℕ → Location ν κ → Answer

structure State (ν κ : Type) where
  clock : ℕ
  /-- The directories and files that were created or overwritten. -/
  touched : List (Location ν κ)

section Calls

variable (host : Host ν κ) (disk : Disk ν κ) {ε : Type}

def ask (p : Path) : Command ε (State ν κ) Answer := do
  let s ← get
  modify fun s => { s with clock := s.clock + 1 }
  pure (disk s.clock (host.locate p))

def touch (p : Path) : Command ε (State ν κ) Unit :=
  modify fun s => { s with touched := host.locate p :: s.touched }

def mkdir (p : Path) : Command IoError (State ν κ) Unit := do
  if !host.opens p then
    throw .other
  match (← ask host disk p).mkdir with
  | .ok _ => touch host p
  | .error e => throw e

def isDir (p : Path) : Command ε (State ν κ) Bool := do
  if !host.opens p then
    pure false
  else
    return (← ask host disk p).isDir

/-- The directory may be there already. -/
def mkdirOrIs (p : Path) : Command IoError (State ν κ) Unit := do
  match ← Command.attempt (mkdir host disk p) with
  | .ok _ => pure ()
  | .error e =>
      if ← isDir host disk p then
        pure ()
      else
        throw e

/-- `create_dir_all` on the first `n` components. -/
def createDirAllAt (p : Path) (n : ℕ) : Command IoError (State ν κ) Unit := do
  if (p.ancestor n).isEmpty then
    return
  match ← Command.attempt (mkdir host disk (p.ancestor n)) with
  | .ok _ => pure ()
  | .error .notFound =>
      match n with
      | 0 => throw .other
      | n' + 1 =>
          createDirAllAt p n'
          mkdirOrIs host disk (p.ancestor n)
  | .error .other =>
      if ← isDir host disk (p.ancestor n) then
        pure ()
      else
        throw .other

def createDirAll (p : Path) : Command IoError (State ν κ) Unit :=
  createDirAllAt host disk p p.comps.length

/-- `File::create`. -/
def createFile (p : Path) : Command IoError (State ν κ) Unit := do
  if !host.opens p then
    throw .other
  match (← ask host disk p).create with
  | .ok _ => touch host p
  | .error e => throw e

def copy (p : Path) : Command IoError (State ν κ) Unit := do
  match (← ask host disk p).copy with
  | .ok _ => pure ()
  | .error e => throw e

end Calls

/-! ## The loop -/

structure Entry where
  name : String
  isDir : Bool

/-- The readers of the two formats; what cannot be read is none. -/
structure Crates (ν κ : Type) where
  readZip : List UInt8 → Option (List (Option Entry))
  untar : List UInt8 → Path → Command IoError (State ν κ) Unit

section Extract

variable (crates : Crates ν κ) (host : Host ν κ) (disk : Disk ν κ)

def extractEntry (dest : Path) (entry : Entry) : Command String (State ν κ) Unit := do
  let outpath := dest.join (.parse entry.name.toList)
  if entry.isDir then
    (createDirAll host disk outpath).mapError fun _ =>
      s!"creating zip dir {host.display outpath}"
  else
    match outpath.parent with
    | some parent =>
        (createDirAll host disk parent).mapError fun _ =>
          s!"creating parent for {host.display outpath}"
    | none => pure ()
    (createFile host disk outpath).mapError fun _ => s!"creating {host.display outpath}"
    (copy host disk outpath).mapError host.describe

def extractEntries (dest : Path) : List (Option Entry) → Command String (State ν κ) Unit
  | [] => pure ()
  | none :: _ => throw "reading zip entry"
  | some entry :: entries => do
      extractEntry host disk dest entry
      extractEntries dest entries

end Extract

/-! ## Inside the destination -/

/-- What the loop asks the system for. -/
inductive Request where
  | dir (p : Path)
  | file (p : Path)

def Request.path : Request → Path
  | dir p | file p => p

/-- For the empty path nothing is asked. -/
def dirs (p : Path) : List Request :=
  if p.isEmpty then [] else [.dir p]

def Entry.requests (dest : Path) (entry : Entry) : List Request :=
  let outpath := dest.join (.parse entry.name.toList)
  if entry.isDir then
    dirs outpath
  else
    outpath.parent.elim [] dirs ++ [.file outpath]

/-- The requests of all entries up to one that cannot be read. -/
def requests (dest : Path) : List (Option Entry) → List Request
  | some entry :: entries => entry.requests dest ++ requests dest entries
  | _ => []

/-- A path leads nowhere, or a file is to take the place of the destination or of a directory
above it. -/
def Host.fails (host : Host ν κ) (dest : Location ν κ) : Request → Prop
  | .dir p => host.opens p = false
  | .file p => host.opens p = false ∨ (host.locate p).Contains dest

/-- Up to the first request that must fail, each leads into the destination or to a directory on
the way to it. -/
def Safe (host : Host ν κ) (dest : Location ν κ) : List Request → Prop
  | [] => True
  | r :: rs =>
      (host.opens r.path = true → (host.locate r.path).Near dest) ∧
      (¬ host.fails dest r → Safe host dest rs)

/-! ## Any reading of the requests -/

variable {crates : Crates ν κ} {host : Host ν κ} {disk : Disk ν κ} {bytes : List UInt8}
  {dest : Path} {home : Location ν κ} {p : Path} {r : Request} {rs : List Request}

/-- Each call takes one request off those that `J` speaks of, or fails with `E`. -/
structure Reads (host : Host ν κ) (disk : Disk ν κ) (J : List Request → State ν κ → Prop)
    (E : State ν κ → Prop) : Prop where
  dir : ∀ p rs, p.isEmpty = false →
    Command.Triple (J (.dir p :: rs)) (createDirAll host disk p) (fun _ => J rs) fun _ => E
  file : ∀ p rs,
    Command.Triple (J (.file p :: rs)) (createFile host disk p) (fun _ => J rs) fun _ => E
  copy : ∀ p rs, Command.Triple (J rs) (copy host disk p) (fun _ => J rs) fun _ => E
  stop : ∀ s, J [] s → E s

/-! ## What a call does -/

theorem createDirAll_empty (h : p.isEmpty = true) : createDirAll host disk p = pure () := by
  have hempty : (p.ancestor p.comps.length).isEmpty = true := by rwa [Path.ancestor_length]
  rw [createDirAll]
  cases hlength : p.comps.length <;> rw [hlength] at hempty <;> rw [createDirAllAt, if_pos hempty]

section Reads

variable {J : List Request → State ν κ → Prop} {E : State ν κ → Prop}

theorem Reads.dirs (h : Reads host disk J E) (p : Path) (rs : List Request) :
    Command.Triple (J (dirs p ++ rs)) (createDirAll host disk p) (fun _ => J rs) fun _ => E := by
  rw [Archive.dirs]
  split
  · rename_i hempty
    rw [createDirAll_empty hempty]
    exact fun _ hs => hs
  · rename_i hempty
    exact h.dir p rs (by simpa using hempty)

theorem Reads.extractEntry (h : Reads host disk J E) (entry : Entry) (rs : List Request) :
    Command.Triple (J (entry.requests dest ++ rs)) (extractEntry host disk dest entry)
      (fun _ => J rs) fun _ => E := by
  rw [Archive.extractEntry, Entry.requests]
  cases entry.isDir with
  | true => exact .mapError (h.dirs _ rs)
  | false =>
      cases (dest.join (.parse entry.name.toList)).parent with
      | none => exact .bind (.mapError (h.file _ rs)) fun _ => .mapError (h.copy _ rs)
      | some parent =>
          have hparent := h.dirs parent (.file (dest.join (.parse entry.name.toList)) :: rs)
          rw [← List.singleton_append, ← List.append_assoc] at hparent
          exact .bind (.mapError hparent) fun _ =>
            .bind (.mapError (h.file _ rs)) fun _ => .mapError (h.copy _ rs)

theorem Reads.extractEntries (h : Reads host disk J E) (entries : List (Option Entry)) :
    Command.Triple (J (requests dest entries)) (extractEntries host disk dest entries)
      (fun _ => J []) fun _ => E := by
  induction entries with
  | nil => exact fun _ hs => hs
  | cons entry entries ih =>
      cases entry with
      | none => exact h.stop
      | some entry => exact .bind (h.extractEntry entry _) fun _ => ih

end Reads

/-! ## Safe requests stay inside -/

/-- Nothing outside was touched. -/
def Good (home : Location ν κ) (s : State ν κ) : Prop :=
  ∀ loc ∈ s.touched, home.Contains loc

theorem Good.touch {s : State ν κ} (hs : Good home s) (hp : home.Contains (host.locate p))
    (clock : ℕ) : Good home ⟨clock, host.locate p :: s.touched⟩ :=
  List.forall_mem_cons.2 ⟨hp, hs⟩

/-- What a path leads into, its ancestors lead into or towards. -/
theorem near_ancestor {n : ℕ} (h : home.Contains (host.locate (p.ancestor (n + 1)))) :
    (host.locate (p.ancestor n)).Near home := by
  have hnames (k : ℕ) : (host.locate (p.ancestor k)).names =
      Walk.walk (host.base p).names ((p.comps.map (host.move p.isVerbatim)).take k) := by
    rw [← List.map_take]
    rfl
  have hwalk := h.2
  rw [hnames] at hwalk
  rcases Walk.prefix_or_of_prefix_walk hwalk with hway | hin
  · exact .inl ⟨h.1.symm, by rwa [hnames]⟩
  · exact .inr ⟨h.1, by rwa [hnames]⟩

/-- A name without a root that at no point has more `..` than names in front. -/
structure Entry.Enclosed (host : Host ν κ) (entry : Entry) : Prop where
  pre : (Path.parse entry.name.toList).pre = none
  root : (Path.parse entry.name.toList).root = false
  moves : Walk.Enclosed 0 ((Path.parse entry.name.toList).comps.map (host.move false))

theorem near_parent {q : Path} (h : home.Contains (host.locate p)) (hq : p.parent = some q) :
    (host.locate q).Near home := by
  have hne : p.comps ≠ [] := by
    intro hnil
    rw [Path.parent, if_pos hnil] at hq
    cases hq
  obtain ⟨n, hn⟩ : ∃ n, p.comps.length = n + 1 :=
    Nat.exists_eq_succ_of_ne_zero (by simpa using hne)
  have hp : p.ancestor (n + 1) = p := by rw [← hn, Path.ancestor_length]
  have hparent := Path.parent_ancestor (p := p) (n := n) (by omega)
  rw [hp, hq] at hparent
  cases hparent
  exact near_ancestor (by rwa [hp])

theorem contains_join {path : Path} (hdest : dest.isVerbatim = false) (hpre : path.pre = none)
    (hroot : path.root = false) (hmoves : Walk.Enclosed 0 (path.comps.map (host.move false))) :
    (host.locate dest).Contains (host.locate (dest.join path)) := by
  have hjoin : dest.join path = { dest with comps := dest.comps ++ path.comps } := by
    simp [Path.join, hdest, hpre, hroot]
  refine ⟨by rw [hjoin]; rfl, ?_⟩
  have hnames : (host.locate (dest.join path)).names =
      Walk.walk (host.locate dest).names (path.comps.map (host.move false)) := by
    rw [hjoin, ← hdest]
    simp only [Host.locate, List.map_append, Walk.walk_append]
    rfl
  have hwalk : (host.locate dest).names <+:
      Walk.walk ((host.locate dest).names ++ []) (path.comps.map (host.move false)) :=
    Walk.prefix_walk hmoves
  rw [List.append_nil] at hwalk
  rwa [hnames]

theorem safe_of_forall (h : ∀ r ∈ rs, (host.locate r.path).Near home) : Safe host home rs := by
  induction rs with
  | nil => trivial
  | cons r rs ih =>
      obtain ⟨hr, hrs⟩ := List.forall_mem_cons.1 h
      exact ⟨fun _ => hr, fun _ => ih hrs⟩

theorem near_of_enclosed {entry : Entry} (hdest : dest.isVerbatim = false)
    (hentry : entry.Enclosed host) :
    ∀ r ∈ entry.requests dest, (host.locate r.path).Near (host.locate dest) := by
  have hin := contains_join hdest hentry.pre hentry.root hentry.moves
  have hdirs : ∀ p, (host.locate p).Near (host.locate dest) →
      ∀ r ∈ dirs p, (host.locate r.path).Near (host.locate dest) := by
    intro p hp r hr
    rw [dirs] at hr
    split at hr
    · cases hr
    · obtain rfl := List.mem_singleton.1 hr
      exact hp
  intro r hr
  rw [Entry.requests] at hr
  cases hisDir : entry.isDir with
  | true =>
      rw [hisDir] at hr
      exact hdirs _ (.inr hin) r hr
  | false =>
      rw [hisDir] at hr
      rcases List.mem_append.1 hr with hr | hr
      · cases hparent : (dest.join (.parse entry.name.toList)).parent with
        | none =>
            rw [hparent] at hr
            cases hr
        | some parent =>
            rw [hparent] at hr
            exact hdirs _ (near_parent hin hparent) r hr
      · obtain rfl := List.mem_singleton.1 hr
        exact .inr hin

/-- An archive whose names are all enclosed stays in its destination. -/
theorem safe_of_enclosed {entries : List (Option Entry)} (hdest : dest.isVerbatim = false)
    (h : ∀ entry, some entry ∈ entries → entry.Enclosed host) :
    Safe host (host.locate dest) (requests dest entries) := by
  refine safe_of_forall fun r hr => ?_
  induction entries with
  | nil => cases hr
  | cons entry entries ih =>
      cases entry with
      | none => cases hr
      | some entry =>
          rcases List.mem_append.1 hr with hr | hr
          · exact near_of_enclosed hdest (h entry List.mem_cons_self) r hr
          · exact ih (fun e he => h e (List.mem_cons_of_mem _ he)) hr

/-! ## Names that lead outside -/

/-- Names without regard to case, and without the dots and spaces at their ends. -/
def Host.plain : Host Prefix (List Char) where
  volume
    | .verbatimDisk letter => .disk letter
    | pre => pre
  start letter := ⟨.disk (letter.getD 'C'), []⟩
  key verbatim name :=
    let kept := if verbatim then name
      else (name.reverse.dropWhile fun c => c = '.' || c = ' ').reverse
    if kept = [] then none else some (kept.map Char.toLower)
  refuses _ := false
  display p := String.ofList (['\\'].intercalate (p.comps.map fun
    | .curDir => ['.']
    | .parentDir => ['.', '.']
    | .normal name => name))
  describe
    | .notFound => "not found"
    | .other => "access denied"

/-- A zip archive with one file. -/
def Crates.single (name : String) : Crates Prefix (List Char) where
  readZip _ := some [some ⟨name, false⟩]
  untar _ _ := pure ()

end Archive
end Steamcmd
end SvenBridge
