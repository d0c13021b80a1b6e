import Mathlib.Tactic.Common

/-!
# Steamcmd.Path — Windows paths

The paths of the standard library on Windows, taken apart into prefix, root and components.  This
file defines

* `parsePrefix` and `Path.parse` — a path out of its text;
* `Path.join` and `Path.parent`;
* `Path.ancestor` — what is left of a path after some of its components.
-/

namespace SvenBridge
namespace Steamcmd

/-! ## Separators and prefixes -/

def isSep (c : Char) : Bool :=
  c = '\\' || c = '/'

def isVerbatimSep (c : Char) : Bool :=
  c = '\\'

/-- `std::path::Prefix`. -/
inductive Prefix where
  | verbatim (name : List Char)
  | verbatimUnc (server share : List Char)
  | verbatimDisk (letter : Char)
  | deviceNs (name : List Char)
  | unc (server share : List Char)
  | disk (letter : Char)
  deriving DecidableEq

namespace Prefix

def isVerbatim : Prefix → Bool
  | verbatim _ | verbatimUnc _ _ | verbatimDisk _ => true
  | _ => false

/-- All but `C:` are at a root by themselves. -/
def hasImplicitRoot : Prefix → Bool
  | disk _ => false
  | _ => true

def length : Prefix → ℕ
  | verbatim name => 4 + name.length
  | verbatimUnc server share =>
      8 + server.length + if share.length > 0 then 1 + share.length else 0
  | verbatimDisk _ => 6
  | deviceNs name => 4 + name.length
  | unc server share => 2 + server.length + if share.length > 0 then 1 + share.length else 0
  | disk _ => 2

end Prefix

/-- The rest of `path` behind `front`, where a `/` of the path counts as a `\`. -/
def stripFront (front path : List Char) : Option (List Char) :=
  if (path.take front.length).map (fun c => if c = '/' then '\\' else c) = front then
    some (path.drop front.length)
  else
    none

/-- `parse_next_component`: what stands before the first separator, and behind it. -/
def nextComponent (path : List Char) (verbatim : Bool) : List Char × List Char :=
  let sep := if verbatim then isVerbatimSep else isSep
  (path.takeWhile fun c => !sep c, (path.dropWhile fun c => !sep c).drop 1)

def parseDrive : List Char → Option Char
  | letter :: ':' :: _ => if letter.isAlpha then some letter.toUpper else none
  | _ => none

/-- The drive, if nothing else stands before the first separator. -/
def parseDriveExact (path : List Char) : Option Char :=
  if (path[2]?).all isSep then parseDrive path else none

def parsePrefix (path : List Char) : Option Prefix :=
  match stripFront "\\\\".toList path with
  | none => (parseDrive path).map .disk
  | some rest =>
      match stripFront "?\\".toList rest with
      | some verbatim =>
          -- a verbatim path is none with the other separator in it
          if '/' ∉ path.take 4 then
            match stripFront "UNC\\".toList verbatim with
            | some unc =>
                let (server, rest) := nextComponent unc true
                some (.verbatimUnc server (nextComponent rest true).1)
            | none =>
                match parseDriveExact verbatim with
                | some letter => some (.verbatimDisk letter)
                | none => some (.verbatim (nextComponent verbatim true).1)
          else
            parseUnc rest
      | none =>
          match stripFront ".\\".toList rest with
          | some device => some (.deviceNs (nextComponent device false).1)
          | none => parseUnc rest
where
  parseUnc (path : List Char) : Option Prefix :=
    let (server, rest) := nextComponent path false
    let share := (nextComponent rest false).1
    if server ≠ [] ∧ share ≠ [] then some (.unc server share) else none

/-! ## Paths -/

inductive Component where
  | curDir
  | parentDir
  | normal (name : List Char)
  deriving DecidableEq

/-- A path as `components` gives it. -/
structure Path where
  pre : Option Prefix
  root : Bool
  comps : List Component
  deriving DecidableEq

namespace Path

def isVerbatim (p : Path) : Bool :=
  p.pre.any Prefix.isVerbatim

def isEmpty (p : Path) : Bool :=
  p.pre.isNone && !p.root && p.comps.isEmpty

/-- A `.` is a component of a verbatim path only. -/
def parseComponent (verbatim : Bool) (name : List Char) : Option Component :=
  if name = [] then none
  else if name = ['.'] then if verbatim then some .curDir else none
  else if name = ['.', '.'] then some .parentDir
  else some (.normal name)

def parse (text : List Char) : Path :=
  let pre := parsePrefix text
  let rest := text.drop (pre.elim 0 Prefix.length)
  let verbatim := pre.any Prefix.isVerbatim
  { pre
    root := rest.head?.any isSep || pre.any Prefix.hasImplicitRoot
    comps := (rest.splitOnP (if verbatim then isVerbatimSep else isSep)).filterMap
      (parseComponent verbatim) }

/-- One component pushed onto a verbatim path, which is kept free of `.` and `..`. -/
def pushVerbatim (comps : List Component) : Component → List Component
  | .curDir => comps
  | .parentDir =>
      match comps.getLast? with
      | some (.normal _) => comps.dropLast
      | _ => comps
  | .normal name => comps ++ [.normal name]

/-- `Path::join`, as `PathBuf::push` does it. -/
def join (base path : Path) : Path :=
  -- an absolute path, or one of another drive, takes the place of all
  if path.pre.isSome then
    path
  else if base.isVerbatim then
    { base with
      root := base.root || path.root
      comps := path.comps.foldl pushVerbatim (if path.root then [] else base.comps) }
  -- `\windows` keeps the drive
  else if path.root then
    { base with root := true, comps := path.comps }
  else
    { base with comps := base.comps ++ path.comps }

def parent (p : Path) : Option Path :=
  if p.comps = [] then none else some { p with comps := p.comps.dropLast }

/-- The first `n` components. -/
def ancestor (p : Path) (n : ℕ) : Path :=
  { p with comps := p.comps.take n }

@[simp] theorem ancestor_isVerbatim (p : Path) (n : ℕ) : (p.ancestor n).isVerbatim = p.isVerbatim :=
  rfl

theorem ancestor_length (p : Path) : p.ancestor p.comps.length = p := by
  rw [ancestor, List.take_length]

/-- Each ancestor is the parent of the next. -/
theorem parent_ancestor {p : Path} {n : ℕ} (hn : n < p.comps.length) :
    (p.ancestor (n + 1)).parent = some (p.ancestor n) := by
  have hne : p.comps.take (n + 1) ≠ [] := by
    intro hnil
    have hlength := congrArg List.length hnil
    rw [List.length_take, List.length_nil] at hlength
    omega
  have hdrop : (p.comps.take (n + 1)).dropLast = p.comps.take n := by
    rw [List.dropLast_eq_take, List.take_take, List.length_take]
    congr 1
    omega
  rw [parent, ancestor, if_neg hne, ancestor, hdrop]

end Path
end Steamcmd
end SvenBridge
