import SvenBridge.Controller.Settings

/-!
# Ds.Live — the live record of the dedicated server

`DsLive` is the record the foreground and the background task of the dedicated server share.  Its
download progress and its last output line are shown and never read, and are left out.
-/

namespace SvenBridge
namespace Ds

open Controller

/-- Operating system. -/
inductive Os where
  | linux
  | windows
  | macos
  | other
  deriving DecidableEq

/-- The dedicated server ships only for Windows and Linux. -/
def Os.supportsDedicatedServer : Os → Bool
  | .linux | .windows => true
  | .macos | .other => false

/-- Lifecycle phase of the dedicated server. -/
inductive DsPhase where
  | idle
  | pulling
  | starting
  | running
  | error
  deriving DecidableEq

structure DsLive where
  phase : DsPhase
  port : Option (BitVec 16)
  installDir : Option PathBuf
  svCheats : Bool
  deriving DecidableEq

namespace DsLive

def default : DsLive where
  phase := .idle
  port := none
  installDir := none
  svCheats := false

def set (l : DsLive) (phase : DsPhase) : DsLive :=
  { l with phase }

/-- A start/pull is in flight or the server is running: the test of `is_running` and of `start`. -/
def isBusy (l : DsLive) : Bool :=
  l.phase == .pulling || l.phase == .starting || l.phase == .running

/-- What `start` does to the record. -/
def started (l : DsLive) : DsLive :=
  { l.set .pulling with port := none, installDir := none }

/-- `set_idle`, and the end of `stop`. -/
def setIdle (l : DsLive) : DsLive :=
  { l.set .idle with port := none, installDir := none, svCheats := false }

def setError (l : DsLive) : DsLive :=
  { l.set .error with port := none, installDir := none, svCheats := false }

end DsLive
end Ds
end SvenBridge
