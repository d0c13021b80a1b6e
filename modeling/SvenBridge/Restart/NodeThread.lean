import SvenBridge.Controller.Operations

/-!
# Restart.NodeThread — the thread of a client node

`spawn_bridge_node` gives a node a thread and a runtime of its own, and tells the caller over two
oneshot channels how the start has gone and when everything is torn down.  This file contains

* `Task` — the tasks of a client node, and which of them share the UDP socket;
* `NodeThread` and `NodeThread.step` — the thread, one call after the other;
* `NodeThread.Inv` — what each channel says about the runtime;
* `NodeThread.Over` — a start that has failed, or a node that is torn down.
-/

namespace SvenBridge
namespace Restart

open Controller Lib

/-! ## Tasks -/

/-- The tasks on a client node's runtime. -/
inductive Task where
  -- spawned by the build
  | tcpServer
  | pathProbe
  | router
  | udp
  /-- A link for one game client, and its two directions. -/
  | relay
  | send
  | recv
  /-- Whatever the node and its interfaces spawn. -/
  | node
  deriving DecidableEq

namespace Task

/-- The tasks that hold the UDP socket. -/
def holdsUdp : Task → Bool
  | udp | relay | recv => true
  | _ => false

/-- What a task spawns. -/
def spawns : Task → List Task
  | udp => [relay]
  | relay => [send, recv]
  | node => [node]
  | _ => []

/-- The tasks `build` leaves on the runtime. -/
def built (args : ClientArgs) : List Task :=
  let bindsServer := (args.tcp.bind fun addr => splitAtLastColon addr.toList).any fun (host, _) =>
    bindsHere host
  (if bindsServer then [tcpServer] else []) ++ (if args.serverHash.isSome then [pathProbe] else []) ++
    [router, udp]

end Task

/-! ## The thread -/

/-- What `parse_destination_hash` and `validate_hex_hash` take. -/
def isHash (hex : String) : Bool :=
  match Hex.decode (trim hex) with
  | .ok bytes => bytes.length = 16
  | .error _ => false

inductive Runtime where
  | unbuilt
  | live
  | dropped
  deriving DecidableEq

/-- The `done` channel, as its receiver sees it. -/
inductive Done where
  | pending
  | sent
  /-- The sender was dropped. -/
  | closed
  deriving DecidableEq

/-- The next call of the thread. -/
inductive Pc where
  | buildRuntime
  -- inside the block: the build of the node
  | prepare
  | bind
  | wire
  | sendInit
  | select
  -- the block has returned
  | dropRuntime
  | signal
  | ended
  deriving DecidableEq

structure NodeThread where
  args : ClientArgs
  pc : Pc
  runtime : Runtime
  /-- The UDP socket has been bound. -/
  bound : Bool
  tasks : List Task
  /-- What `init` has carried: does the node run? -/
  init : Option Bool
  /-- A stop has been sent. -/
  stopSent : Bool
  done : Done

inductive ThreadAct where
  /-- The thread goes on; `ok` says whether a call that may fail succeeds. -/
  | go (ok : Bool)
  /-- The node's own run ends. -/
  | exits
  /-- The node's run spawns a task. -/
  | nodeSpawns
  | taskSpawns (task child : Task)
  | taskEnds (task : Task)
  deriving DecidableEq

namespace NodeThread

/-- The thread of a start. -/
def new (args : ClientArgs) : NodeThread where
  args
  pc := .buildRuntime
  runtime := .unbuilt
  bound := false
  tasks := []
  init := none
  stopSent := false
  done := .pending

variable (n : NodeThread)

/-- The build fails: `init` says so, and the block returns. -/
def fails : NodeThread :=
  { n with init := some false, pc := .dropRuntime }

/-- The thread goes on. -/
def go (ok : Bool) : Option NodeThread :=
  match n.pc with
  | .buildRuntime =>
      if ok then
        some { n with runtime := .live, pc := .prepare }
      else
        some { n with init := some false, done := .closed, pc := .ended }
  | .prepare =>
      -- the identity, then the server's hash
      if ok && n.args.serverHash.all isHash then some { n with pc := .bind } else some n.fails
  | .bind => if ok then some { n with bound := true, pc := .wire } else some n.fails
  | .wire => some { n with tasks := n.tasks ++ Task.built n.args, pc := .sendInit }
  | .sendInit => some { n with init := some true, pc := .select }
  | .select => if n.stopSent then some { n with pc := .dropRuntime } else none
  | .dropRuntime => some { n with runtime := .dropped, tasks := [], pc := .signal }
  | .signal => some { n with done := .sent, pc := .ended }
  | .ended => none

/-- One step of the thread: its tasks move only while it waits in `select`. -/
def step : ThreadAct → Option NodeThread
  | .go ok => n.go ok
  | .exits => if n.pc = .select then some { n with pc := .dropRuntime } else none
  | .nodeSpawns => if n.pc = .select then some { n with tasks := n.tasks ++ [.node] } else none
  | .taskSpawns task child =>
      if n.pc = .select ∧ task ∈ n.tasks ∧ child ∈ task.spawns then
        some { n with tasks := n.tasks ++ [child] }
      else
        none
  | .taskEnds task =>
      if n.pc = .select ∧ task ∈ n.tasks then
        some { n with tasks := n.tasks.erase task }
      else
        none

/-- The UDP socket is open: the build or one of the tasks holds it. -/
def socketOpen : Bool :=
  n.pc == .wire || n.tasks.any Task.holdsUdp

/-! ## What the channels say -/

end NodeThread

namespace Pc

/-- Nothing has been sent over `init`. -/
def starting : Pc → Bool
  | buildRuntime | prepare | bind | wire | sendInit => true
  | _ => false

/-- The bind is still to come. -/
def beforeBind : Pc → Bool
  | buildRuntime | prepare | bind => true
  | _ => false

/-- The block runs. -/
def inBlock : Pc → Bool
  | prepare | bind | wire | sendInit | select => true
  | _ => false

/-- The block runs, and has bound the socket. -/
def afterBind : Pc → Bool
  | wire | sendInit | select => true
  | _ => false

/-- There may be tasks on the runtime. -/
def populated : Pc → Bool
  | sendInit | select | dropRuntime => true
  | _ => false

end Pc

namespace NodeThread

variable {n n' : NodeThread} {a : ThreadAct}

/-- How far the thread is, read off what it has sent. -/
structure Inv (n : NodeThread) : Prop where
  init : n.init = none ↔ n.pc.starting = true
  unbuilt : n.pc = .buildRuntime → n.runtime = .unbuilt
  live : n.pc.inBlock = true → n.runtime = .live
  unlive : n.pc = .signal ∨ n.pc = .ended → n.runtime ≠ .live
  unbound : n.pc.beforeBind = true → n.bound = false
  bound : n.pc.afterBind = true → n.bound = true
  failed : n.init = some false → n.bound = false
  built : n.bound = true → n.runtime ≠ .unbuilt
  tasks : n.tasks ≠ [] → n.bound = true ∧ n.pc.populated = true
  done : n.done ≠ .pending → n.pc = .ended

/-- The start has failed, or the thread has signalled `done`. -/
def Over (n : NodeThread) : Prop :=
  n.init = some false ∨ n.done ≠ .pending

theorem Inv.new (args : ClientArgs) : (NodeThread.new args).Inv := by
  constructor <;> simp [NodeThread.new, Pc.starting, Pc.inBlock, Pc.afterBind]

theorem Inv.go {ok : Bool} (h : n.Inv) (hstep : n.go ok = some n') : n'.Inv := by
  obtain ⟨hinit, hunbuilt, hlive, hover, hunbound, hbound, hfailed, hbuilt, htasks, hdone⟩ := h
  unfold NodeThread.go at hstep
  split at hstep <;> rename_i hpc <;> (try split at hstep) <;> cases hstep <;> constructor <;>
    simp_all [fails, Pc.starting, Pc.beforeBind, Pc.populated, Pc.inBlock, Pc.afterBind]

/-- Only the tasks have changed, in `select`. -/
theorem Inv.withTasks {tasks : List Task} (h : n.Inv) (hpc : n.pc = .select) :
    ({ n with tasks } : NodeThread).Inv := by
  have hbound : n.bound = true := h.bound (by rw [hpc]; rfl)
  exact { h with tasks := fun _ => ⟨hbound, by rw [hpc]; rfl⟩ }

/-- One step of the thread or of one of its tasks. -/
theorem Inv.step (h : n.Inv) (hstep : n.step a = some n') : n'.Inv := by
  cases a with
  | go ok => exact h.go hstep
  | exits =>
      obtain ⟨hpc, heq⟩ := Option.ite_none_right_eq_some.1 hstep
      cases heq
      -- leaving the block in either way is the same step
      have hstop : ({ n with stopSent := true } : NodeThread).go true =
          some { n with stopSent := true, pc := .dropRuntime } := by
        simp [NodeThread.go, hpc]
      have hstopped : ({ n with stopSent := true } : NodeThread).Inv := { h with }
      exact { hstopped.go hstop with }
  | nodeSpawns =>
      obtain ⟨hpc, heq⟩ := Option.ite_none_right_eq_some.1 hstep
      cases heq
      exact h.withTasks hpc
  | taskSpawns task child =>
      obtain ⟨⟨hpc, -⟩, heq⟩ := Option.ite_none_right_eq_some.1 hstep
      cases heq
      exact h.withTasks hpc
  | taskEnds task =>
      obtain ⟨⟨hpc, -⟩, heq⟩ := Option.ite_none_right_eq_some.1 hstep
      cases heq
      exact h.withTasks hpc

theorem Inv.stop (h : n.Inv) (stopSent : Bool) : ({ n with stopSent } : NodeThread).Inv :=
  { h with }

/-- What has been sent over a channel stays sent. -/
theorem Inv.sent (h : n.Inv) (hstep : n.step a = some n') :
    (∀ b, n.init = some b → n'.init = some b) ∧ (n.done ≠ .pending → n'.done ≠ .pending) := by
  have hinit := h.init
  have hdone := h.done
  cases a with
  | go ok =>
      have hgo : n.go ok = some n' := hstep
      unfold NodeThread.go at hgo
      split at hgo <;> rename_i hpc <;> (try split at hgo) <;> cases hgo <;>
        simp_all [fails, Pc.starting]
  | exits =>
      obtain ⟨-, heq⟩ := Option.ite_none_right_eq_some.1 hstep
      cases heq
      exact ⟨fun b hb => hb, id⟩
  | nodeSpawns | taskSpawns task child | taskEnds task =>
      obtain ⟨-, heq⟩ := Option.ite_none_right_eq_some.1 hstep
      cases heq
      exact ⟨fun b hb => hb, id⟩

theorem Over.step (h : n.Over) (hinv : n.Inv) (hstep : n.step a = some n') : n'.Over :=
  h.imp ((hinv.sent hstep).1 false) (hinv.sent hstep).2

/-- When a start is over, whatever it has bound is dropped, and it binds no more. -/
theorem Inv.over_spec (h : n.Inv) (hover : n.Over) :
    (n.bound = true → n.runtime = .dropped) ∧ n.tasks = [] ∧ n.pc ≠ .bind ∧
      n.socketOpen = false := by
  -- `init` has been sent: the thread is past the start
  have hpast : n.pc.starting = false := by
    rcases hover with hfailed | hdone
    · cases hstarting : n.pc.starting with
      | false => rfl
      | true =>
          rw [h.init.2 hstarting] at hfailed
          cases hfailed
    · rw [h.done hdone]
      rfl
  have hended : n.bound = true → n.pc = .ended := by
    intro hbound
    rcases hover with hfailed | hdone
    · rw [h.failed hfailed] at hbound
      cases hbound
    · exact h.done hdone
  have htasks : n.tasks = [] := by
    by_contra hne
    obtain ⟨hbound, hpopulated⟩ := h.tasks hne
    rw [hended hbound] at hpopulated
    cases hpopulated
  refine ⟨?_, htasks, ?_, ?_⟩
  · intro hbound
    have hlive := h.unlive (.inr (hended hbound))
    have hbuilt := h.built hbound
    cases hruntime : n.runtime <;> simp_all
  · intro hpc
    rw [hpc] at hpast
    cases hpast
  · have hwire : n.pc ≠ .wire := by
      intro hpc
      rw [hpc] at hpast
      cases hpast
    simp [socketOpen, hwire, htasks]

end NodeThread
end Restart
end SvenBridge
