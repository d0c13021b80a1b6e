import SvenBridge.Lib.Machine
import SvenBridge.Restart.NodeThread

/-!
# Restart.Calls — the client operations over the node threads

The operations of the controller run one after the other; the threads of all clients it has started
go on in between.  This file contains

* `BridgeSession` — the two ends of a thread's channels that its session holds;
* `Call` — what the operation in progress does next, with `BridgeSession::stop` written into it;
* `machine` — operations and threads in any order;
* `Inv` — all threads are over, but the one of the session or of the operation in progress;
* `socket_unique` and `restart_never_races` — what holds at any time, at a bind, and when a stop
  returns.
-/

namespace SvenBridge
namespace Restart

open Controller Lib

/-! ## Operations -/

/-- What a session keeps of its thread; both senders are taken by a stop. -/
structure BridgeSession where
  node : ℕ
  stopTx : Bool
  done : Bool
  deriving DecidableEq

/-- A start to come, and whether the game is launched then. -/
structure Start where
  args : ClientArgs
  launch : Bool
  deriving DecidableEq

/-- The next step of the operation in progress. -/
inductive Call where
  | idle
  -- start_client
  | checkSession (start : Start)
  | spawn (start : Start)
  | awaitInit (start : Start) (node : ℕ)
  | waitForBind (args : ClientArgs)
  -- stop_client, and the start that may follow it
  | takeSession (next : Option Start)
  | sendStop (session : BridgeSession) (next : Option Start)
  | awaitDone (session : BridgeSession) (next : Option Start)
  /-- `BridgeSession::stop` has returned. -/
  | stopped (session : BridgeSession) (next : Option Start)
  deriving DecidableEq

structure State where
  /-- The threads of all starts, in their order. -/
  nodes : List NodeThread
  session : Option BridgeSession
  lastArgs : Option ClientArgs
  call : Call

inductive Act where
  | startClient (args : ClientArgs)
  | stopClient
  | restartClient
  | connectAndLaunch (serverHashHex : String)
  /-- The operation in progress goes on; `ok` says whether a call that may fail succeeds. -/
  | call (ok : Bool)
  /-- The session that has been stopped is stopped again. -/
  | stopAgain
  | node (i : ℕ) (a : ThreadAct)

namespace State

variable (s : State)

/-- What an operation does when its stop is over. -/
def afterStop (next : Option Start) : State :=
  { s with call := (next.map Call.checkSession).getD .idle }

def withNode (i : ℕ) (n : NodeThread) : State :=
  { s with nodes := s.nodes.set i n }

/-- One step of the operation in progress. -/
def callStep (ok : Bool) : Call → Option State
  | .idle => none
  | .checkSession start =>
      some { s with call := if s.session.isSome then .idle else .spawn start }
  | .spawn start =>
      -- the identity, and the thread itself
      if ok then
        some { s with
          nodes := s.nodes ++ [.new start.args], call := .awaitInit start s.nodes.length }
      else
        some { s with call := .idle }
  | .awaitInit start node =>
      (s.nodes[node]?.bind NodeThread.init).map fun runs =>
        if runs then
          { s with
            session := some { node, stopTx := true, done := true }
            lastArgs := some start.args
            call := if start.launch then .waitForBind start.args else .idle }
        else
          { s with call := .idle }
  | .waitForBind _ => some { s with call := .idle }
  | .takeSession next =>
      match s.session with
      | none => some (s.afterStop next)
      | some session => some { s with session := none, call := .sendStop session next }
  | .sendStop session next =>
      s.nodes[session.node]?.map fun n =>
        let n := { n with stopSent := n.stopSent || session.stopTx }
        { s.withNode session.node n with
          call := .awaitDone { session with stopTx := false } next }
  | .awaitDone session next =>
      if session.done then
        s.nodes[session.node]?.bind fun n =>
          if n.done = .pending then none
          else some { s with call := .stopped { session with done := false } next }
      else
        some { s with call := .stopped session next }
  | .stopped _ next => some (s.afterStop next)

/-- An operation begins when the last one has returned. -/
def begin (call : Call) : Option State :=
  if s.call = .idle then some { s with call } else none

def step : Act → Option State
  | .startClient args => s.begin (.checkSession { args, launch := false })
  | .stopClient => s.begin (.takeSession none)
  | .restartClient =>
      s.begin <| match s.lastArgs with
        | none => .idle
        | some args => .takeSession (some { args, launch := false })
  | .connectAndLaunch serverHashHex =>
      s.begin <| match s.lastArgs with
        | none => .idle
        | some args =>
            if isHash serverHashHex then
              .takeSession (some
                { args := { args with serverHash := some serverHashHex }, launch := true })
            else
              .idle
  | .call ok => s.callStep ok s.call
  | .stopAgain =>
      match s.call with
      | .stopped session next => some { s with call := .sendStop session next }
      | _ => none
  | .node i a => (s.nodes[i]?.bind fun n => n.step a).map (s.withNode i)

end State

/-- A controller with the settings of earlier runs. -/
def machine (lastArgs : Option ClientArgs) : Machine State Act where
  init := { nodes := [], session := none, lastArgs, call := .idle }
  step s a := s.step a

/-! ## The invariant -/

namespace Call

/-- The thread the operation in progress waits for. -/
def node : Call → Option ℕ
  | awaitInit _ node => some node
  | sendStop session _ | awaitDone session _ => some session.node
  | _ => none

/-- The session the operation in progress stops. -/
def session : Call → Option BridgeSession
  | sendStop session _ | awaitDone session _ | stopped session _ => some session
  | _ => none

/-- The controller holds no session. -/
def vacant : Call → Bool
  | spawn _ | awaitInit _ _ | sendStop _ _ | awaitDone _ _ | stopped _ _ => true
  | _ => false

end Call

/-- The thread that need not be over: the session's, or the one the operation waits for. -/
def State.active (s : State) : Option ℕ :=
  s.call.node.or (s.session.map BridgeSession.node)

structure Inv (s : State) : Prop where
  nodes : ∀ n ∈ s.nodes, n.Inv
  settled : ∀ i n, s.nodes[i]? = some n → s.active ≠ some i → n.Over
  vacant : s.call.vacant = true → s.session = none
  /-- The session's thread has started. -/
  session : ∀ session, s.session = some session →
    session.done = true ∧ ∃ n, s.nodes[session.node]? = some n ∧ n.init = some true
  /-- So has the one of a session that is being stopped, and `done` is taken when it has come. -/
  stopping : ∀ session, s.call.session = some session →
    ∃ n, s.nodes[session.node]? = some n ∧ n.init = some true ∧
      (session.done = false → n.done ≠ .pending)
  /-- A stop returns when `done` has been taken. -/
  stopped : ∀ session next, s.call = .stopped session next → session.done = false

variable {s s' : State} {a : Act} {n n' : NodeThread} {i : ℕ}

/-- A thread has moved, and what it has sent stays sent. -/
theorem Inv.withNode (h : Inv s) (hn : s.nodes[i]? = some n) (hinv : n'.Inv)
    (hover : n.Over → n'.Over) (hinit : n.init = some true → n'.init = some true)
    (hdone : n.done ≠ .pending → n'.done ≠ .pending) : Inv (s.withNode i n') := by
  have hlt : i < s.nodes.length := (List.getElem?_eq_some_iff.1 hn).1
  have hself : (s.withNode i n').nodes[i]? = some n' := by simp [State.withNode, hlt]
  have hother : ∀ {j}, j ≠ i → (s.withNode i n').nodes[j]? = s.nodes[j]? := by
    intro j hj
    exact List.getElem?_set_ne (Ne.symm hj)
  refine ⟨?_, ?_, h.vacant, ?_, ?_, h.stopped⟩
  · intro m hm
    rcases List.mem_or_eq_of_mem_set hm with hm | rfl
    · exact h.nodes m hm
    · exact hinv
  · intro j m hm hactive
    by_cases hj : j = i
    · subst hj
      rw [hself] at hm
      cases hm
      exact hover (h.settled j n hn hactive)
    · rw [hother hj] at hm
      exact h.settled j m hm hactive
  · intro session hsession
    obtain ⟨hrx, m, hm, hruns⟩ := h.session session hsession
    by_cases hj : session.node = i
    · rw [hj, hn] at hm
      cases hm
      exact ⟨hrx, n', hj ▸ hself, hinit hruns⟩
    · exact ⟨hrx, m, (hother hj).trans hm, hruns⟩
  · intro session hsession
    obtain ⟨m, hm, hruns, hrx⟩ := h.stopping session hsession
    by_cases hj : session.node = i
    · rw [hj, hn] at hm
      cases hm
      exact ⟨n', hj ▸ hself, hinit hruns, fun hfalse => hdone (hrx hfalse)⟩
    · exact ⟨m, (hother hj).trans hm, hruns, hrx⟩

theorem Inv.node {b : ThreadAct} (h : Inv s) (hn : s.nodes[i]? = some n)
    (hstep : n.step b = some n') : Inv (s.withNode i n') := by
  have hinv := h.nodes n (List.mem_of_getElem? hn)
  have hsent := hinv.sent hstep
  exact h.withNode hn (hinv.step hstep) (fun hover => hover.step hinv hstep) (hsent.1 true) hsent.2

/-- The operation goes on; the thread it leaves alone from now on is over. -/
theorem Inv.setCall {call : Call} (h : Inv s)
    (hleft : ∀ i n, s.nodes[i]? = some n → s.active = some i →
      ({ s with call } : State).active = some i ∨ n.Over)
    (hvacant : call.vacant = true → s.session = none)
    (hstopping : ∀ session, call.session = some session →
      ∃ n, s.nodes[session.node]? = some n ∧ n.init = some true ∧
        (session.done = false → n.done ≠ .pending))
    (hstopped : ∀ session next, call = .stopped session next → session.done = false) :
    Inv { s with call } := by
  refine ⟨h.nodes, ?_, hvacant, h.session, hstopping, hstopped⟩
  intro i n hn hactive
  by_cases hold : s.active = some i
  · exact (hleft i n hn hold).resolve_left hactive
  · exact h.settled i n hn hold

/-- Between two stages that wait for no thread nothing but the stage changes. -/
theorem Inv.pass {call : Call} (h : Inv s) (hold : s.call.node = none) (hnew : call.node = none)
    (hvacant : call.vacant = true → s.session = none) (hsession : call.session = none) :
    Inv { s with call } := by
  refine h.setCall ?_ hvacant ?_ ?_
  · intro i n _ hactive
    left
    simpa [State.active, hold, hnew] using hactive
  · intro session heq
    rw [hsession] at heq
    cases heq
  · rintro session next rfl
    cases hsession

theorem Inv.afterStop {next : Option Start} (h : Inv s) (hcall : s.call.node = none) :
    Inv (s.afterStop next) := by
  cases next with
  | none => exact h.pass hcall rfl nofun rfl
  | some start => exact h.pass hcall rfl nofun rfl

theorem Inv.spawn {start : Start} (h : Inv s) (hcall : s.call = .spawn start) :
    Inv { s with
      nodes := s.nodes ++ [.new start.args], call := .awaitInit start s.nodes.length } := by
  have hnone : s.session = none := h.vacant (by rw [hcall]; rfl)
  have hactive : s.active = none := by simp [State.active, hcall, hnone, Call.node]
  refine ⟨?_, ?_, fun _ => hnone, ?_, nofun, nofun⟩
  · intro n hn
    rcases List.mem_append.1 hn with hn | hn
    · exact h.nodes n hn
    · rw [List.mem_singleton.1 hn]
      exact .new start.args
  · intro i n hn hi
    have hne : i ≠ s.nodes.length := by
      rintro rfl
      exact hi rfl
    have hlt : i < s.nodes.length := by
      have hle := (List.getElem?_eq_some_iff.1 hn).1
      simp at hle
      omega
    refine h.settled i n ?_ (by simp [hactive])
    rwa [List.getElem?_append_left hlt] at hn
  · intro session hsession
    rw [hnone] at hsession
    cases hsession

theorem Inv.runs {start : Start} {node : ℕ} (h : Inv s) (hcall : s.call = .awaitInit start node)
    (hn : s.nodes[node]? = some n) (hinit : n.init = some true) :
    Inv { s with
      session := some { node, stopTx := true, done := true }
      lastArgs := some start.args
      call := if start.launch then .waitForBind start.args else .idle } := by
  have hactive : s.active = some node := by simp [State.active, hcall, Call.node]
  refine ⟨h.nodes, ?_, ?_, ?_, ?_, ?_⟩
  · intro i m hm hi
    refine h.settled i m hm ?_
    rw [hactive]
    cases hlaunch : start.launch <;> simpa [State.active, hlaunch, Call.node] using hi
  · cases hlaunch : start.launch <;> simp [Call.vacant]
  · rintro session ⟨⟩
    exact ⟨rfl, n, hn, hinit⟩
  · cases hlaunch : start.launch <;> simp [Call.session]
  · cases hlaunch : start.launch <;> simp

/-- A start has failed: its thread is over. -/
theorem Inv.failed {start : Start} {node : ℕ} (h : Inv s) (hcall : s.call = .awaitInit start node)
    (hn : s.nodes[node]? = some n) (hinit : n.init = some false) : Inv { s with call := .idle } := by
  refine h.setCall ?_ nofun nofun nofun
  intro i m hm hactive
  right
  have hi : node = i := by simpa [State.active, hcall, Call.node] using hactive
  rw [← hi, hn] at hm
  cases hm
  exact .inl hinit

theorem Inv.take {session : BridgeSession} {next : Option Start} (h : Inv s)
    (hcall : s.call = .takeSession next) (hsession : s.session = some session) :
    Inv { s with session := none, call := .sendStop session next } := by
  have hactive : s.active = some session.node := by
    simp [State.active, hcall, hsession, Call.node]
  refine ⟨h.nodes, ?_, fun _ => rfl, nofun, ?_, nofun⟩
  · intro i n hn hi
    refine h.settled i n hn ?_
    rwa [hactive]
  · rintro session' ⟨⟩
    obtain ⟨hrx, n, hn, hruns⟩ := h.session session hsession
    refine ⟨n, hn, hruns, ?_⟩
    intro hfalse
    rw [hrx] at hfalse
    cases hfalse

/-- The stop is sent: the thread is told, and waited for. -/
theorem Inv.send {session : BridgeSession} {next : Option Start} {stopSent : Bool} (h : Inv s)
    (hcall : s.call = .sendStop session next) (hn : s.nodes[session.node]? = some n) :
    Inv { s.withNode session.node { n with stopSent } with
      call := .awaitDone { session with stopTx := false } next } := by
  have hinv := (h.nodes n (List.mem_of_getElem? hn)).stop stopSent
  have htold : Inv (s.withNode session.node { n with stopSent }) :=
    h.withNode hn hinv id id id
  refine htold.setCall ?_ ?_ ?_ nofun
  · intro i m _ hactive
    left
    simpa [State.active, State.withNode, hcall, Call.node] using hactive
  · intro _
    exact h.vacant (by rw [hcall]; rfl)
  · rintro session' ⟨⟩
    exact htold.stopping session (by simp [State.withNode, hcall, Call.session])

/-- `done` has come, now or at an earlier stop: the thread is over. -/
theorem Inv.return {session : BridgeSession} {next : Option Start} (h : Inv s)
    (hcall : s.call = .awaitDone session next) (hn : s.nodes[session.node]? = some n)
    (hdone : n.done ≠ .pending) :
    Inv { s with call := .stopped { session with done := false } next } := by
  refine h.setCall ?_ ?_ ?_ ?_
  · intro i m hm hactive
    right
    have hi : session.node = i := by simpa [State.active, hcall, Call.node] using hactive
    rw [← hi, hn] at hm
    cases hm
    exact .inr hdone
  · intro _
    exact h.vacant (by rw [hcall]; rfl)
  · rintro session' ⟨⟩
    obtain ⟨m, hm, hruns, -⟩ := h.stopping session (by simp [hcall, Call.session])
    rw [hn] at hm
    cases hm
    exact ⟨n, hn, hruns, fun _ => hdone⟩
  · rintro session' next' ⟨⟩
    rfl

theorem Inv.callStep {ok : Bool} (h : Inv s) (hstep : s.callStep ok s.call = some s') : Inv s' := by
  cases hcall : s.call with
  | idle => simp [State.callStep, hcall] at hstep
  | checkSession start =>
      rw [hcall] at hstep
      cases hstep
      refine h.pass (by simp [hcall, Call.node]) ?_ ?_ ?_ <;>
        cases hsession : s.session <;> simp [Call.node, Call.session, Call.vacant]
  | spawn start =>
      rw [hcall] at hstep
      cases ok with
      | true =>
          cases hstep
          exact h.spawn hcall
      | false =>
          cases hstep
          exact h.pass (by simp [hcall, Call.node]) rfl nofun rfl
  | awaitInit start node =>
      rw [hcall] at hstep
      obtain ⟨runs, hinit, rfl⟩ := Option.map_eq_some_iff.1 hstep
      obtain ⟨n, hn, hruns⟩ := Option.bind_eq_some_iff.1 hinit
      cases runs with
      | true => exact h.runs hcall hn hruns
      | false => exact h.failed hcall hn hruns
  | waitForBind args =>
      rw [hcall] at hstep
      cases hstep
      exact h.pass (by simp [hcall, Call.node]) rfl nofun rfl
  | takeSession next =>
      rw [hcall] at hstep
      cases hsession : s.session with
      | none =>
          simp only [State.callStep, hsession] at hstep
          cases hstep
          exact h.afterStop (by simp [hcall, Call.node])
      | some session =>
          simp only [State.callStep, hsession] at hstep
          cases hstep
          exact h.take hcall hsession
  | sendStop session next =>
      rw [hcall] at hstep
      obtain ⟨n, hn, rfl⟩ := Option.map_eq_some_iff.1 hstep
      exact h.send hcall hn
  | awaitDone session next =>
      rw [hcall] at hstep
      cases hrx : session.done with
      | true =>
          simp only [State.callStep, hrx, if_true] at hstep
          obtain ⟨n, hn, hreturn⟩ := Option.bind_eq_some_iff.1 hstep
          obtain ⟨hdone, heq⟩ := Option.ite_none_left_eq_some.1 hreturn
          cases heq
          exact h.return hcall hn hdone
      | false =>
          -- stopped before: the receiver is gone, and `stop` returns at once
          simp only [State.callStep, hrx, Bool.false_eq_true, if_false] at hstep
          cases hstep
          obtain ⟨n, hn, -, hdone⟩ := h.stopping session (by simp [hcall, Call.session])
          have hsame : { session with done := false } = session := by simp [← hrx]
          simpa only [hsame] using h.return hcall hn (hdone hrx)
  | stopped session next =>
      rw [hcall] at hstep
      cases hstep
      exact h.afterStop (by simp [hcall, Call.node])

theorem Inv.begin {call : Call} (h : Inv s) (hcall : call.node = none ∧ call.vacant = false ∧
    call.session = none) (hstep : s.begin call = some s') : Inv s' := by
  obtain ⟨hidle, heq⟩ := Option.ite_none_right_eq_some.1 hstep
  cases heq
  refine h.pass (by simp [hidle, Call.node]) hcall.1 ?_ hcall.2.2
  intro hvacant
  rw [hcall.2.1] at hvacant
  cases hvacant

/-- Operations, threads and tasks alike keep the invariant. -/
theorem Inv.step (h : Inv s) (hstep : s.step a = some s') : Inv s' := by
  cases a with
  | startClient args => exact h.begin ⟨rfl, rfl, rfl⟩ hstep
  | stopClient => exact h.begin ⟨rfl, rfl, rfl⟩ hstep
  | restartClient =>
      refine h.begin ?_ hstep
      cases s.lastArgs <;> exact ⟨rfl, rfl, rfl⟩
  | connectAndLaunch serverHashHex =>
      refine h.begin ?_ hstep
      cases s.lastArgs with
      | none => exact ⟨rfl, rfl, rfl⟩
      | some args =>
          cases isHash serverHashHex <;> simp [Call.node, Call.vacant, Call.session]
  | call ok => exact h.callStep hstep
  | stopAgain =>
      simp only [State.step] at hstep
      split at hstep
      · rename_i session next hcall
        cases hstep
        refine h.setCall ?_ ?_ ?_ nofun
        · intro i n _ hactive
          have hnone : s.session = none := h.vacant (by rw [hcall]; rfl)
          simp [State.active, hcall, hnone, Call.node] at hactive
        · intro _
          exact h.vacant (by rw [hcall]; rfl)
        · rintro session' ⟨⟩
          exact h.stopping session (by simp [hcall, Call.session])
      · cases hstep
  | node i b =>
      obtain ⟨n', hmove, rfl⟩ := Option.map_eq_some_iff.1 hstep
      obtain ⟨n, hn, hmove⟩ := Option.bind_eq_some_iff.1 hmove
      exact h.node hn hmove

variable {lastArgs : Option ClientArgs}

theorem inv_of_reachable (h : (machine lastArgs).Reachable Machine.always s) : Inv s := by
  refine Machine.Reachable.invariant ?_ ?_ h
  · constructor <;> simp [machine, Call.vacant, Call.session]
  · intro s a s' hs _ hstep
    exact hs.step hstep

/-- A thread that is still at its start is the one the operation in progress waits for. -/
theorem Inv.starting (h : Inv s) (hn : s.nodes[i]? = some n) (hpc : n.pc.starting = true) :
    s.active = some i := by
  by_contra hactive
  have hinv := h.nodes n (List.mem_of_getElem? hn)
  have hnone : n.init = none := hinv.init.2 hpc
  rcases h.settled i n hn hactive with hfailed | hdone
  · rw [hnone] at hfailed
    cases hfailed
  · rw [hinv.done hdone] at hpc
    cases hpc

/-- At any time at most one of the controller's client sockets is open. -/
theorem socket_unique {j : ℕ} {m : NodeThread} (h : (machine lastArgs).Reachable Machine.always s)
    (hn : s.nodes[i]? = some n) (hm : s.nodes[j]? = some m) (hi : n.socketOpen = true)
    (hj : m.socketOpen = true) : i = j := by
  have hinv := inv_of_reachable h
  have hopen : ∀ {k : ℕ} {l : NodeThread}, s.nodes[k]? = some l → l.socketOpen = true →
      s.active = some k := by
    intro k l hl hsocket
    by_contra hactive
    have hover := hinv.settled k l hl hactive
    rw [((hinv.nodes l (List.mem_of_getElem? hl)).over_spec hover).2.2.2] at hsocket
    cases hsocket
  have hsame := (hopen hn hi).symm.trans (hopen hm hj)
  exact Option.some.inj hsame

/-- Whenever a client start is about to bind its UDP socket, no other client start has a runtime
left that has bound one; and when `stop` returns, no task of its session is left. -/
theorem restart_never_races (h : (machine lastArgs).Reachable Machine.always s) :
    (∀ (i : ℕ) (n : NodeThread), s.nodes[i]? = some n → n.pc = .bind →
      ∀ (j : ℕ) (m : NodeThread), j ≠ i → s.nodes[j]? = some m →
        (m.bound = true → m.runtime = .dropped) ∧ m.socketOpen = false) ∧
    (∀ session next, s.call = .stopped session next →
      ∃ n : NodeThread, s.nodes[session.node]? = some n ∧ n.tasks = [] ∧ n.runtime ≠ .live) := by
  have hinv := inv_of_reachable h
  refine ⟨?_, ?_⟩
  · intro i n hn hpc j m hj hm
    have hactive := hinv.starting hn (by rw [hpc]; rfl)
    have hover : m.Over := by
      refine hinv.settled j m hm ?_
      rw [hactive]
      intro heq
      cases heq
      exact hj rfl
    have hspec := (hinv.nodes m (List.mem_of_getElem? hm)).over_spec hover
    exact ⟨hspec.1, hspec.2.2.2⟩
  · intro session next hcall
    obtain ⟨n, hn, -, hdone⟩ := hinv.stopping session (by simp [hcall, Call.session])
    have hdone := hdone (hinv.stopped session next hcall)
    have hnode := hinv.nodes n (List.mem_of_getElem? hn)
    have hspec := hnode.over_spec (.inr hdone)
    exact ⟨n, hn, hspec.2.1, hnode.unlive (.inr (hnode.done hdone))⟩

/-! ### A restart -/

/-- A client is started, and its node runs. -/
def startSteps : List Act :=
  [.startClient .bare, .call true, .call true] ++ List.replicate 5 (.node 0 (.go true)) ++
    [.call true]

/-- It is restarted: the stop has returned. -/
def stopSteps : List Act :=
  [.restartClient, .call true, .call true] ++ List.replicate 3 (.node 0 (.go true)) ++ [.call true]

/-- The second thread is about to bind. -/
def bindSteps : List Act :=
  List.replicate 3 (.call true) ++ List.replicate 2 (.node 1 (.go true))

/-- A client is restarted while its node runs. -/
theorem exists_restart_never_races :
    (∃ s : State, ∃ n m : NodeThread, s.nodes[1]? = some n ∧ n.pc = .bind ∧
      s.nodes[0]? = some m ∧ m.bound = true ∧ m.runtime = .dropped) ∧
    (∃ s : State, ∃ session next, s.call = .stopped session next ∧
      ∃ n : NodeThread, s.nodes[session.node]? = some n ∧ n.bound = true ∧ n.tasks = []) := by
  constructor
  · have hrun : ((machine none).run (machine none).init
        (startSteps ++ stopSteps ++ bindSteps)).any (fun s =>
          s.nodes[1]?.any (fun n => n.pc == .bind) && s.nodes[0]?.any NodeThread.bound) = true := by
      decide +kernel
    obtain ⟨s, hs, hP⟩ := Machine.exists_reachable_of_run hrun
    simp only [Bool.and_eq_true, Option.any_eq_true, beq_iff_eq] at hP
    obtain ⟨⟨n, hn, hpc⟩, m, hm, hbound⟩ := hP
    have hnever := restart_never_races hs
    exact ⟨s, n, m, hn, hpc, hm, hbound, (hnever.1 1 n hn hpc 0 m (by decide) hm).1 hbound⟩
  · have hrun : ((machine none).run (machine none).init (startSteps ++ stopSteps)).any (fun s =>
        s.call == .stopped ⟨0, false, false⟩ (some ⟨.bare, false⟩) &&
          s.nodes[0]?.any NodeThread.bound) = true := by
      decide +kernel
    obtain ⟨s, hs, hP⟩ := Machine.exists_reachable_of_run hrun
    simp only [Bool.and_eq_true, Option.any_eq_true, beq_iff_eq] at hP
    obtain ⟨hcall, m, hm, hbound⟩ := hP
    obtain ⟨n, hn, htasks, -⟩ := (restart_never_races hs).2 _ _ hcall
    rw [hm] at hn
    cases hn
    exact ⟨s, _, _, hcall, m, hm, hbound, htasks⟩

end Restart
end SvenBridge
