import SvenBridge.Controller.Operations
import SvenBridge.Lib.Utf8

/-!
# Ds.Console — the command lines of one run of the dedicated server

The controller writes its commands to the stdin of the running server, each with a newline behind
it.  The background task that has started the server puts the stdin in its place, lets the lock go,
and takes it again to write the startup line, so that a call can get in between.  This file contains

* `Request` — the two calls, the line each writes, and how a line is read back;
* `machine` — the calls of one run, the startup line, and whatever else goes on;
* `OneLineEach` and `Safe` — a line for each call that succeeds, and when there is one;
* `oneLineEach_iff` — the two are the same.
-/

namespace SvenBridge
namespace Ds
namespace Console

open Controller Lib

/-! ## Requests -/

/-- A call that writes to the console. -/
inductive Request where
  | changelevel (map : String)
  | setCheats (enabled : Bool)
  deriving DecidableEq

def newline : UInt8 := 0x0A

namespace Request

/-- The call itself. -/
def run (env : Env) : Request → Ctl Unit
  | changelevel map => dsChangelevel env map
  | setCheats enabled => dsSetCheats env enabled

/-- The line the call is to write. -/
def line : Request → String
  | changelevel map => "changelevel " ++ map
  | setCheats enabled => if enabled then "sv_cheats 1" else "sv_cheats 0"

def bytes (r : Request) : List UInt8 :=
  r.line.toUTF8.toList

/-- The request a line was written for. -/
def read (line : String) : Option Request :=
  if line = "sv_cheats 1" then some (setCheats true)
  else if line = "sv_cheats 0" then some (setCheats false)
  else if "changelevel ".toList <+: line.toList then
    some (changelevel (String.ofList (line.toList.drop "changelevel ".toList.length)))
  else none

def decode (bytes : List UInt8) : Option Request :=
  (String.fromUTF8? ⟨bytes.toArray⟩).bind read

/-- What the call does to the saved arguments. -/
def apply (args : DsStartArgs) : Request → DsStartArgs
  | changelevel map => { args with map }
  | setCheats enabled => { args with svCheats := enabled }

def map? : Request → Option String
  | changelevel map => some map
  | setCheats _ => none

def cheats? : Request → Option Bool
  | changelevel _ => none
  | setCheats enabled => some enabled

end Request

/-! ## One run -/

structure State where
  world : World
  /-- The background task is still to write the startup line. -/
  pending : Bool
  /-- History: the calls that have succeeded, how many had when the startup line was written, and
  the number of bytes that writes that failed have left. -/
  calls : List Request
  startup : Option ℕ
  stray : ℕ

inductive Act where
  | call (r : Request)
  /-- The startup line, or its failure after some bytes, which is ignored. -/
  | startup (failed : Option ℕ)
  /-- Everything but the console and the saved arguments may change meanwhile. -/
  | meanwhile (w : World)

/-- `sv_cheats 1` of the background task. -/
def startupLine : List UInt8 :=
  (Request.setCheats true).bytes

/-- What the server has been sent in this run. -/
def State.written (s : State) : List UInt8 :=
  s.world.ds.console.getD []

/-- The console takes `bytes`. -/
def put (w : World) (bytes : List UInt8) : World :=
  { w with ds.console := w.ds.console.map (· ++ bytes) }

/-- A write that failed has left the world in `w`. -/
def State.failed (s : State) (w : World) : State :=
  { s with world := w, stray := s.stray + ((w.ds.console.getD []).length - s.written.length) }

def step (env : Env) (s : State) : Act → Option State
  | .call r =>
      match r.run env s.world with
      | (.ok _, w) => some { s with world := w, calls := s.calls ++ [r] }
      | (.error _, w) => some (s.failed w)
  | .startup failed =>
      if !s.pending then
        none
      else
        match failed with
        | none =>
            some { s with
              world := put s.world (startupLine ++ [newline])
              pending := false
              startup := some s.calls.length }
        | some wrote =>
            some { s.failed (put s.world ((startupLine ++ [newline]).take wrote)) with
              pending := false }
  | .meanwhile w =>
      if w.ds.console = s.world.ds.console ∧ w.settings.ds = s.world.settings.ds then
        some { s with world := w }
      else
        none

/-- The stdin of a server started with `args` has just been put in its place. -/
def machine (env : Env) (w : World) (args : DsStartArgs) : Machine State Act where
  init :=
    { world := { w with ds.console := some [], settings.ds := some args }
      pending := args.svCheats
      calls := []
      startup := none
      stray := 0 }
  step := step env

/-! ## Lines and settings -/

/-- What was written, split at the newlines; behind the last one stands nothing. -/
def State.lines (s : State) : List (List UInt8) :=
  s.written.splitOn newline

/-- The startup line, if it was written, and then the calls. -/
def State.requests (s : State) : List Request :=
  (if s.startup = none then [] else [.setCheats true]) ++ s.calls

/-- The map of the last call that changed it, or of the start. -/
def lastMap (args : DsStartArgs) (calls : List Request) : String :=
  (calls.filterMap Request.map?).getLast?.getD args.map

def lastCheats (args : DsStartArgs) (calls : List Request) : Bool :=
  (calls.filterMap Request.cheats?).getLast?.getD args.svCheats

/-- After the startup line, if there is one, the console has one line for each call, from which the
calls can be read back, and the saved arguments are those of the last calls. -/
structure OneLineEach (args : DsStartArgs) (s : State) : Prop where
  lines : s.lines = s.requests.map Request.bytes ++ [[]]
  decoded : s.lines.dropLast.mapM Request.decode = some s.requests
  saved : ∃ ds, s.world.settings.ds = some ds ∧ ds.map = lastMap args s.calls ∧
    ds.svCheats = lastCheats args s.calls

/-- No map holds a newline, before the startup line cheats are turned on at most, and no write that
failed has left a part of its line. -/
structure Safe (s : State) : Prop where
  maps : ∀ map, .changelevel map ∈ s.calls → '\n' ∉ map.toList
  startup : ∀ k, s.startup = some k → ∀ r ∈ s.calls.take k, r = .setCheats true
  stray : s.stray = 0

/-! ## Lines read back -/

theorem Request.decode_bytes (r : Request) : Request.decode r.bytes = some r := by
  have hline : r.line.toUTF8.toList = r.bytes := rfl
  rw [Request.decode, Utf8.fromUTF8?_of_bytes hline, Option.bind_some]
  cases r with
  | setCheats enabled => cases enabled <;> rfl
  | changelevel map =>
      -- the line begins with another letter than the other two
      have hhead : ∀ s : String, s.toList.head? ≠ some 'c' → "changelevel " ++ map ≠ s := by
        rintro s hs rfl
        simp at hs
      have hprefix : "changelevel ".toList <+: ("changelevel " ++ map).toList := by
        rw [String.toList_append]
        exact List.prefix_append _ _
      rw [Request.line, Request.read, if_neg (hhead _ (by decide)), if_neg (hhead _ (by decide)),
        if_pos hprefix, String.toList_append, List.drop_left, String.ofList_toList]

theorem Request.bytes_injective : Function.Injective Request.bytes := by
  intro r r' h
  have hsome := congrArg Request.decode h
  rw [Request.decode_bytes, Request.decode_bytes] at hsome
  exact Option.some.inj hsome

theorem mapM_decode (rs : List Request) :
    (rs.map Request.bytes).mapM Request.decode = some rs := by
  induction rs with
  | nil => rfl
  | cons r rs ih => simp [Request.decode_bytes, ih]

/-- A line holds a newline only when the map does. -/
theorem Request.newline_mem_bytes {r : Request} :
    newline ∈ r.bytes ↔ ∃ map, r = .changelevel map ∧ '\n' ∈ map.toList := by
  rw [Request.bytes, newline, Utf8.mem_toUTF8_iff (by decide)]
  cases r with
  | setCheats enabled => cases enabled <;> simp [Request.line]
  | changelevel map =>
      have hchar : Char.ofNat (UInt8.toNat 0x0A) = '\n' := rfl
      rw [hchar, Request.line, String.toList_append, List.mem_append]
      simp

/-! ## What a call does -/

variable {env : Env} {w w' : World} {args : DsStartArgs} {s t : State} {a : Act}

theorem sendCommand_ok {cmd : String} (h : sendCommand env cmd w = (.ok (), w')) :
    w'.ds.console = w.ds.console.map (· ++ (cmd.toUTF8.toList ++ [newline])) ∧
      w'.settings = w.settings := by
  simp only [sendCommand, Command.get_bind] at h
  cases hconsole : w.ds.console with
  | none =>
      rw [hconsole] at h
      cases h
  | some written =>
      rw [hconsole] at h
      simp only [elapse_bind] at h
      cases hresult : (env.outcome w.clock).result with
      | ok _ =>
          rw [hresult] at h
          cases h
          exact ⟨rfl, rfl⟩
      | error _ =>
          rw [hresult] at h
          cases h

/-- A write that fails may have left a part of its line. -/
theorem sendCommand_error {cmd : String} {e : String} (h : sendCommand env cmd w = (.error e, w')) :
    (∃ bytes, w'.ds.console = w.ds.console.map (· ++ bytes)) ∧ w'.settings = w.settings := by
  simp only [sendCommand, Command.get_bind] at h
  cases hconsole : w.ds.console with
  | none =>
      rw [hconsole] at h
      cases h
      exact ⟨⟨[], hconsole⟩, rfl⟩
  | some written =>
      rw [hconsole] at h
      simp only [elapse_bind] at h
      cases hresult : (env.outcome w.clock).result with
      | ok _ =>
          rw [hresult] at h
          cases h
      | error _ =>
          rw [hresult] at h
          cases h
          exact ⟨⟨_, rfl⟩, rfl⟩

theorem save_console (w : World) : (w.save env).ds.console = w.ds.console := by
  obtain ⟨_, _, _, heq⟩ := w.save_eq env
  rw [heq]

/-- A call writes its line, and when that has succeeded its argument is saved. -/
theorem Request.run_eq (env : Env) (r : Request) : ∃ rest : World → World,
    (∀ w, (rest w).ds.console = w.ds.console) ∧
    (∀ w, (rest w).settings.ds = w.settings.ds.map fun args => r.apply args) ∧
    r.run env = (do sendCommand env r.line; modify rest : Ctl Unit) := by
  cases r with
  | changelevel map =>
      let remember (w : World) : World :=
        { w with settings.ds := w.settings.ds.map fun args => { args with map } }
      refine ⟨fun w => (remember w).save env, fun w => ?_, fun w => ?_, rfl⟩
      · exact save_console (remember w)
      · rw [World.save_settings]
        rfl
  | setCheats enabled =>
      let remember (w : World) : World :=
        { w with
          ds.live.svCheats := enabled
          settings.ds := w.settings.ds.map fun args => { args with svCheats := enabled } }
      refine ⟨fun w => (remember w).save env, fun w => ?_, fun w => ?_, rfl⟩
      · exact save_console (remember w)
      · rw [World.save_settings]
        rfl

theorem Request.run_ok {r : Request} (h : r.run env w = (.ok (), w')) :
    w'.ds.console = w.ds.console.map (· ++ (r.bytes ++ [newline])) ∧
      w'.settings.ds = w.settings.ds.map fun args => r.apply args := by
  obtain ⟨rest, hconsole, hsaved, hrun⟩ := Request.run_eq env r
  rw [hrun] at h
  obtain ⟨_, v, hsent, hrest⟩ := Command.exists_of_bind_ok h
  obtain ⟨hwritten, hsettings⟩ := sendCommand_ok hsent
  cases hrest
  exact ⟨(hconsole v).trans hwritten, by rw [hsaved, hsettings]⟩

/-- A call that fails has left the saved arguments. -/
theorem Request.run_error {r : Request} {e : String} (h : r.run env w = (.error e, w')) :
    (∃ bytes, w'.ds.console = w.ds.console.map (· ++ bytes)) ∧ w'.settings.ds = w.settings.ds := by
  obtain ⟨rest, -, -, hrun⟩ := Request.run_eq env r
  rw [hrun] at h
  rcases Command.cases_of_bind_error h with hsent | ⟨_, _, _, hrest⟩
  · obtain ⟨hwritten, hsettings⟩ := sendCommand_error hsent
    exact ⟨hwritten, congrArg _ hsettings⟩
  · cases hrest

/-! ## What a run writes -/

/-- The lines written, before they are put together. -/
def State.sent (s : State) : List Request :=
  match s.startup with
  | none => s.calls
  | some k => s.calls.take k ++ .setCheats true :: s.calls.drop k

def text (rs : List Request) : List UInt8 :=
  (rs.map Request.bytes).flatMap (· ++ [newline])

/-- The console holds the lines sent, and `stray` other bytes. -/
def Holds (console : Option (List UInt8)) (sent : List Request) (stray : ℕ) : Prop :=
  ∃ written, console = some written ∧ written.length = (text sent).length + stray ∧
    (stray = 0 → written = text sent)

/-- What a run keeps. -/
structure Written (args : DsStartArgs) (s : State) : Prop where
  console : Holds s.world.ds.console s.sent s.stray
  saved : s.world.settings.ds = some (s.calls.foldl Request.apply args)
  early : ∀ k, s.startup = some k → k ≤ s.calls.length
  once : s.pending = true → s.startup = none

theorem text_concat (rs : List Request) (r : Request) :
    text (rs ++ [r]) = text rs ++ (r.bytes ++ [newline]) := by
  simp [text]

section Holds

variable {console : Option (List UInt8)} {sent : List Request} {stray : ℕ}

theorem Holds.line (h : Holds console sent stray) (r : Request) :
    Holds (console.map (· ++ (r.bytes ++ [newline]))) (sent ++ [r]) stray := by
  obtain ⟨written, rfl, hlength, htext⟩ := h
  refine ⟨_, rfl, ?_, ?_⟩
  · simp only [text_concat, List.length_append, hlength]
    omega
  · intro hzero
    rw [text_concat, htext hzero]

theorem Holds.failed (h : Holds console sent stray) (bytes : List UInt8) :
    Holds (console.map (· ++ bytes)) sent
      (stray + (((console.map (· ++ bytes)).getD []).length - (console.getD []).length)) := by
  obtain ⟨written, rfl, hlength, htext⟩ := h
  have hstray : (written ++ bytes).length - written.length = bytes.length := by
    rw [List.length_append, Nat.add_sub_cancel_left]
  simp only [Option.map_some, Option.getD_some, hstray]
  refine ⟨_, rfl, ?_, ?_⟩
  · rw [List.length_append, hlength, Nat.add_assoc]
  · intro hzero
    obtain ⟨hs, hbytes⟩ := Nat.add_eq_zero_iff.1 hzero
    rw [List.length_eq_zero_iff.1 hbytes, List.append_nil, htext hs]

end Holds

/-- One more call is one more line, wherever the startup line stands. -/
theorem sent_call {r : Request} {w : World}
    (hearly : ∀ k, s.startup = some k → k ≤ s.calls.length) :
    ({ s with world := w, calls := s.calls ++ [r] } : State).sent = s.sent ++ [r] := by
  simp only [State.sent]
  cases hstartup : s.startup with
  | none => rfl
  | some k =>
      have hk := hearly k hstartup
      simp [List.take_append_of_le_length hk, List.drop_append_of_le_length hk]

theorem Written.failed {bytes : List UInt8} (hw : Written args s)
    (hconsole : w.ds.console = s.world.ds.console.map (· ++ bytes))
    (hsettings : w.settings.ds = s.world.settings.ds) : Written args (s.failed w) := by
  refine ⟨?_, hsettings.trans hw.saved, hw.early, hw.once⟩
  simp only [State.failed, State.written, hconsole]
  exact hw.console.failed bytes

theorem Written.step (hw : Written args s) (h : step env s a = some t) : Written args t := by
  cases a with
  | call r =>
      rw [Console.step] at h
      split at h
      · rename_i hrun
        cases h
        obtain ⟨hconsole, hsettings⟩ := Request.run_ok hrun
        refine ⟨?_, ?_, ?_, hw.once⟩
        · rw [sent_call hw.early, hconsole]
          exact hw.console.line r
        · simp [hsettings, hw.saved]
        · intro k hk
          exact (hw.early k hk).trans (by simp)
      · rename_i hrun
        cases h
        obtain ⟨⟨_, hconsole⟩, hsettings⟩ := Request.run_error hrun
        exact hw.failed hconsole hsettings
  | startup failed =>
      simp only [Console.step] at h
      split at h
      · cases h
      · rename_i hpending
        have hnone : s.startup = none := hw.once (by simpa using hpending)
        cases failed with
        | none =>
            cases h
            refine ⟨?_, hw.saved, ?_, nofun⟩
            · -- the line goes behind the calls made so far
              have hsent : s.calls.take s.calls.length ++ .setCheats true ::
                  s.calls.drop s.calls.length = s.sent ++ [.setCheats true] := by
                simp [State.sent, hnone]
              simp only [State.sent, hsent]
              exact hw.console.line (.setCheats true)
            · rintro k ⟨⟩
              exact Nat.le_refl _
        | some wrote =>
            cases h
            have hfailed : Written args
                (s.failed (put s.world ((startupLine ++ [newline]).take wrote))) :=
              hw.failed rfl rfl
            exact ⟨hfailed.console, hfailed.saved, hfailed.early, nofun⟩
  | «meanwhile» w =>
      rw [Console.step] at h
      split at h
      · rename_i hsame
        cases h
        refine ⟨?_, hsame.2.trans hw.saved, hw.early, hw.once⟩
        rw [hsame.1]
        exact hw.console
      · cases h

theorem Written.of_reachable (h : (machine env w args).Reachable Machine.always s) :
    Written args s := by
  refine Machine.Reachable.invariant (I := Written args)
    ⟨⟨_, rfl, rfl, fun _ => rfl⟩, rfl, ?_, fun _ => rfl⟩ ?_ h
  · intro k hk
    cases hk
  · intro s a t hw _ hstep
    exact hw.step hstep

/-! ## What the settings hold -/

theorem foldl_apply (args : DsStartArgs) (calls : List Request) :
    (calls.foldl Request.apply args).map = lastMap args calls ∧
      (calls.foldl Request.apply args).svCheats = lastCheats args calls := by
  -- from the end: the last call decides, or leaves it to those before
  induction calls using List.reverseRecOn with
  | nil => exact ⟨rfl, rfl⟩
  | append_singleton calls r ih =>
      rw [List.foldl_append]
      cases r with
      | changelevel map =>
          refine ⟨?_, ?_⟩
          · simp [lastMap, Request.map?, Request.apply]
          · simpa [lastCheats, Request.cheats?, Request.apply] using ih.2
      | setCheats enabled =>
          refine ⟨?_, ?_⟩
          · simpa [lastMap, Request.map?, Request.apply] using ih.1
          · simp [lastCheats, Request.cheats?, Request.apply]

/-! ## Main result -/

theorem Written.lines (hw : Written args s) (hstray : s.stray = 0) :
    s.lines = (s.sent.map Request.bytes).flatMap (·.splitOn newline) ++ [[]] := by
  obtain ⟨written, hconsole, -, htext⟩ := hw.console
  rw [State.lines, State.written, hconsole, Option.getD_some, htext hstray]
  exact Text.splitOn_flatMap _

/-- The startup line is among the lines sent, behind some of the calls. -/
theorem sent_perm (s : State) : s.sent.Perm s.requests := by
  rw [State.sent, State.requests]
  cases s.startup with
  | none => rfl
  | some k =>
      have hfront : (s.calls.take k ++ .setCheats true :: s.calls.drop k).Perm
          (.setCheats true :: (s.calls.take k ++ s.calls.drop k)) := List.perm_middle
      simpa using hfront

theorem length_text_sent (s : State) : (text s.sent).length = (text s.requests).length :=
  (((sent_perm s).map Request.bytes).flatMap_right _).length_eq

theorem not_mem_sent (hsafe : ∀ map, .changelevel map ∈ s.calls → '\n' ∉ map.toList) :
    ∀ line ∈ s.sent.map Request.bytes, newline ∉ line := by
  intro line hline hmem
  obtain ⟨r, hr, rfl⟩ := List.mem_map.1 hline
  obtain ⟨map, rfl, hmap⟩ := Request.newline_mem_bytes.1 hmem
  have hcall : .changelevel map ∈ s.calls := by
    rw [State.sent] at hr
    split at hr
    · exact hr
    · rcases List.mem_append.1 hr with hr | hr
      · exact List.mem_of_mem_take hr
      · exact List.mem_of_mem_drop (by simpa using hr)
  exact hsafe map hcall hmap

/-- A list that is the same with `x` in front and behind holds nothing else. -/
theorem append_singleton_eq_cons_iff {α : Type} {x : α} {l : List α} :
    l ++ [x] = x :: l ↔ ∀ y ∈ l, y = x := by
  induction l with
  | nil => simp
  | cons y l ih =>
      constructor
      · intro h
        obtain ⟨rfl, hrest⟩ := List.cons.inj h
        intro z hz
        rcases List.mem_cons.1 hz with rfl | hz
        · rfl
        · exact ih.1 hrest z hz
      · intro h
        obtain rfl : y = x := h y List.mem_cons_self
        rw [List.cons_append, ih.2 fun z hz => h z (List.mem_cons_of_mem _ hz)]

/-- The startup line stands in front of the calls, or could as well. -/
theorem sent_eq_iff : s.sent = s.requests ↔
    ∀ k, s.startup = some k → ∀ r ∈ s.calls.take k, r = .setCheats true := by
  rw [State.sent, State.requests]
  cases s.startup with
  | none => simp
  | some k =>
      have hsplit : [.setCheats true] ++ s.calls =
          (.setCheats true :: s.calls.take k) ++ s.calls.drop k := by simp
      have hleft : s.calls.take k ++ .setCheats true :: s.calls.drop k =
          (s.calls.take k ++ [.setCheats true]) ++ s.calls.drop k := by simp
      simp only [reduceCtorEq, if_false, hsplit, hleft, List.append_left_inj,
        append_singleton_eq_cons_iff]
      simp

/-- In every run of the server there is a line for each call exactly when no map holds a newline,
nothing but turning cheats on has come before the startup line, and no part of a line was left. -/
theorem oneLineEach_iff {env : Env} {w : World} {args : DsStartArgs} {s : State}
    (h : (machine env w args).Reachable Machine.always s) : OneLineEach args s ↔ Safe s := by
  have hw : Written args s := .of_reachable h
  constructor
  · rintro ⟨hlines, -, -⟩
    -- put together again, the lines leave no room for anything else
    have hstray : s.stray = 0 := by
      obtain ⟨written, hconsole, hlength, -⟩ := hw.console
      have hall : s.written = text s.requests := Text.eq_flatMap_of_splitOn hlines
      rw [State.written, hconsole, Option.getD_some] at hall
      rw [hall, length_text_sent] at hlength
      omega
    rw [hw.lines hstray, List.append_left_inj] at hlines
    -- what stands between newlines holds none, so that no call's line does
    have hmaps : ∀ map, .changelevel map ∈ s.calls → '\n' ∉ map.toList := by
      intro map hcall hmap
      have hmem : (Request.changelevel map).bytes ∈ s.requests.map Request.bytes :=
        List.mem_map_of_mem (List.mem_append_right _ hcall)
      rw [← hlines] at hmem
      obtain ⟨line, -, hpiece⟩ := List.mem_flatMap.1 hmem
      exact Text.not_mem_of_mem_splitOn hpiece (Request.newline_mem_bytes.2 ⟨map, rfl, hmap⟩)
    rw [Text.flatMap_splitOn_eq_self (not_mem_sent hmaps)] at hlines
    have hsent : s.sent = s.requests := List.map_injective_iff.2 Request.bytes_injective hlines
    exact ⟨hmaps, sent_eq_iff.1 hsent, hstray⟩
  · rintro ⟨hmaps, hfirst, hstray⟩
    have hsent : s.sent = s.requests := sent_eq_iff.2 hfirst
    have hlines : s.lines = s.requests.map Request.bytes ++ [[]] := by
      rw [hw.lines hstray, Text.flatMap_splitOn_eq_self (not_mem_sent hmaps), hsent]
    refine ⟨hlines, ?_, ⟨_, hw.saved, foldl_apply args s.calls⟩⟩
    rw [hlines, List.dropLast_concat, mapM_decode]

/-- A server on the map `stadium3`, with cheats. -/
def cheating : DsStartArgs where
  port := 27015
  maxplayers := 8
  map := "stadium3"
  installDir := none
  svCheats := true

theorem exists_oneLineEach : ∃ s, (machine .calm (.new .calm none) cheating).Reachable Machine.always s ∧
    s.requests = [.setCheats true, .changelevel "svencoop1", .setCheats false] ∧
    OneLineEach cheating s := by
  let as : List Act := [.startup none, .call (.changelevel "svencoop1"), .call (.setCheats false)]
  let P (s : State) : Bool :=
    s.calls = [.changelevel "svencoop1", .setCheats false] ∧ s.startup = some 0 ∧ s.stray = 0
  have hrun : ((machine .calm (.new .calm none) cheating).run
      (machine .calm (.new .calm none) cheating).init as).any P = true := by rfl
  obtain ⟨s, hs, hP⟩ := Machine.exists_reachable_of_run hrun
  obtain ⟨hcalls, hstartup, hstray⟩ := of_decide_eq_true hP
  have hrequests : s.requests = [.setCheats true, .changelevel "svencoop1", .setCheats false] := by
    simp [State.requests, hcalls, hstartup]
  refine ⟨s, hs, hrequests, (oneLineEach_iff hs).2 ⟨?_, ?_, hstray⟩⟩
  · intro map hmap
    obtain rfl : map = "svencoop1" := by simpa [hcalls] using hmap
    decide
  · intro k hk
    obtain rfl : 0 = k := by simpa [hstartup] using hk
    simp

/-- A map with a newline in it adds a line, and a call that comes before the startup line is undone
by it, with the settings as the call has left them. -/
theorem two_lines_for_one_call :
    (∃ s, (machine .calm (.new .calm none) { cheating with svCheats := false }).Reachable
        Machine.always s ∧
      s.requests = [.changelevel "stadium4\nquit"] ∧
      s.lines = ["changelevel stadium4".toUTF8.toList, "quit".toUTF8.toList, []] ∧
      ¬ OneLineEach { cheating with svCheats := false } s) ∧
    ∃ s, (machine .calm (.new .calm none) cheating).Reachable Machine.always s ∧
      s.requests = [.setCheats true, .setCheats false] ∧
      s.lines = [(Request.setCheats false).bytes, (Request.setCheats true).bytes, []] ∧
      ¬ OneLineEach cheating s := by
  constructor
  · let P (s : State) : Bool :=
      s.calls = [.changelevel "stadium4\nquit"] ∧ s.startup = none ∧ s.stray = 0
    have hrun : ((machine .calm (.new .calm none) { cheating with svCheats := false }).run
        (machine .calm (.new .calm none) { cheating with svCheats := false }).init
        [.call (.changelevel "stadium4\nquit")]).any P = true := by rfl
    obtain ⟨s, hs, hP⟩ := Machine.exists_reachable_of_run hrun
    obtain ⟨hcalls, hstartup, hstray⟩ := of_decide_eq_true hP
    have hrequests : s.requests = [.changelevel "stadium4\nquit"] := by
      simp [State.requests, hcalls, hstartup]
    have hlines : s.lines = ["changelevel stadium4".toUTF8.toList, "quit".toUTF8.toList, []] := by
      rw [(Written.of_reachable hs).lines hstray, State.sent, hstartup, hcalls]
      simp only [List.map_cons, List.map_nil, Request.bytes, Utf8.toUTF8_toList]
      decide
    refine ⟨s, hs, hrequests, hlines, fun h => ?_⟩
    have hlength := congrArg List.length h.lines
    simp [hlines, hrequests] at hlength
  · let P (s : State) : Bool := s.calls = [.setCheats false] ∧ s.startup = some 1 ∧ s.stray = 0
    have hrun : ((machine .calm (.new .calm none) cheating).run
        (machine .calm (.new .calm none) cheating).init
        [.call (.setCheats false), .startup none]).any P = true := by rfl
    obtain ⟨s, hs, hP⟩ := Machine.exists_reachable_of_run hrun
    obtain ⟨hcalls, hstartup, hstray⟩ := of_decide_eq_true hP
    have hrequests : s.requests = [.setCheats true, .setCheats false] := by
      simp [State.requests, hcalls, hstartup]
    have hlines : s.lines =
        [(Request.setCheats false).bytes, (Request.setCheats true).bytes, []] := by
      have hmaps : ∀ map, .changelevel map ∈ s.calls → '\n' ∉ map.toList := by simp [hcalls]
      rw [(Written.of_reachable hs).lines hstray,
        Text.flatMap_splitOn_eq_self (not_mem_sent hmaps), State.sent, hstartup, hcalls]
      rfl
    refine ⟨s, hs, hrequests, hlines, fun h => ?_⟩
    have hfirst : (Request.setCheats false).bytes = (Request.setCheats true).bytes := by
      have heq := h.lines
      rw [hlines, hrequests] at heq
      exact (List.cons.inj heq).1
    cases Request.bytes_injective hfirst

end Console
end Ds
end SvenBridge
