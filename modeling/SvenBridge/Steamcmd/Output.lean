import SvenBridge.Lib.Machine
import SvenBridge.Lib.Utf8
import SvenBridge.Steamcmd.Progress

/-!
# Steamcmd.Output — the output of a pull, line by line

`pull_ds` reads both outputs of steamcmd in pieces and reports the lines of each piece.  This file
contains

* `State` and `machine` — the read loop, with the outputs still to be read;
* `reportedLines` — what is made of one piece;
* `clean` — the steps that cut an output only between its lines, and leave nothing unread;
* `lines_of_clean` — in runs of such steps every line is reported, however they are cut.
-/

namespace SvenBridge
namespace Steamcmd

open Lib Text

/-! ## The read loop -/

inductive Stream where
  | stdout
  | stderr
  deriving DecidableEq

structure State where
  /-- What steamcmd writes and the loop has not read. -/
  rest : Stream → List UInt8
  /-- The lines the loop has gone through. -/
  lines : Stream → List (List Char)
  /-- The loop has been left. -/
  left : Bool

/-- What `on_line` has been called with. -/
def State.calls (st : State) (s : Stream) : List (List Char) :=
  (st.lines s).map stripAnsi

inductive Act where
  /-- A read of `n` bytes. -/
  | read (s : Stream) (n : ℕ)
  /-- A read of none: the output has ended. -/
  | eof (s : Stream)
  | error (s : Stream)
  /-- The wait of 250 ms is over. -/
  | tick
  | cancel

def bufferSize : ℕ :=
  4096

/-- `from_utf8_lossy`, `trim_end` and `lines`. -/
def reportedLines (chunk : List UInt8) : List (List Char) :=
  Text.lines '\n' '\r' ((Utf8.decodeLossy chunk).rdropWhile isWhitespace)

def State.step (st : State) (a : Act) : Option State :=
  if st.left then
    none
  else
    match a with
    | .read s n =>
        -- at least one byte, at most the buffer, and no more than there is
        if 0 < n ∧ n ≤ bufferSize ∧ n ≤ (st.rest s).length then
          some { st with
            rest := Function.update st.rest s ((st.rest s).drop n)
            lines := Function.update st.lines s
              (st.lines s ++ reportedLines ((st.rest s).take n)) }
        else
          none
    -- either output ends the loop, whatever the other one still holds
    | .eof s => if st.rest s = [] then some { st with left := true } else none
    | .error _ | .cancel => some { st with left := true }
    | .tick => some st

/-- The loop over what steamcmd writes. -/
def machine (written : Stream → List UInt8) : Machine State Act where
  init := { rest := written, lines := fun _ => [], left := false }
  step := State.step

/-! ## Clean cuts -/

/-- A line ends in front of the second part, or there is no second part. -/
def breaksAt (chunk rest : List UInt8) : Bool :=
  rest = [] ∨ chunk.getLast? = some 10 ∨ rest.head? = some 10 ∨ [13, 10] <+: rest

/-- The white space at the end of a piece is nothing but line ends, of which the last may go on. -/
def endsCleanly (chunk rest : List UInt8) : Bool :=
  let blank := (Utf8.decodeLossy chunk).rtakeWhile isWhitespace
  lineEnds '\n' '\r' blank ∨
    rest.head? = some 10 ∧ blank.getLast? = some '\r' ∧ lineEnds '\n' '\r' blank.dropLast

/-- Reads cut an output between its lines and behind no white space of a line, and the loop is left
when everything has been read. -/
def clean (st : State) : Act → Bool
  | .read s n =>
      breaksAt ((st.rest s).take n) ((st.rest s).drop n) &&
        endsCleanly ((st.rest s).take n) ((st.rest s).drop n)
  | .eof _ | .error _ | .cancel => st.rest .stdout = [] ∧ st.rest .stderr = []
  | .tick => true

abbrev Clean (st : State) (a : Act) : Prop :=
  clean st a = true

/-- The lines of an output that are not empty. -/
def fullLines (bytes : List UInt8) : List (List Char) :=
  Text.fullLines '\n' '\r' (Utf8.decodeLossy bytes)

def nonEmpty (ls : List (List Char)) : List (List Char) :=
  ls.filter (· ≠ [])

/-! ## One piece -/

theorem decodeLossy_cut {chunk rest : List UInt8} (h : breaksAt chunk rest = true) :
    Utf8.decodeLossy (chunk ++ rest) = Utf8.decodeLossy chunk ++ Utf8.decodeLossy rest := by
  simp only [breaksAt, decide_eq_true_eq] at h
  -- a line feed or a carriage return stands alone in UTF-8, so no character goes over the cut
  rcases h with rfl | hlast | hhead | hprefix
  · simp [Utf8.decodeLossy, Utf8.decodeFrom]
  · obtain ⟨front, rfl⟩ := List.getLast?_eq_some_iff.1 hlast
    rw [List.append_assoc]
    exact Utf8.decodeLossy_split (by decide) front rest
  · obtain ⟨more, rfl⟩ := List.head?_eq_some_iff.1 hhead
    exact Utf8.decodeLossy_before (by decide) chunk more
  · obtain ⟨more, rfl⟩ := hprefix
    exact Utf8.decodeLossy_before (by decide) chunk (10 :: more)

theorem decodeLossy_lf (rest : List UInt8) :
    Utf8.decodeLossy (10 :: rest) = '\n' :: Utf8.decodeLossy rest :=
  Utf8.decodeLossy_cons (by decide) rest

theorem decodeLossy_cr (rest : List UInt8) :
    Utf8.decodeLossy (13 :: rest) = '\r' :: Utf8.decodeLossy rest :=
  Utf8.decodeLossy_cons (by decide) rest

/-- Line ends that are there begin with one. -/
theorem exists_lineEnd {ends : List Char} (hends : lineEnds '\n' '\r' ends = true) (hne : ends ≠ [])
    (rest : List Char) :
    ∃ more, ends ++ rest = '\n' :: more ∨ ends ++ rest = '\r' :: '\n' :: more := by
  unfold lineEnds at hends
  split at hends
  · exact absurd rfl hne
  · rename_i c ends
    split at hends
    · rename_i hc
      exact ⟨ends ++ rest, .inl (by rw [hc, List.cons_append])⟩
    · split at hends
      · rename_i d ends
        simp only [Bool.and_eq_true, decide_eq_true_eq] at hends
        obtain ⟨⟨rfl, rfl⟩, -⟩ := hends
        exact ⟨ends ++ rest, .inr rfl⟩
      · cases hends

theorem not_isWhitespace_core {text : List Char} {c : Char}
    (hlast : (text.rdropWhile isWhitespace).getLast? = some c) : isWhitespace c = false := by
  obtain ⟨front, hcore⟩ := List.getLast?_eq_some_iff.1 hlast
  have hne : text.rdropWhile isWhitespace ≠ [] := by simp [hcore]
  have hnot := List.rdropWhile_last_not isWhitespace text hne
  simpa [hcore] using hnot

/-- The lines of a clean piece, and those of what follows it, are the lines of both. -/
theorem fullLines_cut {chunk rest : List UInt8} (hbreak : breaksAt chunk rest = true)
    (hclean : endsCleanly chunk rest = true) :
    fullLines (chunk ++ rest) = nonEmpty (reportedLines chunk) ++ fullLines rest := by
  have hne : '\r' ≠ '\n' := by decide
  have htext : (Utf8.decodeLossy chunk).rdropWhile isWhitespace ++
      (Utf8.decodeLossy chunk).rtakeWhile isWhitespace = Utf8.decodeLossy chunk :=
    List.rdropWhile_append_rtakeWhile
  have hcore : ∀ c, ((Utf8.decodeLossy chunk).rdropWhile isWhitespace).getLast? = some c →
      isWhitespace c = false := fun _ => not_isWhitespace_core
  simp only [endsCleanly, decide_eq_true_eq] at hclean
  rw [fullLines, decodeLossy_cut hbreak, ← htext, List.append_assoc]
  show _ = Text.fullLines '\n' '\r' _ ++ Text.fullLines '\n' '\r' _
  -- the text of the piece is a core and the white space that `trim_end` takes off
  generalize (Utf8.decodeLossy chunk).rdropWhile isWhitespace = core at htext hcore ⊢
  generalize (Utf8.decodeLossy chunk).rtakeWhile isWhitespace = blank at htext hclean ⊢
  have hlast : core.getLast? ≠ some '\r' := by
    intro hcr
    exact absurd (hcore _ hcr) (by decide)
  rcases hclean with hends | ⟨hhead, hcr, hends⟩
  · by_cases hblank : blank = []
    · -- the piece ends without a line end: one follows, or nothing
      subst hblank
      rw [List.append_nil] at htext
      rw [List.nil_append]
      simp only [breaksAt, decide_eq_true_eq] at hbreak
      rcases hbreak with rfl | hlf | hhead | hprefix
      · exact (congrArg _ (List.append_nil core)).trans (List.append_nil _).symm
      · exfalso
        obtain ⟨front, rfl⟩ := List.getLast?_eq_some_iff.1 hlf
        have hlf : Utf8.decodeLossy (front ++ [10]) = Utf8.decodeLossy front ++ ['\n'] := by
          rw [Utf8.decodeLossy_before (by decide), decodeLossy_lf]
          rfl
        -- a core that ends with a line feed would have been trimmed
        have hcoreLast : core.getLast? = some '\n' := by rw [htext, hlf, List.getLast?_concat]
        exact absurd (hcore _ hcoreLast) (by decide)
      · obtain ⟨more, rfl⟩ := List.head?_eq_some_iff.1 hhead
        apply fullLines_append hne hlast
        exact ⟨_, .inl (decodeLossy_lf more)⟩
      · obtain ⟨more, rfl⟩ := hprefix
        apply fullLines_append hne hlast
        refine ⟨Utf8.decodeLossy more, .inr ?_⟩
        rw [← decodeLossy_lf, ← decodeLossy_cr]
        rfl
    · rw [fullLines_append hne hlast (exists_lineEnd hends hblank _),
        fullLines_lineEnds hne hends]
  · -- the last line end of the piece goes on in what follows
    obtain ⟨more, rfl⟩ := List.head?_eq_some_iff.1 hhead
    obtain ⟨ends, rfl⟩ := List.getLast?_eq_some_iff.1 hcr
    rw [List.dropLast_concat] at hends
    have hstart : ∃ tail, ends ++ '\r' :: '\n' :: Utf8.decodeLossy more = '\n' :: tail ∨
        ends ++ '\r' :: '\n' :: Utf8.decodeLossy more = '\r' :: '\n' :: tail := by
      by_cases hends' : ends = []
      · subst hends'
        exact ⟨_, .inr rfl⟩
      · exact exists_lineEnd hends hends' _
    rw [decodeLossy_lf, List.append_assoc, List.singleton_append,
      fullLines_append hne hlast hstart, fullLines_lineEnds hne hends, fullLines_crnl hne,
      fullLines_nl]

/-! ## Runs -/

/-- What has been reported, and what is still to be read, are the lines of what is written; once
the loop is left everything has been read. -/
structure Reports (written : Stream → List UInt8) (st : State) : Prop where
  lines : ∀ s, nonEmpty (st.lines s) ++ fullLines (st.rest s) = fullLines (written s)
  left : st.left = true → ∀ s, st.rest s = []

theorem reports_step {written : Stream → List UInt8} {st st' : State} {a : Act}
    (h : Reports written st) (hclean : Clean st a) (hstep : st.step a = some st') :
    Reports written st' := by
  unfold State.step at hstep
  split at hstep
  · cases hstep
  rename_i hleft
  have hall : st.rest .stdout = [] ∧ st.rest .stderr = [] → ∀ s, st.rest s = [] := by
    rintro ⟨hout, herr⟩ (_ | _)
    · exact hout
    · exact herr
  -- only a read changes what is reported and what is left; the other steps at most leave the loop
  cases a with
  | read s n =>
      dsimp only at hstep
      split at hstep
      · cases hstep
        obtain ⟨hbreak, hends⟩ := Bool.and_eq_true_iff.1 hclean
        refine ⟨?_, fun hleft' => absurd hleft' hleft⟩
        intro s'
        by_cases hs : s' = s
        · subst hs
          -- the piece and what follows it make up what was still to be read
          have hcut := fullLines_cut hbreak hends
          rw [List.take_append_drop] at hcut
          simp only [Function.update_self]
          rw [← h.lines s', hcut, nonEmpty, List.filter_append, List.append_assoc]
          rfl
        · simp only [Function.update_of_ne hs]
          exact h.lines s'
      · cases hstep
  | eof s =>
      dsimp only at hstep
      split at hstep
      · cases hstep
        exact ⟨h.lines, fun _ => hall (of_decide_eq_true hclean)⟩
      · cases hstep
  | error s =>
      cases hstep
      exact ⟨h.lines, fun _ => hall (of_decide_eq_true hclean)⟩
  | tick =>
      cases hstep
      exact h
  | cancel =>
      cases hstep
      exact ⟨h.lines, fun _ => hall (of_decide_eq_true hclean)⟩

theorem Reports.whole {written : Stream → List UInt8} {st : State} (h : Reports written st)
    (hleft : st.left = true) (s : Stream) : nonEmpty (st.lines s) = fullLines (written s) := by
  have hlines := h.lines s
  rw [h.left hleft s] at hlines
  simpa [fullLines, Text.fullLines, Text.lines, splitInclusive, Utf8.decodeLossy,
    Utf8.decodeFrom] using hlines

theorem nonEmpty_cons (line : List Char) (ls : List (List Char)) :
    nonEmpty (line :: ls) = if line = [] then nonEmpty ls else line :: nonEmpty ls := by
  by_cases hline : line = [] <;> simp [nonEmpty, hline]

/-- A line without a character is no call that is seen. -/
theorem nonEmpty_calls (st : State) (s : Stream) :
    nonEmpty (st.calls s) = nonEmpty ((nonEmpty (st.lines s)).map stripAnsi) := by
  rw [State.calls]
  -- an empty line is stripped to an empty one, and neither is counted
  induction st.lines s with
  | nil => rfl
  | cons line ls ih =>
      rw [nonEmpty_cons line ls]
      by_cases hline : line = []
      · subst hline
        have hstrip : stripAnsi [] = [] := rfl
        rw [if_pos rfl, List.map_cons, hstrip, nonEmpty_cons, if_pos rfl, ih]
      · rw [if_neg hline, List.map_cons, List.map_cons, nonEmpty_cons, nonEmpty_cons, ih]

/-- In every run whose reads cut the outputs between their lines, and which is left when everything
has been read: what has been reported of an output is the first of its lines, in order and whole;
when the loop is left they are all there, and `on_line` has been called with them; and two such runs
over the same outputs report the same. -/
theorem lines_of_clean {written : Stream → List UInt8} {st : State}
    (h : (machine written).Reachable Clean st) :
    (∀ s, nonEmpty (st.lines s) ++ fullLines (st.rest s) = fullLines (written s)) ∧
    (st.left = true → ∀ s, nonEmpty (st.lines s) = fullLines (written s) ∧
      nonEmpty (st.calls s) = nonEmpty ((fullLines (written s)).map stripAnsi)) ∧
    ∀ st', (machine written).Reachable Clean st' → st.left = true → st'.left = true →
      ∀ s, nonEmpty (st.lines s) = nonEmpty (st'.lines s) ∧
        nonEmpty (st.calls s) = nonEmpty (st'.calls s) := by
  have hreports : ∀ st, (machine written).Reachable Clean st → Reports written st := by
    intro st h
    refine Machine.Reachable.invariant ⟨fun _ => rfl, nofun⟩ ?_ h
    intro st a st' hst hclean hstep
    exact reports_step hst hclean hstep
  refine ⟨(hreports st h).lines, ?_, ?_⟩
  · intro hleft s
    have hlines := (hreports st h).whole hleft s
    exact ⟨hlines, by rw [nonEmpty_calls, hlines]⟩
  · intro st' h' hleft hleft' s
    have hlines : nonEmpty (st.lines s) = nonEmpty (st'.lines s) := by
      rw [(hreports st h).whole hleft, (hreports st' h').whole hleft']
    exact ⟨hlines, by rw [nonEmpty_calls, nonEmpty_calls, hlines]⟩

/-- The line `ok`, and nothing. -/
def shortOutput : Stream → List UInt8
  | .stdout => [111, 107, 10]
  | .stderr => []

/-- It is reported when it is read at once. -/
theorem exists_lines_of_clean : ∃ st, (machine shortOutput).Reachable Clean st ∧ st.left = true ∧
    nonEmpty (st.lines .stdout) = fullLines (shortOutput .stdout) := by
  have hrun : ((machine shortOutput).runWhile Clean (machine shortOutput).init
      [.tick, .read .stdout 3, .eof .stderr]).any (·.left) = true := by decide +kernel
  obtain ⟨st, hst, hleft⟩ := Machine.exists_reachable_of_runWhile hrun
  exact ⟨st, hst, hleft, ((lines_of_clean hst).2.1 hleft .stdout).1⟩

/-- Two reads make two lines of it; and it is lost when the other output ends first. -/
theorem lines_cut_and_lost :
    fullLines (shortOutput .stdout) = [['o', 'k']] ∧
    (∃ st, (machine shortOutput).Reachable Machine.always st ∧ st.left = true ∧
      st.calls .stdout = [['o'], ['k']]) ∧
    ∃ st, (machine shortOutput).Reachable Machine.always st ∧ st.left = true ∧
      st.calls .stdout = [] := by
  refine ⟨by decide +kernel, ?_, ?_⟩
  · have hrun : ((machine shortOutput).run (machine shortOutput).init
        [.read .stdout 1, .read .stdout 2, .eof .stdout]).any
          (fun st => st.left && st.calls .stdout == [['o'], ['k']]) = true := by decide +kernel
    obtain ⟨st, hst, hP⟩ := Machine.exists_reachable_of_run hrun
    rw [Bool.and_eq_true, beq_iff_eq] at hP
    exact ⟨st, hst, hP⟩
  · have hrun : ((machine shortOutput).run (machine shortOutput).init [.eof .stderr]).any
        (fun st => st.left && st.calls .stdout == []) = true := by decide +kernel
    obtain ⟨st, hst, hP⟩ := Machine.exists_reachable_of_run hrun
    rw [Bool.and_eq_true, beq_iff_eq] at hP
    exact ⟨st, hst, hP⟩

end Steamcmd
end SvenBridge
