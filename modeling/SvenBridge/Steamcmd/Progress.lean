import Mathlib.Data.Rat.Defs
import Mathlib.Algebra.Order.Ring.Rat
import SvenBridge.Events

/-!
# Steamcmd.Progress — the progress lines of steamcmd

`parse_progress` finds a percentage, byte counts and a verb in an output line.  Texts are lists of
characters here, and percentages exact decimals.  This file contains

* `stripAnsi` — a line without its escape sequences;
* `parseF64` and `parseU64` — the numbers;
* `parseProgress` — the parser;
* `Number`, `Counts`, `StateOf` — the parts of a progress line;
* `parseProgress_spec` — which lines are accepted, and with what.
-/

namespace SvenBridge
namespace Steamcmd

open Lib Text

/-! ## Escape sequences -/

/-- Where the reader of a line is: in its text, after an ESC, or in a sequence ESC `[`. -/
inductive Ansi where
  | text
  | esc
  | csi
  deriving DecidableEq

def escape : Char :=
  Char.ofNat 0x1B

def Ansi.next : Ansi → Char → Ansi
  | .text, c => if c = escape then .esc else .text
  | .esc, c => if c = '[' then .csi else .text
  | .csi, c => if c.isAlpha then .text else .csi

/-- The loop of `strip_ansi`. -/
def stripFrom : Ansi → List Char → List Char
  | _, [] => []
  | a, c :: rest =>
      -- the ESC itself and everything in a sequence is dropped
      if a = .text ∧ c ≠ escape then
        c :: stripFrom (a.next c) rest
      else
        stripFrom (a.next c) rest

def stripAnsi (s : List Char) : List Char :=
  if escape ∉ s then s else stripFrom .text s

/-! ## Numbers -/

/-- The digits after the sign, without the point, and how many stand behind it. -/
structure Decimal where
  neg : Bool
  digits : ℕ
  places : ℕ

namespace Decimal

variable (d : Decimal)

def value : ℚ :=
  (if d.neg then -1 else 1) * (d.digits / 10 ^ d.places)

/-- `f64::is_finite` of the nearest `f64`. -/
def isFinite : Bool :=
  d.digits < (2 ^ 1024 - 2 ^ 970) * 10 ^ d.places

/-- `clamp(0.0, 100.0)`. -/
def clamp : ℚ :=
  max 0 (min 100 d.value)

end Decimal

/-- The value of a run of digits. -/
def digitsValue (digits : List Char) : ℕ :=
  Nat.ofDigitChars 10 digits 0

def parseUnsigned (body : List Char) : Option (ℕ × ℕ) :=
  let int := body.takeWhile Char.isDigit
  match body.dropWhile Char.isDigit with
  -- digits only
  | [] => if int = [] then none else some (digitsValue int, 0)
  -- one point, with a digit on one side of it at least
  | c :: frac =>
      if c = '.' ∧ frac.all Char.isDigit ∧ int ++ frac ≠ [] then
        some (digitsValue (int ++ frac), frac.length)
      else
        none

/-- `f64::from_str`, of a run of digits, points and minus signs. -/
def parseF64 (run : List Char) : Option Decimal :=
  match run with
  | '-' :: body => (parseUnsigned body).map fun (digits, places) => ⟨true, digits, places⟩
  | body => (parseUnsigned body).map fun (digits, places) => ⟨false, digits, places⟩

/-- A number may have a plus sign. -/
def withoutPlus (s : List Char) : List Char :=
  if s.head? = some '+' then s.tail else s

/-- `u64::from_str`. -/
def parseU64 (s : List Char) : Option UInt64 :=
  let digits := withoutPlus s
  if digits ≠ [] ∧ digits.all Char.isDigit ∧ digitsValue digits < 2 ^ 64 then
    some (UInt64.ofNat (digitsValue digits))
  else
    none

/-! ## Progress lines -/

structure Progress where
  pct : ℚ
  curBytes : Option UInt64
  totalBytes : Option UInt64
  state : Option (List Char)
  deriving DecidableEq

def progressWord : List Char :=
  "progress:".toList

def updateState : List Char :=
  "Update state".toList

def isNumberChar (c : Char) : Bool :=
  c.isDigit || c == '.' || c == '-'

/-- The percentage, and what follows it. -/
def parsePercent (clean : List Char) : Option (Decimal × List Char) := do
  let p ← find progressWord clean
  let rest := (clean.drop (p + progressWord.length)).dropWhile isWhitespace
  -- the longest run of number characters, whether or not it is a number
  let pct ← parseF64 (strip isWhitespace (rest.takeWhile isNumberChar))
  if pct.isFinite then some (pct, rest.dropWhile isNumberChar) else none

/-- The counts in the first parentheses. -/
def parseCounts (after : List Char) : Option (UInt64 × UInt64) := do
  let opened ← find ['('] after
  let close ← find [')'] (after.drop opened)
  -- the first `)` after the first `(`
  let inside := strip isWhitespace ((after.take (opened + close)).drop (opened + 1))
  let slash ← find ['/'] inside
  let cur ← parseU64 (strip isWhitespace (inside.take slash))
  let total ← parseU64 (strip isWhitespace (inside.drop (slash + 1)))
  some (cur, total)

/-- The verb without the blanks and commas around it. -/
def trimVerb (verb : List Char) : List Char :=
  strip isWhitespace ((strip isWhitespace verb).rdropWhile (· == ','))

/-- The verb in front of a `progress:`. -/
def parseState (clean : List Char) : Option (List Char) :=
  let verb := do
    let s ← find updateState clean
    let after := clean.drop s
    let close ← find [')'] after
    -- behind the parentheses of the state's number
    let verbStart := close + 1
    let verbEnd ← (find progressWord (after.drop verbStart)).map (verbStart + ·)
    some (trimVerb ((after.take verbEnd).drop verbStart))
  verb.filter (· ≠ [])

def parseProgress (line : List Char) : Option Progress := do
  let clean := stripAnsi line
  let (pct, after) ← parsePercent clean
  -- a line without counts is refused too
  let (cur, total) ← parseCounts after
  some {
    pct := pct.clamp
    curBytes := some cur
    totalBytes := some total
    state := parseState clean }

/-! ## What a progress line is -/

/-- A decimal numeral without a sign: digits, with a point before, between or behind them. -/
inductive SpellsUnsigned : List Char → ℕ → ℕ → Prop where
  | whole {int : List Char} (hint : ∀ c ∈ int, c.isDigit) (hne : int ≠ []) :
      SpellsUnsigned int (digitsValue int) 0
  | point {int frac : List Char} (hint : ∀ c ∈ int, c.isDigit) (hfrac : ∀ c ∈ frac, c.isDigit)
      (hne : int ++ frac ≠ []) :
      SpellsUnsigned (int ++ '.' :: frac) (digitsValue (int ++ frac)) frac.length

inductive Spells : List Char → Decimal → Prop where
  | plain {body : List Char} {digits places : ℕ} (h : SpellsUnsigned body digits places) :
      Spells body ⟨false, digits, places⟩
  | minus {body : List Char} {digits places : ℕ} (h : SpellsUnsigned body digits places) :
      Spells ('-' :: body) ⟨true, digits, places⟩

/-- After the first `progress:` and blanks stands a decimal numeral, as long as it goes. -/
def Number (clean : List Char) (pct : Decimal) (tail : List Char) : Prop :=
  ∃ before blank run, FirstAt progressWord clean before (blank ++ (run ++ tail)) ∧
    (∀ c ∈ blank, isWhitespace c) ∧ (∀ c ∈ run, isNumberChar c) ∧
    (∀ c, tail.head? = some c → ¬ isNumberChar c) ∧ Spells run pct

inductive SpellsU64 : List Char → UInt64 → Prop where
  | mk {plus digits : List Char} (hplus : plus = [] ∨ plus = ['+'])
      (hdigits : ∀ c ∈ digits, c.isDigit) (hne : digits ≠ []) (hlt : digitsValue digits < 2 ^ 64) :
      SpellsU64 (plus ++ digits) (UInt64.ofNat (digitsValue digits))

/-- The first parentheses hold two numbers, parted by a slash. -/
def Counts (tail : List Char) (cur total : UInt64) : Prop :=
  ∃ before opened inside close a b, FirstAt ['('] tail before opened ∧
    FirstAt [')'] opened inside close ∧ FirstAt ['/'] (strip isWhitespace inside) a b ∧
    SpellsU64 (strip isWhitespace a) cur ∧ SpellsU64 (strip isWhitespace b) total

/-- What stands between the first `)` after `Update state` and the `progress:` after that. -/
def Verb (clean verb : List Char) : Prop :=
  ∃ before rest skipped verbs more, FirstAt updateState clean before rest ∧
    FirstAt [')'] rest skipped verbs ∧ FirstAt progressWord verbs verb more

/-- The verb, when it is there and not blank. -/
def StateOf (clean : List Char) (state : Option (List Char)) : Prop :=
  (∃ verb, Verb clean verb ∧ state = if trimVerb verb = [] then none else some (trimVerb verb)) ∨
    (∀ verb, ¬ Verb clean verb) ∧ state = none

/-- A sequence ESC `[` up to a letter. -/
inductive IsCsi : List Char → Prop where
  | mk {params : List Char} {final : Char} (hparams : ∀ c ∈ params, ¬ c.isAlpha)
      (hfinal : final.isAlpha) : IsCsi (escape :: '[' :: (params ++ [final]))

/-- No escape sequence is open at the end. -/
def OutsideEscape (front : List Char) : Prop :=
  front.foldl Ansi.next .text = .text

/-- The first line with escape sequences put in, none inside another. -/
inductive WithCsi (line : List Char) : List Char → Prop where
  | refl : WithCsi line line
  | insert {front csi back : List Char} (h : WithCsi line (front ++ back))
      (hfront : OutsideEscape front) (hcsi : IsCsi csi) : WithCsi line (front ++ (csi ++ back))

/-! ## Escape sequences are left out -/

theorem stripFrom_append (a : Ansi) (s s' : List Char) :
    stripFrom a (s ++ s') = stripFrom a s ++ stripFrom (s.foldl Ansi.next a) s' := by
  -- over the first text, in whatever state its beginning leaves the reader
  induction s generalizing a with
  | nil => rfl
  | cons c s ih =>
      rw [List.cons_append, stripFrom, stripFrom, List.foldl_cons]
      split
      · rw [ih, List.cons_append]
      · rw [ih]

theorem stripFrom_of_not_mem {s : List Char} (h : escape ∉ s) : stripFrom .text s = s := by
  induction s with
  | nil => rfl
  | cons c s ih =>
      obtain ⟨hc, hs⟩ := not_or.1 (mt List.mem_cons.2 h)
      have hnext : Ansi.next .text c = .text := if_neg (Ne.symm hc)
      rw [stripFrom, if_pos ⟨rfl, Ne.symm hc⟩, hnext, ih hs]

theorem stripAnsi_eq (s : List Char) : stripAnsi s = stripFrom .text s := by
  rw [stripAnsi]
  split
  · rename_i h
    exact (stripFrom_of_not_mem h).symm
  · rfl

/-- Nothing of a sequence stays, and it is closed. -/
theorem stripFrom_csi {csi : List Char} (h : IsCsi csi) :
    stripFrom .text csi = [] ∧ csi.foldl Ansi.next .text = .text := by
  obtain ⟨hparams, hfinal⟩ := h
  rename_i params final
  have hopen : ∀ params : List Char, (∀ c ∈ params, ¬ c.isAlpha) →
      stripFrom .csi (params ++ [final]) = [] ∧
        (params ++ [final]).foldl Ansi.next .csi = .text := by
    intro params hparams
    -- no parameter is a letter, so that the sequence stays open until the final one
    induction params with
    | nil => simp [stripFrom, Ansi.next, hfinal]
    | cons c params ih =>
        have hc := hparams c List.mem_cons_self
        have hrest := ih fun c hc => hparams c (List.mem_cons_of_mem _ hc)
        simpa [stripFrom, Ansi.next, hc] using hrest
  obtain ⟨hstrip, hstate⟩ := hopen params hparams
  refine ⟨?_, ?_⟩
  · simpa [stripFrom, Ansi.next] using hstrip
  · simpa [Ansi.next] using hstate

theorem stripAnsi_withCsi {line line' : List Char} (h : WithCsi line line') :
    stripAnsi line' = stripAnsi line := by
  induction h with
  | refl => rfl
  | insert h hfront hcsi ih =>
      rename_i front csi back
      -- the sequence starts and ends in the text, and leaves nothing
      obtain ⟨hstrip, hstate⟩ := stripFrom_csi hcsi
      rw [← ih, stripAnsi_eq, stripAnsi_eq, stripFrom_append, stripFrom_append, stripFrom_append,
        hfront, hstrip, hstate, List.nil_append]

/-! ## Numbers are read as they are spelled -/

theorem takeWhile_append_stop {α : Type} {p : α → Bool} {run : List α} {c : α}
    (hrun : ∀ x ∈ run, p x) (hc : ¬ p c) (rest : List α) :
    (run ++ c :: rest).takeWhile p = run ∧ (run ++ c :: rest).dropWhile p = c :: rest := by
  rw [List.takeWhile_append_of_pos hrun, List.dropWhile_append_of_pos hrun,
    List.takeWhile_cons_of_neg hc, List.dropWhile_cons_of_neg hc, List.append_nil]
  exact ⟨rfl, rfl⟩

theorem parseUnsigned_eq_some_iff {body : List Char} {digits places : ℕ} :
    parseUnsigned body = some (digits, places) ↔ SpellsUnsigned body digits places := by
  constructor
  · intro h
    have hbody := List.takeWhile_append_dropWhile (p := Char.isDigit) (l := body)
    have hint : ∀ c ∈ body.takeWhile Char.isDigit, c.isDigit := fun c hc =>
      List.mem_takeWhile_imp hc
    rw [parseUnsigned] at h
    split at h
    · rename_i hdrop
      split at h
      · cases h
      · rename_i hne
        cases h
        rw [hdrop, List.append_nil] at hbody
        rw [hbody] at hint hne ⊢
        exact .whole hint hne
    · rename_i c frac hdrop
      split at h
      · rename_i hpoint
        obtain ⟨rfl, hfrac, hne⟩ := hpoint
        cases h
        rw [← hbody, hdrop]
        have hall : ∀ c ∈ frac, c.isDigit := by simpa using hfrac
        have htake : (body.takeWhile Char.isDigit ++ '.' :: frac).takeWhile Char.isDigit =
            body.takeWhile Char.isDigit := (takeWhile_append_stop hint (by decide) frac).1
        rw [htake]
        exact .point hint hall hne
      · cases h
  · rintro (⟨hint, hne⟩ | ⟨hint, hfrac, hne⟩)
    · have htake : body.takeWhile Char.isDigit = body := List.takeWhile_eq_self_iff.2 hint
      have hdrop : body.dropWhile Char.isDigit = [] := List.dropWhile_eq_nil_iff.2 hint
      rw [parseUnsigned, hdrop, htake]
      exact if_neg hne
    · rename_i int frac
      obtain ⟨htake, hdrop⟩ := takeWhile_append_stop hint
        (by decide : ¬ Char.isDigit '.' = true) frac
      rw [parseUnsigned, hdrop, htake]
      exact if_pos ⟨rfl, by simpa using hfrac, hne⟩

theorem parseF64_eq_some_iff {run : List Char} {pct : Decimal} :
    parseF64 run = some pct ↔ Spells run pct := by
  unfold parseF64
  split
  · rename_i body
    constructor
    · intro h
      obtain ⟨⟨digits, places⟩, hbody, rfl⟩ := Option.map_eq_some_iff.1 h
      exact .minus (parseUnsigned_eq_some_iff.1 hbody)
    · intro h
      cases h with
      | plain h =>
          exfalso
          -- an unsigned numeral does not begin with a minus sign
          generalize hminus : '-' :: body = l at h
          cases h with
          | whole hint hne =>
              subst hminus
              exact absurd (hint '-' List.mem_cons_self) (by decide)
          | @point int frac hint hfrac hne =>
              cases int with
              | nil => simp at hminus
              | cons c int =>
                  obtain ⟨rfl, -⟩ := List.cons.inj hminus
                  exact absurd (hint '-' List.mem_cons_self) (by decide)
      | minus h => rw [parseUnsigned_eq_some_iff.2 h]; rfl
  · rename_i hminus
    constructor
    · intro h
      obtain ⟨⟨digits, places⟩, hbody, rfl⟩ := Option.map_eq_some_iff.1 h
      exact .plain (parseUnsigned_eq_some_iff.1 hbody)
    · intro h
      cases h with
      | plain h => rw [parseUnsigned_eq_some_iff.2 h]; rfl
      | minus h => exact absurd rfl (hminus _)

theorem parseU64_eq_some_iff {s : List Char} {n : UInt64} :
    parseU64 s = some n ↔ SpellsU64 s n := by
  constructor
  · intro h
    rw [parseU64] at h
    split at h
    · rename_i hnum
      obtain ⟨hne, hdigits, hlt⟩ := hnum
      cases h
      have hall := List.all_eq_true.1 hdigits
      -- the sign that was dropped, put back
      have hs : ∃ plus, (plus = [] ∨ plus = ['+']) ∧ plus ++ withoutPlus s = s := by
        rw [withoutPlus]
        split
        · rename_i hplus
          obtain ⟨rest, rfl⟩ := List.head?_eq_some_iff.1 hplus
          exact ⟨['+'], .inr rfl, rfl⟩
        · exact ⟨[], .inl rfl, rfl⟩
      obtain ⟨plus, hplus, hs⟩ := hs
      have hspells := SpellsU64.mk hplus hall hne hlt
      rwa [hs] at hspells
    · cases h
  · rintro ⟨hplus, hdigits, hne, hlt⟩
    rename_i plus digits
    have hstripped : withoutPlus (plus ++ digits) = digits := by
      rw [withoutPlus]
      rcases hplus with rfl | rfl
      · rw [List.nil_append, if_neg]
        intro hhead
        obtain ⟨rest, rfl⟩ := List.head?_eq_some_iff.1 hhead
        exact absurd (hdigits '+' List.mem_cons_self) (by decide)
      · rfl
    rw [parseU64, hstripped, if_pos ⟨hne, List.all_eq_true.2 hdigits, hlt⟩]

/-! ## The parts are found -/

theorem not_isWhitespace_of_isNumberChar {c : Char} (h : isNumberChar c = true) :
    isWhitespace c = false := by
  -- the number characters are those from `-` to `9`; white space is outside
  have hcode : 0x2D ≤ c.toNat ∧ c.toNat ≤ 0x39 := by
    simp only [isNumberChar, Bool.or_eq_true, beq_iff_eq, Char.isDigit, Bool.and_eq_true,
      decide_eq_true_eq] at h
    rcases h with (⟨hlow, hhigh⟩ | rfl) | rfl
    · have hlow' : (48 : UInt32).toNat ≤ c.val.toNat := hlow
      have hhigh' : c.val.toNat ≤ (57 : UInt32).toNat := hhigh
      exact ⟨Nat.le_trans (by decide) hlow', hhigh'⟩
    · decide
    · decide
  simp [isWhitespace]
  omega

theorem strip_run {run : List Char} (hrun : ∀ c ∈ run, isNumberChar c) :
    strip isWhitespace run = run :=
  strip_eq_self fun c hc => not_isWhitespace_of_isNumberChar (hrun c hc)

theorem Spells.ne_nil {run : List Char} {pct : Decimal} (h : Spells run pct) : run ≠ [] := by
  rcases h with (⟨-, hne⟩ | ⟨-, -, -⟩) | h
  · exact hne
  · simp
  · simp

theorem parsePercent_eq_some_iff {clean tail : List Char} {pct : Decimal} :
    parsePercent clean = some (pct, tail) ↔ Number clean pct tail ∧ pct.isFinite := by
  constructor
  · intro h
    obtain ⟨p, hp, h⟩ := Option.bind_eq_some_iff.1 h
    obtain ⟨pct', hpct, h⟩ := Option.bind_eq_some_iff.1 h
    split at h
    · rename_i hfinite
      cases h
      have hfirst := (firstAt_of_find hp).1
      generalize clean.drop (p + progressWord.length) = after at hpct hfirst
      have hblank := List.takeWhile_append_dropWhile (p := isWhitespace) (l := after)
      have hrun := List.takeWhile_append_dropWhile (p := isNumberChar)
        (l := after.dropWhile isWhitespace)
      have hchars : ∀ c ∈ (after.dropWhile isWhitespace).takeWhile isNumberChar,
          isNumberChar c := fun c hc => List.mem_takeWhile_imp hc
      rw [strip_run hchars] at hpct
      refine ⟨⟨clean.take p, after.takeWhile isWhitespace, _, ?_,
        fun c hc => List.mem_takeWhile_imp hc, hchars, ?_, parseF64_eq_some_iff.1 hpct⟩, hfinite⟩
      -- the blanks and the run are what the two loops go over
      · rwa [hrun, hblank]
      · intro c hc hnumber
        have hnot := List.head?_dropWhile_not isNumberChar (after.dropWhile isWhitespace)
        rw [hc] at hnot
        simp [hnumber] at hnot
    · cases h
  · rintro ⟨⟨before, blank, run, hfirst, hblank, hrun, htail, hspells⟩, hfinite⟩
    obtain ⟨c, more, rfl⟩ := List.exists_cons_of_ne_nil hspells.ne_nil
    have hrest : (blank ++ (c :: more ++ tail)).dropWhile isWhitespace = c :: more ++ tail := by
      rw [List.dropWhile_append_of_pos hblank, List.cons_append, List.dropWhile_cons_of_neg]
      simp [not_isWhitespace_of_isNumberChar (hrun c List.mem_cons_self)]
    -- the run ends where the tail begins, since the tail does not go on with a number character
    have hsplit : (c :: more ++ tail).takeWhile isNumberChar = c :: more ∧
        (c :: more ++ tail).dropWhile isNumberChar = tail := by
      cases tail with
      | nil =>
          rw [List.append_nil, List.takeWhile_eq_self_iff, List.dropWhile_eq_nil_iff]
          exact ⟨hrun, hrun⟩
      | cons d tail => exact takeWhile_append_stop hrun (htail d rfl) tail
    simp only [parsePercent, hfirst.find_eq, hfirst.drop_eq, hrest, hsplit.1, hsplit.2,
      strip_run hrun, parseF64_eq_some_iff.2 hspells, Option.bind_eq_bind, Option.bind_some]
    exact if_pos hfinite

theorem parseCounts_eq {tail before opened inside close : List Char}
    (hopen : FirstAt ['('] tail before opened) (hclose : FirstAt [')'] opened inside close) :
    parseCounts tail = (find ['/'] (strip isWhitespace inside)).bind fun slash =>
      (parseU64 (strip isWhitespace ((strip isWhitespace inside).take slash))).bind fun cur =>
      (parseU64 (strip isWhitespace ((strip isWhitespace inside).drop (slash + 1)))).bind
        fun total => some (cur, total) := by
  -- the search for `)` starts at the `(`, which is not one
  have hfind : find [')'] (tail.drop before.length) = some (1 + inside.length) := by
    rw [hopen.drop_before, find_append_of_not_mem (by decide), hclose.find_eq]
    rfl
  have hinside : (tail.take (before.length + (1 + inside.length))).drop (before.length + 1) =
      inside := by
    have hlen : before.length + (1 + inside.length) - (before.length + 1) = inside.length := by
      omega
    have hopened : tail.drop (before.length + 1) = opened := hopen.drop_eq
    rw [List.drop_take, hopened, hlen, hclose.take_eq]
  simp only [parseCounts, hopen.find_eq, hfind, hinside, Option.bind_eq_bind, Option.bind_some]

theorem parseCounts_eq_some_iff {tail : List Char} {cur total : UInt64} :
    parseCounts tail = some (cur, total) ↔ Counts tail cur total := by
  constructor
  · intro h
    rcases find_cases ['('] tail with ⟨before, opened, hopen⟩ | ⟨hnone, -⟩
    rotate_left
    · rw [parseCounts, hnone] at h
      cases h
    rcases find_cases [')'] opened with ⟨inside, close, hclose⟩ | ⟨hnone, -⟩
    rotate_left
    · have hfind : find [')'] (tail.drop before.length) = none := by
        rw [hopen.drop_before, find_append_of_not_mem (by decide), hnone]
        rfl
      simp [parseCounts, hopen.find_eq, hfind] at h
    rw [parseCounts_eq hopen hclose] at h
    obtain ⟨slash, hslash, h⟩ := Option.bind_eq_some_iff.1 h
    obtain ⟨cur', hcur, h⟩ := Option.bind_eq_some_iff.1 h
    obtain ⟨total', htotal, h⟩ := Option.bind_eq_some_iff.1 h
    cases h
    exact ⟨_, _, _, _, _, _, hopen, hclose, (firstAt_of_find hslash).1,
      parseU64_eq_some_iff.1 hcur, parseU64_eq_some_iff.1 htotal⟩
  · rintro ⟨before, opened, inside, close, a, b, hopen, hclose, hslash, hcur, htotal⟩
    have hb : (strip isWhitespace inside).drop (a.length + 1) = b := hslash.drop_eq
    simp only [parseCounts_eq hopen hclose, hslash.find_eq, hslash.take_eq, hb,
      parseU64_eq_some_iff.2 hcur, parseU64_eq_some_iff.2 htotal, Option.bind_some]

theorem parseState_eq {clean before rest skipped verbs : List Char}
    (hupdate : FirstAt updateState clean before rest)
    (hparen : FirstAt [')'] rest skipped verbs) :
    parseState clean = Option.filter (· ≠ [])
      ((find progressWord verbs).map fun i => trimVerb (verbs.take i)) := by
  have hfind : find [')'] (clean.drop before.length) = some (updateState.length + skipped.length) := by
    rw [hupdate.drop_before, find_append_of_not_mem (by decide), hparen.find_eq]
    rfl
  have hverbs : (clean.drop before.length).drop (updateState.length + skipped.length + 1) =
      verbs := by
    have hrest : rest.drop (skipped.length + 1) = verbs := hparen.drop_eq
    rw [hupdate.drop_before, Nat.add_assoc, ← List.drop_drop, List.drop_left, hrest]
  have hverb : ∀ i, ((clean.drop before.length).take (updateState.length + skipped.length + 1 + i)).drop
      (updateState.length + skipped.length + 1) = verbs.take i := by
    intro i
    rw [List.drop_take, hverbs, Nat.add_sub_cancel_left]
  rw [parseState, hupdate.find_eq]
  simp only [Option.bind_eq_bind, Option.bind_some, hfind, hverbs]
  cases find progressWord verbs with
  | none => rfl
  | some i =>
      simp only [Option.map_some, Option.bind_some, hverb]

theorem filter_ne_nil (l : List Char) :
    (some l).filter (· ≠ []) = if l = [] then none else some l := by
  by_cases hl : l = [] <;> simp [Option.filter, hl]

/-- The state of a line is the one that is parsed. -/
theorem stateOf_iff {clean : List Char} {state : Option (List Char)} :
    StateOf clean state ↔ state = parseState clean := by
  -- three searches: where one of them fails there is no verb
  have hnone : (∀ verb, ¬ Verb clean verb) → parseState clean = none := by
    intro hno
    rcases find_cases updateState clean with ⟨before, rest, hupdate⟩ | ⟨hmissing, -⟩
    rotate_left
    · rw [parseState, hmissing]
      rfl
    rcases find_cases [')'] rest with ⟨skipped, verbs, hparen⟩ | ⟨hmissing, -⟩
    rotate_left
    · have hfind : find [')'] (clean.drop before.length) = none := by
        rw [hupdate.drop_before, find_append_of_not_mem (by decide), hmissing]
        rfl
      simp [parseState, hupdate.find_eq, hfind]
    rcases find_cases progressWord verbs with ⟨verb, more, hverb⟩ | ⟨hmissing, -⟩
    · exact absurd ⟨_, _, _, _, _, hupdate, hparen, hverb⟩ (hno verb)
    · rw [parseState_eq hupdate hparen, hmissing]
      rfl
  have hsome : ∀ verb, Verb clean verb →
      parseState clean = if trimVerb verb = [] then none else some (trimVerb verb) := by
    rintro verb ⟨_, _, _, _, _, hupdate, hparen, hverb⟩
    rw [parseState_eq hupdate hparen, hverb.find_eq, Option.map_some, hverb.take_eq,
      filter_ne_nil]
  constructor
  · rintro (⟨verb, hverb, rfl⟩ | ⟨hno, rfl⟩)
    · exact (hsome verb hverb).symm
    · exact (hnone hno).symm
  · rintro rfl
    by_cases hverb : ∃ verb, Verb clean verb
    · obtain ⟨verb, hverb⟩ := hverb
      exact .inl ⟨verb, hverb, hsome verb hverb⟩
    · exact .inr ⟨not_exists.1 hverb, hnone (not_exists.1 hverb)⟩

/-! ## Progress lines are accepted -/

/-- A line whose first `progress:` is followed by a number that is finite, and this by counts, is
read as what it says.  A line without such a number is refused, whatever is read has that number and
the line's state, and escape sequences put into a line make no difference. -/
theorem parseProgress_spec :
    (∀ line pct tail cur total, Number (stripAnsi line) pct tail → pct.isFinite →
      Counts tail cur total → ∃ state, StateOf (stripAnsi line) state ∧
        parseProgress line = some ⟨pct.clamp, some cur, some total, state⟩) ∧
    (∀ line, (∀ pct tail, Number (stripAnsi line) pct tail → ¬ pct.isFinite) →
      parseProgress line = none) ∧
    (∀ line p, parseProgress line = some p → ∃ pct tail, Number (stripAnsi line) pct tail ∧
      pct.isFinite ∧ p.pct = pct.clamp ∧ StateOf (stripAnsi line) p.state) ∧
    ∀ line line', WithCsi line line' → parseProgress line' = parseProgress line := by
  refine ⟨?_, ?_, ?_, ?_⟩
  · intro line pct tail cur total hnumber hfinite hcounts
    refine ⟨_, stateOf_iff.2 rfl, ?_⟩
    simp only [parseProgress, parsePercent_eq_some_iff.2 ⟨hnumber, hfinite⟩,
      parseCounts_eq_some_iff.2 hcounts, Option.bind_eq_bind, Option.bind_some]
  · intro line hno
    cases hpercent : parsePercent (stripAnsi line) with
    | none => rw [parseProgress, hpercent]; rfl
    | some r =>
        obtain ⟨hnumber, hfinite⟩ := parsePercent_eq_some_iff.1 hpercent
        exact absurd hfinite (hno _ _ hnumber)
  · intro line p hparse
    obtain ⟨⟨pct, tail⟩, hpercent, hparse⟩ := Option.bind_eq_some_iff.1 hparse
    obtain ⟨⟨cur, total⟩, -, hparse⟩ := Option.bind_eq_some_iff.1 hparse
    cases hparse
    obtain ⟨hnumber, hfinite⟩ := parsePercent_eq_some_iff.1 hpercent
    exact ⟨pct, tail, hnumber, hfinite, rfl, stateOf_iff.2 rfl⟩
  · intro line line' hcsi
    rw [parseProgress, parseProgress, stripAnsi_withCsi hcsi]

example : parseProgress
    "Update state (0x61) downloading, progress: 92.78 (2540760050 / 2738389637)".toList =
      some ⟨9278 / 100, some 2540760050, some 2738389637, some "downloading".toList⟩ := by
  decide +kernel

/-- A sequence put into another one ends it. -/
theorem parseProgress_csi_inside :
    IsCsi [escape, '[', '1', 'm'] ∧
    parseProgress ("progress: ".toList ++ [escape, '['] ++ "0m5 (1 / 2)".toList) =
      some ⟨5, some 1, some 2, none⟩ ∧
    parseProgress ("progress: ".toList ++ [escape, '['] ++ [escape, '[', '1', 'm'] ++
      "0m5 (1 / 2)".toList) = some ⟨0, some 1, some 2, none⟩ := by
  have hcsi : IsCsi (escape :: '[' :: (['1'] ++ ['m'])) :=
    .mk (List.forall_mem_singleton.2 (by decide)) (by decide)
  exact ⟨hcsi, by decide +kernel, by decide +kernel⟩

end Steamcmd
end SvenBridge
