import Mathlib.Tactic.Common

/-!
# Json — JSON text

JSON values, and one way to write and read them: a pretty printer with two-space indentation, a
parser, and the round trip `parse_toStringPretty`.

The parser accepts the JSON grammar with insignificant whitespace anywhere; the printer escapes
what JSON requires and nothing else.  A number that is not a natural number is kept as its literal.
-/

namespace SvenBridge
namespace Lib

/-- A JSON value; an object keeps its members in order, duplicates included. -/
inductive Json where
  | null
  | bool (b : Bool)
  | num (n : ℕ)
  /-- A negative number, a fraction or a number with an exponent. -/
  | real (literal : String)
  | str (s : String)
  | arr (elems : List Json)
  | obj (members : List (String × Json))

namespace Json

/-! ## Printer -/

def hexDigit (n : ℕ) : Char :=
  if n < 10 then Char.ofNat (0x30 + n) else Char.ofNat (0x57 + n)

/-- The escape of one character inside a string. -/
def escapeChar (c : Char) : List Char :=
  if c = '"' then ['\\', '"']
  else if c = '\\' then ['\\', '\\']
  else if c = '\x08' then ['\\', 'b']
  else if c = '\x0c' then ['\\', 'f']
  else if c = '\n' then ['\\', 'n']
  else if c = '\r' then ['\\', 'r']
  else if c = '\t' then ['\\', 't']
  else if c.toNat < 0x20 then
    ['\\', 'u', '0', '0', hexDigit (c.toNat / 16), hexDigit (c.toNat % 16)]
  else [c]

def printString (s : String) : List Char :=
  '"' :: (s.toList.flatMap escapeChar ++ ['"'])

/-- A line break and the indentation of level `k`. -/
def newline (k : ℕ) : List Char :=
  '\n' :: List.replicate (2 * k) ' '

mutual

/-- A value whose enclosing block is at level `k`. -/
def print (k : ℕ) : Json → List Char
  | .null => ['n', 'u', 'l', 'l']
  | .bool true => ['t', 'r', 'u', 'e']
  | .bool false => ['f', 'a', 'l', 's', 'e']
  | .num n => Nat.toDigits 10 n
  | .real literal => literal.toList
  | .str s => printString s
  | .arr [] => ['[', ']']
  | .arr (x :: xs) =>
      '[' :: (newline (k + 1) ++ print (k + 1) x ++ printElems (k + 1) xs ++ newline k ++ [']'])
  | .obj [] => ['{', '}']
  | .obj (m :: ms) =>
      '{' :: (newline (k + 1) ++ printMember (k + 1) m ++ printMembers (k + 1) ms ++ newline k ++
        ['}'])
termination_by structural v => v

/-- The elements after the first one. -/
def printElems (k : ℕ) : List Json → List Char
  | [] => []
  | x :: xs => ',' :: (newline k ++ print k x ++ printElems k xs)
termination_by structural xs => xs

def printMember (k : ℕ) : String × Json → List Char
  | (key, v) => printString key ++ ':' :: ' ' :: print k v
termination_by structural m => m

/-- The members after the first one. -/
def printMembers (k : ℕ) : List (String × Json) → List Char
  | [] => []
  | m :: ms => ',' :: (newline k ++ printMember k m ++ printMembers k ms)
termination_by structural ms => ms

end

def toStringPretty (v : Json) : String :=
  String.ofList (v.print 0)

/-! ## Parser -/

def isWs (c : Char) : Bool :=
  c == ' ' || c == '\n' || c == '\t' || c == '\r'

def skipWs (cs : List Char) : List Char :=
  cs.dropWhile isWs

def hexValue (c : Char) : Option ℕ :=
  let n := c.toNat
  if 0x30 ≤ n ∧ n ≤ 0x39 then some (n - 0x30)
  else if 0x41 ≤ n ∧ n ≤ 0x46 then some (n - 0x37)
  else if 0x61 ≤ n ∧ n ≤ 0x66 then some (n - 0x57)
  else none

/-- Four hexadecimal digits. -/
def parseHex4 : List Char → Option (ℕ × List Char)
  | a :: b :: c :: d :: rest =>
      match hexValue a, hexValue b, hexValue c, hexValue d with
      | some a, some b, some c, some d => some (((a * 16 + b) * 16 + c) * 16 + d, rest)
      | _, _, _, _ => none
  | _ => none

/-- What follows `\u`: one code unit, or the first of a surrogate pair and then the second. -/
def parseUnicode (cs : List Char) : Option (Char × List Char) :=
  match parseHex4 cs with
  | none => none
  | some (hi, rest) =>
      if 0xDC00 ≤ hi ∧ hi ≤ 0xDFFF then
        none
      else if 0xD800 ≤ hi ∧ hi ≤ 0xDBFF then
        match rest with
        | '\\' :: 'u' :: rest =>
            match parseHex4 rest with
            | none => none
            | some (lo, rest) =>
                if 0xDC00 ≤ lo ∧ lo ≤ 0xDFFF then
                  some (Char.ofNat (0x10000 + (hi - 0xD800) * 0x400 + (lo - 0xDC00)), rest)
                else
                  none
        | _ => none
      else
        some (Char.ofNat hi, rest)

/-- What follows a backslash. -/
def parseEscape : List Char → Option (Char × List Char)
  | '"' :: rest => some ('"', rest)
  | '\\' :: rest => some ('\\', rest)
  | '/' :: rest => some ('/', rest)
  | 'b' :: rest => some ('\x08', rest)
  | 'f' :: rest => some ('\x0c', rest)
  | 'n' :: rest => some ('\n', rest)
  | 'r' :: rest => some ('\r', rest)
  | 't' :: rest => some ('\t', rest)
  | 'u' :: rest => parseUnicode rest
  | _ => none

/-- A string after its opening quote; every turn consumes a character. -/
def parseChars : ℕ → List Char → Option (List Char × List Char)
  | 0, _ => none
  | fuel + 1, cs =>
      match cs with
      | [] => none
      | '"' :: rest => some ([], rest)
      | '\\' :: rest =>
          match parseEscape rest with
          | none => none
          | some (c, rest) => (parseChars fuel rest).map fun p => (c :: p.1, p.2)
      | c :: rest =>
          if c.toNat < 0x20 then
            none
          else
            (parseChars fuel rest).map fun p => (c :: p.1, p.2)

def parseString (cs : List Char) : Option (String × List Char) :=
  (parseChars (cs.length + 1) cs).map fun p => (String.ofList p.1, p.2)

/-- At least one digit. -/
def scanDigits (cs : List Char) : Option (List Char × List Char) :=
  match cs.takeWhile Char.isDigit with
  | [] => none
  | digits => some (digits, cs.dropWhile Char.isDigit)

/-- The integer part: no leading zero. -/
def scanInt : List Char → Option (List Char × List Char)
  | '0' :: rest => some (['0'], rest)
  | cs => scanDigits cs

def scanFraction : List Char → Option (List Char × List Char)
  | '.' :: rest => (scanDigits rest).map fun p => ('.' :: p.1, p.2)
  | cs => some ([], cs)

def scanSign : List Char → List Char × List Char
  | '+' :: rest => (['+'], rest)
  | '-' :: rest => (['-'], rest)
  | cs => ([], cs)

def scanExponent : List Char → Option (List Char × List Char)
  | c :: rest =>
      if c = 'e' ∨ c = 'E' then
        let sign := scanSign rest
        (scanDigits sign.2).map fun p => (c :: (sign.1 ++ p.1), p.2)
      else
        some ([], c :: rest)
  | [] => some ([], [])

def parseNumber (cs : List Char) : Option (Json × List Char) :=
  let negative := cs.head? == some '-'
  match scanInt (if negative then cs.tail else cs) with
  | none => none
  | some (int, rest) =>
      match scanFraction rest with
      | none => none
      | some (fraction, rest) =>
          match scanExponent rest with
          | none => none
          | some (exponent, rest) =>
              if !negative && fraction.isEmpty && exponent.isEmpty then
                some (.num (Nat.ofDigitChars 10 int 0), rest)
              else
                let sign := if negative then ['-'] else []
                some (.real (String.ofList (sign ++ int ++ fraction ++ exponent)), rest)

mutual

/-- One value; `fuel` bounds the number of values and elements on the way. -/
def parseValue : ℕ → List Char → Option (Json × List Char)
  | 0, _ => none
  | fuel + 1, cs =>
      match skipWs cs with
      | 'n' :: 'u' :: 'l' :: 'l' :: rest => some (.null, rest)
      | 't' :: 'r' :: 'u' :: 'e' :: rest => some (.bool true, rest)
      | 'f' :: 'a' :: 'l' :: 's' :: 'e' :: rest => some (.bool false, rest)
      | '"' :: rest => (parseString rest).map fun p => (.str p.1, p.2)
      | '[' :: rest =>
          match skipWs rest with
          | ']' :: rest => some (.arr [], rest)
          | rest => (parseElems fuel rest).map fun p => (.arr p.1, p.2)
      | '{' :: rest =>
          match skipWs rest with
          | '}' :: rest => some (.obj [], rest)
          | rest => (parseMembers fuel rest).map fun p => (.obj p.1, p.2)
      | cs => parseNumber cs

/-- Elements up to the closing bracket. -/
def parseElems : ℕ → List Char → Option (List Json × List Char)
  | 0, _ => none
  | fuel + 1, cs =>
      match parseValue fuel cs with
      | none => none
      | some (x, rest) =>
          match skipWs rest with
          | ',' :: rest => (parseElems fuel rest).map fun p => (x :: p.1, p.2)
          | ']' :: rest => some ([x], rest)
          | _ => none

/-- Members up to the closing brace. -/
def parseMembers : ℕ → List Char → Option (List (String × Json) × List Char)
  | 0, _ => none
  | fuel + 1, cs =>
      match skipWs cs with
      | '"' :: rest =>
          match parseString rest with
          | none => none
          | some (key, rest) =>
              match skipWs rest with
              | ':' :: rest =>
                  match parseValue fuel rest with
                  | none => none
                  | some (v, rest) =>
                      match skipWs rest with
                      | ',' :: rest => (parseMembers fuel rest).map fun p => ((key, v) :: p.1, p.2)
                      | '}' :: rest => some ([(key, v)], rest)
                      | _ => none
              | _ => none
      | _ => none

end

/-- A whole text: one value and nothing after it. -/
def parse (text : String) : Option Json :=
  let cs := text.toList
  match parseValue (2 * cs.length + 2) cs with
  | some (v, rest) => if (skipWs rest).isEmpty then some v else none
  | none => none

/-! ## Strings read back -/

theorem hexValue_hexDigit {n : ℕ} (h : n < 16) : hexValue (hexDigit n) = some n := by
  have hall : ∀ n < 16, hexValue (hexDigit n) = some n := by decide
  exact hall n h

/-- One escaped character reads back, whatever follows. -/
theorem parseChars_escapeChar (fuel : ℕ) (c : Char) (rest : List Char) :
    parseChars (fuel + 1) (escapeChar c ++ rest) =
      (parseChars fuel rest).map fun p => (c :: p.1, p.2) := by
  -- seven escapes of two characters, the control characters in hex, and everything else as it is
  unfold escapeChar
  split_ifs with hquote hback hb hf hn hr ht hcontrol
  · subst hquote
    rfl
  · subst hback
    rfl
  · subst hb
    rfl
  · subst hf
    rfl
  · subst hn
    rfl
  · subst hr
    rfl
  · subst ht
    rfl
  · have hhi : hexValue (hexDigit (c.toNat / 16)) = some (c.toNat / 16) :=
      hexValue_hexDigit (by omega)
    have hlo : hexValue (hexDigit (c.toNat % 16)) = some (c.toNat % 16) :=
      hexValue_hexDigit (by omega)
    have hzero : hexValue '0' = some 0 := by decide
    -- the four digits make up the character's code again, which is below the surrogates
    have hsum : ((0 * 16 + 0) * 16 + c.toNat / 16) * 16 + c.toNat % 16 = c.toNat := by omega
    have hunit : parseUnicode ('0' :: '0' :: hexDigit (c.toNat / 16) :: hexDigit (c.toNat % 16) ::
        rest) = some (c, rest) := by
      simp only [parseUnicode, parseHex4, hzero, hhi, hlo, hsum]
      rw [if_neg (by omega), if_neg (by omega), Char.ofNat_toNat]
    simp only [List.cons_append, List.nil_append, parseChars, parseEscape, hunit]
  · rw [List.singleton_append, parseChars, if_neg hcontrol]
    · exact hquote
    · exact hback

theorem parseChars_escape (cs : List Char) {fuel : ℕ} (hfuel : cs.length < fuel)
    (rest : List Char) :
    parseChars fuel (cs.flatMap escapeChar ++ '"' :: rest) = some (cs, rest) := by
  -- one unit of fuel for each character and one for the closing quote
  induction cs generalizing fuel with
  | nil =>
      obtain ⟨fuel, rfl⟩ : ∃ n, fuel = n + 1 := ⟨fuel - 1, by simp at hfuel; omega⟩
      rfl
  | cons c cs ih =>
      obtain ⟨fuel, rfl⟩ : ∃ n, fuel = n + 1 := ⟨fuel - 1, by simp at hfuel; omega⟩
      have hrest : cs.length < fuel := by simpa using hfuel
      rw [List.flatMap_cons, List.append_assoc, parseChars_escapeChar, ih hrest]
      rfl

theorem length_le_escape (cs : List Char) : cs.length ≤ (cs.flatMap escapeChar).length := by
  have hone : ∀ c, 1 ≤ (escapeChar c).length := by
    intro c
    unfold escapeChar
    split_ifs <;> simp
  induction cs with
  | nil =>
      simp
  | cons c cs ih =>
      have hc := hone c
      simp only [List.flatMap_cons, List.length_append, List.length_cons]
      omega

/-- A printed string reads back after its opening quote. -/
theorem parseString_printString (s : String) (rest : List Char) :
    parseString (s.toList.flatMap escapeChar ++ '"' :: rest) = some (s, rest) := by
  have hlen := length_le_escape s.toList
  rw [parseString, parseChars_escape s.toList (by simp only [List.length_append]; omega)]
  simp

/-! ## Numbers read back -/

/-- What follows a printed value: nothing that would prolong a number. -/
def Delimited : List Char → Prop
  | [] => True
  | c :: _ => c.isDigit = false ∧ c ≠ '.' ∧ c ≠ 'e' ∧ c ≠ 'E'

theorem takeWhile_append_of_delimited {ds rest : List Char} (hds : ∀ c ∈ ds, c.isDigit = true)
    (hrest : Delimited rest) :
    (ds ++ rest).takeWhile Char.isDigit = ds ∧ (ds ++ rest).dropWhile Char.isDigit = rest := by
  have hstop : rest.takeWhile Char.isDigit = [] ∧ rest.dropWhile Char.isDigit = rest := by
    cases rest with
    | nil =>
        exact ⟨rfl, rfl⟩
    | cons c rest =>
        simp [hrest.1]
  exact ⟨by rw [List.takeWhile_append_of_pos hds, hstop.1, List.append_nil],
    by rw [List.dropWhile_append_of_pos hds, hstop.2]⟩

/-- Only zero is printed with a leading zero. -/
theorem head_toDigits {n : ℕ} (hn : n ≠ 0) : (Nat.toDigits 10 n).head? ≠ some '0' := by
  -- the first digit is that of the number without its last digit
  induction n using Nat.strongRecOn with
  | _ n ih =>
      rw [Nat.toDigits_eq_if (by omega)]
      split
      case isTrue hlt =>
          have hall : ∀ n < 10, n ≠ 0 → n.digitChar ≠ '0' := by decide
          simpa using hall n hlt hn
      case isFalse hge =>
          have hpos : n / 10 ≠ 0 := by omega
          have hhead := ih (n / 10) (by omega) hpos
          cases hds : Nat.toDigits 10 (n / 10) with
          | nil =>
              exact absurd hds Nat.toDigits_ne_nil
          | cons d ds =>
              rw [hds] at hhead
              simpa using hhead

theorem scanInt_toDigits (n : ℕ) {rest : List Char} (hrest : Delimited rest) :
    scanInt (Nat.toDigits 10 n ++ rest) = some (Nat.toDigits 10 n, rest) := by
  -- a zero stands alone; any other number begins with another digit
  by_cases hn : n = 0
  · subst hn
    rw [Nat.toDigits_zero]
    rfl
  · have hdigits : ∀ c ∈ Nat.toDigits 10 n, c.isDigit = true :=
      fun c hc => Nat.isDigit_of_mem_toDigits (by omega) (by omega) hc
    obtain ⟨htake, hdrop⟩ := takeWhile_append_of_delimited hdigits hrest
    have hhead := head_toDigits hn
    cases hds : Nat.toDigits 10 n with
    | nil =>
        exact absurd hds Nat.toDigits_ne_nil
    | cons d ds =>
        rw [hds] at hhead htake hdrop
        have hd : d ≠ '0' := by simpa using hhead
        rw [scanInt]
        · rw [scanDigits, htake, hdrop]
        · intro rest' heq
          cases heq
          exact hd rfl

theorem parseNumber_toDigits (n : ℕ) {rest : List Char} (hrest : Delimited rest) :
    parseNumber (Nat.toDigits 10 n ++ rest) = some (.num n, rest) := by
  -- no sign, no fraction, no exponent: what follows is none of the number's
  have hsign : ((Nat.toDigits 10 n ++ rest).head? == some '-') = false := by
    cases hds : Nat.toDigits 10 n with
    | nil =>
        exact absurd hds Nat.toDigits_ne_nil
    | cons d ds =>
        have hd : d.isDigit = true :=
          Nat.isDigit_of_mem_toDigits (b := 10) (n := n) (by omega) (by omega) (by rw [hds]; simp)
        have hne : d ≠ '-' := by
          rintro rfl
          exact absurd hd (by decide)
        simpa using hne
  have hfraction : scanFraction rest = some ([], rest) := by
    cases rest with
    | nil =>
        rfl
    | cons c rest =>
        rw [scanFraction]
        rintro rest' heq
        cases heq
        exact hrest.2.1 rfl
  have hexponent : scanExponent rest = some ([], rest) := by
    cases rest with
    | nil =>
        rfl
    | cons c rest =>
        rw [scanExponent, if_neg (by rintro (h | h); exacts [hrest.2.2.1 h, hrest.2.2.2 h])]
  simp only [parseNumber, hsign, Bool.false_eq_true, if_false, scanInt_toDigits n hrest, hfraction,
    hexponent]
  simp [Nat.ofDigitChars_ten_toDigits]

/-! ## Values read back -/

mutual

/-- Every number in the value is a natural number. -/
def isPlain : Json → Bool
  | .real _ => false
  | .arr xs => arePlain xs
  | .obj ms => membersPlain ms
  | .null | .bool _ | .num _ | .str _ => true
termination_by structural v => v

def arePlain : List Json → Bool
  | [] => true
  | x :: xs => x.isPlain && arePlain xs
termination_by structural xs => xs

def memberPlain : String × Json → Bool
  | (_, v) => v.isPlain
termination_by structural m => m

def membersPlain : List (String × Json) → Bool
  | [] => true
  | m :: ms => memberPlain m && membersPlain ms
termination_by structural ms => ms

end

theorem skipWs_newline (k : ℕ) (cs : List Char) : skipWs (newline k ++ cs) = skipWs cs := by
  have hspaces : ∀ c ∈ newline k, isWs c = true := by
    intro c hc
    rcases List.mem_cons.1 hc with rfl | hc
    · rfl
    · rw [List.eq_of_mem_replicate hc]
      rfl
  exact List.dropWhile_append_of_pos hspaces

theorem skipWs_cons {c : Char} (hc : isWs c = false) (cs : List Char) :
    skipWs (c :: cs) = c :: cs := by
  simp [skipWs, hc]

theorem isWs_of_isDigit {c : Char} (hc : c.isDigit = true) : isWs c = false := by
  rw [Bool.eq_false_iff]
  intro hws
  simp only [isWs, Bool.or_eq_true, beq_iff_eq] at hws
  rcases hws with ((rfl | rfl) | rfl) | rfl <;> exact absurd hc (by decide)

/-- A printed value starts with a character that is neither white space nor a closing bracket. -/
theorem print_head (v : Json) (hv : v.isPlain = true) (k : ℕ) :
    ∃ c cs, v.print k = c :: cs ∧ isWs c = false ∧ c ≠ ']' ∧ c ≠ '}' := by
  cases v with
  | null =>
      exact ⟨_, _, rfl, rfl, by decide, by decide⟩
  | bool b =>
      cases b <;> exact ⟨_, _, rfl, rfl, by decide, by decide⟩
  | num n =>
      cases hds : Nat.toDigits 10 n with
      | nil =>
          exact absurd hds Nat.toDigits_ne_nil
      | cons d ds =>
          have hd : d.isDigit = true :=
            Nat.isDigit_of_mem_toDigits (b := 10) (n := n) (by omega) (by omega) (by rw [hds]; simp)
          refine ⟨d, ds, by rw [print, hds], isWs_of_isDigit hd, ?_, ?_⟩
          · rintro rfl
            exact absurd hd (by decide)
          · rintro rfl
            exact absurd hd (by decide)
  | real literal =>
      cases hv
  | str s =>
      exact ⟨_, _, rfl, rfl, by decide, by decide⟩
  | arr xs =>
      cases xs <;> exact ⟨_, _, rfl, rfl, by decide, by decide⟩
  | obj ms =>
      cases ms <;> exact ⟨_, _, rfl, rfl, by decide, by decide⟩

theorem delimited_newline (k : ℕ) (cs : List Char) : Delimited (newline k ++ cs) := by
  refine ⟨?_, ?_, ?_, ?_⟩ <;> decide

theorem delimited_comma (cs : List Char) : Delimited (',' :: cs) := by
  refine ⟨?_, ?_, ?_, ?_⟩ <;> decide

/-- A text that starts with a digit is a number. -/
theorem parseValue_of_digit {c : Char} (hc : c.isDigit = true) (fuel : ℕ) (cs : List Char) :
    parseValue (fuel + 1) (c :: cs) = parseNumber (c :: cs) := by
  rw [parseValue, skipWs_cons (isWs_of_isDigit hc)]
  split
  all_goals first
  | rfl
  | rename_i heq
    rw [(List.cons.inj heq).1] at hc
    exact absurd hc (by decide)

/-- White space before a value does not matter. -/
theorem parseValue_newline (fuel k : ℕ) (cs : List Char) :
    parseValue fuel (newline k ++ cs) = parseValue fuel cs := by
  cases fuel with
  | zero =>
      simp only [parseValue]
  | succ fuel =>
      simp only [parseValue, skipWs_newline]

theorem parseValue_space (fuel : ℕ) (cs : List Char) :
    parseValue fuel (' ' :: cs) = parseValue fuel cs := by
  cases fuel with
  | zero =>
      simp only [parseValue]
  | succ fuel =>
      have hskip : skipWs (' ' :: cs) = skipWs cs := List.dropWhile_cons_of_pos rfl
      simp only [parseValue, hskip]

theorem parseElems_newline (fuel k : ℕ) (cs : List Char) :
    parseElems fuel (newline k ++ cs) = parseElems fuel cs := by
  cases fuel with
  | zero =>
      simp only [parseElems]
  | succ fuel =>
      simp only [parseElems, parseValue_newline]

theorem parseMembers_newline (fuel k : ℕ) (cs : List Char) :
    parseMembers fuel (newline k ++ cs) = parseMembers fuel cs := by
  cases fuel with
  | zero =>
      simp only [parseMembers]
  | succ fuel =>
      simp only [parseMembers, skipWs_newline]

/-- A value that reads back, whatever follows it. -/
def ReadsBack (k : ℕ) (v : Json) : Prop :=
  ∀ fuel rest, 2 * (v.print k).length ≤ fuel → Delimited rest →
    parseValue fuel (v.print k ++ rest) = some (v, rest)

mutual

theorem parseValue_print (v : Json) (hv : v.isPlain = true) (k : ℕ) : ReadsBack k v := by
  intro fuel rest hfuel hrest
  obtain ⟨c, cs, hhead, -⟩ := print_head v hv k
  obtain ⟨fuel, rfl⟩ : ∃ n, fuel = n + 1 := by
    rw [hhead, List.length_cons] at hfuel
    exact ⟨fuel - 1, by omega⟩
  match v with
  | .null => rfl
  | .bool true => rfl
  | .bool false => rfl
  | .num n =>
      rw [print] at hhead ⊢
      have hc : c.isDigit = true :=
        Nat.isDigit_of_mem_toDigits (b := 10) (n := n) (by omega) (by omega) (by rw [hhead]; simp)
      have hnumber := parseNumber_toDigits n hrest
      rw [hhead] at hnumber ⊢
      rw [List.cons_append, parseValue_of_digit hc]
      exact hnumber
  | .str s =>
      rw [print, printString, List.cons_append, parseValue, skipWs_cons (by decide)]
      simp only [List.append_assoc, List.singleton_append, parseString_printString, Option.map_some]
  | .arr [] => rfl
  | .arr (x :: xs) =>
      rw [isPlain, arePlain, Bool.and_eq_true] at hv
      obtain ⟨d, ds, hd, hdws, hclose, -⟩ := print_head x hv.1 (k + 1)
      have helems := parseElems_print xs hv.2 (k + 1) x (parseValue_print x hv.1 (k + 1)) fuel k rest
        (by simp only [print, List.length_cons, List.length_append] at hfuel ⊢; omega)
      rw [print, List.cons_append, parseValue, skipWs_cons (by decide)]
      simp only [List.append_assoc, List.singleton_append, skipWs_newline] at helems ⊢
      rw [hd, List.cons_append, skipWs_cons hdws]
      rw [hd, List.cons_append] at helems
      split
      case h_1 heq =>
          exact absurd (List.cons.inj heq).1 hclose
      case h_2 =>
          rw [helems]
          rfl
  | .obj [] => rfl
  | .obj ((key, v) :: ms) =>
      rw [isPlain, membersPlain, memberPlain, Bool.and_eq_true] at hv
      have hmembers := parseMembers_print ms hv.2 (k + 1) key v (parseValue_print v hv.1 (k + 1))
        fuel k rest
        (by simp only [print, List.length_cons, List.length_append] at hfuel ⊢; omega)
      rw [print, List.cons_append, parseValue, skipWs_cons (by decide)]
      simp only [printMember, printString, List.append_assoc, List.cons_append, List.nil_append,
        skipWs_newline] at hmembers ⊢
      rw [skipWs_cons (by decide)]
      change (parseMembers fuel _).map _ = _
      rw [hmembers]
      rfl
termination_by structural v

/-- The elements of an array, the first one included, up to the closing bracket. -/
theorem parseElems_print (xs : List Json) (hxs : arePlain xs = true) (k : ℕ) (x : Json)
    (hx : ReadsBack k x) (fuel j : ℕ) (rest : List Char)
    (hfuel : 2 * (x.print k ++ printElems k xs).length + 1 ≤ fuel) :
    parseElems fuel (x.print k ++ printElems k xs ++ newline j ++ ']' :: rest) =
      some (x :: xs, rest) := by
  obtain ⟨fuel, rfl⟩ : ∃ n, fuel = n + 1 := ⟨fuel - 1, by omega⟩
  rw [List.length_append] at hfuel
  match xs with
  | [] =>
      have hval := hx fuel (newline j ++ ']' :: rest) (by omega) (delimited_newline _ _)
      simp only [printElems, List.append_nil, List.append_assoc, parseElems, hval, skipWs_newline]
      rfl
  | y :: ys =>
      rw [arePlain, Bool.and_eq_true] at hxs
      have hval := hx fuel (',' :: (newline k ++ y.print k ++ printElems k ys) ++ newline j ++
        ']' :: rest) (by omega) (delimited_comma _)
      have helems := parseElems_print ys hxs.2 k y (parseValue_print y hxs.1 k) fuel j rest
        (by simp only [printElems, List.length_cons, List.length_append] at hfuel ⊢; omega)
      simp only [printElems, List.append_assoc, List.cons_append] at hval helems ⊢
      rw [parseElems, hval]
      simp only [skipWs_cons (c := ',') (by decide), parseElems_newline, helems, Option.map_some]
termination_by structural xs

/-- The members of an object, the first one included, up to the closing brace. -/
theorem parseMembers_print (ms : List (String × Json)) (hms : membersPlain ms = true) (k : ℕ)
    (key : String) (v : Json) (hv : ReadsBack k v) (fuel j : ℕ) (rest : List Char)
    (hfuel : 2 * (printMember k (key, v) ++ printMembers k ms).length + 1 ≤ fuel) :
    parseMembers fuel (printMember k (key, v) ++ printMembers k ms ++ newline j ++ '}' :: rest) =
      some ((key, v) :: ms, rest) := by
  obtain ⟨fuel, rfl⟩ : ∃ n, fuel = n + 1 := ⟨fuel - 1, by omega⟩
  simp only [printMember, List.length_append, List.length_cons] at hfuel
  match ms with
  | [] =>
      have hval := hv fuel (newline j ++ '}' :: rest) (by omega) (delimited_newline _ _)
      simp only [printMember, printString, printMembers, List.append_nil, List.append_assoc,
        List.cons_append, List.nil_append, parseMembers, skipWs_cons (c := '"') (by decide),
        parseString_printString, skipWs_cons (c := ':') (by decide), parseValue_space, hval, skipWs_newline]
      rfl
  | (key', v') :: ms =>
      rw [membersPlain, memberPlain, Bool.and_eq_true] at hms
      have hval := hv fuel (',' :: (newline k ++ printMember k (key', v') ++ printMembers k ms) ++
        newline j ++ '}' :: rest) (by omega) (delimited_comma _)
      have hmembers := parseMembers_print ms hms.2 k key' v' (parseValue_print v' hms.1 k) fuel j rest
        (by simp only [printMembers, List.length_cons, List.length_append] at hfuel ⊢; omega)
      simp only [printMembers, List.append_assoc, List.cons_append] at hval hmembers ⊢
      rw [printMember, printString]
      simp only [List.append_assoc, List.cons_append, List.nil_append, parseMembers,
        skipWs_cons (c := '"') (by decide), parseString_printString,
        skipWs_cons (c := ':') (by decide), parseValue_space, hval,
        skipWs_cons (c := ',') (by decide), parseMembers_newline, hmembers, Option.map_some]
termination_by structural ms

end

/-- What is printed reads back. -/
theorem parse_toStringPretty {v : Json} (hv : v.isPlain = true) :
    parse v.toStringPretty = some v := by
  have hval := parseValue_print v hv 0 (2 * (v.print 0).length + 2) [] (by omega) trivial
  rw [List.append_nil] at hval
  rw [parse, toStringPretty, String.toList_ofList, hval]
  rfl

end Json
end Lib
end SvenBridge
