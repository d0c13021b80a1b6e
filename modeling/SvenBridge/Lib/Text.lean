import Mathlib.Data.List.DropRight

/-!
# Text — lists of characters

What string functions do to the characters of a text, over lists:

* `strip` — what matches is taken off both ends;
* `find` — where a word first stands, `FirstAt`;
* `lines` — the lines of a text, their ends taken off;
* `splitOn_flatMap` — lines written out with their ends, and split at them;
* `fullLines` — those that are not empty, and where a text can be cut between them.
-/

namespace SvenBridge
namespace Lib
namespace Text

variable {α : Type} {p : α → Bool} {l : List α}

/-! ## Stripping -/

/-- Take off both ends what `p` holds of. -/
def strip (p : α → Bool) (l : List α) : List α :=
  (l.dropWhile p).rdropWhile p

theorem strip_eq_nil_iff : strip p l = [] ↔ ∀ x ∈ l, p x = true := by
  rw [strip, List.rdropWhile_eq_nil_iff]
  constructor
  · intro h x hx
    by_contra hne
    -- the first character that stays is one of them
    have hsome : l.dropWhile p ≠ [] := by
      intro hnil
      exact hne (List.dropWhile_eq_nil_iff.1 hnil x hx)
    exact List.dropWhile_get_zero_not p l (List.length_pos_iff.2 hsome)
      (h _ (List.get_mem _ _))
  · intro h x hx
    exact h x (List.dropWhile_suffix p |>.mem hx)

/-- Neither end of what is left can be taken off. -/
theorem strip_strip (p : α → Bool) (l : List α) : strip p (strip p l) = strip p l := by
  -- what is left begins with something that stays, so the front is not touched again
  cases hl : strip p l with
  | nil => rfl
  | cons x xs =>
      have hprefix : x :: xs <+: l.dropWhile p := by
        rw [← hl]
        exact List.rdropWhile_prefix _ _
      have hx : p x = false := by
        obtain ⟨rest, hrest⟩ := hprefix
        have hhead := List.head?_dropWhile_not p l
        rw [← hrest] at hhead
        simpa using hhead
      rw [strip, List.dropWhile_cons_of_neg (by simp [hx]), ← hl, strip,
        List.rdropWhile_idempotent]

/-- A stripped text begins with something that stays. -/
theorem head_of_strip {x : α} (h : strip p (x :: l) = x :: l) : p x = false := by
  cases hx : p x with
  | false => rfl
  | true =>
      exfalso
      have hlen : (strip p (x :: l)).length ≤ l.length := by
        rw [strip, List.dropWhile_cons_of_pos hx]
        exact (List.rdropWhile_prefix _ _).length_le.trans (List.dropWhile_suffix _).length_le
      rw [h, List.length_cons] at hlen
      omega

/-- A part from the start of a stripped text loses only its end. -/
theorem strip_prefix {front : List α} (hl : strip p l = l) (hfront : front <+: l) :
    strip p front <+: l := by
  cases front with
  | nil => exact List.nil_prefix
  | cons x front =>
      obtain ⟨rest, rfl⟩ := hfront
      have hx : p x = false := head_of_strip hl
      rw [strip, List.dropWhile_cons_of_neg (by simp [hx])]
      exact (List.rdropWhile_prefix _ _).trans (List.prefix_append _ _)

/-- It is not lost altogether. -/
theorem strip_prefix_ne_nil {front : List α} (hl : strip p l = l) (hfront : front <+: l)
    (hne : front ≠ []) : strip p front ≠ [] := by
  cases front with
  | nil => exact absurd rfl hne
  | cons x front =>
      obtain ⟨rest, rfl⟩ := hfront
      intro hnil
      have hx : p x = true := strip_eq_nil_iff.1 hnil x List.mem_cons_self
      rw [head_of_strip hl] at hx
      cases hx

theorem strip_eq_self (h : ∀ x ∈ l, p x = false) : strip p l = l := by
  have hdrop : l.dropWhile p = l := by
    rw [List.dropWhile_eq_self_iff]
    intro hlen
    simpa using h _ (List.get_mem l ⟨0, hlen⟩)
  rw [strip, hdrop, List.rdropWhile_eq_self_iff]
  intro hne
  simp [h _ (List.getLast_mem hne)]

theorem strip_concat {x : α} (hx : p x = true) : strip p (l ++ [x]) = strip p l := by
  -- all of it goes, or the end goes after the front
  by_cases hall : ∀ y ∈ l, p y = true
  · have hleft : strip p (l ++ [x]) = [] := by
      apply strip_eq_nil_iff.2
      intro y hy
      rcases List.mem_append.1 hy with hy | hy
      · exact hall y hy
      · rwa [List.mem_singleton.1 hy]
    rw [hleft, strip_eq_nil_iff.2 hall]
  · have hdrop : (l ++ [x]).dropWhile p = l.dropWhile p ++ [x] := by
      rw [List.dropWhile_append, if_neg]
      simpa [List.dropWhile_eq_nil_iff] using hall
    rw [strip, hdrop, List.rdropWhile_concat_pos _ _ _ hx, strip]

/-! ## The first occurrence of a word -/

/-- `w` stands between `before` and `after`, and nowhere before that. -/
structure FirstAt (w l before after : List α) : Prop where
  split : l = before ++ (w ++ after)
  first : ∀ a b, l = a ++ (w ++ b) → before.length ≤ a.length

section Find

variable {w before after : List α}

/-- A text has at most one first occurrence. -/
theorem FirstAt.unique {before' after' : List α} (h : FirstAt w l before after)
    (h' : FirstAt w l before' after') : before = before' ∧ after = after' := by
  have hlen : before.length = before'.length :=
    Nat.le_antisymm (h.first _ _ h'.split) (h'.first _ _ h.split)
  obtain ⟨hbefore, hrest⟩ := List.append_inj (h.split.symm.trans h'.split) hlen
  exact ⟨hbefore, List.append_cancel_left hrest⟩

theorem FirstAt.drop_eq (h : FirstAt w l before after) :
    l.drop (before.length + w.length) = after := by
  rw [h.split, ← List.append_assoc, ← List.length_append, List.drop_left]

theorem FirstAt.take_eq (h : FirstAt w l before after) : l.take before.length = before := by
  rw [h.split, List.take_left]

theorem FirstAt.drop_before (h : FirstAt w l before after) :
    l.drop before.length = w ++ after := by
  rw [h.split, List.drop_left]

variable [DecidableEq α]

/-- Where `w` first stands. -/
def find (w : List α) : List α → Option ℕ
  | [] => if w.isPrefixOf [] then some 0 else none
  | c :: l => if w.isPrefixOf (c :: l) then some 0 else (find w l).map (· + 1)

theorem find_eq_none (h : find w l = none) (a b : List α) : l ≠ a ++ (w ++ b) := by
  -- a later occurrence is one in the tail, with a shorter text in front
  induction l generalizing a with
  | nil =>
      rintro hl
      obtain ⟨-, hwb⟩ := List.append_eq_nil_iff.1 hl.symm
      obtain ⟨rfl, -⟩ := List.append_eq_nil_iff.1 hwb
      cases h
  | cons c l ih =>
      rw [find] at h
      split at h
      · cases h
      · rename_i hprefix
        have hrest : find w l = none := by simpa using h
        intro hl
        cases a with
        | nil =>
            apply hprefix
            rw [hl, List.isPrefixOf_iff_prefix]
            exact List.prefix_append w b
        | cons d a => exact ih hrest a (List.cons.inj hl).2

theorem firstAt_of_find {i : ℕ} (h : find w l = some i) :
    FirstAt w l (l.take i) (l.drop (i + w.length)) ∧ i ≤ l.length := by
  -- found at once, or one place further than in the tail
  induction l generalizing i with
  | nil =>
      rw [find] at h
      split at h
      · rename_i hprefix
        cases h
        have hw : w = [] := List.prefix_nil.1 (List.isPrefixOf_iff_prefix.1 hprefix)
        subst hw
        exact ⟨⟨rfl, fun _ _ _ => Nat.zero_le _⟩, Nat.le_refl _⟩
      · cases h
  | cons c l ih =>
      rw [find] at h
      split at h
      · rename_i hprefix
        cases h
        obtain ⟨b, hb⟩ := List.isPrefixOf_iff_prefix.1 hprefix
        refine ⟨⟨?_, fun _ _ _ => Nat.zero_le _⟩, Nat.zero_le _⟩
        rw [← hb, Nat.zero_add, List.drop_left]
        rfl
      · rename_i hprefix
        obtain ⟨j, hj, rfl⟩ := Option.map_eq_some_iff.1 h
        obtain ⟨hfirst, hle⟩ := ih hj
        have hindex : j + 1 + w.length = j + w.length + 1 := by omega
        refine ⟨⟨?_, ?_⟩, Nat.succ_le_succ hle⟩
        · rw [hindex, List.take_succ_cons, List.drop_succ_cons, List.cons_append, ← hfirst.split]
        · intro a b hab
          cases a with
          | nil =>
              exfalso
              apply hprefix
              rw [hab, List.isPrefixOf_iff_prefix]
              exact List.prefix_append w b
          | cons d a =>
              have hrest := hfirst.first a b (List.cons.inj hab).2
              rw [List.take_succ_cons, List.length_cons, List.length_cons]
              exact Nat.succ_le_succ hrest

theorem FirstAt.find_eq (h : FirstAt w l before after) : find w l = some before.length := by
  cases hfind : find w l with
  | none => exact absurd h.split (find_eq_none hfind before after)
  | some i =>
      obtain ⟨hfirst, hle⟩ := firstAt_of_find hfind
      rw [(h.unique hfirst).1, List.length_take, Nat.min_eq_left hle]

/-- Behind a text that does not hold it a character is found where it is found in the rest. -/
theorem find_append_of_not_mem {x : α} {front : List α} (hx : x ∉ front) :
    find [x] (front ++ l) = (find [x] l).map (front.length + ·) := by
  induction front with
  | nil => simp
  | cons c front ih =>
      obtain ⟨hc, hfront⟩ := not_or.1 (mt List.mem_cons.2 hx)
      -- the search does not stop at a character of the front
      have hprefix : ¬ [x].isPrefixOf (c :: (front ++ l)) = true := by simp [hc]
      rw [List.cons_append, find, if_neg hprefix, ih hfront, Option.map_map, List.length_cons]
      congr 1
      funext i
      exact Nat.add_right_comm front.length i 1

/-- Either a word stands somewhere first, or nowhere. -/
theorem find_cases (w l : List α) :
    (∃ before after, FirstAt w l before after) ∨
      find w l = none ∧ ∀ before after, ¬ FirstAt w l before after := by
  cases hfind : find w l with
  | none => exact .inr ⟨rfl, fun before after h => find_eq_none hfind before after h.split⟩
  | some i => exact .inl ⟨_, _, (firstAt_of_find hfind).1⟩

end Find

/-! ## Lines -/

variable [DecidableEq α]

/-- Cut after each line end. -/
def splitInclusive (nl : α) : List α → List (List α)
  | [] => []
  | c :: rest =>
      if c = nl then
        [c] :: splitInclusive nl rest
      else
        match splitInclusive nl rest with
        | [] => [[c]]
        | line :: more => (c :: line) :: more

/-- Take off the last character if it is `x`. -/
def dropLastIf (x : α) (l : List α) : List α :=
  if l.getLast? = some x then l.dropLast else l

/-- Take off a line end, and the carriage return in front of it. -/
def chomp (nl cr : α) (line : List α) : List α :=
  if line.getLast? = some nl then dropLastIf cr line.dropLast else line

def lines (nl cr : α) (l : List α) : List (List α) :=
  (splitInclusive nl l).map (chomp nl cr)

variable {nl cr : α}

theorem dropLastIf_concat (x : α) (l : List α) : dropLastIf x (l ++ [x]) = l := by
  simp [dropLastIf]

theorem dropLastIf_eq_self_iff {x : α} : dropLastIf x l = l ↔ l.getLast? ≠ some x := by
  rw [dropLastIf]
  split
  · rename_i hlast
    have hne : l ≠ [] := by
      rintro rfl
      cases hlast
    -- taking the last character off makes the list shorter
    have hlen : l.dropLast ≠ l := by
      intro heq
      have hlength := congrArg List.length heq
      rw [List.length_dropLast] at hlength
      have hpos := List.length_pos_iff.2 hne
      omega
    simp [hlen, hlast]
  · rename_i hlast
    simp [hlast]

theorem length_dropLastIf_le (x : α) (l : List α) : (dropLastIf x l).length ≤ l.length := by
  rw [dropLastIf]
  split
  · rw [List.length_dropLast]
    exact Nat.sub_le _ _
  · exact Nat.le_refl _

theorem dropLastIf_eq_self_of_length {x : α} (h : (dropLastIf x l).length = l.length) :
    dropLastIf x l = l := by
  by_contra hne
  have hlast : l.getLast? = some x := by
    by_contra hlast
    exact hne (dropLastIf_eq_self_iff.2 hlast)
  obtain ⟨front, rfl⟩ := List.getLast?_eq_some_iff.1 hlast
  rw [dropLastIf_concat, List.length_append, List.length_singleton] at h
  omega

theorem chomp_concat (line : List α) : chomp nl cr (line ++ [nl]) = dropLastIf cr line := by
  simp [chomp]

/-- The first line and what follows it. -/
theorem splitInclusive_line {line : List α} (hline : nl ∉ line) (rest : List α) :
    splitInclusive nl (line ++ nl :: rest) = (line ++ [nl]) :: splitInclusive nl rest := by
  -- the search goes over the line to its end
  induction line with
  | nil => simp [splitInclusive]
  | cons c line ih =>
      obtain ⟨hc, hline⟩ := not_or.1 (mt List.mem_cons.2 hline)
      rw [List.cons_append, splitInclusive, if_neg (Ne.symm hc), ih hline]
      rfl

/-- A text whose last line has no end. -/
theorem splitInclusive_of_not_mem {line : List α} (hline : nl ∉ line) (hne : line ≠ []) :
    splitInclusive nl line = [line] := by
  induction line with
  | nil => exact absurd rfl hne
  | cons c line ih =>
      obtain ⟨hc, hline⟩ := not_or.1 (mt List.mem_cons.2 hline)
      rw [splitInclusive, if_neg (Ne.symm hc)]
      cases line with
      | nil => rfl
      | cons d line => rw [ih hline (List.cons_ne_nil d line)]

/-- Lines that are written out are read back, without the carriage returns before their ends. -/
theorem lines_flatMap {ls : List (List α)} (hls : ∀ line ∈ ls, nl ∉ line) :
    lines nl cr (ls.flatMap (· ++ [nl])) = ls.map (dropLastIf cr) := by
  induction ls with
  | nil => rfl
  | cons line ls ih =>
      have hrest := ih fun line hline => hls line (List.mem_cons_of_mem _ hline)
      -- the first line is cut off in front of the rest
      rw [lines] at hrest
      rw [lines, List.flatMap_cons, List.append_assoc, List.singleton_append,
        splitInclusive_line (hls line List.mem_cons_self), List.map_cons, chomp_concat, hrest,
        List.map_cons]

/-- Either a text is one line without an end, or it begins with a line that has one. -/
theorem exists_line (l : List α) (nl : α) :
    nl ∉ l ∨ ∃ line rest, l = line ++ nl :: rest ∧ nl ∉ line := by
  by_cases hnl : nl ∈ l
  · right
    obtain ⟨line, rest, hl, hline⟩ := List.eq_append_cons_of_mem hnl
    exact ⟨line, rest, hl, hline⟩
  · exact .inl hnl

/-- No line holds a line end. -/
theorem not_mem_of_mem_lines {line : List α} (h : line ∈ lines nl cr l) : nl ∉ line := by
  -- on the length: what follows the first line is shorter
  induction hlen : l.length using Nat.strongRecOn generalizing l with
  | _ n ih =>
      have hdrop : ∀ {m : List α}, nl ∉ m → nl ∉ dropLastIf cr m := by
        intro m hm hmem
        rw [dropLastIf] at hmem
        split at hmem
        · exact hm (List.dropLast_subset _ hmem)
        · exact hm hmem
      rcases exists_line l nl with hnl | ⟨first, rest, rfl, hfirst⟩
      · cases l with
        | nil => cases h
        | cons c l =>
            rw [lines, splitInclusive_of_not_mem hnl (List.cons_ne_nil c l)] at h
            have hlast : (c :: l).getLast? ≠ some nl := by
              intro hsome
              exact hnl (List.mem_of_getLast? hsome)
            have hline : line = c :: l := by simpa [chomp, hlast] using h
            rwa [hline]
      · rw [lines, splitInclusive_line hfirst, List.map_cons, chomp_concat] at h
        rcases List.mem_cons.1 h with rfl | h
        · exact hdrop hfirst
        · refine ih rest.length ?_ h rfl
          rw [← hlen, List.length_append, List.length_cons]
          omega

/-! ## Splitting at line ends -/

/-- No piece between line ends holds one. -/
theorem not_mem_of_mem_splitOn {piece : List α} (h : piece ∈ l.splitOn nl) : nl ∉ piece := by
  -- on the length: what follows the first line end is shorter
  induction hlen : l.length using Nat.strongRecOn generalizing l with
  | _ n ih =>
      rcases exists_line l nl with hnl | ⟨line, rest, rfl, hline⟩
      · rw [List.splitOn_eq_singleton hnl, List.mem_singleton] at h
        rwa [h]
      · rw [List.splitOn_append_cons_self, List.splitOn_eq_singleton hline, List.singleton_append,
          List.mem_cons] at h
        rcases h with rfl | h
        · exact hline
        · refine ih rest.length ?_ h rfl
          rw [← hlen, List.length_append, List.length_cons]
          omega

/-- Behind the last line end stands nothing. -/
theorem splitOn_flatMap (ls : List (List α)) :
    (ls.flatMap (· ++ [nl])).splitOn nl = ls.flatMap (·.splitOn nl) ++ [[]] := by
  induction ls with
  | nil => exact List.splitOn_nil nl
  | cons line ls ih =>
      rw [List.flatMap_cons, List.append_assoc, List.singleton_append,
        List.splitOn_append_cons_self, ih, List.flatMap_cons, List.append_assoc]

/-- The pieces in front of an empty last one are the lines. -/
theorem eq_flatMap_of_splitOn {ls : List (List α)} (h : l.splitOn nl = ls ++ [[]]) :
    l = ls.flatMap (· ++ [nl]) := by
  have hjoin : [nl].intercalate (ls ++ [[]]) = ls.flatMap (· ++ [nl]) := by
    clear h
    induction ls with
    | nil => rfl
    | cons line ls ih =>
        rw [List.cons_append, List.intercalate_cons_of_ne_nil (by simp), ih, List.flatMap_cons]
  rw [← hjoin, ← h, List.intercalate_splitOn]

theorem flatMap_splitOn_eq_self {ls : List (List α)} (hls : ∀ line ∈ ls, nl ∉ line) :
    ls.flatMap (·.splitOn nl) = ls := by
  induction ls with
  | nil => rfl
  | cons line ls ih =>
      rw [List.flatMap_cons, List.splitOn_eq_singleton (hls line List.mem_cons_self),
        ih fun line hline => hls line (List.mem_cons_of_mem _ hline), List.singleton_append]

/-! ## Cutting a text between its lines -/

/-- The lines that are not empty. -/
def fullLines (nl cr : α) (l : List α) : List (List α) :=
  (lines nl cr l).filter (· ≠ [])

/-- Nothing but line ends. -/
def lineEnds (nl cr : α) : List α → Bool
  | [] => true
  | c :: rest =>
      if c = nl then
        lineEnds nl cr rest
      else
        match rest with
        | d :: rest => c = cr && d = nl && lineEnds nl cr rest
        | [] => false

theorem lines_line {line : List α} (hline : nl ∉ line) (rest : List α) :
    lines nl cr (line ++ nl :: rest) = dropLastIf cr line :: lines nl cr rest := by
  rw [lines, splitInclusive_line hline, List.map_cons, chomp_concat]
  rfl

theorem fullLines_nl (rest : List α) : fullLines nl cr (nl :: rest) = fullLines nl cr rest := by
  have hlines : lines nl cr (nl :: rest) = [] :: lines nl cr rest :=
    (lines_line List.not_mem_nil rest : lines nl cr ([] ++ nl :: rest) = _)
  rw [fullLines, hlines, List.filter_cons_of_neg (by simp), fullLines]

theorem fullLines_crnl (hne : cr ≠ nl) (rest : List α) :
    fullLines nl cr (cr :: nl :: rest) = fullLines nl cr rest := by
  have hlines : lines nl cr ([cr] ++ nl :: rest) = [] :: lines nl cr rest := by
    rw [lines_line (by simpa using hne.symm)]
    simp [dropLastIf]
  have hrest : fullLines nl cr ([cr] ++ nl :: rest) = fullLines nl cr rest := by
    rw [fullLines, hlines, List.filter_cons_of_neg (by simp), fullLines]
  exact hrest

/-- Line ends in front of a text add no line to it. -/
theorem fullLines_lineEnds (hne : cr ≠ nl) {ends : List α} (hends : lineEnds nl cr ends = true)
    (rest : List α) : fullLines nl cr (ends ++ rest) = fullLines nl cr rest := by
  fun_induction lineEnds nl cr ends with
  | case1 => rfl
  | case2 ends ih => rw [List.cons_append, fullLines_nl, ih hends]
  | case3 c hc d ends ih =>
      simp only [Bool.and_eq_true, decide_eq_true_eq] at hends
      obtain ⟨⟨rfl, rfl⟩, hends⟩ := hends
      rw [List.cons_append, List.cons_append, fullLines_crnl hc, ih hends]
  | case4 => cases hends

/-- Where a line ends a text can be cut, if what is cut off in front does not end in the carriage
return of that end. -/
theorem fullLines_append (hne : cr ≠ nl) {front rest : List α} (hlast : front.getLast? ≠ some cr)
    (hrest : ∃ more, rest = nl :: more ∨ rest = cr :: nl :: more) :
    fullLines nl cr (front ++ rest) = fullLines nl cr front ++ fullLines nl cr rest := by
  -- on the length of the front: its first line is cut off, and the rest of it ends as it does
  induction hlen : front.length using Nat.strongRecOn generalizing front with
  | _ n ih =>
      rcases exists_line front nl with hnl | ⟨line, back, rfl, hline⟩
      · cases front with
        | nil => rfl
        | cons c front =>
            have hfront : fullLines nl cr (c :: front) = [c :: front] := by
              have hend : (c :: front).getLast? ≠ some nl := by
                intro hsome
                exact hnl (List.mem_of_getLast? hsome)
              simp [fullLines, lines, splitInclusive_of_not_mem hnl (List.cons_ne_nil c front),
                chomp, hend]
            have hdrop : dropLastIf cr (c :: front) = c :: front :=
              dropLastIf_eq_self_iff.2 hlast
            rw [hfront]
            -- the front is the beginning of a line that ends in what follows it
            obtain ⟨more, rfl | rfl⟩ := hrest
            · rw [fullLines_nl, fullLines, lines_line hnl, hdrop,
                List.filter_cons_of_pos (by simp)]
              rfl
            · have hcr : nl ∉ (c :: front) ++ [cr] := by simpa [hne.symm] using hnl
              have hsplit : (c :: front) ++ cr :: nl :: more =
                  ((c :: front) ++ [cr]) ++ nl :: more := by simp
              rw [fullLines_crnl hne, hsplit, fullLines, lines_line hcr, dropLastIf_concat,
                List.filter_cons_of_pos (by simp)]
              rfl
      -- what is left of the front ends as the front did
      · have hback : back.getLast? ≠ some cr := by
          cases back with
          | nil => simp
          | cons d back =>
              rw [List.getLast?_append, List.getLast?_cons_cons] at hlast
              simpa using hlast
        have hshort : back.length < n := by
          rw [← hlen, List.length_append, List.length_cons]
          omega
        have hih := ih back.length hshort hback rfl
        rw [List.append_assoc, List.cons_append, fullLines, fullLines, lines_line hline,
          lines_line hline, List.filter_cons, List.filter_cons]
        rw [fullLines] at hih
        rw [hih]
        split <;> rfl

end Text
end Lib
end SvenBridge
