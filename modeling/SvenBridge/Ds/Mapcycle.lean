import SvenBridge.Events
import SvenBridge.Lib.Utf8

/-!
# Ds.Mapcycle — the repair of mapcycle.txt

`fix_mapcycle_default` takes the portal campaign out of the map cycle and puts the default map in
front.  This file contains

* `lines`, `isPortal`, `swap` — what it is made of;
* `fixMapcycleDefault` — the repair of a file;
* `Repairs` — what it is for;
* `repairs_iff` — the files it does that to.
-/

namespace SvenBridge
namespace Ds

open Lib

/-! ## The repair -/

/-- `str::lines`. -/
def lines (s : String) : List String :=
  (Text.lines '\n' '\r' s.toList).map String.ofList

def isPortal (line : String) : Bool :=
  trim line == "-sp_campaign_portal" || trim line == "sp_campaign_portal"

def isDefault (line : String) : Bool :=
  trim line == "svencoop1"

/-- `slice::swap`, within bounds. -/
def swap {α : Type} (l : List α) (i j : ℕ) : List α :=
  match l[i]?, l[j]? with
  | some x, some y => (l.set i y).set j x
  | _, _ => l

/-- The lines that stay. -/
def keptLines (contents : String) : List String :=
  (lines contents).filter fun line => !isPortal line

/-- The default map changes places with the first line. -/
def promote (ls : List String) : List String :=
  match ls.findIdx? isDefault with
  -- a swap with the first line, not a rotation
  | some pos => swap ls 0 pos
  | none => ls

def newContents (contents : String) : String :=
  "\n".intercalate (promote (keptLines contents)) ++ "\n"

/-- A file, when it is there. -/
abbrev File :=
  Option (List UInt8)

def readToString (file : File) : Option String :=
  file.bind fun bytes => String.fromUTF8? ⟨bytes.toArray⟩

/-- `fix_mapcycle_default`, and the file after it; a failed write leaves `write`. -/
def fixMapcycleDefault (write : Except File Unit) (file : File) : Bool × File :=
  match readToString file with
  -- a file that is missing, cannot be read or is no UTF-8
  | none => (false, file)
  | some contents =>
      -- without a portal line nothing is written
      if !(lines contents).any isPortal then
        (false, file)
      else
        match write with
        | .ok () => (true, some (newContents contents).toUTF8.toList)
        | .error left => (false, left)

/-! ## What it is for -/

/-- The first element that `p` holds of, in front of the others. -/
def moveToFront {α : Type} (p : α → Bool) (l : List α) : List α :=
  match l.find? p with
  | some x => x :: l.eraseP p
  | none => l

/-- A file without a portal line is left alone.  Of another the other lines stay, the default map
first.  A second run changes nothing. -/
structure Repairs (contents : String) : Prop where
  untouched : ¬ (lines contents).any isPortal → ∀ write,
    fixMapcycleDefault write (some contents.toUTF8.toList) = (false, some contents.toUTF8.toList)
  repaired : (lines contents).any isPortal → ∃ contents' : String,
    fixMapcycleDefault (.ok ()) (some contents.toUTF8.toList) =
      (true, some contents'.toUTF8.toList) ∧
    lines contents' = moveToFront isDefault (keptLines contents)
  again : ∀ write, fixMapcycleDefault write
      (fixMapcycleDefault (.ok ()) (some contents.toUTF8.toList)).2 =
    (false, (fixMapcycleDefault (.ok ()) (some contents.toUTF8.toList)).2)

/-! ## Lists -/

section Lists

variable {α : Type} {p : α → Bool} {l front rest : List α} {x y : α}

theorem moveToFront_append (hfront : ∀ y ∈ front, p y = false) (hx : p x = true) :
    moveToFront p (front ++ x :: rest) = x :: (front ++ rest) := by
  have hfind : (front ++ x :: rest).find? p = some x := by
    rw [List.find?_append, List.find?_eq_none.2 (by simpa using hfront), Option.none_or,
      List.find?_cons_of_pos hx]
  rw [moveToFront, hfind, List.eraseP_append_right _ (by simpa using hfront),
    List.eraseP_cons_of_pos hx]

/-- The first element that `p` holds of, if any. -/
theorem exists_first (p : α → Bool) (l : List α) :
    (∀ y ∈ l, p y = false) ∨
      ∃ front x rest, l = front ++ x :: rest ∧ (∀ y ∈ front, p y = false) ∧ p x = true := by
  cases hfind : l.find? p with
  | none => exact .inl (by simpa using hfind)
  | some x =>
      obtain ⟨hx, front, rest, hl, hfront⟩ := List.find?_eq_some_iff_append.1 hfind
      exact .inr ⟨front, x, rest, hl, by simpa using hfront, hx⟩

theorem moveToFront_of_none (hl : ∀ y ∈ l, p y = false) : moveToFront p l = l := by
  rw [moveToFront, List.find?_eq_none.2 (by simpa using hl)]

theorem moveToFront_perm (p : α → Bool) (l : List α) : (moveToFront p l).Perm l := by
  rcases exists_first p l with hnone | ⟨front, x, rest, rfl, hfront, hx⟩
  · rw [moveToFront_of_none hnone]
  · rw [moveToFront_append hfront hx]
    exact List.perm_middle.symm

theorem swap_append (mid : List α) :
    swap (y :: mid ++ x :: rest) 0 (y :: mid).length = x :: mid ++ y :: rest := by
  simp [swap]

/-- A list stays the same when its first element goes to its end only if there is no other. -/
theorem cons_eq_concat_iff {mid : List α} : y :: mid = mid ++ [y] ↔ ∀ z ∈ mid, z = y := by
  -- each element is equal to the one before it, and so to the first
  induction mid with
  | nil => simp
  | cons z mid ih =>
      constructor
      · intro h
        rw [List.cons_append] at h
        obtain ⟨rfl, htail⟩ := List.cons.inj h
        intro w hw
        rcases List.mem_cons.1 hw with rfl | hw
        · rfl
        · exact ih.1 htail w hw
      · intro h
        have hz : z = y := h z List.mem_cons_self
        rw [hz, List.cons_append, ← ih.2 fun w hw => h w (List.mem_cons_of_mem z hw)]

/-- Shortened elements that make up the same list have not been shortened. -/
theorem eq_self_of_map_perm {f : List α → List α} (hf : ∀ l, (f l).length ≤ l.length)
    (hself : ∀ l, (f l).length = l.length → f l = l) {ls : List (List α)}
    (h : (ls.map f).Perm ls) : ∀ l ∈ ls, f l = l := by
  have hle : ∀ ls : List (List α), (ls.map f).flatten.length ≤ ls.flatten.length := by
    intro ls
    induction ls with
    | nil => exact Nat.le_refl _
    | cons l ls ih =>
        simp only [List.map_cons, List.flatten_cons, List.length_append]
        exact Nat.add_le_add (hf l) ih
  -- the lengths add up to the same, so none of them has become smaller
  have hlen : (ls.map f).flatten.length = ls.flatten.length := h.flatten.length_eq
  clear h
  induction ls with
  | nil => nofun
  | cons l ls ih =>
      simp only [List.map_cons, List.flatten_cons, List.length_append] at hlen
      have hfirst := hf l
      have hrest := hle ls
      intro m hm
      rcases List.mem_cons.1 hm with rfl | hm
      · exact hself m (by omega)
      · exact ih (by omega) m hm

end Lists

/-! ## Lines that are written and read back -/

/-- A line without the carriage return at its end. -/
def dropReturn (line : String) : String :=
  String.ofList (Text.dropLastIf '\r' line.toList)

/-- The line ends with a carriage return of its own. -/
def endsInReturn (line : String) : Bool :=
  line.toList.getLast? == some '\r'

theorem dropReturn_eq_self_iff {line : String} :
    dropReturn line = line ↔ endsInReturn line = false := by
  have hlist : dropReturn line = line ↔ Text.dropLastIf '\r' line.toList = line.toList := by
    rw [dropReturn, ← String.toList_inj, String.toList_ofList]
  rw [hlist, Text.dropLastIf_eq_self_iff]
  simp [endsInReturn]

theorem map_dropReturn {ls : List String} (hls : ∀ line ∈ ls, dropReturn line = line) :
    ls.map dropReturn = ls := by
  rw [List.map_congr_left hls, List.map_id']

theorem trim_dropReturn (line : String) : trim (dropReturn line) = trim line := by
  apply String.toList_inj.1
  rw [toList_trim, toList_trim, dropReturn, String.toList_ofList, Text.dropLastIf]
  split
  -- a carriage return is white space: trimming takes it anyway
  · rename_i hlast
    obtain ⟨front, hfront⟩ := List.getLast?_eq_some_iff.1 hlast
    rw [hfront, List.dropLast_concat, Text.strip_concat (by decide)]
  · rfl

theorem not_mem_of_mem_lines {s line : String} (h : line ∈ lines s) : '\n' ∉ line.toList := by
  obtain ⟨l, hl, rfl⟩ := List.mem_map.1 h
  rw [String.toList_ofList]
  exact Text.not_mem_of_mem_lines hl

theorem toList_joined {ls : List String} (hne : ls ≠ []) :
    ("\n".intercalate ls ++ "\n").toList = (ls.map String.toList).flatMap (· ++ ['\n']) := by
  have hnl : "\n".toList = ['\n'] := by decide
  rw [String.toList_append, String.toList_intercalate, hnl]
  -- every line but the last is followed by the separator, the last one by the final newline
  induction ls with
  | nil => exact absurd rfl hne
  | cons line ls ih =>
      cases ls with
      | nil => simp
      | cons line' ls =>
          have hrest := ih (List.cons_ne_nil line' ls)
          rw [List.map_cons] at hrest
          rw [List.map_cons, List.map_cons, List.intercalate_cons_cons, List.append_assoc, hrest,
            List.flatMap_cons]
          rfl

/-- The lines that are written come back without the carriage returns at their ends. -/
theorem lines_joined {ls : List String} (hne : ls ≠ []) (hls : ∀ line ∈ ls, '\n' ∉ line.toList) :
    lines ("\n".intercalate ls ++ "\n") = ls.map dropReturn := by
  have hmap : ∀ line ∈ ls.map String.toList, '\n' ∉ line := by
    intro line hline
    obtain ⟨s, hs, rfl⟩ := List.mem_map.1 hline
    exact hls s hs
  rw [lines, toList_joined hne, Text.lines_flatMap hmap, List.map_map, List.map_map]
  rfl

/-! ## The default map -/

section Promote

variable {ls front rest : List String} {x y : String}

theorem promote_of_none (hls : ∀ line ∈ ls, isDefault line = false) : promote ls = ls := by
  rw [promote, List.findIdx?_eq_none_iff.2 hls]

theorem findIdx?_append_of_first (hfront : ∀ line ∈ front, isDefault line = false)
    (hx : isDefault x = true) : (front ++ x :: rest).findIdx? isDefault = some front.length := by
  rw [List.findIdx?_append, List.findIdx?_eq_none_iff.2 hfront, List.findIdx?_cons, hx]
  simp

theorem promote_cons (hx : isDefault x = true) : promote (x :: rest) = x :: rest := by
  rw [promote, List.findIdx?_cons, hx]
  rfl

theorem promote_append (hfront : ∀ line ∈ y :: front, isDefault line = false)
    (hx : isDefault x = true) :
    promote (y :: front ++ x :: rest) = x :: front ++ y :: rest := by
  rw [promote, findIdx?_append_of_first hfront hx]
  exact swap_append front

theorem promote_perm (ls : List String) : (promote ls).Perm ls := by
  rcases exists_first isDefault ls with hnone | ⟨front, x, rest, rfl, hfront, hx⟩
  · rw [promote_of_none hnone]
  cases front with
  | nil => rw [List.nil_append, promote_cons hx]
  | cons y front =>
      rw [promote_append hfront hx]
      have hfirst : (x :: front ++ y :: rest).Perm (y :: (x :: front ++ rest)) := List.perm_middle
      have hrest : (x :: front ++ rest).Perm (front ++ x :: rest) := List.perm_middle.symm
      exact hfirst.trans (hrest.cons y)

/-- The lines in front of the default map; they change their order unless they are all the same. -/
def leadingLines (ls : List String) : List String :=
  if ls.any isDefault then ls.takeWhile fun line => !isDefault line else []

theorem leadingLines_append (hfront : ∀ line ∈ front, isDefault line = false)
    (hx : isDefault x = true) : leadingLines (front ++ x :: rest) = front := by
  have hany : (front ++ x :: rest).any isDefault = true := by simp [hx]
  rw [leadingLines, if_pos hany, List.takeWhile_append_of_pos (by simpa using hfront),
    List.takeWhile_cons_of_neg (by simp [hx]), List.append_nil]

theorem promote_eq_moveToFront_iff (ls : List String) :
    promote ls = moveToFront isDefault ls ↔
      ∀ a ∈ leadingLines ls, ∀ b ∈ leadingLines ls, a = b := by
  rcases exists_first isDefault ls with hnone | ⟨front, x, rest, rfl, hfront, hx⟩
  · have hany : ¬ ls.any isDefault = true := by simpa using hnone
    rw [promote_of_none hnone, moveToFront_of_none hnone, leadingLines, if_neg hany]
    simp
  rw [leadingLines_append hfront hx, moveToFront_append hfront hx]
  cases front with
  | nil => simp [promote_cons hx]
  | cons y front =>
      -- both begin with the default map; what differs is where the first line goes
      have hlists : x :: front ++ y :: rest = x :: (y :: front ++ rest) ↔
          y :: front = front ++ [y] := by
        rw [List.cons_append, List.cons.injEq, ← List.singleton_append (l := rest),
          ← List.append_assoc, List.append_cancel_right_eq]
        simp [eq_comm]
      rw [promote_append hfront hx, hlists, cons_eq_concat_iff]
      constructor
      · intro h a ha b hb
        have hall : ∀ z ∈ y :: front, z = y := by
          intro z hz
          rcases List.mem_cons.1 hz with rfl | hz
          · rfl
          · exact h z hz
        rw [hall a ha, hall b hb]
      · intro h z hz
        exact h z (List.mem_cons_of_mem y hz) y List.mem_cons_self

end Promote

/-! ## The files that are repaired -/

theorem readToString_bytes (s : String) : readToString (some s.toUTF8.toList) = some s :=
  Utf8.fromUTF8?_of_bytes rfl

/-- Other lines than portal lines are kept; none of them ends with a carriage return of its own; and
those in front of the default map are all the same. -/
structure Repairable (contents : String) : Prop where
  kept : keptLines contents ≠ []
  returns : ∀ line ∈ keptLines contents, endsInReturn line = false
  leading : ∀ a ∈ leadingLines (keptLines contents), ∀ b ∈ leadingLines (keptLines contents), a = b

variable {contents : String}

theorem lines_newContents (hkept : keptLines contents ≠ []) :
    lines (newContents contents) = (promote (keptLines contents)).map dropReturn := by
  have hperm := promote_perm (keptLines contents)
  apply lines_joined
  -- the lines that are written are the kept ones in another order
  · intro hnil
    rw [hnil] at hperm
    exact hkept hperm.symm.eq_nil
  · intro line hline
    exact not_mem_of_mem_lines (List.mem_filter.1 (hperm.mem_iff.1 hline)).1

theorem lines_newContents_nil (hkept : keptLines contents = []) :
    lines (newContents contents) = [""] := by
  rw [newContents, hkept]
  rfl

/-- No portal line is written. -/
theorem any_isPortal_newContents (contents : String) :
    (lines (newContents contents)).any isPortal = false := by
  -- a lost carriage return does not make a line a portal line
  by_cases hkept : keptLines contents = []
  · rw [lines_newContents_nil hkept]
    decide
  · rw [lines_newContents hkept, List.any_map, List.any_eq_false]
    intro line hline
    have hmem := (promote_perm _).mem_iff.1 hline
    have hportal : isPortal line = false := by simpa using (List.mem_filter.1 hmem).2
    simpa [isPortal, trim_dropReturn] using hportal

theorem lines_newContents_iff (contents : String) :
    lines (newContents contents) = moveToFront isDefault (keptLines contents) ↔
      Repairable contents := by
  by_cases hkept : keptLines contents = []
  · rw [lines_newContents_nil hkept, hkept]
    constructor
    · nofun
    · intro h
      exact absurd hkept h.kept
  rw [lines_newContents hkept]
  constructor
  · intro h
    -- the lines are as long together as they were, so that none of them has lost its end
    have hperm : ((promote (keptLines contents)).map dropReturn).Perm
        (promote (keptLines contents)) := by
      rw [h]
      exact (moveToFront_perm _ _).trans (promote_perm _).symm
    have hlists : (((promote (keptLines contents)).map String.toList).map
        (Text.dropLastIf '\r')).Perm ((promote (keptLines contents)).map String.toList) := by
      have hmap := hperm.map String.toList
      rw [List.map_map] at hmap ⊢
      simpa [Function.comp_def, dropReturn] using hmap
    have hself := eq_self_of_map_perm (Text.length_dropLastIf_le '\r')
      (fun _ => Text.dropLastIf_eq_self_of_length) hlists
    have hreturns : ∀ line ∈ promote (keptLines contents), dropReturn line = line := by
      intro line hline
      rw [dropReturn, hself _ (List.mem_map_of_mem hline), String.ofList_toList]
    refine ⟨hkept, ?_, ?_⟩
    · intro line hline
      exact dropReturn_eq_self_iff.1 (hreturns line ((promote_perm _).mem_iff.2 hline))
    · rw [← promote_eq_moveToFront_iff, ← h]
      exact (map_dropReturn hreturns).symm
  · intro h
    have hreturns : ∀ line ∈ promote (keptLines contents), dropReturn line = line := by
      intro line hline
      exact dropReturn_eq_self_iff.2 (h.returns line ((promote_perm _).mem_iff.1 hline))
    rw [map_dropReturn hreturns, promote_eq_moveToFront_iff]
    exact h.leading

theorem fix_untouched (hportal : (lines contents).any isPortal = false) (write : Except File Unit) :
    fixMapcycleDefault write (some contents.toUTF8.toList) =
      (false, some contents.toUTF8.toList) := by
  rw [fixMapcycleDefault, readToString_bytes]
  simp [hportal]

theorem fix_repaired (hportal : (lines contents).any isPortal = true) :
    fixMapcycleDefault (.ok ()) (some contents.toUTF8.toList) =
      (true, some (newContents contents).toUTF8.toList) := by
  rw [fixMapcycleDefault, readToString_bytes]
  simp [hportal]

theorem repairable_of_repairs (hportal : (lines contents).any isPortal = true)
    (h : Repairs contents) : Repairable contents := by
  obtain ⟨contents', hfix, hlines⟩ := h.repaired hportal
  rw [fix_repaired hportal] at hfix
  -- the text that is written is the one whose lines are known
  have htext : newContents contents = contents' := by
    have hread := congrArg (fun r => readToString r.2) hfix
    simpa only [readToString_bytes, Option.some.injEq] using hread
  rw [← htext] at hlines
  exact (lines_newContents_iff contents).1 hlines

/-- A file that is no text is left alone.  A text is repaired exactly when it has no portal line,
or its other lines survive being written and moved. -/
theorem repairs_iff (contents : String) :
    (∀ file write, readToString file = none → fixMapcycleDefault write file = (false, file)) ∧
    (Repairs contents ↔ (lines contents).any isPortal = false ∨ Repairable contents) := by
  refine ⟨?_, ?_⟩
  · intro file write hfile
    rw [fixMapcycleDefault, hfile]
  · cases hportal : (lines contents).any isPortal with
    | false =>
        refine ⟨fun _ => .inl rfl, fun _ => ⟨fun _ => fix_untouched hportal, ?_, ?_⟩⟩
        · intro h
          rw [hportal] at h
          cases h
        · intro write
          rw [fix_untouched hportal, fix_untouched hportal]
    | true =>
        constructor
        · intro h
          exact .inr (repairable_of_repairs hportal h)
        · rintro (h | h)
          · cases h
          refine ⟨fun h => absurd hportal h, fun _ => ?_, ?_⟩
          · exact ⟨_, fix_repaired hportal, (lines_newContents_iff contents).2 h⟩
          · intro write
            rw [fix_repaired hportal]
            exact fix_untouched (any_isPortal_newContents contents) write

/-- The default map is the third of the other lines. -/
def lateDefault : String :=
  "sp_campaign_portal\nabandoned\ncrystal\nsvencoop1\n"

/-- The first line goes to its place, behind the second. -/
theorem lateDefault_not_repaired : ¬ Repairs lateDefault := by
  intro h
  have hrepairable := repairable_of_repairs (by decide) h
  have heq := hrepairable.leading "abandoned" (by decide) "crystal" (by decide)
  exact absurd heq (by decide)

end Ds
end SvenBridge
