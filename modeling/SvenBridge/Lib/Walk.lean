import Mathlib.Tactic.Common

/-!
# Walk — moves up and down a tree of names

A place is the list of names on the way to it.  This file defines

* `Move` and `walk` — moves from a place; at the root a move up leads nowhere;
* `prefix_or_of_prefix_walk` — how a walk gets below a place;
* `Enclosed` and `prefix_walk` — walks that never go up more than they have gone down.
-/

namespace SvenBridge
namespace Lib

inductive Move (κ : Type*) where
  | stay
  | up
  | down (name : κ)
  deriving DecidableEq

namespace Walk

variable {κ : Type*}

/-! ## Walks -/

def move (place : List κ) : Move κ → List κ
  | .stay => place
  | .up => place.dropLast
  | .down name => place ++ [name]

def walk (place : List κ) (moves : List (Move κ)) : List κ :=
  moves.foldl move place

variable {place goal : List κ} {moves : List (Move κ)} {m : Move κ}

@[simp] theorem walk_nil (place : List κ) : walk place [] = place :=
  rfl

@[simp] theorem walk_cons (place : List κ) (m : Move κ) (moves : List (Move κ)) :
    walk place (m :: moves) = walk (move place m) moves :=
  rfl

@[simp] theorem walk_append (place : List κ) (moves moves' : List (Move κ)) :
    walk place (moves ++ moves') = walk (walk place moves) moves' :=
  List.foldl_append

/-! ## Getting below a place -/

/-- A move that ends below `goal` comes from below it, or from on the way to it. -/
theorem prefix_or_of_prefix_move (h : goal <+: move place m) : place <+: goal ∨ goal <+: place := by
  cases m with
  | stay => exact .inr h
  | up => exact .inr (h.trans (List.dropLast_prefix place))
  | down name =>
      rcases List.prefix_concat_iff.1 h with rfl | h
      · exact .inl (List.prefix_append place [name])
      · exact .inr h

theorem prefix_or_of_prefix_walk {n : ℕ} (h : goal <+: walk place (moves.take (n + 1))) :
    walk place (moves.take n) <+: goal ∨ goal <+: walk place (moves.take n) := by
  rw [List.take_add_one] at h
  cases hm : moves[n]? with
  | none =>
      rw [hm, Option.toList_none, List.append_nil] at h
      exact .inr h
  | some m =>
      rw [hm, Option.toList_some, walk_append] at h
      exact prefix_or_of_prefix_move h

/-! ## Walks that stay below their start -/

/-- From `depth` names below, the moves never lead above. -/
def Enclosed : ℕ → List (Move κ) → Prop
  | _, [] => True
  | depth, .stay :: moves => Enclosed depth moves
  | 0, .up :: _ => False
  | depth + 1, .up :: moves => Enclosed depth moves
  | depth, .down _ :: moves => Enclosed (depth + 1) moves

theorem prefix_walk {below : List κ} (h : Enclosed below.length moves) :
    place <+: walk (place ++ below) moves := by
  induction moves generalizing below with
  | nil => exact List.prefix_append place below
  | cons m moves ih =>
      cases m with
      | stay => exact ih h
      | up =>
          rcases List.eq_nil_or_concat below with rfl | ⟨front, name, rfl⟩
          · cases h
          · have hup : move (place ++ (front ++ [name])) .up = place ++ front := by
              rw [← List.append_assoc, move, List.dropLast_concat]
            rw [List.concat_eq_append, walk_cons, hup]
            rw [List.concat_eq_append, List.length_append, List.length_singleton] at h
            exact ih h
      | down name =>
          have hdown : move (place ++ below) (.down name) = place ++ (below ++ [name]) :=
            List.append_assoc place below [name]
          rw [walk_cons, hdown]
          refine ih ?_
          rw [List.length_append, List.length_singleton]
          exact h

end Walk
end Lib
end SvenBridge
