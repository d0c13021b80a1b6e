import Mathlib.Data.List.Induction

/-!
# Generations — a memory of two halves

What comes is remembered in the current half; when it is full, the current half becomes the previous
one and the previous one is forgotten.  This file contains

* `Generations` and `remember`;
* `window capacity log` — which end of everything that was taken down the memory still has;
* `Keeps` — the two halves are that window — and that remembering keeps it.
-/

namespace SvenBridge
namespace Lib

universe u

variable {α : Type u} [DecidableEq α]

inductive Remembered
  | alreadyKnown
  | storedFresh
  | storedAfterRotation
  deriving DecidableEq

structure Generations (α : Type u) where
  current : List α
  previous : List α

namespace Generations

def empty : Generations α := ⟨[], []⟩

def Knows (g : Generations α) (x : α) : Prop := x ∈ g.current ∨ x ∈ g.previous

instance (g : Generations α) (x : α) : Decidable (g.Knows x) :=
  inferInstanceAs (Decidable (_ ∨ _))

def remember (capacity : ℕ) (g : Generations α) (x : α) : Generations α × Remembered :=
  if g.Knows x then
    (g, .alreadyKnown)
  else if g.current.length < capacity then
    (⟨g.current ++ [x], g.previous⟩, .storedFresh)
  else
    (⟨[x], g.current⟩, .storedAfterRotation)

/-- All that was taken down, after `x` came. -/
def logged (outcome : Remembered) (log : List α) (x : α) : List α :=
  match outcome with
  | .alreadyKnown => log
  | .storedFresh | .storedAfterRotation => log ++ [x]

/-- The end of the log that two generations hold: the one being filled and the one before. -/
def window (capacity : ℕ) (log : List α) : List α :=
  log.drop (((log.length - 1) / capacity - 1) * capacity)

/-- All that was taken down of a list, one after the other. -/
def stored (capacity : ℕ) (xs : List α) : List α :=
  xs.foldl (fun log x => if x ∈ window capacity log then log else log ++ [x]) []

omit [DecidableEq α] in
theorem mem_of_mem_window {capacity : ℕ} {log : List α} {x : α} (h : x ∈ window capacity log) :
    x ∈ log :=
  List.mem_of_mem_drop h

theorem stored_append_singleton (capacity : ℕ) (xs : List α) (x : α) :
    stored capacity (xs ++ [x]) =
      if x ∈ window capacity (stored capacity xs) then stored capacity xs
      else stored capacity xs ++ [x] := by
  rw [stored, List.foldl_append]
  rfl

/-- Nothing is taken down that did not come. -/
theorem mem_of_mem_stored {capacity : ℕ} {xs : List α} {x : α} (h : x ∈ stored capacity xs) :
    x ∈ xs := by
  induction xs using List.reverseRecOn with
  | nil => exact h
  | append_singleton xs y ih =>
      rw [stored_append_singleton] at h
      split at h
      · exact List.mem_append_left _ (ih h)
      · rcases List.mem_append.1 h with h | h
        · exact List.mem_append_left _ (ih h)
        · exact List.mem_append_right _ h

/-- The two halves are a window of the log, cut at a multiple of the capacity. -/
structure Keeps (capacity : ℕ) (log : List α) (g : Generations α) : Prop where
  held : g.previous ++ g.current = window capacity log
  full : ∃ rounds, log.length = rounds * capacity + g.current.length ∧
    (rounds = 0 → g.previous = []) ∧ (g.current = [] → rounds = 0)
  bound : g.current.length ≤ capacity

omit [DecidableEq α] in
theorem keeps_empty (capacity : ℕ) : Keeps capacity [] (empty : Generations α) := by
  refine ⟨?_, ⟨0, ?_, fun _ => rfl, fun _ => rfl⟩, Nat.zero_le _⟩
  · rw [window, List.drop_nil]
    rfl
  · rw [Nat.zero_mul]
    rfl

omit [DecidableEq α] in
/-- How many times the memory was turned over. -/
theorem Keeps.rounds {capacity : ℕ} (hcapacity : 0 < capacity) {log : List α} {g : Generations α}
    (h : Keeps capacity log g) {rounds : ℕ} (hlog : log.length = rounds * capacity + g.current.length)
    (hnil : g.current = [] → rounds = 0) : (log.length - 1) / capacity = rounds := by
  rcases Nat.eq_zero_or_pos g.current.length with hzero | hpos
  · rw [hlog, hzero, hnil (List.length_eq_zero_iff.1 hzero), Nat.zero_mul]
    exact Nat.div_eq_of_lt hcapacity
  · have hbound := h.bound
    rw [hlog, Nat.div_eq_iff hcapacity]
    constructor <;> omega

omit [DecidableEq α] in
theorem Keeps.knows_iff {capacity : ℕ} {log : List α} {g : Generations α}
    (h : Keeps capacity log g) (x : α) : g.Knows x ↔ x ∈ window capacity log := by
  rw [← h.held, List.mem_append, Knows, or_comm]

/-- What comes is known when it is in the window; otherwise the window moves on by it. -/
theorem Keeps.remember {capacity : ℕ} (hcapacity : 0 < capacity) {log : List α} {g : Generations α}
    (h : Keeps capacity log g) (x : α) :
    Keeps capacity (logged (g.remember capacity x).2 log x) (g.remember capacity x).1 ∧
      ((g.remember capacity x).2 = .alreadyKnown ↔ x ∈ window capacity log) := by
  obtain ⟨rounds, hlog, hprevious, hnil⟩ := h.full
  have hturned := h.rounds hcapacity hlog hnil
  have hheld := h.held
  rw [window, hturned] at hheld
  rw [Generations.remember, ← h.knows_iff]
  by_cases hknown : g.Knows x
  · rw [if_pos hknown]
    exact ⟨h, fun _ => hknown, fun _ => rfl⟩
  rw [if_neg hknown]
  by_cases hroom : g.current.length < capacity
  · rw [if_pos hroom]
    refine ⟨?_, nofun, fun hin => absurd hin hknown⟩
    have hlen : (log ++ [x]).length = rounds * capacity + (g.current ++ [x]).length := by
      rw [List.length_append, List.length_append, hlog, Nat.add_assoc]
    refine ⟨?_, ⟨rounds, hlen, hprevious, fun hempty => ?_⟩, ?_⟩
    · have hturned' : ((log ++ [x]).length - 1) / capacity = rounds := by
        rw [List.length_append, List.length_singleton, Nat.add_sub_cancel, hlog,
          Nat.div_eq_iff hcapacity]
        constructor <;> omega
      have hcut : (rounds - 1) * capacity ≤ log.length := by
        rw [hlog]
        exact Nat.le_trans (Nat.mul_le_mul_right _ (Nat.sub_le _ _)) (Nat.le_add_right _ _)
      change g.previous ++ (g.current ++ [x]) = window capacity (log ++ [x])
      rw [window, hturned', List.drop_append_of_le_length hcut, ← hheld, List.append_assoc]
    · exact absurd hempty (List.append_ne_nil_of_right_ne_nil _ (List.cons_ne_nil _ _))
    · rw [List.length_append, List.length_singleton]
      exact hroom
  · rw [if_neg hroom]
    refine ⟨?_, nofun, fun hin => absurd hin hknown⟩
    -- the current half is full: it is the last `capacity` of the log
    have hfull : g.current.length = capacity := Nat.le_antisymm h.bound (Nat.le_of_not_lt hroom)
    have hlast : log.drop (rounds * capacity) = g.current := by
      cases rounds with
      | zero =>
          rw [Nat.zero_mul, List.drop_zero]
          rw [hprevious rfl, Nat.zero_sub, Nat.zero_mul, List.drop_zero, List.nil_append] at hheld
          exact hheld.symm
      | succ rounds =>
          rw [Nat.add_sub_cancel] at hheld
          have hlen := congrArg List.length hheld
          rw [List.length_append, List.length_drop, hlog, hfull, Nat.succ_mul] at hlen
          rw [Nat.succ_mul, ← List.drop_drop, ← hheld]
          exact List.drop_left' (by omega)
    refine ⟨?_, ⟨rounds + 1, ?_, fun hzero => absurd hzero (Nat.succ_ne_zero _),
      fun hempty => absurd hempty (List.cons_ne_nil _ _)⟩, hcapacity⟩
    · have hturned' : ((log ++ [x]).length - 1) / capacity = rounds + 1 := by
        rw [List.length_append, List.length_singleton, Nat.add_sub_cancel, hlog, hfull,
          ← Nat.succ_mul, Nat.mul_div_cancel _ hcapacity]
      have hcut : rounds * capacity ≤ log.length := by
        rw [hlog]
        exact Nat.le_add_right _ _
      change g.current ++ [x] = window capacity (log ++ [x])
      rw [window, hturned', Nat.add_sub_cancel, List.drop_append_of_le_length hcut, hlast]
    · change (log ++ [x]).length = (rounds + 1) * capacity + [x].length
      rw [List.length_append, hlog, hfull, Nat.succ_mul]

omit [DecidableEq α] in
/-- The window is no more than two halves. -/
theorem length_window_le (capacity : ℕ) (hcapacity : 0 < capacity) (log : List α) :
    (window capacity log).length ≤ 2 * capacity := by
  rw [window, List.length_drop]
  have hmod := Nat.mod_add_div' (log.length - 1) capacity
  have hlt := Nat.mod_lt (log.length - 1) hcapacity
  rcases Nat.eq_zero_or_pos ((log.length - 1) / capacity) with hzero | hpos
  · rw [hzero, Nat.zero_mul] at hmod
    omega
  · rw [Nat.sub_mul, Nat.one_mul]
    omega

omit [DecidableEq α] in
/-- The window has what was taken down last. -/
theorem last_mem_window {capacity : ℕ} {log : List α} {i : ℕ} (hi : log.length - capacity ≤ i)
    {x : α} (hx : log[i]? = some x) : x ∈ window capacity log := by
  have hlt : i < log.length := (List.getElem?_eq_some_iff.1 hx).1
  have hle : ((log.length - 1) / capacity - 1) * capacity ≤ i := by
    have hmul := Nat.div_mul_le_self (log.length - 1) capacity
    rw [Nat.sub_mul, Nat.one_mul]
    omega
  rw [window]
  refine List.mem_iff_getElem?.2 ⟨i - ((log.length - 1) / capacity - 1) * capacity, ?_⟩
  rw [List.getElem?_drop, Nat.add_sub_cancel' hle, hx]

end Generations

end Lib
end SvenBridge
