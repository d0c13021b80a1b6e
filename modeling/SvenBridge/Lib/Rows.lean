import Mathlib.Data.List.Nodup
import Mathlib.Data.List.Basic
import Mathlib.Logic.Function.Basic

/-!
# Rows — keyed rows in a growing table

A table without holes: a row is pushed at the end, changed in place, and removed by moving the last
one to its slot.  This file contains

* `swapRemove`, which removes one row and permutes the others;
* `viewOf key rows` — the map that rows of unique keys are — and what a change of the rows at one key
  makes of it.
-/

namespace SvenBridge
namespace Lib

universe u v w

variable {R : Type u}

/-- The rows after `swap_remove`: the last one takes the place. -/
def swapRemove (rows : List R) (slot : ℕ) : List R :=
  match rows[rows.length - 1]? with
  | some last => (rows.set slot last).take (rows.length - 1)
  | none => rows

theorem swapRemove_of_last {rows : List R} {last : R} (hlast : rows[rows.length - 1]? = some last)
    (slot : ℕ) : swapRemove rows slot = (rows.set slot last).take (rows.length - 1) := by
  rw [swapRemove, hlast]

theorem exists_last {rows : List R} {slot : ℕ} (hslot : slot < rows.length) :
    ∃ last, rows[rows.length - 1]? = some last :=
  ⟨_, List.getElem?_eq_getElem (by omega)⟩

theorem length_swapRemove {rows : List R} {slot : ℕ} (hslot : slot < rows.length) :
    (swapRemove rows slot).length = rows.length - 1 := by
  obtain ⟨last, hlast⟩ := exists_last hslot
  rw [swapRemove_of_last hlast, List.length_take, List.length_set]
  omega

theorem getElem?_swapRemove {rows : List R} {slot j : ℕ} (hslot : slot < rows.length)
    (hj : j < rows.length - 1) :
    (swapRemove rows slot)[j]? = if j = slot then rows[rows.length - 1]? else rows[j]? := by
  obtain ⟨last, hlast⟩ := exists_last hslot
  rw [swapRemove_of_last hlast, hlast, List.getElem?_take_of_lt hj]
  by_cases heq : j = slot
  · subst heq
    rw [if_pos rfl, List.getElem?_set_self hslot]
  · rw [if_neg heq, List.getElem?_set_ne (Ne.symm heq)]

open scoped List in
/-- Swap-removal takes one row away and changes the order of the others. -/
theorem swapRemove_perm {rows : List R} {slot : ℕ} {gone : R} (hgone : rows[slot]? = some gone) :
    (gone :: swapRemove rows slot).Perm rows := by
  have hslot : slot < rows.length := (List.getElem?_eq_some_iff.1 hgone).1
  obtain ⟨front, last, rfl⟩ : ∃ front last, rows = front ++ [last] :=
    ⟨_, _, (List.dropLast_append_getLast (List.ne_nil_of_length_pos (by omega))).symm⟩
  rw [List.length_append, List.length_singleton] at hslot
  have hlast : (front ++ [last])[(front ++ [last]).length - 1]? = some last := by
    rw [List.length_append, List.length_singleton, Nat.add_sub_cancel,
      List.getElem?_append_right (Nat.le_refl _), Nat.sub_self]
    rfl
  rw [swapRemove_of_last hlast, List.length_append, List.length_singleton, Nat.add_sub_cancel]
  by_cases hend : slot = front.length
  · subst hend
    rw [List.getElem?_append_right (Nat.le_refl _), Nat.sub_self] at hgone
    obtain rfl := Option.some.inj hgone
    rw [List.set_append_right _ _ (Nat.le_refl _), List.take_left]
    exact (List.perm_append_singleton last front).symm
  · have hfront : slot < front.length := by omega
    rw [List.getElem?_append_left hfront] at hgone
    have hlen : (front.set slot last).length = front.length := List.length_set
    rw [List.set_append_left _ _ hfront, ← hlen, List.take_left]
    obtain ⟨before, after, rfl, rfl⟩ : ∃ before after, front = before ++ gone :: after ∧
        slot = before.length := by
      refine ⟨front.take slot, front.drop (slot + 1), ?_, ?_⟩
      · obtain ⟨_, rfl⟩ := List.getElem?_eq_some_iff.1 hgone
        rw [← List.drop_eq_getElem_cons hfront, List.take_append_drop]
      · rw [List.length_take, Nat.min_eq_left (Nat.le_of_lt hfront)]
    rw [List.set_append_right _ _ (Nat.le_refl _), Nat.sub_self, List.set_cons_zero,
      List.append_assoc, List.cons_append]
    calc gone :: (before ++ last :: after)
        _ ~ gone :: (last :: (before ++ after)) := List.Perm.cons _ List.perm_middle
        _ ~ gone :: (before ++ (after ++ [last])) := by
          rw [← List.append_assoc]
          exact List.Perm.cons _ (List.perm_append_singleton _ _).symm
        _ ~ before ++ gone :: (after ++ [last]) := List.perm_middle.symm

/-! ## A change in place -/

theorem getElem?_modify {rows : List R} {slot j : ℕ} {f : R → R} :
    (rows.modify slot f)[j]? = if slot = j then rows[j]?.map f else rows[j]? := by
  rw [List.getElem?_modify]
  split <;> cases rows[j]? <;> rfl

/-- A change of a row that leaves a part of it leaves that column. -/
theorem map_modify {β : Type v} {column : R → β} {rows : List R} {slot : ℕ} {f : R → R}
    (hf : ∀ row, column (f row) = column row) :
    (rows.modify slot f).map column = rows.map column := by
  apply List.ext_getElem?
  intro j
  rw [List.getElem?_map, List.getElem?_map, getElem?_modify]
  split
  · cases rows[j]? with
    | none => rfl
    | some row => simp only [Option.map_some, hf]
  · rfl

/-! ## Unique keys -/

variable {K : Type v} {key : R → K}

theorem slot_of_key {rows : List R} (hunique : (rows.map key).Nodup) {slot slot' : ℕ} {row row' : R}
    (hrow : rows[slot]? = some row) (hrow' : rows[slot']? = some row') (hkey : key row = key row') :
    slot = slot' := by
  obtain ⟨hslot, rfl⟩ := List.getElem?_eq_some_iff.1 hrow
  have hkeys : (rows.map key)[slot]? = (rows.map key)[slot']? := by
    rw [List.getElem?_map, List.getElem?_map, hrow, hrow', Option.map_some, Option.map_some, hkey]
  exact (List.getElem?_inj (by rwa [List.length_map]) hunique).1 hkeys

theorem nodup_concat {rows : List R} (hunique : (rows.map key).Nodup) {row : R}
    (hnew : ∀ other ∈ rows, key other ≠ key row) : ((rows ++ [row]).map key).Nodup := by
  rw [List.map_append, List.nodup_append]
  refine ⟨hunique, List.nodup_singleton _, fun a ha b hb => ?_⟩
  obtain ⟨other, hother, rfl⟩ := List.mem_map.1 ha
  rw [List.map_singleton, List.mem_singleton] at hb
  rw [hb]
  exact hnew other hother

theorem nodup_swapRemove {rows : List R} (hunique : (rows.map key).Nodup) {slot : ℕ}
    (hslot : slot < rows.length) : ((swapRemove rows slot).map key).Nodup := by
  have hperm := (swapRemove_perm (List.getElem?_eq_getElem hslot)).map key
  exact (hperm.nodup_iff.2 hunique).of_cons

theorem mem_swapRemove {rows : List R} (hunique : (rows.map key).Nodup) {slot : ℕ} {gone : R}
    (hgone : rows[slot]? = some gone) (row : R) :
    row ∈ swapRemove rows slot ↔ row ∈ rows ∧ key row ≠ key gone := by
  have hperm := swapRemove_perm hgone
  have hnot : key gone ∉ (swapRemove rows slot).map key := by
    have hnodup := (hperm.map key).nodup_iff.2 hunique
    rw [List.map_cons, List.nodup_cons] at hnodup
    exact hnodup.1
  rw [← hperm.mem_iff, List.mem_cons]
  constructor
  · intro hrow
    refine ⟨.inr hrow, fun hkey => hnot ?_⟩
    rw [← hkey]
    exact List.mem_map_of_mem hrow
  · rintro ⟨rfl | hrow, hkey⟩
    · exact absurd rfl hkey
    · exact hrow

/-- The rows of a table after a change of one of them. -/
theorem mem_modify {rows : List R} (hunique : (rows.map key).Nodup) {slot : ℕ} {old : R}
    (hold : rows[slot]? = some old) {f : R → R} (row : R) :
    row ∈ rows.modify slot f ↔ row = f old ∨ row ∈ rows ∧ key row ≠ key old := by
  rw [List.mem_iff_getElem?]
  simp only [getElem?_modify]
  constructor
  · rintro ⟨j, hj⟩
    split at hj
    · rename_i heq
      rw [← heq, hold] at hj
      exact .inl (Option.some.inj hj).symm
    · rename_i hne
      exact .inr ⟨List.mem_of_getElem? hj, fun hkey => hne (slot_of_key hunique hj hold hkey).symm⟩
  · rintro (rfl | ⟨hmem, hkey⟩)
    · exact ⟨slot, by rw [if_pos rfl, hold]; rfl⟩
    · obtain ⟨j, hj⟩ := List.mem_iff_getElem?.1 hmem
      refine ⟨j, ?_⟩
      rw [if_neg, hj]
      rintro rfl
      rw [hold, Option.some.injEq] at hj
      exact hkey (congrArg key hj.symm)

/-! ## The map of the rows -/

variable [DecidableEq K]

variable (key) in
def viewOf (rows : List R) (k : K) : Option R :=
  rows.find? fun row => decide (key row = k)

theorem viewOf_iff {rows : List R} (hunique : (rows.map key).Nodup) {k : K} {row : R} :
    viewOf key rows k = some row ↔ row ∈ rows ∧ key row = k := by
  rw [viewOf]
  constructor
  · intro h
    exact ⟨List.mem_of_find?_eq_some h, by simpa using List.find?_some h⟩
  · rintro ⟨hmem, hkey⟩
    cases hfind : rows.find? fun row => decide (key row = k) with
    | none =>
        rw [List.find?_eq_none] at hfind
        exact absurd (decide_eq_true hkey) (hfind row hmem)
    | some found =>
        have hfound : key found = k := by simpa using List.find?_some hfind
        obtain ⟨i, hi⟩ := List.mem_iff_getElem?.1 (List.mem_of_find?_eq_some hfind)
        obtain ⟨j, hj⟩ := List.mem_iff_getElem?.1 hmem
        have hsame := slot_of_key hunique hi hj (hfound.trans hkey.symm)
        rw [hsame, hj] at hi
        exact congrArg some (Option.some.inj hi).symm

theorem viewOf_eq_none_iff {rows : List R} {k : K} :
    viewOf key rows k = none ↔ ∀ row ∈ rows, key row ≠ k := by
  rw [viewOf, List.find?_eq_none]
  simp only [decide_eq_true_eq, ne_eq]

/-- Two tables whose rows differ at one key have maps that differ there. -/
theorem viewOf_update {rows rows' : List R} (hunique : (rows.map key).Nodup)
    (hunique' : (rows'.map key).Nodup) {k : K} {entry : Option R}
    (hentry : ∀ row, entry = some row → key row = k)
    (hmem : ∀ row, row ∈ rows' ↔ entry = some row ∨ row ∈ rows ∧ key row ≠ k) :
    viewOf key rows' = Function.update (viewOf key rows) k entry := by
  funext k'
  apply Option.ext
  intro row
  rw [viewOf_iff hunique', hmem]
  by_cases hk : k' = k
  · subst hk
    rw [Function.update_self]
    constructor
    · rintro ⟨hrow | ⟨-, hne⟩, heq⟩
      · exact hrow
      · exact absurd heq hne
    · exact fun hrow => ⟨.inl hrow, hentry row hrow⟩
  · rw [Function.update_of_ne hk, viewOf_iff hunique]
    constructor
    · rintro ⟨hrow | ⟨hrow, -⟩, heq⟩
      · exact absurd (heq.symm.trans (hentry row hrow)) hk
      · exact ⟨hrow, heq⟩
    · rintro ⟨hrow, heq⟩
      exact ⟨.inr ⟨hrow, heq ▸ hk⟩, heq⟩

end Lib
end SvenBridge
