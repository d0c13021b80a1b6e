import SvenBridge.Lib.IndexedHeap
import SvenBridge.Lib.Machine
import SvenBridge.Lib.Rows
import Mathlib.Algebra.Group.Nat.Defs
import Mathlib.Data.List.MinMax
import Mathlib.Order.Nat

/-!
# DeadlineIndex — which row is due first

The deadlines of a growing table, kept as a binary heap of row numbers (`temporal_index/`).  The
table hands its deadlines in with each call.  This file contains

* `HeapDeadlineIndex` with its operations, its two ways out of a heap that cannot be trusted
  (`invalid`: build it anew at the next question; `linearFallback`: scan the rows) among them;
* `Sound` — a heap that says it is ready is a heap of the rows that have a deadline — and that every
  operation keeps it and ends without an index out of range;
* the same for a table whose rows carry their deadlines (`Sound.push` and what follows);
* `deadline_index_agrees`: at every moment of every run the index answers as a scan of the rows.
-/

namespace SvenBridge
namespace Wire

open Lib
open Lib.IndexedHeap (Tracks Holds Ordered OrderedFrom keyAt)

inductive IndexReadiness
  | ready
  | invalid
  | linearFallback
  deriving DecidableEq

structure HeapDeadlineIndex extends IndexedHeap where
  readiness : IndexReadiness
  deriving DecidableEq

namespace HeapDeadlineIndex

/-- `ABSENT`, above every row number; in `positions` it is `none`. -/
def absent : ℕ := 2 ^ 32 - 1

def default : HeapDeadlineIndex where
  heap := []
  positions := []
  readiness := .ready

def invalidate (index : HeapDeadlineIndex) : HeapDeadlineIndex :=
  { index with readiness := .invalid }

def useLinearFallback : HeapDeadlineIndex where
  heap := []
  positions := []
  readiness := .linearFallback

def needsRebuild (index : HeapDeadlineIndex) (rowCount : ℕ) : Bool :=
  match index.readiness with
  | .ready => index.positions.length != rowCount
  | .invalid => true
  | .linearFallback => false

/-- `deadline`; a row without one is never the earliest. -/
def deadline (deadlineOf : ℕ → Option ℕ) (row : ℕ) : ℕ :=
  (deadlineOf row).getD (2 ^ 64 - 1)

def rebuild (rowCount : ℕ) (deadlineOf : ℕ → Option ℕ) : Option HeapDeadlineIndex :=
  if rowCount > absent then
    some useLinearFallback
  else
    let filled := IndexedHeap.fill (fun row => (deadlineOf row).isSome) rowCount 0
      ⟨[], List.replicate rowCount none⟩
    (IndexedHeap.heapify (deadline deadlineOf) (filled.heap.length / 2) filled).map (⟨·, .ready⟩)

def prepare (index : HeapDeadlineIndex) (rowCount : ℕ) (deadlineOf : ℕ → Option ℕ) :
    Option HeapDeadlineIndex :=
  if index.needsRebuild rowCount then rebuild rowCount deadlineOf else some index

def insert (index : HeapDeadlineIndex) (row : ℕ) (newDeadline : Option ℕ)
    (deadlineOf : ℕ → Option ℕ) : Option HeapDeadlineIndex :=
  if index.readiness ≠ .ready ∨ row ≠ index.positions.length then
    some index.invalidate
  else if row ≥ absent then
    some useLinearFallback
  else
    let grown : IndexedHeap := ⟨index.heap, index.positions ++ [none]⟩
    match newDeadline with
    | some _ => (IndexedHeap.push (deadline deadlineOf) grown row).map (⟨·, .ready⟩)
    | none => some ⟨grown, .ready⟩

def update (index : HeapDeadlineIndex) (row : ℕ) (newDeadline : Option ℕ)
    (deadlineOf : ℕ → Option ℕ) : Option HeapDeadlineIndex :=
  if index.readiness ≠ .ready ∨ row ≥ index.positions.length then
    some index.invalidate
  else do
    let position ← index.positions[row]?
    let moved ← match position, newDeadline with
      | none, some _ => IndexedHeap.push (deadline deadlineOf) index.toIndexedHeap row
      | some _, none => IndexedHeap.remove (deadline deadlineOf) index.toIndexedHeap row
      | some position, some _ =>
          IndexedHeap.repair (deadline deadlineOf) index.toIndexedHeap position
      | none, none => some index.toIndexedHeap
    return ⟨moved, .ready⟩

def swapRemove (index : HeapDeadlineIndex) (removed last : ℕ) (deadlineOf : ℕ → Option ℕ) :
    Option HeapDeadlineIndex :=
  if index.readiness ≠ .ready ∨ last ≥ index.positions.length ∨ removed > last then
    some index.invalidate
  else do
    let left ← IndexedHeap.remove (deadline deadlineOf) index.toIndexedHeap removed
    let left ← IndexedHeap.renameLast left removed last
    return ⟨left, .ready⟩

/-- The plain answer: the least deadline of the rows. -/
def scanEarliest (rowCount : ℕ) (deadlineOf : ℕ → Option ℕ) : Option ℕ :=
  ((List.range rowCount).filterMap deadlineOf).min?

def isDue (now : ℕ) (deadlineOf : ℕ → Option ℕ) (row : ℕ) : Bool :=
  (deadlineOf row).any fun time => decide (time ≤ now)

def scanDue (rowCount now : ℕ) (deadlineOf : ℕ → Option ℕ) (predicate : ℕ → Bool) : Option ℕ :=
  (List.range rowCount).find? fun row => isDue now deadlineOf row && predicate row

def earliestExact (index : HeapDeadlineIndex) (rowCount : ℕ) (deadlineOf : ℕ → Option ℕ) :
    Option (HeapDeadlineIndex × Option ℕ) := do
  let index ← index.prepare rowCount deadlineOf
  if index.readiness = .linearFallback then
    return (index, scanEarliest rowCount deadlineOf)
  else
    match index.heap.head? with
    | none => return (index, none)
    | some row =>
        match deadlineOf row with
        | some time => return (index, some time)
        | none => return (index.invalidate, scanEarliest rowCount deadlineOf)

/-- `eager_earliest_exact`: the index is not mended. -/
def eagerEarliestExact (index : HeapDeadlineIndex) (rowCount : ℕ) (deadlineOf : ℕ → Option ℕ) :
    Option ℕ :=
  if index.readiness ≠ .ready ∨ index.positions.length ≠ rowCount then
    scanEarliest rowCount deadlineOf
  else
    match index.heap.head? with
    | none => none
    | some row => (deadlineOf row).or (scanEarliest rowCount deadlineOf)

def eagerFirstDue (index : HeapDeadlineIndex) (rowCount now : ℕ) (deadlineOf : ℕ → Option ℕ) :
    Option ℕ :=
  if index.readiness ≠ .ready ∨ index.positions.length ≠ rowCount then
    scanDue rowCount now deadlineOf fun _ => true
  else
    match index.heap.head? with
    | none => none
    | some row =>
        match deadlineOf row with
        | some time => if time ≤ now then some row else none
        | none => scanDue rowCount now deadlineOf fun _ => true

def firstDueMatching (index : HeapDeadlineIndex) (rowCount now : ℕ) (deadlineOf : ℕ → Option ℕ)
    (predicate : ℕ → Bool) : Option (HeapDeadlineIndex × Option ℕ) := do
  let index ← index.prepare rowCount deadlineOf
  if index.readiness = .linearFallback then
    return (index, scanDue rowCount now deadlineOf predicate)
  else
    match index.heap.head? with
    | none => return (index, none)
    | some first =>
        match deadlineOf first with
        | none => return (index.invalidate, scanDue rowCount now deadlineOf predicate)
        | some firstDeadline =>
            if firstDeadline > now then
              return (index, none)
            else
              return (index, index.heap.find? fun row => isDue now deadlineOf row && predicate row)

/-! ## The invariant -/

/-- A heap of the rows that have a deadline. -/
structure Heaped (index : IndexedHeap) (rowCount : ℕ) (deadlineOf : ℕ → Option ℕ) : Prop where
  tracks : Tracks index
  rows : index.positions.length = rowCount
  ordered : Ordered (deadline deadlineOf) index
  holds : ∀ row, Holds index row ↔ row < rowCount ∧ (deadlineOf row).isSome = true

/-- A heap that says it is ready is one. -/
def Sound (index : HeapDeadlineIndex) (rowCount : ℕ) (deadlineOf : ℕ → Option ℕ) : Prop :=
  index.readiness = .ready → Heaped index.toIndexedHeap rowCount deadlineOf

theorem sound_invalidate {index : HeapDeadlineIndex} {rowCount : ℕ} {deadlineOf : ℕ → Option ℕ} :
    Sound index.invalidate rowCount deadlineOf := by
  intro h
  cases h

theorem sound_useLinearFallback {rowCount : ℕ} {deadlineOf : ℕ → Option ℕ} :
    Sound useLinearFallback rowCount deadlineOf := by
  intro h
  cases h

theorem sound_default {deadlineOf : ℕ → Option ℕ} : Sound default 0 deadlineOf := by
  intro _
  refine ⟨fun row p => ?_, rfl, fun i _ hin => absurd hin (Nat.not_lt_zero i), fun row => ?_⟩
  · simp only [default, List.getElem?_nil, reduceCtorEq]
  · simp only [Holds, default, List.getElem?_nil, reduceCtorEq, exists_const, Nat.not_lt_zero,
      false_and]

/-- The heap is built from nothing. -/
theorem rebuild_spec (rowCount : ℕ) (deadlineOf : ℕ → Option ℕ) :
    ∃ index, rebuild rowCount deadlineOf = some index ∧ index.readiness ≠ .invalid ∧
      Sound index rowCount deadlineOf := by
  rw [rebuild]
  split
  · exact ⟨_, rfl, by decide, sound_useLinearFallback⟩
  · obtain ⟨htracks, hlen, hholds⟩ := IndexedHeap.fill_spec
      (fun row => (deadlineOf row).isSome) rowCount 0 ⟨[], List.replicate rowCount none⟩
      (fun row p => by
        simp only [List.getElem?_nil, List.getElem?_replicate, reduceCtorEq, iff_false]
        split <;> simp)
      (by rw [List.length_replicate, Nat.zero_add])
      (fun r => by simp [Holds])
    generalize IndexedHeap.fill (fun row => (deadlineOf row).isSome) rowCount 0
      ⟨[], List.replicate rowCount none⟩ = filled at htracks hlen hholds
    obtain ⟨built, hrun, hsifted, hordered⟩ := IndexedHeap.heapify_spec (deadline deadlineOf)
      (filled.heap.length / 2) filled htracks (Nat.div_le_self _ _) (by
        intro i hi hin hlow
        rw [IndexedHeap.parent] at hlow
        omega)
    refine ⟨⟨built, .ready⟩, by simp only [hrun, Option.map_some], by simp, fun _ => ?_⟩
    refine ⟨hsifted.tracks, ?_, hordered, fun row => ?_⟩
    · change built.positions.length = rowCount
      rw [hsifted.rows, hlen, List.length_replicate]
    · rw [hsifted.holds, hholds, Nat.zero_add]

theorem prepare_spec {index : HeapDeadlineIndex} {rowCount : ℕ} {deadlineOf : ℕ → Option ℕ}
    (h : Sound index rowCount deadlineOf) :
    ∃ index', index.prepare rowCount deadlineOf = some index' ∧ index'.readiness ≠ .invalid ∧
      Sound index' rowCount deadlineOf := by
  rw [prepare]
  split
  · exact rebuild_spec rowCount deadlineOf
  · rename_i hready
    refine ⟨index, rfl, ?_, h⟩
    intro hinvalid
    rw [needsRebuild, hinvalid] at hready
    exact hready rfl

/-- A row is pushed at the end of the table. -/
theorem insert_spec {index : HeapDeadlineIndex} {rowCount : ℕ} {before deadlineOf : ℕ → Option ℕ}
    (h : Sound index rowCount before) (hagree : ∀ r, r < rowCount → deadlineOf r = before r) :
    ∃ index', index.insert rowCount (deadlineOf rowCount) deadlineOf = some index' ∧
      Sound index' (rowCount + 1) deadlineOf := by
  rw [insert]
  split
  · exact ⟨_, rfl, sound_invalidate⟩
  rename_i hready
  rw [not_or, not_not, not_not] at hready
  split
  · exact ⟨_, rfl, sound_useLinearFallback⟩
  have hheaped := h hready.1
  let grown : IndexedHeap := ⟨index.heap, index.positions ++ [none]⟩
  have hrows : grown.positions.length = rowCount + 1 := by
    rw [List.length_append, List.length_singleton, hheaped.rows]
  have hlast : grown.positions[rowCount]? = some none := by
    change (index.positions ++ [none])[rowCount]? = _
    rw [← hheaped.rows, List.getElem?_append_right (Nat.le_refl _), Nat.sub_self]
    rfl
  have htracks : Tracks grown := by
    intro row p
    rw [← hheaped.tracks row p]
    by_cases hrow : row < rowCount
    · change (index.positions ++ [none])[row]? = _ ↔ _
      rw [List.getElem?_append_left (by rw [hheaped.rows]; exact hrow)]
    · have hold : index.positions[row]? = none :=
        List.getElem?_eq_none (by rw [hheaped.rows]; omega)
      rw [hold]
      by_cases heq : row = rowCount
      · rw [heq, hlast]
        simp
      · rw [List.getElem?_eq_none (by rw [hrows]; omega)]
  have hordered : Ordered (deadline deadlineOf) grown := by
    refine hheaped.ordered.congr fun r hr => ?_
    rw [deadline, deadline, hagree r ((hheaped.holds r).1 hr).1]
  have hheld : ∀ r, Holds grown r ↔ r < rowCount ∧ (deadlineOf r).isSome = true := fun r => by
    rw [show Holds grown r ↔ Holds index.toIndexedHeap r from Iff.rfl, hheaped.holds]
    exact and_congr_right fun hr => by rw [hagree r hr]
  cases hnew : deadlineOf rowCount with
  | none =>
      refine ⟨⟨grown, .ready⟩, rfl, fun _ => ⟨htracks, hrows, hordered, fun r => ?_⟩⟩
      rw [hheld]
      constructor
      · exact fun hr => ⟨Nat.lt_succ_of_lt hr.1, hr.2⟩
      · rintro ⟨hr, hsome⟩
        rcases Nat.lt_succ_iff_lt_or_eq.1 hr with hr | rfl
        · exact ⟨hr, hsome⟩
        · rw [hnew] at hsome
          cases hsome
  | some time =>
      obtain ⟨pushed, hrun, htracks', hordered', hrows', hheld'⟩ :=
        IndexedHeap.push_spec _ htracks hordered hlast
      refine ⟨⟨pushed, .ready⟩, ?_, fun _ => ⟨htracks', hrows'.trans hrows, hordered', fun r => ?_⟩⟩
      · simp only [grown] at hrun
        simp only [hrun, Option.map_some]
      · rw [hheld', hheld]
        constructor
        · rintro (rfl | hr)
          · exact ⟨Nat.lt_succ_self _, by rw [hnew]; rfl⟩
          · exact ⟨Nat.lt_succ_of_lt hr.1, hr.2⟩
        · rintro ⟨hr, hsome⟩
          rcases Nat.lt_succ_iff_lt_or_eq.1 hr with hr | hr
          · exact .inr ⟨hr, hsome⟩
          · exact .inl hr

/-- The deadline of one row changes, comes or goes. -/
theorem update_spec {index : HeapDeadlineIndex} {rowCount row : ℕ} {before deadlineOf : ℕ → Option ℕ}
    (h : Sound index rowCount before) (hrow : row < rowCount)
    (hagree : ∀ r, r ≠ row → deadlineOf r = before r) :
    ∃ index', index.update row (deadlineOf row) deadlineOf = some index' ∧
      Sound index' rowCount deadlineOf := by
  rw [update]
  split
  · exact ⟨_, rfl, sound_invalidate⟩
  rename_i hready
  rw [not_or, not_not, not_le] at hready
  have hheaped := h hready.1
  have hkey : ∀ r, r ≠ row → deadline deadlineOf r = deadline before r := fun r hr => by
    rw [deadline, deadline, hagree r hr]
  obtain ⟨place, hget⟩ : ∃ place, index.positions[row]? = some place :=
    ⟨_, List.getElem?_eq_getElem hready.2⟩
  rw [hget, Option.bind_eq_bind, Option.bind_some]
  cases place with
  | none =>
      have hnot : ¬ Holds index.toIndexedHeap row := by
        rintro ⟨p, hp⟩
        rw [← hheaped.tracks row p, hget] at hp
        cases hp
      have hordered : Ordered (deadline deadlineOf) index.toIndexedHeap :=
        hheaped.ordered.congr fun r hr => hkey r fun heq => hnot (heq ▸ hr)
      have hheld : ∀ r, r ≠ row →
          (Holds index.toIndexedHeap r ↔ r < rowCount ∧ (deadlineOf r).isSome = true) := by
        intro r hr
        rw [hheaped.holds, hagree r hr]
      cases hnew : deadlineOf row with
      | none =>
          refine ⟨⟨index.toIndexedHeap, .ready⟩, rfl,
            fun _ => ⟨hheaped.tracks, hheaped.rows, hordered, fun r => ?_⟩⟩
          by_cases hr : r = row
          · rw [hr]
            exact ⟨fun h => absurd h hnot, fun h => by rw [hnew] at h; cases h.2⟩
          · exact hheld r hr
      | some time =>
          obtain ⟨pushed, hrun, htracks', hordered', hrows', hheld'⟩ :=
            IndexedHeap.push_spec _ hheaped.tracks hordered hget
          refine ⟨⟨pushed, .ready⟩, by simp only [hrun]; rfl,
            fun _ => ⟨htracks', hrows'.trans hheaped.rows, hordered', fun r => ?_⟩⟩
          rw [hheld']
          by_cases hr : r = row
          · rw [hr, hnew]
            exact ⟨fun _ => ⟨hrow, rfl⟩, fun _ => .inl rfl⟩
          · rw [or_iff_right hr, hheld r hr]
  | some position =>
      have hplace : index.heap[position]? = some row := (hheaped.tracks row position).1 hget
      cases hnew : deadlineOf row with
      | none =>
          obtain ⟨removed, hrun, htracks', hordered', hrows', -, hheld'⟩ :=
            IndexedHeap.remove_spec _ hheaped.tracks hheaped.ordered hkey hready.2
          refine ⟨⟨removed, .ready⟩, by simp only [hrun]; rfl,
            fun _ => ⟨htracks', hrows'.trans hheaped.rows, hordered', fun r => ?_⟩⟩
          rw [hheld', hheaped.holds]
          by_cases hr : r = row
          · rw [hr, hnew]
            simp
          · rw [hagree r hr, and_iff_right hr]
      | some time =>
          have hlt : position < index.heap.length := (List.getElem?_eq_some_iff.1 hplace).1
          obtain ⟨mended, hrun, hsifted, hordered'⟩ := IndexedHeap.repair_spec (deadline deadlineOf)
            hheaped.tracks hlt (by
              refine IndexedHeap.OrderedFrom.loose hheaped.ordered fun i hi hne => ?_
              obtain ⟨entry, hrowi⟩ : ∃ entry, index.heap[i]? = some entry :=
                ⟨_, List.getElem?_eq_getElem hi⟩
              rw [IndexedHeap.keyAt_eq _ hrowi, IndexedHeap.keyAt_eq _ hrowi, hkey]
              intro heq
              exact hne (hheaped.tracks.inj (heq ▸ hrowi) hplace))
          refine ⟨⟨mended, .ready⟩, by simp only [hrun]; rfl,
            fun _ => ⟨hsifted.tracks, hsifted.rows.trans hheaped.rows, hordered', fun r => ?_⟩⟩
          rw [hsifted.holds, hheaped.holds]
          by_cases hr : r = row
          · rw [hr, hnew]
            have hheld := (hheaped.holds row).1 ⟨position, hplace⟩
            exact ⟨fun _ => ⟨hrow, rfl⟩, fun _ => hheld⟩
          · rw [hagree r hr]

/-- A row is swap-removed: the last one takes its number. -/
theorem swapRemove_spec {index : HeapDeadlineIndex} {last removed : ℕ}
    {before deadlineOf : ℕ → Option ℕ} (h : Sound index (last + 1) before) (hle : removed ≤ last)
    (hagree : ∀ r, r < last → deadlineOf r = if r = removed then before last else before r) :
    ∃ index', index.swapRemove removed last before = some index' ∧ Sound index' last deadlineOf := by
  rw [swapRemove]
  split
  · exact ⟨_, rfl, sound_invalidate⟩
  rename_i hready
  rw [not_or, not_not] at hready
  have hheaped := h hready.1
  have hrow : removed < index.positions.length := by
    rw [hheaped.rows]
    omega
  obtain ⟨left, hremove, htracks, hordered, hrows, hgone, hheld⟩ :=
    IndexedHeap.remove_spec _ hheaped.tracks hheaped.ordered (fun _ _ => rfl) hrow
  obtain ⟨index', hrename, htracks', hrows', hget⟩ :=
    IndexedHeap.renameLast_spec htracks (hrows.trans hheaped.rows) hle hgone
  have hkey : ∀ r, Holds left r →
      deadlineOf (IndexedHeap.renamed removed last r) = before r := by
    intro r hr
    obtain ⟨hne, hr⟩ := (hheld r).1 hr
    have hlt := ((hheaped.holds r).1 hr).1
    rw [IndexedHeap.renamed]
    by_cases hlast : r = last
    · rw [if_pos hlast, hagree removed (by omega), if_pos rfl, hlast]
    · rw [if_neg hlast, hagree r (by omega), if_neg hne]
  refine ⟨⟨index', .ready⟩, ?_, fun _ => ⟨htracks', hrows', ?_, fun r => ?_⟩⟩
  · rw [hremove, Option.bind_eq_bind, Option.bind_some, hrename]
    rfl
  · have hlen : index'.heap.length = left.heap.length := by
      apply Nat.le_antisymm
      · by_contra hlt
        have hnone := hget left.heap.length
        rw [List.getElem?_eq_none (Nat.le_refl _), Option.map_none,
          List.getElem?_eq_none_iff] at hnone
        omega
      · by_contra hlt
        have hnone := hget index'.heap.length
        rw [List.getElem?_eq_none (Nat.le_refl _), eq_comm, Option.map_eq_none_iff,
          List.getElem?_eq_none_iff] at hnone
        omega
    have hat : ∀ i, i < left.heap.length →
        keyAt (deadline deadlineOf) index' i = keyAt (deadline before) left i := by
      intro i hi
      obtain ⟨entry, hrowi⟩ : ∃ entry, left.heap[i]? = some entry :=
        ⟨_, List.getElem?_eq_getElem hi⟩
      have hrowi' := hget i
      rw [hrowi, Option.map_some] at hrowi'
      rw [IndexedHeap.keyAt_eq _ hrowi, IndexedHeap.keyAt_eq _ hrowi', deadline, deadline,
        hkey _ ⟨i, hrowi⟩]
    intro i hi hin hlow
    rw [hlen] at hin
    have hpar := IndexedHeap.parent_lt hi
    rw [hat i hin, hat (IndexedHeap.parent i) (by omega)]
    exact hordered i hi hin hlow
  · have hsource : Holds index' r ↔ ∃ r₀, Holds left r₀ ∧ IndexedHeap.renamed removed last r₀ = r := by
      constructor
      · rintro ⟨p, hp⟩
        rw [hget, Option.map_eq_some_iff] at hp
        obtain ⟨r₀, hp, hr⟩ := hp
        exact ⟨r₀, ⟨p, hp⟩, hr⟩
      · rintro ⟨r₀, ⟨p, hp⟩, hr⟩
        exact ⟨p, by rw [hget, hp, Option.map_some, hr]⟩
    rw [hsource]
    constructor
    · rintro ⟨r₀, hr₀, rfl⟩
      refine ⟨?_, ?_⟩
      · have hlt := ((hheaped.holds r₀).1 ((hheld r₀).1 hr₀).2).1
        have hne := ((hheld r₀).1 hr₀).1
        rw [IndexedHeap.renamed]
        split <;> omega
      · rw [hkey r₀ hr₀]
        exact ((hheaped.holds r₀).1 ((hheld r₀).1 hr₀).2).2
    · rintro ⟨hlt, hsome⟩
      rw [hagree r hlt] at hsome
      by_cases hr : r = removed
      · rw [if_pos hr] at hsome
        refine ⟨last, (hheld last).2 ⟨by omega, (hheaped.holds last).2 ⟨by omega, hsome⟩⟩, ?_⟩
        rw [IndexedHeap.renamed, if_pos rfl, hr]
      · rw [if_neg hr] at hsome
        refine ⟨r, (hheld r).2 ⟨hr, (hheaped.holds r).2 ⟨by omega, hsome⟩⟩, ?_⟩
        rw [IndexedHeap.renamed, if_neg (by omega)]

/-! ## Questions -/

theorem scanEarliest_eq_none {rowCount : ℕ} {deadlineOf : ℕ → Option ℕ}
    (h : ∀ row, row < rowCount → deadlineOf row = none) : scanEarliest rowCount deadlineOf = none := by
  rw [scanEarliest, List.min?_eq_none_iff, List.filterMap_eq_nil_iff]
  intro row hrow
  exact h row (List.mem_range.1 hrow)

theorem scanEarliest_eq_some {rowCount row time : ℕ} {deadlineOf : ℕ → Option ℕ} (hrow : row < rowCount)
    (hat : deadlineOf row = some time)
    (hleast : ∀ r t, r < rowCount → deadlineOf r = some t → time ≤ t) :
    scanEarliest rowCount deadlineOf = some time := by
  rw [scanEarliest, List.min?_eq_some_iff]
  constructor
  · exact List.mem_filterMap.2 ⟨row, List.mem_range.2 hrow, hat⟩
  · intro t ht
    obtain ⟨r, hr, hrt⟩ := List.mem_filterMap.1 ht
    exact hleast r t (List.mem_range.1 hr) hrt

/-- What the first row of a heap says: nothing has a deadline, or this row has the least. -/
theorem Heaped.head {index : IndexedHeap} {rowCount : ℕ} {deadlineOf : ℕ → Option ℕ}
    (h : Heaped index rowCount deadlineOf) :
    (index.heap.head? = none ∧ ∀ row, row < rowCount → deadlineOf row = none) ∨
      ∃ row time, index.heap.head? = some row ∧ row < rowCount ∧ deadlineOf row = some time ∧
        ∀ r t, r < rowCount → deadlineOf r = some t → time ≤ t := by
  rw [List.head?_eq_getElem?]
  cases hfirst : index.heap[0]? with
  | none =>
      refine .inl ⟨rfl, fun row hrow => ?_⟩
      rw [← Option.not_isSome_iff_eq_none]
      intro hsome
      obtain ⟨p, hp⟩ := (h.holds row).2 ⟨hrow, hsome⟩
      have hlt := (List.getElem?_eq_some_iff.1 hp).1
      rw [List.getElem?_eq_none_iff] at hfirst
      omega
  | some row =>
      obtain ⟨hrow, hsome⟩ := (h.holds row).1 ⟨0, hfirst⟩
      obtain ⟨time, hat⟩ := Option.isSome_iff_exists.1 hsome
      refine .inr ⟨row, time, rfl, hrow, hat, fun r t hr hrt => ?_⟩
      obtain ⟨p, hp⟩ := (h.holds r).2 ⟨hr, by rw [hrt]; rfl⟩
      have hroot := h.ordered.root p (List.getElem?_eq_some_iff.1 hp).1
      rwa [IndexedHeap.keyAt_eq _ hfirst, IndexedHeap.keyAt_eq _ hp, deadline, deadline, hat, hrt]
        at hroot

/-- The earliest deadline is told as a scan would tell it. -/
theorem earliestExact_spec {index : HeapDeadlineIndex} {rowCount : ℕ} {deadlineOf : ℕ → Option ℕ}
    (h : Sound index rowCount deadlineOf) :
    ∃ index', index.earliestExact rowCount deadlineOf =
        some (index', scanEarliest rowCount deadlineOf) ∧ Sound index' rowCount deadlineOf := by
  obtain ⟨index', hprepare, hvalid, hsound⟩ := prepare_spec h
  rw [earliestExact, hprepare, Option.bind_eq_bind, Option.bind_some]
  by_cases hfallback : index'.readiness = .linearFallback
  · exact ⟨index', if_pos hfallback, hsound⟩
  · rw [if_neg hfallback]
    have hready : index'.readiness = .ready := by
      cases hr : index'.readiness with
      | ready => rfl
      | invalid => exact absurd hr hvalid
      | linearFallback => exact absurd hr hfallback
    refine ⟨index', ?_, hsound⟩
    rcases (hsound hready).head with ⟨hhead, hnone⟩ | ⟨row, time, hhead, hrow, hat, hleast⟩
    · rw [hhead, scanEarliest_eq_none hnone]
      rfl
    · simp only [hhead, hat, scanEarliest_eq_some hrow hat hleast]
      rfl

/-- A row that may be handed out: it is due, and as asked for. -/
def Wanted (rowCount now : ℕ) (deadlineOf : ℕ → Option ℕ) (predicate : ℕ → Bool) (row : ℕ) : Prop :=
  row < rowCount ∧ isDue now deadlineOf row = true ∧ predicate row = true

/-- An answer names a wanted row, and there is one when there is a wanted row. -/
structure Answers (rowCount now : ℕ) (deadlineOf : ℕ → Option ℕ) (predicate : ℕ → Bool)
    (found : Option ℕ) : Prop where
  wanted : ∀ row, found = some row → Wanted rowCount now deadlineOf predicate row
  found : ∀ row, Wanted rowCount now deadlineOf predicate row → found.isSome = true

/-- A search through the wanted rows, and maybe others, answers. -/
theorem answers_find {rowCount now : ℕ} {deadlineOf : ℕ → Option ℕ} {predicate : ℕ → Bool}
    {rows : List ℕ} (hin : ∀ row ∈ rows, row < rowCount)
    (hall : ∀ row, row < rowCount → isDue now deadlineOf row = true → row ∈ rows) :
    Answers rowCount now deadlineOf predicate
      (rows.find? fun row => isDue now deadlineOf row && predicate row) := by
  constructor
  · intro row hrow
    have hmem := List.mem_of_find?_eq_some hrow
    have hfound := List.find?_some hrow
    rw [Bool.and_eq_true] at hfound
    exact ⟨hin row hmem, hfound⟩
  · rintro row ⟨hrow, hdue, hpred⟩
    rw [List.find?_isSome]
    exact ⟨row, hall row hrow hdue, by rw [hdue, hpred]; rfl⟩

theorem answers_none {rowCount now : ℕ} {deadlineOf : ℕ → Option ℕ} {predicate : ℕ → Bool}
    (h : ∀ row, row < rowCount → isDue now deadlineOf row = false) :
    Answers rowCount now deadlineOf predicate none := by
  refine ⟨fun row hrow => (Option.some_ne_none _ hrow.symm).elim, ?_⟩
  rintro row ⟨hrow, hdue, -⟩
  rw [h row hrow] at hdue
  cases hdue

theorem isDue_iff {now row : ℕ} {deadlineOf : ℕ → Option ℕ} :
    isDue now deadlineOf row = true ↔ ∃ time, deadlineOf row = some time ∧ time ≤ now := by
  rw [isDue, Option.any_eq_true]
  simp only [decide_eq_true_eq]

theorem firstDueMatching_spec {index : HeapDeadlineIndex} {rowCount : ℕ}
    {deadlineOf : ℕ → Option ℕ} (h : Sound index rowCount deadlineOf) (now : ℕ)
    (predicate : ℕ → Bool) :
    ∃ index' found, index.firstDueMatching rowCount now deadlineOf predicate =
        some (index', found) ∧ Answers rowCount now deadlineOf predicate found ∧
      Sound index' rowCount deadlineOf := by
  obtain ⟨index', hprepare, hvalid, hsound⟩ := prepare_spec h
  rw [firstDueMatching, hprepare, Option.bind_eq_bind, Option.bind_some]
  by_cases hfallback : index'.readiness = .linearFallback
  · refine ⟨index', _, if_pos hfallback, answers_find ?_ ?_, hsound⟩
    · exact fun row hrow => List.mem_range.1 hrow
    · exact fun row hrow _ => List.mem_range.2 hrow
  · rw [if_neg hfallback]
    have hready : index'.readiness = .ready := by
      cases hr : index'.readiness with
      | ready => rfl
      | invalid => exact absurd hr hvalid
      | linearFallback => exact absurd hr hfallback
    have hheaped := hsound hready
    rcases hheaped.head with ⟨hhead, hnone⟩ | ⟨row, time, hhead, hrow, hat, hleast⟩
    · refine ⟨index', none, by rw [hhead]; rfl, answers_none fun row hrow => ?_, hsound⟩
      rw [isDue, hnone row hrow, Option.any_none]
    · simp only [hhead, hat]
      by_cases hlate : time > now
      · refine ⟨index', none, by rw [if_pos hlate]; rfl, answers_none fun r hr => ?_, hsound⟩
        rw [← Bool.not_eq_true, isDue_iff]
        rintro ⟨t, ht, hle⟩
        have hfirst := hleast r t hr ht
        omega
      · refine ⟨index', _, if_neg hlate, answers_find (fun r hr => ?_) (fun r hr hdue => ?_), hsound⟩
        · exact ((hheaped.holds r).1 (List.mem_iff_getElem?.1 hr)).1
        · obtain ⟨t, ht, -⟩ := isDue_iff.1 hdue
          exact List.mem_iff_getElem?.2 ((hheaped.holds r).2 ⟨hr, by rw [ht]; rfl⟩)

/-- Asked without mending, a sound index answers as well. -/
theorem eagerEarliestExact_eq {index : HeapDeadlineIndex} {rowCount : ℕ}
    {deadlineOf : ℕ → Option ℕ} (h : Sound index rowCount deadlineOf) :
    index.eagerEarliestExact rowCount deadlineOf = scanEarliest rowCount deadlineOf := by
  rw [eagerEarliestExact]
  split
  · rfl
  · rename_i hready
    rw [not_or, not_not] at hready
    rcases (h hready.1).head with ⟨hhead, hnone⟩ | ⟨row, time, hhead, hrow, hat, hleast⟩
    · rw [hhead, scanEarliest_eq_none hnone]
    · simp only [hhead, hat, Option.or_some, scanEarliest_eq_some hrow hat hleast,
        Option.getD_some]

theorem eagerFirstDue_spec {index : HeapDeadlineIndex} {rowCount : ℕ} {deadlineOf : ℕ → Option ℕ}
    (h : Sound index rowCount deadlineOf) (now : ℕ) :
    Answers rowCount now deadlineOf (fun _ => true) (index.eagerFirstDue rowCount now deadlineOf) := by
  rw [eagerFirstDue]
  split
  · exact answers_find (fun row hrow => List.mem_range.1 hrow)
      (fun row hrow _ => List.mem_range.2 hrow)
  · rename_i hready
    rw [not_or, not_not] at hready
    rcases (h hready.1).head with ⟨hhead, hnone⟩ | ⟨row, time, hhead, hrow, hat, hleast⟩
    · rw [hhead]
      refine answers_none fun row hrow => ?_
      rw [isDue, hnone row hrow, Option.any_none]
    · simp only [hhead, hat]
      split
      · rename_i hle
        refine ⟨fun r hr => ?_, fun _ _ => rfl⟩
        obtain rfl : row = r := Option.some.inj hr
        exact ⟨hrow, isDue_iff.2 ⟨time, hat, hle⟩, rfl⟩
      · rename_i hlate
        refine answers_none fun r hr => ?_
        rw [← Bool.not_eq_true, isDue_iff]
        rintro ⟨t, ht, hle⟩
        have hfirst := hleast r t hr ht
        omega

/-! ## Rows with a deadline -/

section Rows

variable {R : Type*} (deadline : R → Option ℕ) {rows : List R} {index : HeapDeadlineIndex} {slot : ℕ}

/-- The deadlines of a table's rows, as the table hands them in. -/
def rowDeadline (rows : List R) (slot : ℕ) : Option ℕ :=
  (rows[slot]?).bind deadline

/-- A row at the end. -/
theorem Sound.push (h : index.Sound rows.length (rowDeadline deadline rows)) (row : R)
    {newDeadline : Option ℕ} (hrow : deadline row = newDeadline) :
    ∃ index', index.insert rows.length newDeadline (rowDeadline deadline (rows ++ [row])) =
        some index' ∧
      index'.Sound (rows ++ [row]).length (rowDeadline deadline (rows ++ [row])) := by
  have hlast : rowDeadline deadline (rows ++ [row]) rows.length = newDeadline := by
    rw [rowDeadline, List.getElem?_append_right (Nat.le_refl _), Nat.sub_self]
    exact hrow
  have hagree : ∀ r, r < rows.length →
      rowDeadline deadline (rows ++ [row]) r = rowDeadline deadline rows r := by
    intro r hr
    rw [rowDeadline, rowDeadline, List.getElem?_append_left hr]
  obtain ⟨index', hinsert, hsound⟩ := insert_spec h hagree
  rw [hlast] at hinsert
  refine ⟨index', hinsert, ?_⟩
  rw [List.length_append, List.length_singleton]
  exact hsound

/-- A change in place that leaves the deadline. -/
theorem Sound.modify (h : index.Sound rows.length (rowDeadline deadline rows)) {f : R → R}
    (hf : ∀ row, deadline (f row) = deadline row) :
    index.Sound (rows.modify slot f).length (rowDeadline deadline (rows.modify slot f)) := by
  have hsame : rowDeadline deadline (rows.modify slot f) = rowDeadline deadline rows := by
    funext j
    rw [rowDeadline, rowDeadline, Lib.getElem?_modify]
    split
    · cases rows[j]? with
      | none => rfl
      | some row => exact hf row
    · rfl
  rw [hsame, List.length_modify]
  exact h

/-- A change in place that sets the deadline. -/
theorem Sound.update (h : index.Sound rows.length (rowDeadline deadline rows))
    (hslot : slot < rows.length) {f : R → R} {newDeadline : Option ℕ}
    (hf : ∀ row, deadline (f row) = newDeadline) :
    ∃ index', index.update slot newDeadline (rowDeadline deadline (rows.modify slot f)) =
        some index' ∧
      index'.Sound (rows.modify slot f).length (rowDeadline deadline (rows.modify slot f)) := by
  have hself : rowDeadline deadline (rows.modify slot f) slot = newDeadline := by
    rw [rowDeadline, Lib.getElem?_modify, if_pos rfl, List.getElem?_eq_getElem hslot,
      Option.map_some, Option.bind_some, hf]
  have hagree : ∀ r, r ≠ slot →
      rowDeadline deadline (rows.modify slot f) r = rowDeadline deadline rows r := by
    intro r hr
    rw [rowDeadline, rowDeadline, Lib.getElem?_modify, if_neg (Ne.symm hr)]
  obtain ⟨index', hupdate, hsound⟩ := update_spec h hslot hagree
  rw [hself] at hupdate
  refine ⟨index', hupdate, ?_⟩
  rw [List.length_modify]
  exact hsound

/-- A row taken away, and the last one in its place. -/
theorem Sound.swapRemove (h : index.Sound rows.length (rowDeadline deadline rows))
    (hslot : slot < rows.length) :
    ∃ index', index.swapRemove slot (rows.length - 1) (rowDeadline deadline rows) = some index' ∧
      index'.Sound (Lib.swapRemove rows slot).length
        (rowDeadline deadline (Lib.swapRemove rows slot)) := by
  obtain ⟨last, hlen⟩ : ∃ last, rows.length = last + 1 := ⟨rows.length - 1, by omega⟩
  have hagree : ∀ r, r < last → rowDeadline deadline (Lib.swapRemove rows slot) r =
      if r = slot then rowDeadline deadline rows last else rowDeadline deadline rows r := by
    intro r hr
    rw [rowDeadline, Lib.getElem?_swapRemove hslot (by omega), hlen, Nat.add_sub_cancel]
    split <;> rfl
  rw [hlen] at h
  obtain ⟨index', hremove, hsound⟩ := swapRemove_spec h (by omega) hagree
  rw [Lib.length_swapRemove hslot, hlen, Nat.add_sub_cancel]
  exact ⟨index', hremove, hsound⟩

end Rows

end HeapDeadlineIndex

/-! ## Runs -/

/-- What a table does with its deadlines and the index beside them. -/
inductive DeadlineOp
  | push (deadline : Option ℕ)
  | set (row : ℕ) (deadline : Option ℕ)
  | swapRemove (row : ℕ)
  | invalidate
  | earliest
  | firstDue (now : ℕ) (predicate : ℕ → Bool)

/-- A column of deadlines and its index. -/
structure DeadlineColumn where
  deadlines : List (Option ℕ)
  index : HeapDeadlineIndex

namespace DeadlineColumn

/-- `deadlines.get(row).copied().flatten()` -/
def deadlineOf (deadlines : List (Option ℕ)) (row : ℕ) : Option ℕ :=
  deadlines[row]?.join

/-- The column alone, as a plain list. -/
def onDeadlines (deadlines : List (Option ℕ)) : DeadlineOp → List (Option ℕ)
  | .push deadline => deadlines ++ [deadline]
  | .set row deadline => deadlines.set row deadline
  | .swapRemove row => (deadlines.set row (deadlineOf deadlines (deadlines.length - 1))).dropLast
  | .invalidate | .earliest | .firstDue _ _ => deadlines

def InRange (deadlines : List (Option ℕ)) : DeadlineOp → Prop
  | .set row _ | .swapRemove row => row < deadlines.length
  | .push _ | .invalidate | .earliest | .firstDue _ _ => True

instance (deadlines : List (Option ℕ)) (op : DeadlineOp) : Decidable (InRange deadlines op) :=
  match op with
  | .set row _ | .swapRemove row => inferInstanceAs (Decidable (row < deadlines.length))
  | .push _ | .invalidate | .earliest | .firstDue _ _ => inferInstanceAs (Decidable True)

/-- One operation of the table: on the column, and on the index beside it. -/
def onIndex (column : DeadlineColumn) (op : DeadlineOp) : Option HeapDeadlineIndex :=
  let deadlines := onDeadlines column.deadlines op
  match op with
  | .push deadline => column.index.insert column.deadlines.length deadline (deadlineOf deadlines)
  | .set row deadline => column.index.update row deadline (deadlineOf deadlines)
  | .swapRemove row =>
      column.index.swapRemove row (column.deadlines.length - 1) (deadlineOf column.deadlines)
  | .invalidate => some column.index.invalidate
  | .earliest =>
      (column.index.earliestExact deadlines.length (deadlineOf deadlines)).map Prod.fst
  | .firstDue now predicate =>
      (column.index.firstDueMatching deadlines.length now (deadlineOf deadlines) predicate).map
        Prod.fst

def step (column : DeadlineColumn) (op : DeadlineOp) : Option DeadlineColumn :=
  (column.onIndex op).map (⟨onDeadlines column.deadlines op, ·⟩)

def machine : Machine DeadlineColumn DeadlineOp where
  init := ⟨[], .default⟩
  step := step

def InRangeStep (column : DeadlineColumn) (op : DeadlineOp) : Prop :=
  InRange column.deadlines op

instance (column : DeadlineColumn) (op : DeadlineOp) : Decidable (InRangeStep column op) :=
  inferInstanceAs (Decidable (InRange column.deadlines op))

def Kept (column : DeadlineColumn) : Prop :=
  column.index.Sound column.deadlines.length (deadlineOf column.deadlines)

theorem deadlineOf_append {deadlines : List (Option ℕ)} {deadline : Option ℕ} {row : ℕ}
    (h : row < deadlines.length) :
    deadlineOf (deadlines ++ [deadline]) row = deadlineOf deadlines row := by
  rw [deadlineOf, deadlineOf, List.getElem?_append_left h]

theorem deadlineOf_append_self {deadlines : List (Option ℕ)} {deadline : Option ℕ} :
    deadlineOf (deadlines ++ [deadline]) deadlines.length = deadline := by
  rw [deadlineOf, List.getElem?_append_right (Nat.le_refl _), Nat.sub_self]
  rfl

/-- Every operation on a row that there is ends, and keeps the index sound. -/
theorem onIndex_spec {column : DeadlineColumn} (h : Kept column) {op : DeadlineOp}
    (hop : InRange column.deadlines op) :
    ∃ index, column.onIndex op = some index ∧ Kept ⟨onDeadlines column.deadlines op, index⟩ := by
  cases op with
  | push deadline =>
      have hagree : ∀ r, r < column.deadlines.length →
          deadlineOf (column.deadlines ++ [deadline]) r = deadlineOf column.deadlines r :=
        fun r hr => deadlineOf_append hr
      obtain ⟨index, hrun, hsound⟩ := HeapDeadlineIndex.insert_spec h hagree
      rw [deadlineOf_append_self] at hrun
      refine ⟨index, hrun, ?_⟩
      rw [Kept, onDeadlines, List.length_append, List.length_singleton]
      exact hsound
  | set row deadline =>
      have hagree : ∀ r, r ≠ row →
          deadlineOf (column.deadlines.set row deadline) r = deadlineOf column.deadlines r := by
        intro r hr
        rw [deadlineOf, deadlineOf, List.getElem?_set_ne (Ne.symm hr)]
      obtain ⟨index, hrun, hsound⟩ := HeapDeadlineIndex.update_spec h hop hagree
      have hnew : deadlineOf (column.deadlines.set row deadline) row = deadline := by
        rw [deadlineOf, List.getElem?_set_self hop]
        rfl
      rw [hnew] at hrun
      refine ⟨index, hrun, ?_⟩
      rw [Kept, onDeadlines, List.length_set]
      exact hsound
  | swapRemove row =>
      obtain ⟨last, hlen⟩ : ∃ last, column.deadlines.length = last + 1 :=
        ⟨column.deadlines.length - 1, by simp only [InRange] at hop; omega⟩
      simp only [InRange, hlen] at hop
      rw [Kept, hlen] at h
      have hagree : ∀ r, r < last →
          deadlineOf (column.deadlines.set row (deadlineOf column.deadlines last)).dropLast r =
            if r = row then deadlineOf column.deadlines last else deadlineOf column.deadlines r := by
        intro r hr
        rw [deadlineOf, List.getElem?_dropLast, List.length_set, hlen, Nat.add_sub_cancel, if_pos hr]
        by_cases heq : r = row
        · rw [heq, if_pos rfl, List.getElem?_set_self (by omega)]
          rfl
        · rw [if_neg heq, List.getElem?_set_ne (Ne.symm heq)]
          rfl
      obtain ⟨index, hrun, hsound⟩ :=
        HeapDeadlineIndex.swapRemove_spec h (Nat.lt_succ_iff.1 hop) hagree
      refine ⟨index, ?_, ?_⟩
      · rw [onIndex, hlen]
        exact hrun
      · rw [Kept, onDeadlines, List.length_dropLast, List.length_set, hlen, Nat.add_sub_cancel]
        exact hsound
  | invalidate => exact ⟨_, rfl, HeapDeadlineIndex.sound_invalidate⟩
  | earliest =>
      obtain ⟨index, hrun, hsound⟩ := HeapDeadlineIndex.earliestExact_spec h
      refine ⟨index, ?_, hsound⟩
      simp only [onIndex, onDeadlines, hrun, Option.map_some]
  | firstDue now predicate =>
      obtain ⟨index, found, hrun, -, hsound⟩ :=
        HeapDeadlineIndex.firstDueMatching_spec h now predicate
      refine ⟨index, ?_, hsound⟩
      simp only [onIndex, onDeadlines, hrun, Option.map_some]

/-- The scan of the rows is the least of the column. -/
theorem scanEarliest_deadlines (deadlines : List (Option ℕ)) :
    HeapDeadlineIndex.scanEarliest deadlines.length (deadlineOf deadlines) =
      (deadlines.filterMap id).min? := by
  rw [HeapDeadlineIndex.scanEarliest]
  congr 1
  induction deadlines with
  | nil => rfl
  | cons deadline deadlines ih =>
      rw [List.length_cons, List.range_succ_eq_map, List.filterMap_cons, List.filterMap_cons,
        List.filterMap_map]
      have hrest : (deadlineOf (deadline :: deadlines) ∘ Nat.succ) = deadlineOf deadlines := by
        funext row
        rw [Function.comp_apply, deadlineOf, deadlineOf, List.getElem?_cons_succ]
      rw [hrest, ih]
      rfl

/-- The scan of a table's rows. -/
theorem scanEarliest_rows {R : Type*} (deadline : R → Option ℕ) (rows : List R) :
    HeapDeadlineIndex.scanEarliest rows.length (HeapDeadlineIndex.rowDeadline deadline rows) =
      (rows.filterMap deadline).min? := by
  have hcolumn := scanEarliest_deadlines (rows.map deadline)
  have hdeadlines : deadlineOf (rows.map deadline) = HeapDeadlineIndex.rowDeadline deadline rows := by
    funext slot
    rw [deadlineOf, HeapDeadlineIndex.rowDeadline, List.getElem?_map]
    cases rows[slot]? <;> rfl
  rwa [hdeadlines, List.length_map, List.filterMap_map, Function.id_comp] at hcolumn

theorem kept_of_reachable {column : DeadlineColumn} (h : machine.Reachable InRangeStep column) :
    Kept column := by
  have hinit : Kept machine.init := HeapDeadlineIndex.sound_default
  refine Machine.Reachable.invariant (I := Kept) hinit ?_ h
  intro column op next hkept hop hstep
  obtain ⟨index, hrun, hnext⟩ := onIndex_spec hkept hop
  change (column.onIndex op).map _ = some next at hstep
  rw [hrun, Option.map_some, Option.some.injEq] at hstep
  exact hstep ▸ hnext

end DeadlineColumn

open DeadlineColumn in
/-- After every run of operations on rows that there are, every further one ends; the index tells the
earliest deadline that a scan of the rows tells, and hands out a row that is due and as asked for
exactly when there is one. -/
theorem deadline_index_agrees {column : DeadlineColumn}
    (h : machine.Reachable InRangeStep column) :
    (∀ op, InRange column.deadlines op → (column.step op).isSome = true) ∧
      (∃ index, column.index.earliestExact column.deadlines.length (deadlineOf column.deadlines) =
        some (index, (column.deadlines.filterMap id).min?)) ∧
      ∀ now predicate, ∃ index found,
        column.index.firstDueMatching column.deadlines.length now (deadlineOf column.deadlines)
          predicate = some (index, found) ∧
        HeapDeadlineIndex.Answers column.deadlines.length now (deadlineOf column.deadlines) predicate
          found := by
  have hkept := kept_of_reachable h
  refine ⟨fun op hop => ?_, ?_, fun now predicate => ?_⟩
  · obtain ⟨index, hrun, -⟩ := onIndex_spec hkept hop
    rw [step, hrun]
    rfl
  · obtain ⟨index, hrun, -⟩ := HeapDeadlineIndex.earliestExact_spec hkept
    rw [scanEarliest_deadlines] at hrun
    exact ⟨index, hrun⟩
  · obtain ⟨index, found, hrun, hanswers, -⟩ :=
      HeapDeadlineIndex.firstDueMatching_spec hkept now predicate
    exact ⟨index, found, hrun, hanswers⟩

open DeadlineColumn in
theorem deadline_index_agrees_run :
    ∃ column : DeadlineColumn, column.deadlines = [some 30, some 20, none] ∧
      ∃ index, column.index.earliestExact column.deadlines.length (deadlineOf column.deadlines) =
        some (index, some 20) := by
  have hrun : machine.runWhile InRangeStep machine.init
      [.push (some 30), .push (some 10), .push none, .push (some 20), .earliest, .swapRemove 1,
        .invalidate, .firstDue 25 fun _ => true] =
      some ⟨[some 30, some 20, none], ⟨⟨[1, 0], [some 1, some 0, none]⟩, .ready⟩⟩ := rfl
  exact ⟨_, rfl, (deadline_index_agrees (Machine.runWhile_leads hrun)).2.1⟩

end Wire
end SvenBridge
