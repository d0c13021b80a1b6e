import SvenBridge.Lib.Probe
import SvenBridge.Lib.Rows
import Mathlib.Data.List.Nodup
import Mathlib.Data.UInt

/-!
# LemireIndex — which row holds this key

The side index of the stack's growing tables (`lemire_index/`): each bucket holds one row number, a
key picks its bucket by the high half of a product, and a taken bucket sends the newcomer on.  The
loops of the source have no bound; here a result `none` is a loop that does not end.  This file
contains

* `HeapLemireIndex` with its operations;
* `Indexes index rows` — the index says where every row is, and has room — and that every operation
  keeps it and ends;
* `Indexes.get`: the index answers as a scan of the rows would.
-/

namespace SvenBridge
namespace Wire

open Lib

class IndexKey (K : Type) where
  lemireKey : K → UInt64

class IndexRow (R : Type) (K : outParam Type) where
  indexKey : R → K

/-- A key is a row of its own. -/
instance {K : Type} [IndexKey K] : IndexRow K K where
  indexKey := id

/-- `exceeds_two_thirds_load`. -/
def exceedsTwoThirdsLoad (entries buckets : ℕ) : Bool :=
  buckets - (buckets + 2) / 3 < entries

/-- `slots`, with `none` for the marker `EMPTY`. -/
structure HeapLemireIndex where
  slots : List (Option ℕ)

namespace HeapLemireIndex

def minBuckets : ℕ := 8

/-- `MAX_ROWS`: row numbers are `u32`, the top value marks an empty bucket. -/
def maxRows : ℕ := 2 ^ 32 - 1

def default : HeapLemireIndex where
  slots := List.replicate minBuckets none

def buckets (index : HeapLemireIndex) : ℕ := index.slots.length

/-- `bucket`: Lemire's reduction. -/
def bucket (buckets : ℕ) (key : UInt64) : ℕ :=
  key.toNat * buckets / 2 ^ 64

variable {R K : Type} [IndexKey K] [IndexRow R K]

/-- The bucket a row's key picks. -/
def homeOf (buckets : ℕ) (rows : List R) (slot : ℕ) : ℕ :=
  match rows[slot]? with
  | some row => bucket buckets (IndexKey.lemireKey (IndexRow.indexKey row))
  | none => 0

/-- Does the row in `slot` have the key? -/
def hasKey [DecidableEq K] (rows : List R) (target : K) (slot : ℕ) : Bool :=
  (rows[slot]?).map IndexRow.indexKey == some target

/-- `position`: the bucket of the key. -/
def position [DecidableEq K] (index : HeapLemireIndex) (target : K) (rows : List R) : Option (Option ℕ) :=
  Probe.scan index.buckets index.slots (hasKey rows target) index.buckets
    (bucket index.buckets (IndexKey.lemireKey target))

/-- `position_of_slot`: the bucket of the row number. -/
def positionOfSlot (index : HeapLemireIndex) (targetSlot : ℕ) (rows : List R) :
    Option (Option ℕ) :=
  match rows[targetSlot]? with
  | none => some none
  | some row =>
      Probe.scan index.buckets index.slots (fun slot => slot == targetSlot) index.buckets
        (bucket index.buckets (IndexKey.lemireKey (IndexRow.indexKey row)))

def get [DecidableEq K] (index : HeapLemireIndex) (target : K) (rows : List R) : Option (Option ℕ) :=
  (index.position target rows).map fun pos => pos.bind (Probe.look index.slots)

def contains [DecidableEq K] (index : HeapLemireIndex) (target : K) (rows : List R) : Option Bool :=
  (index.position target rows).map Option.isSome

def place (index : HeapLemireIndex) (slot : ℕ) (rows : List R) : Option HeapLemireIndex := do
  let pos ← Probe.firstFree index.buckets index.slots index.buckets
    (homeOf index.buckets rows slot)
  return ⟨index.slots.set pos (some slot)⟩

/-- The bucket counts that `rebuild` tries; `saturating_mul` of a `usize`. -/
def grow (rows : ℕ) : ℕ → ℕ → ℕ
  | 0, buckets => buckets
  | fuel + 1, buckets =>
      if exceedsTwoThirdsLoad rows buckets then
        let grown := min (buckets * 2) (2 ^ 64 - 1)
        if grown = buckets then buckets else grow rows fuel grown
      else
        buckets

/-- The loop of `rebuild` over the rows from `slot` on. -/
def placeFrom (rows : List R) : ℕ → ℕ → HeapLemireIndex → Option HeapLemireIndex
  | 0, _, index => some index
  | count + 1, slot, index => do
      let index ← index.place slot rows
      placeFrom rows count (slot + 1) index

def rebuild (index : HeapLemireIndex) (rows : List R) : Option HeapLemireIndex :=
  let buckets := grow rows.length 64 (max index.buckets minBuckets)
  placeFrom rows rows.length 0 ⟨List.replicate buckets none⟩

/-- The row is pushed first: `rows` already holds `slot`. -/
def insert (index : HeapLemireIndex) (slot : ℕ) (rows : List R) : Option HeapLemireIndex :=
  if exceedsTwoThirdsLoad rows.length index.buckets then
    index.rebuild rows
  else
    index.place slot rows

def removePosition (index : HeapLemireIndex) (hole : ℕ) (rows : List R) :
    Option HeapLemireIndex :=
  (Probe.repack index.buckets (homeOf index.buckets rows) index.buckets
    (index.slots.set hole none) hole hole).map HeapLemireIndex.mk

def removeSlot (index : HeapLemireIndex) (slot : ℕ) (rows : List R) : Option HeapLemireIndex := do
  match ← index.positionOfSlot slot rows with
  | none => return index
  | some hole => index.removePosition hole rows

def repointSlot (index : HeapLemireIndex) (previous slot : ℕ) (rows : List R) :
    Option HeapLemireIndex := do
  match ← index.positionOfSlot previous rows with
  | none => return index
  | some pos => return ⟨index.slots.set pos (some slot)⟩

def clear (index : HeapLemireIndex) : HeapLemireIndex where
  slots := List.replicate index.buckets none

/-! ## The invariant -/

/-- Every row number is in the index once and is found from the bucket its key picks, and a third
of the buckets is free. -/
structure Indexes (index : HeapLemireIndex) (rows : List R) : Prop where
  placed : Probe.WellPlaced index.buckets (homeOf index.buckets rows) index.slots
  holds : ∀ slot, Probe.Holds index.slots slot ↔ slot < rows.length
  some_bucket : minBuckets ≤ index.buckets
  load : exceedsTwoThirdsLoad rows.length index.buckets = false

theorem lt_of_load {entries buckets : ℕ} (hsome : 0 < buckets)
    (h : exceedsTwoThirdsLoad entries buckets = false) : entries < buckets := by
  rw [exceedsTwoThirdsLoad, decide_eq_false_iff_not] at h
  omega

theorem load_mono {entries entries' buckets : ℕ} (hle : entries' ≤ entries)
    (h : exceedsTwoThirdsLoad entries buckets = false) :
    exceedsTwoThirdsLoad entries' buckets = false := by
  rw [exceedsTwoThirdsLoad, decide_eq_false_iff_not] at h ⊢
  omega

theorem bucket_lt {buckets : ℕ} (hsome : 0 < buckets) (key : UInt64) :
    bucket buckets key < buckets := by
  rw [bucket, Nat.div_lt_iff_lt_mul (by decide), Nat.mul_comm]
  exact Nat.mul_lt_mul_of_pos_left key.toNat_lt hsome

theorem homeOf_lt {buckets : ℕ} (hsome : 0 < buckets) (rows : List R) (slot : ℕ) :
    homeOf buckets rows slot < buckets := by
  rw [homeOf]
  split
  · exact bucket_lt hsome _
  · exact hsome

theorem Indexes.pos {index : HeapLemireIndex} {rows : List R} (h : Indexes index rows) :
    0 < index.buckets :=
  Nat.lt_of_lt_of_le (by decide) h.some_bucket

/-- There is a bucket free. -/
theorem Indexes.free {index : HeapLemireIndex} {rows : List R} (h : Indexes index rows) :
    ∃ q < index.buckets, Probe.look index.slots q = none :=
  h.placed.exists_free (fun i hi => (h.holds i).1 hi) (lt_of_load h.pos h.load)

theorem indexes_default : Indexes default ([] : List R) := by
  refine ⟨Probe.wellPlaced_replicate _ _, ?_, Nat.le_refl _, rfl⟩
  intro slot
  constructor
  · rintro ⟨p, hp⟩
    rw [default, Probe.look_replicate] at hp
    cases hp
  · exact fun h => absurd h (Nat.not_lt_zero _)

/-- Homes matter for the items that are there. -/
theorem wellPlaced_congr {n : ℕ} {home home' : ℕ → ℕ} {slots : List (Option ℕ)}
    (h : Probe.WellPlaced n home slots) (heq : ∀ i, Probe.Holds slots i → home i = home' i) :
    Probe.WellPlaced n home' slots := by
  refine ⟨h.length, ?_, h.once⟩
  intro p i hi
  obtain ⟨d, hd, hspot, hfull⟩ := h.reach p i hi
  rw [heq i ⟨p, hi⟩] at hspot hfull
  exact ⟨d, hd, hspot, hfull⟩

/-! ## Lookup -/

section Lookup

variable [DecidableEq K]

omit [IndexKey K] in
theorem hasKey_iff {rows : List R} {target : K} {slot : ℕ} :
    hasKey rows target slot = true ↔ ∃ row, rows[slot]? = some row ∧ IndexRow.indexKey row = target := by
  rw [hasKey, beq_iff_eq, Option.map_eq_some_iff]

theorem homeOf_of_hasKey {rows : List R} {target : K} {slot buckets : ℕ}
    (h : hasKey rows target slot = true) :
    homeOf buckets rows slot = bucket buckets (IndexKey.lemireKey target) := by
  obtain ⟨row, hrow, rfl⟩ := hasKey_iff.1 h
  rw [homeOf, hrow]

/-- What a lookup comes to: it ends, and finds the key where a row has it. -/
theorem Indexes.position {index : HeapLemireIndex} {rows : List R} (h : Indexes index rows)
    (target : K) :
    (index.position target rows = some none ∧ ∀ slot, hasKey rows target slot = false) ∨
      ∃ pos slot, index.position target rows = some (some pos) ∧
        Probe.look index.slots pos = some slot ∧ hasKey rows target slot = true := by
  obtain ⟨q, hq, hfree⟩ := h.free
  rcases @Probe.WellPlaced.scan _ _ _ _ (hasKey rows target) _ _ h.placed (bucket_lt h.pos _) hq hfree
    (fun slot => homeOf_of_hasKey) with ⟨hscan, hnone⟩ | hfound
  · refine .inl ⟨hscan, fun slot => ?_⟩
    by_cases hslot : slot < rows.length
    · obtain ⟨p, hp⟩ := (h.holds slot).2 hslot
      exact hnone p slot hp
    · rw [hasKey, List.getElem?_eq_none (Nat.le_of_not_lt hslot)]
      rfl
  · obtain ⟨pos, slot, hscan, hlook, hkey⟩ := hfound
    exact .inr ⟨pos, slot, hscan, hlook, hkey⟩

/-- No two rows have the same key. -/
def UniqueKeys (rows : List R) : Prop :=
  (rows.map IndexRow.indexKey).Nodup

omit [IndexKey K] [DecidableEq K] in
theorem UniqueKeys.inj {rows : List R} (h : UniqueKeys rows) {slot slot' : ℕ} {row row' : R}
    (hrow : rows[slot]? = some row) (hrow' : rows[slot']? = some row')
    (hkey : IndexRow.indexKey row = IndexRow.indexKey row') : slot = slot' :=
  slot_of_key h hrow hrow' hkey

/-- The linear search that `LinkTable::index_of` does by default. -/
def scanRows (target : K) (rows : List R) : Option ℕ :=
  rows.findIdx? fun row => decide (IndexRow.indexKey row = target)

omit [IndexKey K] in
theorem scanRows_eq_none {rows : List R} {target : K}
    (h : ∀ slot, hasKey rows target slot = false) : scanRows target rows = none := by
  rw [scanRows, List.findIdx?_eq_none_iff]
  intro row hrow
  obtain ⟨slot, hslot⟩ := List.mem_iff_getElem?.1 hrow
  rw [decide_eq_false_iff_not]
  intro hkey
  have hhas : hasKey rows target slot = true := hasKey_iff.2 ⟨row, hslot, hkey⟩
  rw [h slot] at hhas
  cases hhas

omit [IndexKey K] in
theorem scanRows_eq_some {rows : List R} {target : K} {slot : ℕ} (hunique : UniqueKeys rows)
    (h : hasKey rows target slot = true) : scanRows target rows = some slot := by
  obtain ⟨row, hrow, hkey⟩ := hasKey_iff.1 h
  obtain ⟨hlt, hget⟩ := List.getElem?_eq_some_iff.1 hrow
  rw [scanRows, List.findIdx?_eq_some_iff_getElem]
  refine ⟨hlt, by rw [hget, decide_eq_true hkey], ?_⟩
  intro j hj hfound
  rw [decide_eq_true_iff] at hfound
  have hrow' : rows[j]? = some rows[j] := List.getElem?_eq_getElem (Nat.lt_trans hj hlt)
  have hsame := hunique.inj hrow' hrow (hfound.trans hkey.symm)
  omega

/-- The index answers as the linear search of the rows does. -/
theorem Indexes.get {index : HeapLemireIndex} {rows : List R} (h : Indexes index rows)
    (hunique : UniqueKeys rows) (target : K) :
    index.get target rows = some (scanRows target rows) := by
  rw [HeapLemireIndex.get]
  rcases h.position target with ⟨hpos, hnone⟩ | ⟨pos, slot, hpos, hlook, hkey⟩
  · rw [hpos, scanRows_eq_none hnone]
    rfl
  · rw [hpos, scanRows_eq_some hunique hkey, Option.map_some, Option.bind_some, hlook]

theorem Indexes.contains {index : HeapLemireIndex} {rows : List R} (h : Indexes index rows)
    (target : K) :
    index.contains target rows = some (decide (target ∈ rows.map IndexRow.indexKey)) := by
  rw [HeapLemireIndex.contains]
  rcases h.position target with ⟨hpos, hnone⟩ | ⟨pos, slot, hpos, hlook, hkey⟩
  · rw [hpos, Option.map_some, Option.isSome_none, decide_eq_false]
    intro hmem
    obtain ⟨row, hrow, hkey⟩ := List.mem_map.1 hmem
    obtain ⟨slot, hslot⟩ := List.mem_iff_getElem?.1 hrow
    have hhas : hasKey rows target slot = true := hasKey_iff.2 ⟨row, hslot, hkey⟩
    rw [hnone slot] at hhas
    cases hhas
  · obtain ⟨row, hrow, hkey⟩ := hasKey_iff.1 hkey
    rw [hpos, Option.map_some, Option.isSome_some, decide_eq_true]
    exact List.mem_map.2 ⟨row, List.mem_of_getElem? hrow, hkey⟩

end Lookup

/-! ## Insertion -/

/-- `place` finds room for a row that is not there yet. -/
theorem place_spec {index : HeapLemireIndex} {rows : List R} {slot : ℕ}
    (hplaced : Probe.WellPlaced index.buckets (homeOf index.buckets rows) index.slots)
    (hpos : 0 < index.buckets) (hfree : ∃ q < index.buckets, Probe.look index.slots q = none)
    (hnew : ¬ Probe.Holds index.slots slot) :
    ∃ index', index.place slot rows = some index' ∧ index'.buckets = index.buckets ∧
      Probe.WellPlaced index.buckets (homeOf index.buckets rows) index'.slots ∧
      ∀ j, Probe.Holds index'.slots j ↔ j = slot ∨ Probe.Holds index.slots j := by
  obtain ⟨q, hq, hlook⟩ := hfree
  obtain ⟨p, -, hfirst, hplaced', hholds⟩ :=
    hplaced.firstFree (homeOf_lt hpos rows slot) hq hlook hnew
  refine ⟨⟨index.slots.set p (some slot)⟩, ?_, List.length_set, hplaced', hholds⟩
  rw [place, hfirst]
  rfl

theorem placeFrom_spec {rows : List R} :
    ∀ (count slot : ℕ) (index : HeapLemireIndex),
      Probe.WellPlaced index.buckets (homeOf index.buckets rows) index.slots →
      (∀ j, Probe.Holds index.slots j ↔ j < slot) → slot + count < index.buckets →
      ∃ index', placeFrom rows count slot index = some index' ∧ index'.buckets = index.buckets ∧
        Probe.WellPlaced index.buckets (homeOf index.buckets rows) index'.slots ∧
        ∀ j, Probe.Holds index'.slots j ↔ j < slot + count := by
  intro count
  induction count with
  | zero =>
      intro slot index hplaced hholds _
      exact ⟨index, rfl, rfl, hplaced, hholds⟩
  | succ count ih =>
      intro slot index hplaced hholds hroom
      obtain ⟨next, hplace, hbuckets, hplaced', hholds'⟩ := place_spec hplaced (by omega)
        (hplaced.exists_free (fun i hi => (hholds i).1 hi) (by omega))
        (fun hhold => Nat.lt_irrefl _ ((hholds slot).1 hhold))
      rw [← hbuckets] at hplaced' hroom
      obtain ⟨index', hrest, hbuckets', hplaced'', hholds''⟩ := ih (slot + 1) next hplaced'
        (fun j => by rw [hholds' j, hholds j]; omega) (by omega)
      refine ⟨index', ?_, hbuckets'.trans hbuckets, by rwa [hbuckets] at hplaced'', ?_⟩
      · rw [placeFrom, hplace]
        exact hrest
      · intro j
        rw [hholds'' j]
        omega

/-- Doubling comes to a bucket count that is large enough. -/
theorem grow_spec {rows : ℕ} (hrows : rows ≤ maxRows) :
    ∀ fuel buckets : ℕ, minBuckets ≤ buckets → 2 * rows ≤ buckets * 2 ^ fuel →
      minBuckets ≤ grow rows fuel buckets ∧
        exceedsTwoThirdsLoad rows (grow rows fuel buckets) = false := by
  intro fuel
  have hmax : maxRows < 2 ^ 32 := by decide
  induction fuel with
  | zero =>
      intro buckets hmin hle
      refine ⟨hmin, ?_⟩
      simp only [minBuckets] at hmin
      rw [grow, exceedsTwoThirdsLoad, decide_eq_false_iff_not]
      omega
  | succ fuel ih =>
      intro buckets hmin hle
      rw [grow]
      cases hload : exceedsTwoThirdsLoad rows buckets with
      | false => exact ⟨hmin, hload⟩
      | true =>
          have hlt : buckets < 2 * rows := by
            simp only [minBuckets] at hmin
            rw [exceedsTwoThirdsLoad, decide_eq_true_iff] at hload
            omega
          have hgrown : min (buckets * 2) (2 ^ 64 - 1) = buckets * 2 := by
            apply Nat.min_eq_left
            omega
          simp only [hgrown, if_true]
          rw [if_neg (by simp only [minBuckets] at hmin; omega)]
          apply ih
          · simp only [minBuckets] at hmin ⊢
            omega
          · rw [Nat.pow_succ, Nat.mul_comm (2 ^ fuel)] at hle
            rwa [Nat.mul_assoc]

theorem rebuild_spec {index : HeapLemireIndex} {rows : List R} (hrows : rows.length ≤ maxRows) :
    ∃ index', index.rebuild rows = some index' ∧ Indexes index' rows := by
  have hmax : maxRows < 2 ^ 32 := by decide
  obtain ⟨hmin, hload⟩ := grow_spec hrows 64 (max index.buckets minBuckets)
    (Nat.le_max_right _ _) (by
      have hmin : minBuckets ≤ max index.buckets minBuckets := Nat.le_max_right _ _
      have hpow : minBuckets * 2 ^ 64 ≤ max index.buckets minBuckets * 2 ^ 64 :=
        Nat.mul_le_mul_right _ hmin
      simp only [minBuckets] at hpow ⊢
      omega)
  rw [rebuild]
  generalize grow rows.length 64 (max index.buckets minBuckets) = n at hmin hload
  have hpos : 0 < n := Nat.lt_of_lt_of_le (by decide) hmin
  have hbuckets : (⟨List.replicate n none⟩ : HeapLemireIndex).buckets = n := List.length_replicate
  obtain ⟨index', hrun, hsame, hplaced, hholds⟩ := @placeFrom_spec R K _ _ rows rows.length 0
    ⟨List.replicate n none⟩ (by rw [hbuckets]; exact Probe.wellPlaced_replicate _ _)
    (fun j => by
      constructor
      · rintro ⟨p, hp⟩
        rw [Probe.look_replicate] at hp
        cases hp
      · exact fun h => absurd h (Nat.not_lt_zero _))
    (by rw [hbuckets, Nat.zero_add]; exact lt_of_load hpos hload)
  rw [hbuckets] at hsame
  rw [hbuckets, ← hsame] at hplaced
  exact ⟨index', hrun, hplaced, fun slot => by rw [hholds, Nat.zero_add], by rw [hsame]; exact hmin,
    by rw [hsame]; exact hload⟩

theorem homeOf_append {buckets slot : ℕ} {rows : List R} (h : slot < rows.length) (more : List R) :
    homeOf buckets (rows ++ more) slot = homeOf buckets rows slot := by
  rw [homeOf, homeOf, List.getElem?_append_left h]

/-- A row that is pushed is inserted, and the loops of it end. -/
theorem Indexes.insert {index : HeapLemireIndex} {rows : List R} (h : Indexes index rows) (row : R)
    (hrows : rows.length < maxRows) :
    ∃ index', index.insert rows.length (rows ++ [row]) = some index' ∧
      Indexes index' (rows ++ [row]) := by
  have hlen : (rows ++ [row]).length = rows.length + 1 := by
    rw [List.length_append, List.length_singleton]
  rw [HeapLemireIndex.insert]
  cases hload : exceedsTwoThirdsLoad (rows ++ [row]).length index.buckets with
  | true => exact rebuild_spec (by rw [hlen]; exact hrows)
  | false =>
      have hplaced : Probe.WellPlaced index.buckets (homeOf index.buckets (rows ++ [row]))
          index.slots := wellPlaced_congr h.placed
        (fun i hi => (homeOf_append ((h.holds i).1 hi) [row]).symm)
      obtain ⟨index', hplace, hbuckets, hplaced', hholds⟩ := place_spec hplaced h.pos h.free
        (fun hhold => Nat.lt_irrefl _ ((h.holds rows.length).1 hhold))
      refine ⟨index', hplace, by rwa [hbuckets], ?_, by rw [hbuckets]; exact h.some_bucket,
        by rw [hbuckets]; exact hload⟩
      intro slot
      rw [hholds, h.holds, hlen]
      omega

/-! ## Removal -/

/-- The index is well placed over the rows that `keeps` holds of. -/
structure Keeps (index : HeapLemireIndex) (home : ℕ → ℕ) (keeps : ℕ → Prop) : Prop where
  placed : Probe.WellPlaced index.buckets home index.slots
  holds : ∀ slot, Probe.Holds index.slots slot ↔ keeps slot

theorem Indexes.keeps {index : HeapLemireIndex} {rows : List R} (h : Indexes index rows) :
    Keeps index (homeOf index.buckets rows) (· < rows.length) :=
  ⟨h.placed, h.holds⟩

/-- A row number that is there is found in its bucket. -/
theorem positionOfSlot_spec {index : HeapLemireIndex} {rows : List R} {keeps : ℕ → Prop}
    {slot : ℕ} (h : Keeps index (homeOf index.buckets rows) keeps) (hpos : 0 < index.buckets)
    (hfree : ∃ q < index.buckets, Probe.look index.slots q = none) (hslot : slot < rows.length)
    (hkeeps : keeps slot) :
    ∃ pos, index.positionOfSlot slot rows = some (some pos) ∧
      Probe.look index.slots pos = some slot := by
  obtain ⟨q, hq, hlook⟩ := hfree
  have hrow : rows[slot]? = some rows[slot] := List.getElem?_eq_getElem hslot
  rw [positionOfSlot, hrow]
  rcases @Probe.WellPlaced.scan _ _ _ _ (fun s => s == slot) _ _ h.placed (bucket_lt hpos _) hq hlook
    (fun s hs => by rw [beq_iff_eq] at hs; rw [hs, homeOf, hrow]) with ⟨-, hnone⟩ | hfound
  · obtain ⟨p, hp⟩ := (h.holds slot).2 hkeeps
    have hself := hnone p slot hp
    rw [beq_self_eq_true] at hself
    cases hself
  · obtain ⟨pos, s, hscan, hpos', hs⟩ := hfound
    rw [beq_iff_eq] at hs
    exact ⟨pos, hscan, hs ▸ hpos'⟩

theorem Indexes.removeSlot {index : HeapLemireIndex} {rows : List R} (h : Indexes index rows)
    {slot : ℕ} (hslot : slot < rows.length) :
    ∃ index', index.removeSlot slot rows = some index' ∧ index'.buckets = index.buckets ∧
      Keeps index' (homeOf index.buckets rows) (fun j => j ≠ slot ∧ j < rows.length) := by
  obtain ⟨hole, hposition, hlook⟩ := positionOfSlot_spec h.keeps h.pos h.free hslot hslot
  obtain ⟨q, hq, hfree⟩ := h.free
  obtain ⟨mended, hrepack, hplaced, hholds⟩ :=
    h.placed.repack (homeOf_lt h.pos rows) hlook hq hfree
  have hbuckets : (⟨mended⟩ : HeapLemireIndex).buckets = index.buckets := hplaced.length
  refine ⟨⟨mended⟩, ?_, hbuckets, by rwa [hbuckets], fun j => ?_⟩
  · rw [HeapLemireIndex.removeSlot, hposition]
    change index.removePosition hole rows = _
    rw [removePosition, hrepack, Option.map_some]
  · rw [hholds, h.holds]

/-- What a table does to its index when it swap-removes a row. -/
def swapRemoveSlot (index : HeapLemireIndex) (slot : ℕ) (rows : List R) :
    Option HeapLemireIndex := do
  let last := rows.length - 1
  let index ← index.removeSlot slot rows
  if slot ≠ last then index.repointSlot last slot rows else return index

/-- After a swap-removal the index says where the rows that are left are. -/
theorem Indexes.swapRemove {index : HeapLemireIndex} {rows : List R} (h : Indexes index rows)
    {slot : ℕ} (hslot : slot < rows.length) :
    ∃ index', index.swapRemoveSlot slot rows = some index' ∧
      Indexes index' (Lib.swapRemove rows slot) := by
  have hlen := length_swapRemove hslot
  obtain ⟨removed, hremove, hbuckets, hkeeps⟩ := h.removeSlot hslot
  have hload : exceedsTwoThirdsLoad (Lib.swapRemove rows slot).length index.buckets =
      false := load_mono (by rw [hlen]; omega) h.load
  rw [swapRemoveSlot, hremove]
  by_cases hlast : slot = rows.length - 1
  · refine ⟨removed, ?_, ?_, ?_, by rw [hbuckets]; exact h.some_bucket, by rwa [hbuckets]⟩
    · simp only [Option.bind_eq_bind, Option.bind_some, ne_eq, hlast, not_true_eq_false, if_false]
      rfl
    · have hplaced := hkeeps.placed
      rw [hbuckets] at hplaced ⊢
      refine wellPlaced_congr hplaced fun i hi => ?_
      obtain ⟨hne, hlt⟩ := (hkeeps.holds i).1 hi
      rw [homeOf, homeOf, getElem?_swapRemove hslot (by omega), if_neg hne]
    · intro j
      rw [hkeeps.holds, hlen]
      omega
  · have hrows : rows.length - 1 < rows.length := by omega
    have hkeeps' : Keeps removed (homeOf removed.buckets rows)
        (fun j => j ≠ slot ∧ j < rows.length) := by rwa [hbuckets]
    have hfree := hkeeps'.placed.exists_free
      (fun i hi => ((hkeeps'.holds i).1 hi).2) (by rw [hbuckets]; exact lt_of_load h.pos h.load)
    obtain ⟨pos, hposition, hlook⟩ := positionOfSlot_spec hkeeps'
      (by rw [hbuckets]; exact h.pos) hfree hrows ⟨fun heq => hlast heq.symm, hrows⟩
    have hnew : ¬ Probe.Holds removed.slots slot := fun hhold =>
      ((hkeeps'.holds slot).1 hhold).1 rfl
    -- the place of the removed row is now the home of the last one
    let home := fun j => if j = slot then homeOf index.buckets rows (rows.length - 1)
      else homeOf index.buckets rows j
    have hplaced : Probe.WellPlaced removed.buckets home removed.slots := by
      refine wellPlaced_congr hkeeps.placed fun i hi => ?_
      simp only [home]
      rw [if_neg ((hkeeps.holds i).1 hi).1]
    obtain ⟨hrenamed, hholds⟩ := hplaced.rename (j := slot) hlook
      (by simp only [home, if_true]; rw [if_neg (Ne.symm hlast)]) hnew
    refine ⟨⟨removed.slots.set pos (some slot)⟩, ?_, ?_, ?_, ?_, ?_⟩
    · simp only [Option.bind_eq_bind, Option.bind_some, ne_eq, hlast, not_false_eq_true, if_true]
      rw [repointSlot, hposition]
      rfl
    · have hsame : (⟨removed.slots.set pos (some slot)⟩ : HeapLemireIndex).buckets =
          removed.buckets := List.length_set
      rw [hsame]
      refine wellPlaced_congr hrenamed fun i hi => ?_
      have hi' := (hholds i).1 hi
      rw [hkeeps'.holds] at hi'
      simp only [home]
      rw [hbuckets]
      by_cases heq : i = slot
      · rw [if_pos heq, homeOf, homeOf, getElem?_swapRemove hslot (by omega), if_pos heq]
      · rw [if_neg heq, homeOf, homeOf, getElem?_swapRemove hslot (by omega), if_neg heq]
    · intro j
      rw [hholds, hkeeps'.holds, hlen]
      omega
    · rw [buckets, List.length_set]
      change minBuckets ≤ removed.buckets
      rw [hbuckets]
      exact h.some_bucket
    · rw [buckets, List.length_set]
      change exceedsTwoThirdsLoad _ removed.buckets = false
      rwa [hbuckets]

/-- The index depends on the rows by their keys only. -/
theorem Indexes.congr {index : HeapLemireIndex} {rows rows' : List R} (h : Indexes index rows)
    (hkeys : rows'.map (IndexRow.indexKey : R → K) = rows.map IndexRow.indexKey) :
    Indexes index rows' := by
  have hlen : rows'.length = rows.length := by
    rw [← List.length_map (IndexRow.indexKey : R → K), hkeys, List.length_map]
  have hhome : homeOf index.buckets rows' = homeOf index.buckets rows := by
    have hof : ∀ (rows : List R) slot, homeOf index.buckets rows slot =
        match (rows.map (IndexRow.indexKey : R → K))[slot]? with
        | some key => bucket index.buckets (IndexKey.lemireKey key)
        | none => 0 := by
      intro rows slot
      rw [homeOf, List.getElem?_map]
      cases rows[slot]? <;> rfl
    funext slot
    rw [hof, hof, hkeys]
  exact ⟨hhome ▸ h.placed, fun slot => by rw [hlen, h.holds], h.some_bucket, by rw [hlen, h.load]⟩

/-! ## Clearing -/

theorem Indexes.clear {index : HeapLemireIndex} {rows : List R} (h : Indexes index rows) :
    Indexes index.clear ([] : List R) := by
  have hbuckets : index.clear.buckets = index.buckets := List.length_replicate
  refine ⟨?_, ?_, by rw [hbuckets]; exact h.some_bucket, ?_⟩
  · rw [hbuckets]
    exact Probe.wellPlaced_replicate _ _
  · intro slot
    constructor
    · rintro ⟨p, hp⟩
      rw [HeapLemireIndex.clear, Probe.look_replicate] at hp
      cases hp
    · exact fun h => absurd h (Nat.not_lt_zero _)
  · rw [hbuckets]
    exact load_mono (Nat.zero_le _) h.load

end HeapLemireIndex
end Wire
end SvenBridge
