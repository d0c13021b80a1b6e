import Mathlib.Data.List.Basic
import Mathlib.Data.Fintype.Card
import Mathlib.Data.Nat.ModEq

/-!
# Probe — hashing with linear probing

Items sit in a ring of `n` buckets, each as soon after its home as there was room.  This file
contains

* `scan`, `firstFree` and `repack` — the walks of a lookup, of an insertion, and of the removal
  that closes the hole it leaves;
* `WellPlaced` — every item is reached from its home over full buckets, and is there once;
* that a lookup in such a ring is exact, and that insertion and removal keep it so;
* that no walk goes round for ever while a bucket is free.
-/

namespace SvenBridge
namespace Lib
namespace Probe

variable {ι : Type}

/-- The item of a bucket. -/
def look (slots : List (Option ι)) (p : ℕ) : Option ι :=
  slots.getD p none

/-- Walk on from `pos` to the first item that `stop` holds of; `none` inside at a free bucket. -/
def scan (n : ℕ) (slots : List (Option ι)) (stop : ι → Bool) : ℕ → ℕ → Option (Option ℕ)
  | 0, _ => none
  | fuel + 1, pos =>
      match look slots pos with
      | none => some none
      | some i => if stop i then some (some pos) else scan n slots stop fuel ((pos + 1) % n)

/-- Walk on from `pos` to the first free bucket. -/
def firstFree (n : ℕ) (slots : List (Option ι)) : ℕ → ℕ → Option ℕ
  | 0, _ => none
  | fuel + 1, pos =>
      match look slots pos with
      | none => some pos
      | some _ => firstFree n slots fuel ((pos + 1) % n)

/-- An item at `spot` may not move back to `hole`: its home is after the hole. -/
def BlocksMove (hole spot home : ℕ) : Prop :=
  if hole ≤ spot then hole < home ∧ home ≤ spot else hole < home ∨ home ≤ spot

instance (hole spot home : ℕ) : Decidable (BlocksMove hole spot home) := by
  unfold BlocksMove
  infer_instance

/-- Close the hole: the next item that may move back does, and leaves the hole to close. -/
def repack (n : ℕ) (home : ι → ℕ) : ℕ → List (Option ι) → ℕ → ℕ → Option (List (Option ι))
  | 0, _, _, _ => none
  | fuel + 1, slots, hole, spot =>
      let spot := (spot + 1) % n
      match look slots spot with
      | none => some slots
      | some i =>
          if BlocksMove hole spot (home i) then
            repack n home fuel slots hole spot
          else
            repack n home fuel ((slots.set hole (some i)).set spot none) spot spot

/-! ## Buckets -/

theorem look_eq_none_of_le {slots : List (Option ι)} {p : ℕ} (h : slots.length ≤ p) :
    look slots p = none := by
  rw [look, List.getD_eq_getElem?_getD, List.getElem?_eq_none h, Option.getD_none]

theorem lt_of_look {slots : List (Option ι)} {p : ℕ} {i : ι} (h : look slots p = some i) :
    p < slots.length := by
  by_contra hle
  rw [look_eq_none_of_le (Nat.le_of_not_lt hle)] at h
  cases h

theorem look_set {slots : List (Option ι)} {p : ℕ} (hp : p < slots.length) (x : Option ι) (q : ℕ) :
    look (slots.set p x) q = if q = p then x else look slots q := by
  by_cases hq : q = p
  · subst hq
    rw [if_pos rfl, look, List.getD_eq_getElem?_getD, List.getElem?_set_self hp, Option.getD_some]
  · rw [if_neg hq, look, look, List.getD_eq_getElem?_getD, List.getD_eq_getElem?_getD,
      List.getElem?_set_ne (Ne.symm hq)]

theorem look_replicate (n p : ℕ) : look (List.replicate n (none : Option ι)) p = none := by
  rw [look, List.getD_eq_getElem?_getD]
  by_cases hp : p < n
  · rw [List.getElem?_replicate_of_lt hp, Option.getD_some]
  · rw [List.getElem?_eq_none (by rw [List.length_replicate]; omega), Option.getD_none]

/-! ## The ring -/

theorem ring_inj {n a d e : ℕ} (hd : d < n) (he : e < n) (h : (a + d) % n = (a + e) % n) :
    d = e := by
  have hmod : d % n = e % n := Nat.ModEq.add_left_cancel' a h
  rwa [Nat.mod_eq_of_lt hd, Nat.mod_eq_of_lt he] at hmod

/-- How far it is from `a` on to `b`. -/
def dist (n a b : ℕ) : ℕ := (b + n - a) % n

theorem dist_lt {n a b : ℕ} (hn : 0 < n) : dist n a b < n := Nat.mod_lt _ hn

theorem add_dist {n a b : ℕ} (ha : a < n) (hb : b < n) : (a + dist n a b) % n = b := by
  rw [dist, Nat.add_mod_mod, show a + (b + n - a) = b + n by omega, Nat.add_mod_right,
    Nat.mod_eq_of_lt hb]

theorem dist_of_add {n a d : ℕ} (ha : a < n) (hd : d < n) : dist n a ((a + d) % n) = d :=
  ring_inj (dist_lt (by omega)) hd (add_dist ha (Nat.mod_lt _ (by omega)))

theorem dist_eq {n a b : ℕ} (ha : a < n) (hb : b < n) :
    dist n a b = if a ≤ b then b - a else b + n - a := by
  rw [dist]
  by_cases h : a ≤ b
  · rw [if_pos h, show b + n - a = b - a + n by omega, Nat.add_mod_right,
      Nat.mod_eq_of_lt (by omega)]
  · rw [if_neg h, Nat.mod_eq_of_lt (by omega)]

/-- An item stays just when its home is nearer than the hole. -/
theorem blocksMove_iff {n hole spot home : ℕ} (hhole : hole < n) (hspot : spot < n)
    (hhome : home < n) :
    BlocksMove hole spot home ↔ dist n home spot < dist n hole spot := by
  rw [BlocksMove, dist_eq hhome hspot, dist_eq hhole hspot]
  split <;> split <;> omega

/-! ## Well-placed items -/

/-- The `steps` buckets from `start` on are full. -/
def Full (n : ℕ) (slots : List (Option ι)) (start steps : ℕ) : Prop :=
  ∀ e < steps, look slots ((start + e) % n) ≠ none

/-- Every item is reached from its home, and is in one bucket only. -/
structure WellPlaced (n : ℕ) (home : ι → ℕ) (slots : List (Option ι)) : Prop where
  length : slots.length = n
  reach : ∀ p i, look slots p = some i →
    ∃ d < n, (home i + d) % n = p ∧ Full n slots (home i) d
  once : ∀ p q i, look slots p = some i → look slots q = some i → p = q

theorem wellPlaced_replicate (n : ℕ) (home : ι → ℕ) :
    WellPlaced n home (List.replicate n none) := by
  refine ⟨List.length_replicate, ?_, ?_⟩
  · intro p i h
    rw [look_replicate] at h
    cases h
  · intro p q i h
    rw [look_replicate] at h
    cases h

/-! ## Lookup -/

/-- The `steps` buckets from `start` on hold items that `stop` does not hold of. -/
def Passed (n : ℕ) (slots : List (Option ι)) (stop : ι → Bool) (start steps : ℕ) : Prop :=
  ∀ e < steps, ∃ i, look slots ((start + e) % n) = some i ∧ stop i = false

/-- What a walk of at most `steps` buckets from `start` can come to. -/
inductive Scanned (n : ℕ) (slots : List (Option ι)) (stop : ι → Bool) (start steps : ℕ) :
    Option (Option ℕ) → Prop
  | going : Passed n slots stop start steps → Scanned n slots stop start steps none
  | absent {k : ℕ} : k < steps → Passed n slots stop start k →
      look slots ((start + k) % n) = none → Scanned n slots stop start steps (some none)
  | found {k : ℕ} {i : ι} : k < steps → Passed n slots stop start k →
      look slots ((start + k) % n) = some i → stop i = true →
      Scanned n slots stop start steps (some (some ((start + k) % n)))

theorem Passed.succ {n : ℕ} {slots : List (Option ι)} {stop : ι → Bool} {start k : ℕ} {i : ι}
    (h : Passed n slots stop start k) (hi : look slots ((start + k) % n) = some i)
    (hstop : stop i = false) : Passed n slots stop start (k + 1) := by
  intro e he
  rcases Nat.lt_succ_iff_lt_or_eq.1 he with he | rfl
  · exact h e he
  · exact ⟨i, hi, hstop⟩

theorem scanned {n : ℕ} {slots : List (Option ι)} {stop : ι → Bool} {start : ℕ} :
    ∀ fuel k : ℕ, Passed n slots stop start k →
      Scanned n slots stop start (k + fuel) (scan n slots stop fuel ((start + k) % n)) := by
  intro fuel
  induction fuel with
  | zero => exact fun k h => .going h
  | succ fuel ih =>
      intro k h
      rw [scan]
      cases hlook : look slots ((start + k) % n) with
      | none => exact .absent (by omega) h hlook
      | some i =>
          simp only
          cases hstop : stop i with
          | true => exact .found (by omega) h hlook hstop
          | false =>
              have hnext := ih (k + 1) (h.succ hlook hstop)
              rw [if_neg Bool.false_ne_true, Nat.mod_add_mod, Nat.add_assoc]
              rwa [Nat.add_assoc, Nat.add_comm 1 fuel] at hnext

/-- With a bucket free a walk once round ends. -/
theorem scan_ends {n : ℕ} {slots : List (Option ι)} {stop : ι → Bool} {start q : ℕ}
    (hstart : start < n) (hq : q < n) (hfree : look slots q = none) :
    ∃ found, scan n slots stop n start = some found ∧
      Scanned n slots stop start n (some found) := by
  have hspec : Scanned n slots stop start n (scan n slots stop n start) := by
    have h := @scanned ι n slots stop start n 0
      (fun e he => absurd he (Nat.not_lt_zero e))
    rwa [Nat.zero_add, Nat.add_zero, Nat.mod_eq_of_lt hstart] at h
  generalize scan n slots stop n start = result at hspec
  cases result with
  | none =>
      cases hspec with
      | going h =>
          obtain ⟨i, hi, -⟩ := h (dist n start q) (dist_lt (by omega))
          rw [add_dist hstart hq, hfree] at hi
          cases hi
  | some found => exact ⟨found, rfl, hspec⟩

/-- A lookup from the home of all that it may stop at is exact. -/
theorem WellPlaced.scan {n : ℕ} {home : ι → ℕ} {slots : List (Option ι)} {stop : ι → Bool}
    {start q : ℕ} (h : WellPlaced n home slots) (hstart : start < n) (hq : q < n)
    (hfree : look slots q = none) (hhome : ∀ i, stop i = true → home i = start) :
    (Probe.scan n slots stop n start = some none ∧
        ∀ p i, look slots p = some i → stop i = false) ∨
      ∃ p i, Probe.scan n slots stop n start = some (some p) ∧ look slots p = some i ∧
        stop i = true := by
  obtain ⟨found, hscan, hspec⟩ := @scan_ends ι n slots stop start q hstart hq hfree
  rw [hscan]
  cases hspec with
  | found hk hpassed hlook hstop => exact .inr ⟨_, _, rfl, hlook, hstop⟩
  | @absent k hk hpassed hlook =>
      refine .inl ⟨rfl, ?_⟩
      intro p i hp
      cases hstop : stop i with
      | false => rfl
      | true =>
          obtain ⟨d, hd, hspot, hfull⟩ := h.reach p i hp
          rw [hhome i hstop] at hspot hfull
          -- the item is before the free bucket, at it or after it
          rcases Nat.lt_trichotomy d k with hlt | rfl | hgt
          · obtain ⟨j, hj, hpass⟩ := hpassed d hlt
            rw [hspot, hp] at hj
            cases hj
            rw [hstop] at hpass
            cases hpass
          · rw [hspot, hp] at hlook
            cases hlook
          · exact absurd hlook (hfull k hgt)

/-! ## Insertion -/

/-- An item is in the ring. -/
def Holds (slots : List (Option ι)) (i : ι) : Prop :=
  ∃ p, look slots p = some i

theorem firstFree_from {n : ℕ} {slots : List (Option ι)} {start q : ℕ} (hstart : start < n)
    (hq : q < n) (hfree : look slots q = none) :
    ∀ fuel k : ℕ, Full n slots start k → k ≤ dist n start q → dist n start q < k + fuel →
      ∃ d < n, firstFree n slots fuel ((start + k) % n) = some ((start + d) % n) ∧
        look slots ((start + d) % n) = none ∧ Full n slots start d := by
  intro fuel
  induction fuel with
  | zero =>
      intro k _ hle hlt
      omega
  | succ fuel ih =>
      intro k hfull hle hlt
      have hk : k < n := Nat.lt_of_le_of_lt hle (dist_lt (by omega))
      rw [firstFree]
      cases hlook : look slots ((start + k) % n) with
      | none => exact ⟨k, hk, rfl, hlook, hfull⟩
      | some i =>
          have hne : k ≠ dist n start q := by
            rintro rfl
            rw [add_dist hstart hq, hfree] at hlook
            cases hlook
          have hfull' : Full n slots start (k + 1) := by
            intro e he
            rcases Nat.lt_succ_iff_lt_or_eq.1 he with he | rfl
            · exact hfull e he
            · rw [hlook]
              exact Option.some_ne_none i
          have hnext := ih (k + 1) hfull' (by omega) (by omega)
          rwa [← Nat.add_assoc, ← Nat.mod_add_mod] at hnext

/-- Insertion finds a free bucket, and with a new item there the ring is well placed. -/
theorem WellPlaced.firstFree {n : ℕ} {home : ι → ℕ} {slots : List (Option ι)} {q : ℕ} {i : ι}
    (h : WellPlaced n home slots) (hhome : home i < n) (hq : q < n) (hfree : look slots q = none)
    (hnew : ¬ Holds slots i) :
    ∃ p < n, Probe.firstFree n slots n (home i) = some p ∧
      WellPlaced n home (slots.set p (some i)) ∧
      ∀ j, Holds (slots.set p (some i)) j ↔ j = i ∨ Holds slots j := by
  obtain ⟨d, hd, hfirst, hlook, hfull⟩ := firstFree_from hhome hq hfree n 0
    (fun e he => absurd he (Nat.not_lt_zero e)) (Nat.zero_le _)
    (by rw [Nat.zero_add]; exact dist_lt (by omega))
  rw [Nat.add_zero, Nat.mod_eq_of_lt hhome] at hfirst
  have hp : (home i + d) % n < n := Nat.mod_lt _ (by omega)
  have hp' : (home i + d) % n < slots.length := by rwa [h.length]
  have hfilled : ∀ start steps, Full n slots start steps →
      Full n (slots.set ((home i + d) % n) (some i)) start steps := by
    intro start steps hrun e he
    rw [look_set hp']
    split
    · exact Option.some_ne_none i
    · exact hrun e he
  refine ⟨_, hp, hfirst, ⟨by rw [List.length_set, h.length], ?_, ?_⟩, ?_⟩
  · intro p j hj
    rw [look_set hp'] at hj
    split at hj
    · rename_i heq
      cases hj
      exact ⟨d, hd, heq.symm, hfilled _ _ hfull⟩
    · obtain ⟨e, he, hspot, hrun⟩ := h.reach p j hj
      exact ⟨e, he, hspot, hfilled _ _ hrun⟩
  · intro p p' j hj hj'
    rw [look_set hp'] at hj hj'
    split at hj <;> split at hj'
    · rename_i hpi hpi'
      rw [hpi, hpi']
    · cases hj
      exact absurd ⟨p', hj'⟩ hnew
    · cases hj'
      exact absurd ⟨p, hj⟩ hnew
    · exact h.once p p' j hj hj'
  · intro j
    constructor
    · rintro ⟨p, hj⟩
      rw [look_set hp'] at hj
      split at hj
      · cases hj
        exact .inl rfl
      · exact .inr ⟨p, hj⟩
    · rintro (rfl | ⟨p, hj⟩)
      · exact ⟨_, by rw [look_set hp', if_pos rfl]⟩
      · refine ⟨p, ?_⟩
        rw [look_set hp', if_neg ?_, hj]
        rintro rfl
        rw [hlook] at hj
        cases hj

/-! ## Removal -/

/-- The buckets are full, but for the hole that is being closed. -/
def FullBut (n : ℕ) (slots : List (Option ι)) (hole start steps : ℕ) : Prop :=
  ∀ e < steps, (start + e) % n = hole ∨ look slots ((start + e) % n) ≠ none

/-- While the hole is closed: the items up to `spot`, `steps` buckets on, have been looked at and
stay where they are. -/
structure Mending (n : ℕ) (home : ι → ℕ) (slots : List (Option ι)) (hole steps : ℕ) : Prop where
  length : slots.length = n
  hole_lt : hole < n
  hole_free : look slots hole = none
  reach : ∀ p i, look slots p = some i →
    ∃ d < n, (home i + d) % n = p ∧ FullBut n slots hole (home i) d
  once : ∀ p q i, look slots p = some i → look slots q = some i → p = q
  stays : ∀ e, 0 < e → e ≤ steps → ∃ i, look slots ((hole + e) % n) = some i ∧
    ∃ d < e, (home i + d) % n = (hole + e) % n

/-- Emptying a bucket leaves a hole to close. -/
theorem WellPlaced.mending {n : ℕ} {home : ι → ℕ} {slots : List (Option ι)} {hole : ℕ}
    (h : WellPlaced n home slots) (hhole : hole < n) :
    Mending n home (slots.set hole none) hole 0 := by
  have hhole' : hole < slots.length := by rwa [h.length]
  refine ⟨by rw [List.length_set, h.length], hhole, by rw [look_set hhole', if_pos rfl], ?_, ?_, ?_⟩
  · intro p i hi
    rw [look_set hhole'] at hi
    split at hi
    · cases hi
    · obtain ⟨d, hd, hspot, hfull⟩ := h.reach p i hi
      refine ⟨d, hd, hspot, fun e he => ?_⟩
      rw [look_set hhole']
      split
      · exact .inl ‹_›
      · exact .inr (hfull e he)
  · intro p q i hp hq
    rw [look_set hhole'] at hp hq
    split at hp
    · cases hp
    split at hq
    · cases hq
    exact h.once p q i hp hq
  · intro e hpos hle
    omega

/-- At a free bucket the hole is closed: no item's run goes over it. -/
theorem Mending.closed {n : ℕ} {home : ι → ℕ} {slots : List (Option ι)} {hole steps : ℕ}
    (h : Mending n home slots hole steps) (hsteps : steps + 1 < n)
    (hfree : look slots ((hole + (steps + 1)) % n) = none) : WellPlaced n home slots := by
  refine ⟨h.length, ?_, h.once⟩
  intro p i hi
  obtain ⟨d, hd, hspot, hfull⟩ := h.reach p i hi
  refine ⟨d, hd, hspot, ?_⟩
  intro e he hnone
  have hhole : (home i + e) % n = hole := (hfull e he).resolve_right (not_not.2 hnone)
  have hahead : ∀ f, (hole + f) % n = (home i + (e + f)) % n := by
    intro f
    rw [← hhole, Nat.mod_add_mod, Nat.add_assoc]
  -- the free bucket is after the item
  have hbefore : d - e < steps + 1 := by
    by_contra hge
    rcases Nat.lt_or_eq_of_le (Nat.le_of_not_lt hge) with hlt | heq
    · rw [hahead] at hfree
      rcases hfull (e + (steps + 1)) (by omega) with hagain | hsome
      · have hsame := ring_inj (a := home i) (d := e + (steps + 1)) (e := e) (by omega) (by omega)
          (hagain.trans hhole.symm)
        omega
      · exact hsome hfree
    · rw [heq, hahead, show e + (d - e) = d by omega, hspot, hi] at hfree
      cases hfree
  -- so the item was looked at, and its run does not reach back to the hole
  obtain ⟨j, hj, d', hd', hspot'⟩ := h.stays (d - e) (by omega) (by omega)
  have hat : (hole + (d - e)) % n = p := by
    rw [hahead, show e + (d - e) = d by omega, hspot]
  rw [hat] at hj hspot'
  rw [hi] at hj
  cases hj
  have hsame := ring_inj (a := home i) hd (by omega) (hspot.trans hspot'.symm)
  omega

/-- An item that stays is one more that was looked at. -/
theorem Mending.stay {n : ℕ} {home : ι → ℕ} {slots : List (Option ι)} {hole steps : ℕ} {i : ι}
    (h : Mending n home slots hole steps) (hhome : home i < n) (hsteps : steps + 1 < n)
    (hi : look slots ((hole + (steps + 1)) % n) = some i)
    (hblocks : BlocksMove hole ((hole + (steps + 1)) % n) (home i)) :
    Mending n home slots hole (steps + 1) := by
  refine { h with stays := ?_ }
  intro e hpos hle
  rcases Nat.lt_or_eq_of_le hle with hlt | rfl
  · exact h.stays e hpos (by omega)
  · have hspot : (hole + (steps + 1)) % n < n := Nat.mod_lt _ (by omega)
    rw [blocksMove_iff h.hole_lt hspot hhome, dist_of_add h.hole_lt hsteps] at hblocks
    exact ⟨i, hi, _, hblocks, add_dist hhome hspot⟩

/-- An item that may move closes the hole and leaves its own. -/
theorem Mending.move {n : ℕ} {home : ι → ℕ} {slots : List (Option ι)} {hole steps : ℕ} {i : ι}
    (h : Mending n home slots hole steps) (hhome : home i < n) (hsteps : steps + 1 < n)
    (hi : look slots ((hole + (steps + 1)) % n) = some i)
    (hmay : ¬ BlocksMove hole ((hole + (steps + 1)) % n) (home i)) :
    Mending n home
        ((slots.set hole (some i)).set ((hole + (steps + 1)) % n) none)
        ((hole + (steps + 1)) % n) 0 ∧
      ∀ p, look ((slots.set hole (some i)).set ((hole + (steps + 1)) % n) none) p =
        if p = (hole + (steps + 1)) % n then none
        else if p = hole then some i else look slots p := by
  have hspot : (hole + (steps + 1)) % n < n := Nat.mod_lt _ (by omega)
  rw [blocksMove_iff h.hole_lt hspot hhome, dist_of_add h.hole_lt hsteps, Nat.not_lt] at hmay
  generalize hspotdef : (hole + (steps + 1)) % n = spot at *
  have hlook : ∀ p, look ((slots.set hole (some i)).set spot none) p =
      if p = spot then none else if p = hole then some i else look slots p := by
    intro p
    rw [look_set (by rw [List.length_set, h.length]; exact hspot),
      look_set (by rw [h.length]; exact h.hole_lt)]
  have hne : hole ≠ spot := by
    rintro rfl
    rw [h.hole_free] at hi
    cases hi
  refine ⟨⟨?_, hspot, ?_, ?_, ?_, ?_⟩, hlook⟩
  · rw [List.length_set, List.length_set, h.length]
  · rw [hlook, if_pos rfl]
  · intro p j hj
    rw [hlook] at hj
    split at hj
    · cases hj
    rename_i hpspot
    split at hj
    · -- the item that moved: its run ends where the hole was
      rename_i hphole
      cases hj
      obtain ⟨d, hd, hdspot, hfull⟩ := h.reach spot i hi
      have hdist : d = dist n (home i) spot := by rw [← hdspot, dist_of_add hhome hd]
      have hback : (home i + (d - (steps + 1))) % n = hole := by
        have hsame : (home i + (d - (steps + 1)) + (steps + 1)) % n =
            (hole + (steps + 1)) % n := by
          rw [Nat.add_assoc, show d - (steps + 1) + (steps + 1) = d by omega, hdspot, hspotdef]
        have hmod : (home i + (d - (steps + 1))) % n = hole % n :=
          Nat.ModEq.add_right_cancel' (steps + 1) hsame
        rwa [Nat.mod_eq_of_lt h.hole_lt] at hmod
      refine ⟨d - (steps + 1), by omega, by rw [hback, hphole], ?_⟩
      intro e he
      right
      have hnothole : (home i + e) % n ≠ hole := by
        intro hsame
        have := ring_inj (a := home i) (d := e) (e := d - (steps + 1)) (by omega) (by omega)
          (hsame.trans hback.symm)
        omega
      have hnotspot : (home i + e) % n ≠ spot := by
        intro hsame
        have := ring_inj (a := home i) (d := e) (e := d) (by omega) hd (hsame.trans hdspot.symm)
        omega
      rw [hlook, if_neg hnotspot, if_neg hnothole]
      exact (hfull e (by omega)).resolve_left hnothole
    · obtain ⟨d, hd, hdspot, hfull⟩ := h.reach p j hj
      refine ⟨d, hd, hdspot, fun e he => ?_⟩
      rw [hlook]
      by_cases hspot' : (home j + e) % n = spot
      · exact .inl hspot'
      right
      rw [if_neg hspot']
      split
      · exact Option.some_ne_none i
      · rename_i hnothole
        exact (hfull e he).resolve_left hnothole
  · intro p q j hp hq
    rw [hlook] at hp hq
    split at hp
    · cases hp
    split at hq
    · cases hq
    rename_i hpspot hqspot
    split at hp <;> split at hq
    · rename_i hph hqh
      rw [hph, hqh]
    · cases hp
      exact absurd (h.once q spot i hq hi) hqspot
    · cases hq
      exact absurd (h.once p spot i hp hi) hpspot
    · exact h.once p q j hp hq
  · intro e hpos hle
    omega

/-- Closing a hole ends while another bucket is free, and keeps every item. -/
theorem Mending.repack {n : ℕ} {home : ι → ℕ} (hhome : ∀ i, home i < n) {q : ℕ} (hq : q < n) :
    ∀ (fuel : ℕ) (slots : List (Option ι)) (hole steps : ℕ), Mending n home slots hole steps →
      look slots q = none → q ≠ hole → steps < dist n hole q → dist n hole q ≤ steps + fuel →
      ∃ mended, Probe.repack n home fuel slots hole ((hole + steps) % n) = some mended ∧
        WellPlaced n home mended ∧ ∀ j, Holds mended j ↔ Holds slots j := by
  intro fuel
  induction fuel with
  | zero =>
      intro slots hole steps _ _ _ hlt hle
      omega
  | succ fuel ih =>
      intro slots hole steps h hfree hne hlt hle
      have hdist : dist n hole q < n := dist_lt (by omega)
      have hq' := add_dist h.hole_lt hq
      have hstep : ((hole + steps) % n + 1) % n = (hole + (steps + 1)) % n := by
        rw [Nat.mod_add_mod, Nat.add_assoc]
      rw [Probe.repack]
      simp only [hstep]
      cases hlook : look slots ((hole + (steps + 1)) % n) with
      | none => exact ⟨slots, rfl, h.closed (by omega) hlook, fun j => Iff.rfl⟩
      | some i =>
          have hnot : steps + 1 ≠ dist n hole q := by
            intro heq
            rw [heq, hq', hfree] at hlook
            cases hlook
          simp only
          by_cases hblocks : BlocksMove hole ((hole + (steps + 1)) % n) (home i)
          · rw [if_pos hblocks]
            exact ih slots hole (steps + 1) (h.stay (hhome i) (by omega) hlook hblocks) hfree hne
              (by omega) (by omega)
          · rw [if_neg hblocks]
            obtain ⟨hmend, hat⟩ := h.move (hhome i) (by omega) hlook hblocks
            have hspot : (hole + (steps + 1)) % n < n := Nat.mod_lt _ (by omega)
            have hqspot : q ≠ (hole + (steps + 1)) % n := by
              rintro rfl
              rw [hfree] at hlook
              cases hlook
            have hqahead : ((hole + (steps + 1)) % n + (dist n hole q - (steps + 1))) % n = q := by
              rw [Nat.mod_add_mod, Nat.add_assoc,
                show steps + 1 + (dist n hole q - (steps + 1)) = dist n hole q by omega, hq']
            have hnear : dist n ((hole + (steps + 1)) % n) q = dist n hole q - (steps + 1) := by
              conv_lhs => rw [← hqahead]
              exact dist_of_add hspot (by omega)
            obtain ⟨mended, hrun, hplaced, hholds⟩ := ih _ _ 0 hmend
              (by rw [hat, if_neg hqspot, if_neg hne, hfree]) hqspot (by omega) (by omega)
            have hstart : ((hole + (steps + 1)) % n + 0) % n = (hole + (steps + 1)) % n :=
              Nat.mod_eq_of_lt hspot
            rw [hstart] at hrun
            refine ⟨mended, hrun, hplaced, fun j => (hholds j).trans ?_⟩
            constructor
            · rintro ⟨p, hp⟩
              rw [hat] at hp
              split at hp
              · cases hp
              split at hp
              · cases hp
                exact ⟨_, hlook⟩
              · exact ⟨p, hp⟩
            · rintro ⟨p, hp⟩
              by_cases hps : p = (hole + (steps + 1)) % n
              · subst hps
                rw [hlook] at hp
                cases hp
                refine ⟨hole, ?_⟩
                rw [hat, if_neg, if_pos rfl]
                rintro heq
                rw [← heq, h.hole_free] at hlook
                cases hlook
              · refine ⟨p, ?_⟩
                rw [hat, if_neg hps, if_neg, hp]
                rintro rfl
                rw [h.hole_free] at hp
                cases hp

/-- Removal from a ring with a bucket free: the item is gone and all others are in place. -/
theorem WellPlaced.repack {n : ℕ} {home : ι → ℕ} {slots : List (Option ι)} {hole q : ℕ} {i : ι}
    (h : WellPlaced n home slots) (hhome : ∀ i, home i < n) (hlook : look slots hole = some i)
    (hq : q < n) (hfree : look slots q = none) :
    ∃ mended, Probe.repack n home n (slots.set hole none) hole hole = some mended ∧
      WellPlaced n home mended ∧ ∀ j, Holds mended j ↔ j ≠ i ∧ Holds slots j := by
  have hhole' := lt_of_look hlook
  have hhole : hole < n := by rwa [h.length] at hhole'
  have hne : q ≠ hole := by
    rintro rfl
    rw [hfree] at hlook
    cases hlook
  have hfree' : look (slots.set hole none) q = none := by
    rw [look_set hhole', if_neg hne, hfree]
  have hpos : 0 < dist n hole q := by
    rcases Nat.eq_zero_or_pos (dist n hole q) with hzero | hpos
    · have hsame := add_dist hhole hq
      rw [hzero, Nat.add_zero, Nat.mod_eq_of_lt hhole] at hsame
      exact absurd hsame.symm hne
    · exact hpos
  have hdist : dist n hole q < n := dist_lt (by omega)
  obtain ⟨mended, hrun, hplaced, hholds⟩ := (h.mending hhole).repack hhome hq n _ _ 0 hfree' hne hpos
    (by omega)
  rw [Nat.add_zero, Nat.mod_eq_of_lt hhole] at hrun
  refine ⟨mended, hrun, hplaced, fun j => (hholds j).trans ?_⟩
  constructor
  · rintro ⟨p, hp⟩
    rw [look_set hhole'] at hp
    split at hp
    · cases hp
    rename_i hpne
    refine ⟨?_, p, hp⟩
    rintro rfl
    exact hpne (h.once p hole j hp hlook)
  · rintro ⟨hji, p, hp⟩
    refine ⟨p, ?_⟩
    rw [look_set hhole', if_neg, hp]
    rintro rfl
    rw [hlook] at hp
    cases hp
    exact hji rfl

/-! ## Renaming -/

/-- Another item with the same home takes the bucket of one. -/
theorem WellPlaced.rename {n : ℕ} {home : ι → ℕ} {slots : List (Option ι)} {p : ℕ} {i j : ι}
    (h : WellPlaced n home slots) (hlook : look slots p = some i) (hhome : home j = home i)
    (hnew : ¬ Holds slots j) :
    WellPlaced n home (slots.set p (some j)) ∧
      ∀ k, Holds (slots.set p (some j)) k ↔ k = j ∨ k ≠ i ∧ Holds slots k := by
  have hp := lt_of_look hlook
  have hsome : ∀ start steps, Full n slots start steps →
      Full n (slots.set p (some j)) start steps := by
    intro start steps hrun e he
    rw [look_set hp]
    split
    · exact Option.some_ne_none j
    · exact hrun e he
  refine ⟨⟨by rw [List.length_set, h.length], ?_, ?_⟩, ?_⟩
  · intro q k hk
    rw [look_set hp] at hk
    split at hk
    · rename_i hqp
      cases hk
      obtain ⟨d, hd, hspot, hfull⟩ := h.reach p i hlook
      exact ⟨d, hd, by rw [hhome, hspot, hqp], by rw [hhome]; exact hsome _ _ hfull⟩
    · obtain ⟨d, hd, hspot, hfull⟩ := h.reach q k hk
      exact ⟨d, hd, hspot, hsome _ _ hfull⟩
  · intro q q' k hk hk'
    rw [look_set hp] at hk hk'
    split at hk <;> split at hk'
    · rename_i hq hq'
      rw [hq, hq']
    · cases hk
      exact absurd ⟨q', hk'⟩ hnew
    · cases hk'
      exact absurd ⟨q, hk⟩ hnew
    · exact h.once q q' k hk hk'
  · intro k
    constructor
    · rintro ⟨q, hk⟩
      rw [look_set hp] at hk
      split at hk
      · cases hk
        exact .inl rfl
      · rename_i hqp
        refine .inr ⟨?_, q, hk⟩
        rintro rfl
        exact hqp (h.once q p k hk hlook)
    · rintro (rfl | ⟨hki, q, hk⟩)
      · exact ⟨p, by rw [look_set hp, if_pos rfl]⟩
      · refine ⟨q, ?_⟩
        rw [look_set hp, if_neg, hk]
        rintro rfl
        rw [hlook] at hk
        cases hk
        exact hki rfl

/-! ## Free buckets -/

/-- With fewer items than buckets one is free. -/
theorem WellPlaced.exists_free {n rows : ℕ} {home : ℕ → ℕ} {slots : List (Option ℕ)}
    (h : WellPlaced n home slots) (hitems : ∀ i, Holds slots i → i < rows) (hlt : rows < n) :
    ∃ q < n, look slots q = none := by
  by_contra hnone
  have hfull : ∀ q : Fin n, ∃ i : Fin rows, look slots q = some i.1 := by
    intro q
    cases hlook : look slots q with
    | none => exact absurd ⟨q, q.2, hlook⟩ hnone
    | some i => exact ⟨⟨i, hitems i ⟨q, hlook⟩⟩, rfl⟩
  choose item hitem using hfull
  have hinj : Function.Injective item := by
    intro p q heq
    apply Fin.ext
    exact h.once p q (item p) (hitem p) (by rw [heq, hitem q])
  have hcard := Fintype.card_le_of_injective item hinj
  rw [Fintype.card_fin, Fintype.card_fin] at hcard
  omega

end Probe
end Lib
end SvenBridge
