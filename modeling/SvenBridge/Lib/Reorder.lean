import SvenBridge.Lib.Rows
import Mathlib.Data.Nat.ModEq
import Mathlib.Data.Set.Insert
import Mathlib.Order.Interval.Finset.Nat

/-!
# Reorder — items in order from labelled arrivals

Items are counted from zero and arrive late, twice, in another order or not at all; an arrival shows
its number through a label, and labels come round.  A receiver hands the items over in order: what is
ahead of its turn waits, what came before or is too far ahead is dropped.  This file contains

* `Reorder`, `flush` and `receive`, over any labels;
* `Labelling` — labels that come round after `modulus` — and `Fresh`, under which a label says which
  number it is;
* `Holds` — what the receiver has is a set of numbers, and it stands at the first that is not in it —
  and `receive_spec`: an arrival in the window adds its number to the set, any other changes nothing.
-/

namespace SvenBridge
namespace Lib

universe u v

variable {σ : Type u} {α : Type v}

structure Reorder (σ : Type u) (α : Type v) where
  next : σ
  waiting : List (σ × α)

inductive Arrival
  | delivered (count : ℕ)
  | buffered
  | alreadyHave
  | outOfWindow
  deriving DecidableEq

namespace Reorder

section
variable [DecidableEq σ] (succ : σ → σ) (within : σ → σ → Bool)

/-- Hands over what is next for as long as it waits; there are no more rounds than items waiting. -/
def flush : ℕ → Reorder σ α → List α × Reorder σ α
  | 0, s => ([], s)
  | fuel + 1, s =>
      match s.waiting.findIdx? fun w => decide (w.1 = s.next) with
      | none => ([], s)
      | some slot =>
          match s.waiting[slot]? with
          | none => ([], s)
          | some (_, item) =>
              let (items, t) := flush fuel ⟨succ s.next, swapRemove s.waiting slot⟩
              (item :: items, t)

def receive (sequence : σ) (item : α) (s : Reorder σ α) : Arrival × List α × Reorder σ α :=
  if sequence = s.next then
    let (items, t) := flush succ s.waiting.length ⟨succ s.next, s.waiting⟩
    (.delivered (items.length + 1), item :: items, t)
  else if within sequence s.next = false then
    (.outOfWindow, [], s)
  else if sequence ∈ s.waiting.map Prod.fst then
    (.alreadyHave, [], s)
  else
    (.buffered, [], ⟨s.next, s.waiting ++ [(sequence, item)]⟩)

end

/-! ## Labels -/

/-- Labels that come round after `modulus`, with a window ahead of a label. -/
structure Labelling (σ : Type u) where
  label : ℕ → σ
  succ : σ → σ
  within : σ → σ → Bool
  modulus : ℕ
  window : ℕ
  window_lt : window < modulus
  succ_label : ∀ k, succ (label k) = label (k + 1)
  label_eq_iff : ∀ j k, label j = label k ↔ j % modulus = k % modulus
  within_iff : ∀ k r, within (label k) (label r) = true ↔
    (k + modulus - r % modulus) % modulus ≤ window

namespace Labelling

variable (L : Labelling σ)

/-- The number `k` is near enough to `r` for its label to tell which it is. -/
def Fresh (r k : ℕ) : Prop :=
  k < r + L.modulus ∧ r + L.window < k + L.modulus

variable {L}

theorem eq_of_label {j k : ℕ} (h : L.label j = L.label k) (hj : j < k + L.modulus)
    (hk : k < j + L.modulus) : j = k := by
  have hmod := (L.label_eq_iff j k).1 h
  rcases Nat.le_total j k with hle | hle
  · have hdvd := (Nat.modEq_iff_dvd' hle).1 hmod
    have := Nat.eq_zero_of_dvd_of_lt hdvd (by omega)
    omega
  · have hdvd := (Nat.modEq_iff_dvd' hle).1 hmod.symm
    have := Nat.eq_zero_of_dvd_of_lt hdvd (by omega)
    omega

theorem Fresh.label_eq_iff {r k : ℕ} (h : L.Fresh r k) : L.label k = L.label r ↔ k = r := by
  refine ⟨fun heq => eq_of_label heq h.1 ?_, fun heq => heq ▸ rfl⟩
  have := h.2
  omega

/-- How far a label is ahead of another. -/
theorem ahead_eq {n k r : ℕ} (hk : k < r + n) (hr : r < k + n) :
    (k + n - r % n) % n = if r ≤ k then k - r else n - (r - k) := by
  have hpos : 0 < n := by omega
  have hsplit := Nat.div_add_mod r n
  have hlt := Nat.mod_lt r hpos
  split
  · have hsum : k + n - r % n = (k - r) + n * (r / n + 1) := by
      rw [Nat.mul_add, Nat.mul_one]
      omega
    rw [hsum, Nat.add_mul_mod_self_left, Nat.mod_eq_of_lt (by omega)]
  · have hsum : k + n - r % n = (n - (r - k)) + n * (r / n) := by omega
    rw [hsum, Nat.add_mul_mod_self_left, Nat.mod_eq_of_lt (by omega)]

theorem Fresh.within_iff {r k : ℕ} (h : L.Fresh r k) :
    L.within (L.label k) (L.label r) = true ↔ r ≤ k ∧ k ≤ r + L.window := by
  have hwindow := L.window_lt
  obtain ⟨hk, hr⟩ := h
  rw [L.within_iff, ahead_eq hk (by omega)]
  split <;> omega

end Labelling

/-! ## The receiver as a set of numbers -/

variable (L : Labelling σ)

/-- The receiver has the numbers in `had`, none of them further than a window from `r`: those below
`r` are handed over, and those from `r` on wait. -/
structure Ready (items : List α) (had : Set ℕ) (r : ℕ) (s : Reorder σ α) : Prop where
  next : s.next = L.label r
  nodup : (s.waiting.map Prod.fst).Nodup
  waits : ∀ w ∈ s.waiting, ∃ k ∈ had, r ≤ k ∧ w.1 = L.label k ∧ items[k]? = some w.2
  kept : ∀ k ∈ had, r ≤ k → L.label k ∈ s.waiting.map Prod.fst
  below : ∀ k < r, k ∈ had
  near : ∀ k ∈ had, k ≤ r + L.window

/-- The receiver stands at the first number that did not come. -/
structure Holds (items : List α) (had : Set ℕ) (r : ℕ) (s : Reorder σ α) : Prop
    extends Ready L items had r s where
  gap : r ∉ had

variable {L}

theorem holds_start (items : List α) : Holds L items ∅ 0 ⟨L.label 0, []⟩ where
  next := rfl
  nodup := List.nodup_nil
  waits _ hw := absurd hw List.not_mem_nil
  kept _ hk := absurd hk (Set.notMem_empty _)
  below _ hk := absurd hk (Nat.not_lt_zero _)
  near _ hk := absurd hk (Set.notMem_empty _)
  gap := Set.notMem_empty 0

/-- More items may be counted. -/
theorem Holds.append {items : List α} {had : Set ℕ} {r : ℕ} {s : Reorder σ α}
    (h : Holds L items had r s) (more : List α) : Holds L (items ++ more) had r s where
  toReady :=
    { next := h.next
      nodup := h.nodup
      waits := fun w hw => by
        obtain ⟨k, hk, hr, hlabel, hitem⟩ := h.waits w hw
        refine ⟨k, hk, hr, hlabel, ?_⟩
        rw [List.getElem?_append_left (List.getElem?_eq_some_iff.1 hitem).1, hitem]
      kept := h.kept
      below := h.below
      near := h.near }
  gap := h.gap

/-- Of two numbers in the window only one has a label. -/
theorem Ready.label_inj {items : List α} {had : Set ℕ} {r : ℕ} {s : Reorder σ α}
    (h : Ready L items had r s) {j k : ℕ} (hj : j ∈ had) (hrj : r ≤ j) (hrk : r ≤ k)
    (hk : k ≤ r + L.window) (hlabel : L.label j = L.label k) : j = k := by
  have hnear := h.near j hj
  have hwindow := L.window_lt
  exact Labelling.eq_of_label hlabel (by omega) (by omega)

/-- The item at `r` is handed over from those that wait. -/
theorem Ready.advance {items : List α} {had : Set ℕ} {r slot : ℕ} {s : Reorder σ α} {w : σ × α}
    (h : Ready L items had r s) (hw : s.waiting[slot]? = some w) (hlabel : w.1 = s.next) :
    items[r]? = some w.2 ∧
      Ready L items had (r + 1) ⟨L.succ s.next, swapRemove s.waiting slot⟩ := by
  obtain ⟨k, hk, hrk, hwk, hitem⟩ := h.waits w (List.mem_of_getElem? hw)
  have hkr : k = r :=
    h.label_inj hk hrk (Nat.le_refl r) (Nat.le_add_right r _) (by rw [← hwk, hlabel, h.next])
  subst hkr
  refine ⟨hitem, ?_, ?_, ?_, ?_, ?_, ?_⟩
  · rw [h.next, L.succ_label]
  · exact nodup_swapRemove h.nodup (List.getElem?_eq_some_iff.1 hw).1
  · intro v hv
    obtain ⟨hmem, hne⟩ := (mem_swapRemove h.nodup hw v).1 hv
    obtain ⟨j, hj, hkj, hvj, hitem'⟩ := h.waits v hmem
    refine ⟨j, hj, ?_, hvj, hitem'⟩
    rcases Nat.lt_or_eq_of_le hkj with hlt | rfl
    · exact hlt
    · exact absurd (hvj.trans hwk.symm) hne
  · intro j hj hkj
    obtain ⟨v, hmem, hv⟩ := List.mem_map.1 (h.kept j hj (by omega))
    refine List.mem_map.2 ⟨v, (mem_swapRemove h.nodup hw v).2 ⟨hmem, ?_⟩, hv⟩
    rw [hv, hwk]
    intro heq
    have := h.label_inj hj (by omega) (Nat.le_refl k) (Nat.le_add_right k _) heq
    omega
  · intro j hj
    rcases Nat.lt_succ_iff_lt_or_eq.1 hj with hlt | rfl
    · exact h.below j hlt
    · exact hk
  · intro j hj
    have := h.near j hj
    omega

theorem take_getElem {items : List α} {r : ℕ} {item : α} (hitem : items[r]? = some item)
    (rest : List α) : items.take r ++ item :: rest = items.take (r + 1) ++ rest := by
  rw [List.take_add_one, hitem, Option.toList_some, List.append_assoc]
  rfl

variable [DecidableEq σ]

/-- What waits is handed over up to the first number that did not come. -/
theorem flush_spec {items : List α} {had : Set ℕ} : ∀ (fuel r : ℕ) (s : Reorder σ α),
    Ready L items had r s → s.waiting.length ≤ fuel →
    ∃ r', r ≤ r' ∧ Holds L items had r' (flush L.succ fuel s).2 ∧
      items.take r ++ (flush L.succ fuel s).1 = items.take r' := by
  intro fuel
  induction fuel with
  | zero =>
      intro r s h hfuel
      have hempty : s.waiting = [] := List.length_eq_zero_iff.1 (Nat.le_zero.1 hfuel)
      refine ⟨r, Nat.le_refl r, ⟨h, fun hr => ?_⟩, List.append_nil _⟩
      have hkept := h.kept r hr (Nat.le_refl r)
      rw [hempty] at hkept
      cases hkept
  | succ fuel ih =>
      intro r s h hfuel
      rw [flush]
      cases hfind : s.waiting.findIdx? fun w => decide (w.1 = s.next) with
      | none =>
          refine ⟨r, Nat.le_refl r, ⟨h, fun hr => ?_⟩, List.append_nil _⟩
          obtain ⟨w, hw, hlabel⟩ := List.mem_map.1 (h.kept r hr (Nat.le_refl r))
          have hnot := List.findIdx?_eq_none_iff.1 hfind w hw
          rw [hlabel, h.next, decide_eq_false_iff_not] at hnot
          exact absurd rfl hnot
      | some slot =>
          obtain ⟨hslot, hlabel, -⟩ := List.findIdx?_eq_some_iff_getElem.1 hfind
          obtain ⟨w, hw, hnext⟩ : ∃ w, s.waiting[slot]? = some w ∧ w.1 = s.next :=
            ⟨_, List.getElem?_eq_getElem hslot, of_decide_eq_true hlabel⟩
          obtain ⟨hitem, hready⟩ := h.advance hw hnext
          have hlen := length_swapRemove hslot
          obtain ⟨r', hle, hholds, htake⟩ := ih (r + 1) _ hready (by rw [hlen]; omega)
          simp only [hw]
          refine ⟨r', by omega, hholds, ?_⟩
          rw [take_getElem hitem, htake]

omit [DecidableEq σ] in
/-- The item that was waited for. -/
theorem Holds.arrive {items : List α} {had : Set ℕ} {r : ℕ} {s : Reorder σ α}
    (h : Holds L items had r s) :
    Ready L items (insert r had) (r + 1) ⟨L.succ (L.label r), s.waiting⟩ := by
  refine ⟨L.succ_label r, h.nodup, ?_, ?_, ?_, ?_⟩
  · intro w hw
    obtain ⟨j, hj, hrj, hlabel, hj'⟩ := h.waits w hw
    refine ⟨j, Set.mem_insert_of_mem _ hj, ?_, hlabel, hj'⟩
    rcases Nat.lt_or_eq_of_le hrj with hlt | rfl
    · exact hlt
    · exact absurd hj h.gap
  · intro j hj hrj
    rcases hj with rfl | hj
    · omega
    · exact h.kept j hj (by omega)
  · intro j hj
    rcases Nat.lt_succ_iff_lt_or_eq.1 hj with hlt | rfl
    · exact Set.mem_insert_of_mem _ (h.below j hlt)
    · exact Set.mem_insert j had
  · intro j hj
    rcases hj with rfl | hj
    · omega
    · have := h.near j hj
      omega

omit [DecidableEq σ] in
/-- An item ahead of its turn. -/
theorem Holds.wait {items : List α} {had : Set ℕ} {r k : ℕ} {s : Reorder σ α} {item : α}
    (h : Holds L items had r s) (hitem : items[k]? = some item) (hrk : r < k)
    (hkw : k ≤ r + L.window) (hnew : L.label k ∉ s.waiting.map Prod.fst) :
    Holds L items (insert k had) r ⟨s.next, s.waiting ++ [(L.label k, item)]⟩ := by
  refine ⟨⟨h.next, ?_, ?_, ?_, ?_, ?_⟩, ?_⟩
  · rw [List.map_append, List.nodup_append]
    refine ⟨h.nodup, List.nodup_singleton _, fun a ha b hb => ?_⟩
    rw [List.map_singleton, List.mem_singleton] at hb
    intro hab
    rw [hab, hb] at ha
    exact hnew ha
  · intro w hw
    rcases List.mem_append.1 hw with hw | hw
    · obtain ⟨j, hj, hj'⟩ := h.waits w hw
      exact ⟨j, Set.mem_insert_of_mem _ hj, hj'⟩
    · obtain rfl := List.mem_singleton.1 hw
      exact ⟨k, Set.mem_insert k had, Nat.le_of_lt hrk, rfl, hitem⟩
  · intro j hj hrj
    rw [List.map_append, List.mem_append]
    rcases hj with rfl | hj
    · exact .inr (List.mem_singleton.2 rfl)
    · exact .inl (h.kept j hj hrj)
  · exact fun j hj => Set.mem_insert_of_mem _ (h.below j hj)
  · rintro j (rfl | hj)
    · exact hkw
    · exact h.near j hj
  · rintro (heq | hr)
    · omega
    · exact h.gap hr

/-- A fresh arrival: within the window its number joins those that came, else nothing changes; what
is handed over is what comes next of the items. -/
theorem receive_spec {items : List α} {had : Set ℕ} {r k : ℕ} {s : Reorder σ α} {item : α}
    (h : Holds L items had r s) (hfresh : L.Fresh r k) (hitem : items[k]? = some item) :
    ∃ r', r ≤ r' ∧
      Holds L items (if k ≤ r + L.window then insert k had else had) r'
        (receive L.succ L.within (L.label k) item s).2.2 ∧
      items.take r ++ (receive L.succ L.within (L.label k) item s).2.1 = items.take r' := by
  rw [receive, h.next]
  by_cases hnext : L.label k = L.label r
  · obtain rfl := hfresh.label_eq_iff.1 hnext
    rw [if_pos rfl, if_pos (Nat.le_add_right k _)]
    obtain ⟨r', hle, hholds, htake⟩ := flush_spec s.waiting.length (k + 1) _ h.arrive (Nat.le_refl _)
    refine ⟨r', by omega, hholds, ?_⟩
    rw [take_getElem hitem, htake]
  rw [if_neg hnext]
  have hne : k ≠ r := fun heq => hnext (heq ▸ rfl)
  by_cases hwithin : L.within (L.label k) (L.label r) = true
  · obtain ⟨hrk, hkw⟩ := hfresh.within_iff.1 hwithin
    have hnot : ¬ L.within (L.label k) (L.label r) = false := by rw [hwithin]; decide
    rw [if_neg hnot, if_pos hkw]
    by_cases hhave : L.label k ∈ s.waiting.map Prod.fst
    · rw [if_pos hhave]
      obtain ⟨w, hw, hlabel⟩ := List.mem_map.1 hhave
      obtain ⟨j, hj, hrj, hwj, -⟩ := h.waits w hw
      obtain rfl := h.label_inj hj hrj hrk hkw (hwj.symm.trans hlabel)
      refine ⟨r, Nat.le_refl r, ?_, List.append_nil _⟩
      rw [Set.insert_eq_of_mem hj]
      exact h
    · rw [if_neg hhave, ← h.next]
      have hlt : r < k := Nat.lt_of_le_of_ne hrk (Ne.symm hne)
      exact ⟨r, Nat.le_refl r, h.wait hitem hlt hkw hhave, List.append_nil _⟩
  · rw [if_pos (Bool.eq_false_of_not_eq_true hwithin)]
    have hhad : (if k ≤ r + L.window then insert k had else had) = had := by
      split
      · rename_i hkw
        refine Set.insert_eq_of_mem (h.below k ?_)
        rw [hfresh.within_iff] at hwithin
        omega
      · rfl
    rw [hhad]
    exact ⟨r, Nat.le_refl r, h, List.append_nil _⟩

/-- What is dropped was handed over before, or is more than a window ahead. -/
theorem receive_outOfWindow_iff {items : List α} {had : Set ℕ} {r k : ℕ} {s : Reorder σ α}
    (h : Holds L items had r s) (hfresh : L.Fresh r k) (item : α) :
    (receive L.succ L.within (L.label k) item s).1 = .outOfWindow ↔ k < r ∨ r + L.window < k := by
  rw [receive, h.next]
  by_cases hnext : L.label k = L.label r
  · obtain rfl := hfresh.label_eq_iff.1 hnext
    rw [if_pos rfl]
    refine ⟨fun hdrop => absurd hdrop (by simp), fun hdrop => ?_⟩
    omega
  · rw [if_neg hnext]
    by_cases hwithin : L.within (L.label k) (L.label r) = true
    · have hnot : ¬ L.within (L.label k) (L.label r) = false := by rw [hwithin]; decide
      rw [if_neg hnot]
      rw [hfresh.within_iff] at hwithin
      refine ⟨fun hdrop => ?_, fun hdrop => ?_⟩
      · split at hdrop <;> cases hdrop
      · omega
    · rw [if_pos (Bool.eq_false_of_not_eq_true hwithin)]
      rw [hfresh.within_iff] at hwithin
      refine ⟨fun _ => ?_, fun _ => rfl⟩
      omega

omit [DecidableEq σ] in
/-- No more wait than the window is wide. -/
theorem Holds.length_waiting {items : List α} {had : Set ℕ} {r : ℕ} {s : Reorder σ α}
    (h : Holds L items had r s) : s.waiting.length ≤ L.window := by
  classical
  have hsub : (s.waiting.map Prod.fst).toFinset ⊆ (Finset.Ioc r (r + L.window)).image L.label := by
    intro label hlabel
    rw [List.mem_toFinset, List.mem_map] at hlabel
    obtain ⟨w, hw, rfl⟩ := hlabel
    obtain ⟨k, hk, hrk, hwk, -⟩ := h.waits w hw
    have hne : k ≠ r := fun heq => h.gap (heq ▸ hk)
    exact Finset.mem_image.2
      ⟨k, Finset.mem_Ioc.2 ⟨Nat.lt_of_le_of_ne hrk (Ne.symm hne), h.near k hk⟩, hwk.symm⟩
  calc s.waiting.length
      = (s.waiting.map Prod.fst).toFinset.card := by
        rw [List.toFinset_card_of_nodup h.nodup, List.length_map]
    _ ≤ ((Finset.Ioc r (r + L.window)).image L.label).card := Finset.card_le_card hsub
    _ ≤ (Finset.Ioc r (r + L.window)).card := Finset.card_image_le
    _ = L.window := by rw [Nat.card_Ioc, Nat.add_sub_cancel_left]

end Reorder
end Lib
end SvenBridge
