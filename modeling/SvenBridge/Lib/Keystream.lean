import Mathlib.Data.List.Basic
import Mathlib.Logic.Function.Basic

/-!
# Keystream — a text under a stream of involutions

Each place of a text is changed by a map of its own, and by applying the map again changed back.
This file contains

* `under stream place text` — the text under the stream, from a place of the stream on;
* its rules, that a text put under the stream twice is the text again among them;
* `chunks`, and `overChunks`: a loop over the chunks of a text that carries a key from one to the
  next puts the whole text under one stream.
-/

namespace SvenBridge
namespace Lib
namespace Keystream

variable {β κ : Type}

/-- The text under the stream, its first symbol at `place`. -/
def under (stream : ℕ → β → β) (place : ℕ) (text : List β) : List β :=
  text.mapIdx fun index => stream (place + index)

@[simp] theorem under_nil (stream : ℕ → β → β) (place : ℕ) : under stream place [] = [] := rfl

@[simp] theorem length_under (stream : ℕ → β → β) (place : ℕ) (text : List β) :
    (under stream place text).length = text.length := by
  rw [under, List.length_mapIdx]

@[simp] theorem under_cons (stream : ℕ → β → β) (place : ℕ) (b : β) (text : List β) :
    under stream place (b :: text) = stream place b :: under stream (place + 1) text := by
  simp only [under, List.mapIdx_cons, Nat.add_zero, List.cons.injEq, true_and]
  congr 1
  funext index
  congr 1
  omega

theorem under_append (stream : ℕ → β → β) (place : ℕ) (front rest : List β) :
    under stream place (front ++ rest) =
      under stream place front ++ under stream (place + front.length) rest := by
  induction front generalizing place with
  | nil => rfl
  | cons b front ih =>
      rw [List.cons_append, under_cons, ih, under_cons, List.cons_append, List.length_cons,
        Nat.add_right_comm, Nat.add_assoc]

/-- Places where the stream does nothing. -/
theorem under_eq_self {stream : ℕ → β → β} {place : ℕ} {text : List β}
    (h : ∀ index < text.length, stream (place + index) = id) : under stream place text = text := by
  induction text generalizing place with
  | nil => rfl
  | cons b text ih =>
      have hhead : stream place = id := h 0 (Nat.zero_lt_succ _)
      have htail : under stream (place + 1) text = text := by
        apply ih
        intro index hindex
        rw [Nat.add_assoc, Nat.add_comm 1 index]
        exact h (index + 1) (Nat.succ_lt_succ hindex)
      rw [under_cons, hhead, htail]
      rfl

theorem under_under {stream : ℕ → β → β} (h : ∀ place, Function.Involutive (stream place))
    (place : ℕ) (text : List β) : under stream place (under stream place text) = text := by
  induction text generalizing place with
  | nil => rfl
  | cons b text ih => rw [under_cons, under_cons, h place b, ih]

/-! ## Chunk by chunk -/

/-- The first `count` chunks of `width` symbols; the last may be shorter. -/
def chunksFrom (width : ℕ) : ℕ → List β → List (List β)
  | 0, _ => []
  | count + 1, text => text.take width :: chunksFrom width count (text.drop width)

/-- The text cut into chunks of `width` symbols. -/
def chunks (width : ℕ) (text : List β) : List (List β) :=
  chunksFrom width ((text.length + width - 1) / width) text

/-- A loop over the chunks, each under the key that the key before it leads to. -/
def overChunks (next : ℕ → κ → κ) (act : κ → ℕ → ℕ → β → β) :
    ℕ → κ → List (List β) → List β
  | _, _, [] => []
  | index, key, chunk :: rest =>
      let key := next index key
      (chunk.mapIdx fun offset => act key index offset) ++
        overChunks next act (index + 1) key rest

/-- The key of each chunk. -/
def keyOf (next : ℕ → κ → κ) (first : κ) : ℕ → κ
  | 0 => next 0 first
  | index + 1 => next (index + 1) (keyOf next first index)

/-- The stream that such a loop puts the text under. -/
def streamOf (width : ℕ) (next : ℕ → κ → κ) (act : κ → ℕ → ℕ → β → β) (first : κ) :
    ℕ → β → β := fun spot =>
  act (keyOf next first (spot / width)) (spot / width) (spot % width)

theorem overChunks_from {width : ℕ} (hwidth : 0 < width) (next : ℕ → κ → κ)
    (act : κ → ℕ → ℕ → β → β) (first : κ) :
    ∀ (count index : ℕ) (key : κ) (text : List β), text.length ≤ count * width →
      next index key = keyOf next first index →
        overChunks next act index key (chunksFrom width count text) =
          under (streamOf width next act first) (index * width) text := by
  intro count
  induction count with
  | zero =>
      intro index key text hlen _
      have hnil : text = [] := by simpa using hlen
      subst hnil
      rfl
  | succ count ih =>
      intro index key text hlen hkey
      have hchunk : ((text.take width).mapIdx fun offset => act (next index key) index offset) =
          under (streamOf width next act first) (index * width) (text.take width) := by
        apply List.mapIdx_eq_mapIdx_iff.2
        intro offset hoffset
        have hlt : offset < width := Nat.lt_of_lt_of_le hoffset (List.length_take_le _ _)
        have hdiv : (index * width + offset) / width = index := by
          rw [Nat.mul_comm, Nat.mul_add_div hwidth, Nat.div_eq_of_lt hlt, Nat.add_zero]
        have hmod : (index * width + offset) % width = offset := by
          rw [Nat.mul_comm, Nat.mul_add_mod, Nat.mod_eq_of_lt hlt]
        rw [streamOf, hdiv, hmod, hkey]
      have hrest := ih (index + 1) (next index key) (text.drop width)
        (by rw [List.length_drop, Nat.sub_le_iff_le_add, ← Nat.succ_mul]; exact hlen)
        (by rw [keyOf, hkey])
      rw [chunksFrom, overChunks, hchunk, hrest]
      conv_rhs => rw [← List.take_append_drop width text, under_append]
      congr 1
      -- after a short chunk nothing is left
      rcases Nat.lt_or_ge text.length width with hshort | hfull
      · rw [List.drop_eq_nil_of_le (Nat.le_of_lt hshort), under_nil, under_nil]
      · rw [List.length_take_of_le hfull, Nat.succ_mul]

/-- The loop over all chunks. -/
theorem overChunks_chunks {width : ℕ} (hwidth : 0 < width) (next : ℕ → κ → κ)
    (act : κ → ℕ → ℕ → β → β) (first : κ) (text : List β) :
    overChunks next act 0 first (chunks width text) =
      under (streamOf width next act first) 0 text := by
  have hlen : text.length ≤ (text.length + width - 1) / width * width := by
    have := @Nat.lt_div_mul_add (text.length + width - 1) width hwidth
    omega
  rw [chunks, overChunks_from hwidth next act first _ 0 first text hlen rfl, Nat.zero_mul]

end Keystream
end Lib
end SvenBridge
