import Mathlib.Data.List.Basic
import Mathlib.Data.List.Range
import Mathlib.Tactic.Common

/-!
# Segment — messages cut into flagged pieces

A message travels as a non-empty list of pieces; only the last piece carries the `final` flag and
nothing else tells pieces apart.  The receiver concatenates bodies until a final piece arrives.
This file gives

* `feed` / `residue` — the messages a receiver emits on a stream and the buffer it is left with;
* `feed_bind` — the receiver does not look at the bodies, so it commutes with renaming them;
* `stream` — the pieces of messages `0, …, k - 1` that survive a loss pattern `keep`, each labelled
  by (message, piece);
* `feed_stream` — exactly what is emitted after an arbitrary loss, and `emits_whole_iff` — exactly
  which losses never make the receiver emit anything but whole messages.
-/

namespace SvenBridge
namespace Lib

universe u v

/-- A piece of a message: its body, and whether it is the last piece of its message. -/
structure Segment (α : Type u) where
  final : Bool
  body : List α

namespace Segment

variable {α : Type u} {β : Type v}

/-! ## The receiver -/

/-- The buffer after one piece. -/
def absorb (buf : List α) (s : Segment α) : List α :=
  if s.final then [] else buf ++ s.body

/-- The message completed by one piece: a final piece releases the buffer if `accept` admits it. -/
def release (accept : List α → Bool) (buf : List α) (s : Segment α) : Option (List α) :=
  if s.final && accept (buf ++ s.body) then some (buf ++ s.body) else none

theorem eq_of_release {accept : List α → Bool} {buf : List α} {s : Segment α} {m : List α}
    (h : release accept buf s = some m) : m = buf ++ s.body := by
  by_cases hcond : (s.final && accept (buf ++ s.body)) = true
  · simpa [release, hcond] using h.symm
  · simp [release, hcond] at h

/-- The buffer after a stream of pieces. -/
def residue (buf : List α) : List (Segment α) → List α
  | [] => buf
  | s :: ss => residue (absorb buf s) ss

/-- The messages emitted on a stream of pieces. -/
def feed (accept : List α → Bool) (buf : List α) : List (Segment α) → List (List α)
  | [] => []
  | s :: ss => (release accept buf s).toList ++ feed accept (absorb buf s) ss

theorem residue_append (buf : List α) (xs ys : List (Segment α)) :
    residue buf (xs ++ ys) = residue (residue buf xs) ys := by
  -- the buffer is the state that is handed from one part to the other
  induction xs generalizing buf with
  | nil =>
      rfl
  | cons s ss ih =>
      simpa [residue] using ih (absorb buf s)

theorem feed_append (accept : List α → Bool) (buf : List α) (xs ys : List (Segment α)) :
    feed accept buf (xs ++ ys) = feed accept buf xs ++ feed accept (residue buf xs) ys := by
  induction xs generalizing buf with
  | nil =>
      rfl
  | cons s ss ih =>
      simp [feed, residue, ih (absorb buf s), List.append_assoc]

/-! ## Renaming bodies -/

/-- Replace every letter of a body by a list of letters. -/
def bind (f : α → List β) (s : Segment α) : Segment β :=
  { final := s.final
    body := s.body.flatMap f }

theorem absorb_bind (f : α → List β) (buf : List α) (s : Segment α) :
    absorb (buf.flatMap f) (s.bind f) = (absorb buf s).flatMap f := by
  cases hfin : s.final <;> simp [absorb, bind, hfin]

theorem release_bind (accept : List β → Bool) (f : α → List β) (buf : List α) (s : Segment α) :
    release accept (buf.flatMap f) (s.bind f) =
      (release (fun m => accept (m.flatMap f)) buf s).map (fun m => m.flatMap f) := by
  -- only a final piece releases, and it does so if the renamed message is accepted
  cases hfin : s.final
  · simp [release, bind, hfin]
  · by_cases hacc : accept ((buf ++ s.body).flatMap f) = true
    · have hacc' : accept (buf.flatMap f ++ s.body.flatMap f) = true := by
        simpa [List.flatMap_append] using hacc
      simp [release, bind, hfin, hacc']
    · have hacc' : accept (buf.flatMap f ++ s.body.flatMap f) = false := by
        simpa [List.flatMap_append] using hacc
      simp [release, bind, hfin, hacc']

/-! ## Streams with losses

Message `i` has `n i` pieces and `keep i j` says whether piece `j` of message `i` survives. -/

section Loss

variable (keep : ℕ → ℕ → Bool) (n : ℕ → ℕ)

/-- The labels of all pieces of message `i`. -/
def whole (i : ℕ) : List (ℕ × ℕ) :=
  (List.range (n i)).map fun j => (i, j)

/-- The labels of the surviving pieces of message `i`. -/
def kept (i : ℕ) : List (ℕ × ℕ) :=
  ((List.range (n i)).filter (keep i)).map fun j => (i, j)

/-- The surviving pieces of message `i`; a body is the label of its piece. -/
def pieces (i : ℕ) : List (Segment (ℕ × ℕ)) :=
  ((List.range (n i)).filter (keep i)).map fun j => { final := j + 1 == n i, body := [(i, j)] }

/-- The surviving pieces of messages `0, …, k - 1`. -/
def stream : ℕ → List (Segment (ℕ × ℕ))
  | 0 => []
  | k + 1 => stream k ++ pieces keep n k

theorem stream_eq_flatMap (k : ℕ) :
    stream keep n k = (List.range k).flatMap (pieces keep n) := by
  -- message by message, the last one split off
  induction k with
  | zero =>
      rfl
  | succ k ih =>
      rw [stream, ih, List.range_succ, List.flatMap_append]
      simp

/-- Does the last piece of message `i` survive? -/
def lastKept (i : ℕ) : Bool :=
  keep i (n i - 1)

/-- What survives before message `i` and after the latest message whose last piece survived. -/
def leftover : ℕ → List (ℕ × ℕ)
  | 0 => []
  | i + 1 => if lastKept keep n i then [] else leftover i ++ kept keep n i

variable {keep n}

/-- Pieces that are not last only extend the buffer. -/
theorem residue_of_not_final (buf : List α) (ss : List (Segment α))
    (h : ∀ s ∈ ss, s.final = false) : residue buf ss = buf ++ ss.flatMap Segment.body := by
  induction ss generalizing buf with
  | nil =>
      simp [residue]
  | cons s ss ih =>
      have hs : s.final = false := h s (by simp)
      have hss := ih (absorb buf s) (fun t ht => h t (by simp [ht]))
      rw [residue, hss]
      simp [absorb, hs, List.append_assoc]

theorem feed_of_not_final (accept : List α → Bool) (buf : List α) (ss : List (Segment α))
    (h : ∀ s ∈ ss, s.final = false) : feed accept buf ss = [] := by
  induction ss generalizing buf with
  | nil =>
      rfl
  | cons s ss ih =>
      have hs : s.final = false := h s (by simp)
      simp [feed, release, hs, ih _ (fun t ht => h t (by simp [ht]))]

/-- The surviving pieces of a message, its last piece set apart. -/
theorem pieces_eq {i : ℕ} (hn : 0 < n i) :
    ∃ front : List (Segment (ℕ × ℕ)),
      (∀ s ∈ front, s.final = false) ∧
      front.flatMap Segment.body =
        ((List.range (n i - 1)).filter (keep i)).map (fun j => (i, j)) ∧
      pieces keep n i =
        front ++ (if lastKept keep n i then [{ final := true, body := [(i, n i - 1)] }] else []) := by
  -- the piece before the last is never final, whatever survives of the others
  refine ⟨((List.range (n i - 1)).filter (keep i)).map
    (fun j => { final := j + 1 == n i, body := [(i, j)] }), ?_, ?_, ?_⟩
  · intro s hs
    obtain ⟨j, hj, rfl⟩ := List.mem_map.1 hs
    have hlt : j < n i - 1 := List.mem_range.1 (List.mem_filter.1 hj).1
    have hne : j + 1 ≠ n i := by omega
    simpa using hne
  · rw [List.flatMap_map, ← List.map_eq_flatMap]
  · obtain ⟨m, hm⟩ : ∃ m, n i = m + 1 := ⟨n i - 1, by omega⟩
    by_cases hlast : keep i m = true <;>
      simp [pieces, lastKept, hm, List.range_succ, List.filter_append, hlast]

theorem kept_eq {i : ℕ} (hn : 0 < n i) :
    kept keep n i =
      ((List.range (n i - 1)).filter (keep i)).map (fun j => (i, j)) ++
        (if lastKept keep n i then [(i, n i - 1)] else []) := by
  obtain ⟨m, hm⟩ : ∃ m, n i = m + 1 := ⟨n i - 1, by omega⟩
  by_cases hlast : keep i m = true <;>
    simp [kept, lastKept, hm, List.range_succ, List.filter_append, hlast]

theorem residue_pieces {i : ℕ} (hn : 0 < n i) (buf : List (ℕ × ℕ)) :
    residue buf (pieces keep n i) =
      if lastKept keep n i then [] else buf ++ kept keep n i := by
  obtain ⟨front, hfront, hbody, hpieces⟩ := @pieces_eq keep n i hn
  rw [hpieces, residue_append, residue_of_not_final _ _ hfront, hbody]
  by_cases hlast : lastKept keep n i = true
  · simp [hlast, residue, absorb]
  · simp [hlast, residue, kept_eq hn]

theorem feed_pieces {i : ℕ} (hn : 0 < n i) (accept : List (ℕ × ℕ) → Bool)
    (buf : List (ℕ × ℕ)) :
    feed accept buf (pieces keep n i) =
      if lastKept keep n i && accept (buf ++ kept keep n i) then [buf ++ kept keep n i] else [] := by
  obtain ⟨front, hfront, hbody, hpieces⟩ := @pieces_eq keep n i hn
  rw [hpieces, feed_append, feed_of_not_final _ _ _ hfront, residue_of_not_final _ _ hfront, hbody]
  -- without its last piece a message releases nothing, with it whatever the buffer then holds
  by_cases hlast : lastKept keep n i = true
  · have hkept := @kept_eq keep n i hn
    simp only [hlast, if_true] at hkept
    by_cases hacc : accept (buf ++ kept keep n i) = true
    · simp [hlast, feed, release, hkept ▸ hacc, hkept]
    · have hacc' : accept (buf ++ kept keep n i) = false := by
        simpa using hacc
      simp [hlast, feed, release, hkept ▸ hacc', hkept]
  · simp [hlast, feed]

theorem residue_stream {k : ℕ} (hn : ∀ i < k, 0 < n i) :
    residue [] (stream keep n k) = leftover keep n k := by
  -- what a message leaves over depends on what the one before it has left
  induction k with
  | zero =>
      rfl
  | succ k ih =>
      have hprev := ih (fun i hi => hn i (by omega))
      rw [stream, residue_append, hprev, residue_pieces (hn k (by omega))]
      rfl

/-- What message `i` makes the receiver emit. -/
def emission (keep : ℕ → ℕ → Bool) (n : ℕ → ℕ) (accept : List (ℕ × ℕ) → Bool) (i : ℕ) :
    Option (List (ℕ × ℕ)) :=
  if lastKept keep n i && accept (leftover keep n i ++ kept keep n i) then
    some (leftover keep n i ++ kept keep n i)
  else
    none

/-- Everything the receiver emits after an arbitrary loss. -/
theorem feed_stream (accept : List (ℕ × ℕ) → Bool) {k : ℕ} (hn : ∀ i < k, 0 < n i) :
    feed accept [] (stream keep n k) = (List.range k).filterMap (emission keep n accept) := by
  -- the buffer in front of message `k` is the leftover of the messages before it
  induction k with
  | zero =>
      rfl
  | succ k ih =>
      have hpos : ∀ i < k, 0 < n i := fun i hi => hn i (by omega)
      rw [stream, feed_append, ih hpos, residue_stream hpos, feed_pieces (hn k (by omega)),
        List.range_succ, List.filterMap_append]
      congr 1
      by_cases hemit : (lastKept keep n k && accept (leftover keep n k ++ kept keep n k)) = true <;>
        simp [emission, hemit]

theorem fst_lt_of_mem_leftover {i : ℕ} {p : ℕ × ℕ} (hp : p ∈ leftover keep n i) : p.1 < i := by
  -- a leftover comes from an earlier message, or is part of the one that adds to it
  induction i with
  | zero =>
      simp [leftover] at hp
  | succ i ih =>
      by_cases hlast : lastKept keep n i = true
      · simp [leftover, hlast] at hp
      · simp only [leftover, hlast, Bool.false_eq_true, if_false, List.mem_append] at hp
        rcases hp with hp | hp
        · exact Nat.lt_succ_of_lt (ih hp)
        · obtain ⟨j, _, rfl⟩ := List.mem_map.1 hp
          exact Nat.lt_succ_self i

theorem kept_eq_whole_iff {i : ℕ} :
    kept keep n i = whole n i ↔ ∀ j < n i, keep i j = true := by
  have hinj : Function.Injective fun j : ℕ => (i, j) := fun a b hab => congrArg Prod.snd hab
  rw [kept, whole, hinj.list_map.eq_iff, List.filter_eq_self]
  simp

/-- A buffer of survivors is a whole message only if nothing was left over and nothing is
missing. -/
theorem leftover_append_kept_eq_whole_iff {i i' : ℕ} (hn : 0 < n i)
    (hlast : lastKept keep n i = true) :
    leftover keep n i ++ kept keep n i = whole n i' ↔
      i' = i ∧ leftover keep n i = [] ∧ ∀ j < n i, keep i j = true := by
  constructor
  · intro heq
    -- the last piece tells which message it would have to be
    have hmem : (i, n i - 1) ∈ leftover keep n i ++ kept keep n i := by
      have hlt : n i - 1 < n i := by omega
      have hkeep : keep i (n i - 1) = true := hlast
      simp [kept, hlt, hkeep]
    have hi : i' = i := by
      rw [heq] at hmem
      obtain ⟨j, _, hj⟩ := List.mem_map.1 hmem
      exact congrArg Prod.fst hj
    subst hi
    -- a leftover piece belongs to an earlier message, and so to none that is whole
    have hleft : leftover keep n i' = [] := by
      rw [List.eq_nil_iff_forall_not_mem]
      intro p hp
      have hlt := fst_lt_of_mem_leftover hp
      have hpw : p ∈ whole n i' := heq ▸ List.mem_append_left _ hp
      obtain ⟨j, _, rfl⟩ := List.mem_map.1 hpw
      exact lt_irrefl _ hlt
    refine ⟨rfl, hleft, kept_eq_whole_iff.1 ?_⟩
    simpa [hleft] using heq
  · rintro ⟨rfl, hleft, hall⟩
    simpa [hleft] using kept_eq_whole_iff.2 hall

/-- The receiver emits only whole messages exactly when every surviving last piece completes its
own message: nothing is left over from before and none of its pieces is missing (or the receiver
refuses what it has gathered). -/
theorem emits_whole_iff (accept : List (ℕ × ℕ) → Bool) {k : ℕ} (hn : ∀ i < k, 0 < n i) :
    (∀ m ∈ feed accept [] (stream keep n k), ∃ i < k, m = whole n i) ↔
      ∀ i < k, lastKept keep n i = true →
        (leftover keep n i = [] ∧ ∀ j < n i, keep i j = true) ∨
          accept (leftover keep n i ++ kept keep n i) = false := by
  rw [feed_stream accept hn]
  constructor
  · intro hwhole i hi hlast
    by_cases hacc : accept (leftover keep n i ++ kept keep n i) = true
    · have hmem : leftover keep n i ++ kept keep n i ∈
          (List.range k).filterMap (emission keep n accept) :=
        List.mem_filterMap.2 ⟨i, List.mem_range.2 hi, by simp [emission, hlast, hacc]⟩
      obtain ⟨i', _, heq⟩ := hwhole _ hmem
      exact Or.inl ((leftover_append_kept_eq_whole_iff (hn i hi) hlast).1 heq).2
    · exact Or.inr (by simpa using hacc)
  · intro hclean m hm
    obtain ⟨i, hi, hemit⟩ := List.mem_filterMap.1 hm
    have hlt : i < k := List.mem_range.1 hi
    by_cases hcond : (lastKept keep n i && accept (leftover keep n i ++ kept keep n i)) = true
    · have hm' : leftover keep n i ++ kept keep n i = m := by
        simpa [emission, hcond] using hemit
      have hlast : lastKept keep n i = true := by
        simpa using (Bool.and_eq_true_iff.1 hcond).1
      rcases hclean i hlt hlast with hok | hrefused
      · exact ⟨i, hlt, hm' ▸ (leftover_append_kept_eq_whole_iff (hn i hlt) hlast).2 ⟨rfl, hok⟩⟩
      · have := (Bool.and_eq_true_iff.1 hcond).2
        simp [hrefused] at this
    · simp [emission, hcond] at hemit

end Loss

end Segment

end Lib
end SvenBridge
