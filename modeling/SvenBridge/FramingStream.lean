import Mathlib.Algebra.BigOperators.Group.List.Basic
import Mathlib.Algebra.GroupWithZero.Nat
import Mathlib.Data.List.DropRight
import SvenBridge.LinkMtu

/-!
# FramingStream — streams of frames and arbitrary chunk streams

What `frame` and `Reassembler` do over a whole link direction.  This file contains

* `RoundTrip` — a stream of frames is reassembled datagram by datagram, without residue, and every
  chunk is well formed;
* `runPayload` — the buffer after an arbitrary chunk stream, and which streams keep it bounded.
-/

namespace SvenBridge

/-! ## The chunks of a frame -/

/-- How many chunks a datagram of the given length takes. -/
def frameCount (len : ℕ) : ℕ :=
  max 1 ((len + maxChunk - 1) / maxChunk)

theorem frameCount_short {len : ℕ} (h : len ≤ maxChunk) : frameCount len = 1 := by
  have hdiv : (len + maxChunk - 1) / maxChunk ≤ 1 := by
    simp only [maxChunk] at h ⊢
    omega
  exact max_eq_left hdiv

theorem frameCount_long {len : ℕ} (h : maxChunk < len) :
    frameCount len = frameCount (len - maxChunk) + 1 := by
  simp only [frameCount, maxChunk] at h ⊢
  omega

theorem length_frame (d : Datagram) : (frame d).length = frameCount d.length := by
  induction d using frame_induction with
  | short d h =>
      rw [frame_short h, frameCount_short h]
      rfl
  | long d h ih =>
      rw [frame_long h, List.length_cons, ih, List.length_drop, frameCount_long h]

/-- The final flag is set on the last chunk of a frame and on no other. -/
theorem frame_final (d : Datagram) :
    ∃ front last, frame d = front ++ [last] ∧ (∀ c ∈ front, completes c = false) ∧
      completes last = true := by
  induction d using frame_induction with
  | short d h =>
      exact ⟨[], flagFinal :: d, frame_short h, by simp, rfl⟩
  | long d h ih =>
      obtain ⟨front, last, hframe, hfront, hlast⟩ := ih
      refine ⟨(0 :: d.take maxChunk) :: front, last, ?_, ?_, hlast⟩
      · rw [frame_long h, hframe]
        rfl
      · intro c hc
        rcases List.mem_cons.1 hc with rfl | hc
        · rfl
        · exact hfront c hc

/-! ## Round trip over a stream -/

/-- The datagrams of `ds`, framed one after the other and reassembled from an empty buffer. -/
structure RoundTrip (ds : List Datagram) : Prop where
  /-- Exactly the datagrams within the UDP maximum come out, unchanged and in order. -/
  emits : (({} : Reassembler).pushAll (ds.flatMap frame)).2 =
    ds.filter fun d => d.length ≤ maxDatagram
  /-- No datagram leaves a residue for the next one. -/
  empties : ∀ n, (({} : Reassembler).pushAll ((ds.take n).flatMap frame)).1.buf = []
  chunk_length : ∀ d ∈ ds, ∀ c ∈ frame d, 1 ≤ c.length ∧ c.length ≤ maxChunk + 1
  /-- `SendToLinkPayload::from_slice` takes every chunk. -/
  fits_payload : ∀ d ∈ ds, ∀ c ∈ frame d, c.length ≤ maxSendToLinkPlaintextLen
  final : ∀ d ∈ ds, ∃ front last, frame d = front ++ [last] ∧
    (∀ c ∈ front, completes c = false) ∧ completes last = true
  count : ∀ d ∈ ds, (frame d).length = max 1 ((d.length + maxChunk - 1) / maxChunk)

/-- Every stream of datagrams survives the round trip. -/
theorem framing_roundTrip (ds : List Datagram) : RoundTrip ds where
  emits := by
    rw [Reassembler.pushAll_flatMap_frame]
  empties := by
    intro n
    rw [Reassembler.pushAll_flatMap_frame]
  chunk_length := by
    intro d _ c hc
    have hlen := frame_chunk_length hc
    have hmin : min d.length maxChunk ≤ maxChunk := Nat.min_le_right _ _
    exact ⟨hlen.1, by omega⟩
  fits_payload := by
    intro d _ c hc
    exact frame_chunk_fits_payload hc
  final := by
    intro d _
    exact frame_final d
  count := by
    intro d _
    exact length_frame d

/-! ## The buffer on an arbitrary chunk stream -/

/-- The payload bytes of some chunks. -/
def payloadLength (cs : List Chunk) : ℕ :=
  (cs.map fun c => c.length - 1).sum

/-- The chunks after the last one that completes a datagram. -/
def pendingRun (cs : List Chunk) : List Chunk :=
  cs.rtakeWhile fun c => !completes c

theorem pendingRun_concat (cs : List Chunk) (c : Chunk) :
    pendingRun (cs ++ [c]) = if completes c then [] else pendingRun cs ++ [c] := by
  cases hc : completes c <;> simp [pendingRun, hc]

theorem payloadLength_concat (cs : List Chunk) (c : Chunk) :
    payloadLength (cs ++ [c]) = payloadLength cs + (c.length - 1) := by
  simp [payloadLength]

theorem payloadLength_append (xs ys : List Chunk) :
    payloadLength (xs ++ ys) = payloadLength xs + payloadLength ys := by
  simp [payloadLength]

/-- One push keeps the payload, or drops everything when the chunk completes a datagram. -/
theorem length_buf_push (r : Reassembler) (c : Chunk) :
    (r.push c).1.buf.length = if completes c then 0 else r.buf.length + (c.length - 1) := by
  cases c with
  | nil =>
      rfl
  | cons header body =>
      cases hfin : isFinal header with
      | false =>
          simp [Reassembler.push, completes, hfin]
      | true =>
          -- both arms of the size guard leave the buffer empty
          by_cases hlen : (r.buf ++ body).length > maxDatagram
          · simp only [Reassembler.push, completes, hfin, hlen, if_true, List.length_nil]
          · simp only [Reassembler.push, completes, hfin, hlen, if_true, if_false, List.length_nil]

/-- The buffer holds the payload of the pending run. -/
theorem length_buf_pushAll (cs : List Chunk) :
    (({} : Reassembler).pushAll cs).1.buf.length = payloadLength (pendingRun cs) := by
  induction cs using List.reverseRecOn with
  | nil =>
      rfl
  | append_singleton cs c ih =>
      rw [Reassembler.pushAll_concat, length_buf_push, ih, pendingRun_concat]
      cases completes c with
      | true =>
          rfl
      | false =>
          exact (payloadLength_concat _ _).symm

/-- After every push the reassembler retains at most a maximal datagram. -/
def BufferBounded (cs : List Chunk) : Prop :=
  ∀ sent, sent <+: cs → (({} : Reassembler).pushAll sent).1.buf.length ≤ maxDatagram

/-- No consecutive chunks without the final flag carry more than a maximal datagram. -/
def RunsBounded (cs : List Chunk) : Prop :=
  ∀ run, run <:+: cs → (∀ c ∈ run, completes c = false) → payloadLength run ≤ maxDatagram

/-- The buffer is bounded exactly on the streams whose unfinished runs are. -/
theorem bufferBounded_iff (cs : List Chunk) : BufferBounded cs ↔ RunsBounded cs := by
  constructor
  · intro hbuf run hrun hopen
    obtain ⟨pre, post, hcs⟩ := hrun
    have hle := hbuf (pre ++ run) ⟨post, hcs⟩
    rw [length_buf_pushAll] at hle
    -- the run is the end of the pending run of what was sent up to it
    have hpending : pendingRun (pre ++ run) = pendingRun pre ++ run := by
      clear hcs hle
      induction run using List.reverseRecOn with
      | nil =>
          simp
      | append_singleton run c ih =>
          have hc : completes c = false := hopen c (by simp)
          have hrest := ih fun c' hc' => hopen c' (by simp [hc'])
          rw [← List.append_assoc, pendingRun_concat, hc, hrest]
          simp
    rw [hpending, payloadLength_append] at hle
    omega
  · intro hruns sent hsent
    rw [length_buf_pushAll]
    have hsuffix : pendingRun sent <:+ sent := List.rtakeWhile_suffix _ _
    refine hruns _ (hsuffix.isInfix.trans hsent.isInfix) ?_
    intro c hc
    simpa using List.mem_rtakeWhile_imp hc

/-- 35 full chunks that complete nothing. -/
def endlessDatagram : List Chunk :=
  List.replicate 35 (List.replicate (maxChunk + 1) 0)

/-- A peer that never sets the final flag fills the buffer past the bound. -/
theorem exists_unbounded_buffer :
    ¬ ∀ cs : List Chunk, (∀ c ∈ cs, c.length ≤ maxSendToLinkPlaintextLen) → BufferBounded cs := by
  intro hall
  have hfits : ∀ c ∈ endlessDatagram, c.length ≤ maxSendToLinkPlaintextLen := by
    intro c hc
    rw [List.eq_of_mem_replicate hc, List.length_replicate]
    decide
  have hruns := (bufferBounded_iff _).1 (hall endlessDatagram hfits)
  have hopen : ∀ c ∈ endlessDatagram, completes c = false := by
    intro c hc
    rw [List.eq_of_mem_replicate hc]
    rfl
  have hle := hruns _ (List.infix_refl _) hopen
  simp only [endlessDatagram, payloadLength, List.map_replicate, List.sum_replicate,
    List.length_replicate] at hle
  exact absurd hle (by decide)

end SvenBridge
