import Mathlib.Tactic.Common
import SvenBridge.Basic
import SvenBridge.Lib.Segment

/-!
# Framing — `src/framing.rs`

The bridge cuts a GoldSrc datagram into chunks of one header byte and at most `maxChunk` payload
bytes, and puts the chunks of one link direction back together in a `Reassembler`.  This file
contains

* `frame` and `Reassembler.push` as the source has them;
* the shape of a framed datagram (`frame_short`, `frame_long`, chunk lengths, final flags);
* the refinement of `Reassembler.push` to the segment receiver of `Lib.Segment`;
* the lossless round trip.
-/

namespace SvenBridge

open Lib

/-- The largest payload of one chunk. -/
def maxChunk : ℕ := 1900

/-- Header bit 0: final chunk of this datagram. -/
def flagFinal : UInt8 := 0x01

/-- The largest datagram a reassembly may produce (UDP maximum). -/
def maxDatagram : ℕ := 65535

/-! ## `frame` -/

/-- The `while offset < datagram.len()` loop; every turn consumes at least one byte, so
`datagram.len()` turns are enough. -/
def frameLoop (datagram : Datagram) : ℕ → ℕ → List Chunk
  | 0, _ => []
  | fuel + 1, offset =>
      if offset < datagram.length then
        let stop := min (offset + maxChunk) datagram.length
        let header := if stop == datagram.length then flagFinal else 0
        (header :: (datagram.drop offset).take (stop - offset)) :: frameLoop datagram fuel stop
      else
        []

/-- Frame one datagram into link-packet payloads, in order. -/
def frame (datagram : Datagram) : List Chunk :=
  if datagram.isEmpty then
    -- A zero-length datagram is a single final chunk with no payload.
    [[flagFinal]]
  else
    frameLoop datagram datagram.length 0

/-- The loop only looks at what is left of the datagram. -/
theorem frameLoop_eq_drop (datagram : Datagram) (fuel : ℕ) {offset : ℕ}
    (hle : offset ≤ datagram.length) :
    frameLoop datagram fuel offset = frameLoop (datagram.drop offset) fuel 0 := by
  -- the two loops take the same chunk: their ends differ by the offset only
  induction fuel generalizing datagram offset with
  | zero =>
      rfl
  | succ fuel ih =>
      by_cases hlt : offset < datagram.length
      · have hstop : min (offset + maxChunk) datagram.length - offset =
            min maxChunk (datagram.length - offset) := by
          omega
        have hflag : (min (offset + maxChunk) datagram.length == datagram.length) =
            (min maxChunk (datagram.length - offset) == datagram.length - offset) := by
          rw [Bool.eq_iff_iff]
          simp only [beq_iff_eq]
          omega
        have hrest := @ih datagram (min (offset + maxChunk) datagram.length) (by omega)
        have hrest' := @ih (datagram.drop offset) (min maxChunk (datagram.length - offset))
          (by rw [List.length_drop]; exact Nat.min_le_right _ _)
        have hdrop : datagram.drop (min (offset + maxChunk) datagram.length) =
            (datagram.drop offset).drop (min maxChunk (datagram.length - offset)) := by
          rw [List.drop_drop]
          congr 1
          omega
        have hpos : 0 < datagram.length - offset := by omega
        simp [frameLoop, hlt, hpos, hstop, hflag, hrest, hrest', hdrop]
      · have hpos : ¬ 0 < datagram.length - offset := by omega
        simp [frameLoop, hlt, hpos]

/-- More turns than bytes change nothing. -/
theorem frameLoop_fuel (datagram : Datagram) {fuel : ℕ} (hfuel : datagram.length ≤ fuel) :
    frameLoop datagram fuel 0 = frameLoop datagram datagram.length 0 := by
  -- each turn takes at least one byte, so that the fuel outlasts the datagram
  induction fuel using Nat.strong_induction_on generalizing datagram with
  | _ fuel ih =>
      rcases Nat.eq_zero_or_pos datagram.length with hzero | hpos
      · have hnil : datagram = [] := List.length_eq_zero_iff.1 hzero
        subst hnil
        cases fuel <;> rfl
      · obtain ⟨m, hm⟩ : ∃ m, fuel = m + 1 := ⟨fuel - 1, by omega⟩
        obtain ⟨l, hl⟩ : ∃ l, datagram.length = l + 1 := ⟨datagram.length - 1, by omega⟩
        subst hm
        have hchunk : 0 < maxChunk := by decide
        have hstop : min (0 + maxChunk) datagram.length ≤ datagram.length := by omega
        rw [hl]
        simp only [frameLoop, hpos, if_true]
        rw [frameLoop_eq_drop _ m hstop, frameLoop_eq_drop _ l hstop]
        have hlen : (datagram.drop (min (0 + maxChunk) datagram.length)).length ≤ l := by
          rw [List.length_drop]
          omega
        rw [ih m (by omega) _ (by omega), ← ih l (by omega) _ hlen]

/-- A datagram that fits one chunk is framed as that chunk, flagged final. -/
theorem frame_short {datagram : Datagram} (h : datagram.length ≤ maxChunk) :
    frame datagram = [flagFinal :: datagram] := by
  cases datagram with
  | nil =>
      rfl
  | cons b rest =>
      have hmin : min maxChunk (rest.length + 1) = rest.length + 1 :=
        Nat.min_eq_right h
      have hdone : ∀ fuel, frameLoop (b :: rest) fuel (rest.length + 1) = [] := by
        intro fuel
        cases fuel <;> simp [frameLoop]
      simp [frame, frameLoop, hmin, hdone]

/-- A longer datagram is one non-final chunk followed by the frame of its remainder. -/
theorem frame_long {datagram : Datagram} (h : maxChunk < datagram.length) :
    frame datagram = (0 :: datagram.take maxChunk) :: frame (datagram.drop maxChunk) := by
  obtain ⟨l, hl⟩ : ∃ l, datagram.length = l + 1 := ⟨datagram.length - 1, by omega⟩
  have hpos : 0 < datagram.length := by omega
  have hchunk : 0 < maxChunk := by decide
  have hmin : min (0 + maxChunk) datagram.length = maxChunk := by omega
  have hne : (maxChunk == datagram.length) = false := by
    simpa using Nat.ne_of_lt h
  have hempty : datagram.isEmpty = false := by
    cases datagram <;> simp_all
  have hempty' : (datagram.drop maxChunk).isEmpty = false := by
    rw [List.isEmpty_eq_false_iff, ne_eq, ← List.length_eq_zero_iff, List.length_drop]
    omega
  have hlen : (datagram.drop maxChunk).length ≤ l := by
    rw [List.length_drop]
    omega
  rw [frame, frame, hempty, hempty', hl]
  simp only [frameLoop, hpos, if_true, hmin, hne, Bool.false_eq_true, if_false, List.drop_zero,
    Nat.sub_zero]
  rw [frameLoop_eq_drop _ l (Nat.le_of_lt h), frameLoop_fuel _ hlen]

/-- Datagrams by the number of chunks they take. -/
theorem frame_induction {P : Datagram → Prop}
    (short : ∀ d : Datagram, d.length ≤ maxChunk → P d)
    (long : ∀ d : Datagram, maxChunk < d.length → P (d.drop maxChunk) → P d)
    (d : Datagram) : P d := by
  -- the remainder behind a full chunk is shorter
  induction hlen : d.length using Nat.strong_induction_on generalizing d with
  | _ n ih =>
      by_cases h : d.length ≤ maxChunk
      · exact short d h
      · have hchunk : 0 < maxChunk := by decide
        have hlt : (d.drop maxChunk).length < n := by
          rw [List.length_drop]
          omega
        exact long d (by omega) (ih _ hlt _ rfl)

theorem frame_ne_nil (d : Datagram) : frame d ≠ [] := by
  by_cases h : d.length ≤ maxChunk
  · simp [frame_short h]
  · simp [frame_long (Nat.lt_of_not_le h)]

/-- Chunk lengths stay within one header byte and `maxChunk`; the longest chunk is as long as the
datagram allows. -/
theorem frame_chunk_length {d : Datagram} {c : Chunk} (hc : c ∈ frame d) :
    1 ≤ c.length ∧ c.length ≤ min d.length maxChunk + 1 := by
  induction d using frame_induction with
  | short d h =>
      rw [frame_short h, List.mem_singleton] at hc
      subst hc
      simp only [List.length_cons]
      omega
  | long d h ih =>
      rw [frame_long h, List.mem_cons] at hc
      rcases hc with rfl | hc
      · simp only [List.length_cons, List.length_take]
        omega
      · have hle := ih hc
        rw [List.length_drop] at hle
        omega

theorem exists_longest_chunk (d : Datagram) :
    ∃ c ∈ frame d, c.length = min d.length maxChunk + 1 := by
  by_cases h : d.length ≤ maxChunk
  · refine ⟨flagFinal :: d, by simp [frame_short h], ?_⟩
    simp only [List.length_cons]
    omega
  · have hlt := Nat.lt_of_not_le h
    refine ⟨0 :: d.take maxChunk, by simp [frame_long hlt], ?_⟩
    simp only [List.length_cons, List.length_take]
    omega

theorem frame_chunk_ne_nil {d : Datagram} {c : Chunk} (hc : c ∈ frame d) : c ≠ [] := by
  have hlen := (frame_chunk_length hc).1
  rintro rfl
  simp at hlen

/-- The bodies of a frame are the datagram. -/
theorem flatMap_tail_frame (d : Datagram) : (frame d).flatMap List.tail = d := by
  induction d using frame_induction with
  | short d h =>
      simp [frame_short h]
  | long d h ih =>
      rw [frame_long h, List.flatMap_cons, ih]
      exact List.take_append_drop _ _

/-- Is the final bit of a chunk's header set? -/
def isFinal (header : UInt8) : Bool :=
  header &&& flagFinal != 0

/-- Does this chunk complete a datagram? -/
def completes : Chunk → Bool
  | [] => false
  | header :: _ => isFinal header

/-- Chunks short of a whole frame complete nothing. -/
theorem completes_of_prefix_frame {d : Datagram} {cs : List Chunk} (hcs : cs <+: frame d)
    (hne : cs ≠ frame d) {c : Chunk} (hc : c ∈ cs) : completes c = false := by
  -- only the last chunk of a frame has the final bit, and it is not among these
  induction d using frame_induction generalizing cs with
  | short d h =>
      rw [frame_short h] at hcs hne
      rcases List.prefix_cons_iff.1 hcs with rfl | ⟨rest, rfl, hrest⟩
      · cases hc
      · exact absurd (by rw [List.prefix_nil.1 hrest]) hne
  | long d h ih =>
      rw [frame_long h] at hcs hne
      rcases List.prefix_cons_iff.1 hcs with rfl | ⟨rest, rfl, hrest⟩
      · cases hc
      · rcases List.mem_cons.1 hc with rfl | hc
        · rfl
        · exact ih hrest (fun heq => hne (by rw [heq])) hc

/-- Nothing is left of a datagram begun: the last chunk, if any, completes one. -/
def endsComplete (cs : List Chunk) : Bool :=
  match cs.getLast? with
  | some c => completes c
  | none => true

/-- A stream of frames cut after a completing chunk is cut between two frames. -/
theorem exists_take_of_prefix_frames {ds : List Datagram} {cs : List Chunk}
    (hcs : cs <+: ds.flatMap frame) (hend : endsComplete cs = true) :
    ∃ n, cs = (ds.take n).flatMap frame := by
  -- the cut is inside the first frame, which then is not complete, or behind it
  induction ds generalizing cs with
  | nil =>
      exact ⟨0, List.prefix_nil.1 hcs⟩
  | cons d ds ih =>
      rw [List.flatMap_cons] at hcs
      rcases List.prefix_or_prefix_of_prefix hcs (List.prefix_append _ _) with hshort | hlong
      · by_cases heq : cs = frame d
        · exact ⟨1, by simp [heq]⟩
        · cases hlast : cs.getLast? with
          | none =>
              exact ⟨0, by simpa using hlast⟩
          | some c =>
              have hmem : c ∈ cs := List.mem_of_getLast? hlast
              have hno := completes_of_prefix_frame hshort heq hmem
              simp only [endsComplete, hlast, hno] at hend
              cases hend
      · obtain ⟨rest, rfl⟩ := hlong
        have hrest : rest <+: ds.flatMap frame := (List.prefix_append_right_inj _).1 hcs
        have hend' : endsComplete rest = true := by
          cases rest with
          | nil =>
              rfl
          | cons c rest =>
              have hsame : (frame d ++ c :: rest).getLast? = (c :: rest).getLast? := by
                simp [List.getLast?_append, List.getLast?_cons]
              rwa [endsComplete, hsame] at hend
        obtain ⟨n, hn⟩ := ih hrest hend'
        exact ⟨n + 1, by simp [hn]⟩

/-! ## Empty datagrams -/

/-- The datagrams that are not empty. -/
def nonEmpty (ds : List Datagram) : List Datagram :=
  ds.filter fun d => !d.isEmpty

theorem nonEmpty_append (xs ys : List Datagram) :
    nonEmpty (xs ++ ys) = nonEmpty xs ++ nonEmpty ys :=
  List.filter_append ..

theorem nonEmpty_eq_self {ds : List Datagram} (h : ∀ d ∈ ds, d ≠ []) : nonEmpty ds = ds := by
  rw [nonEmpty, List.filter_eq_self]
  simpa using h

theorem nonEmpty_eq_nil {ds : List Datagram} (h : ∀ d ∈ ds, d = []) : nonEmpty ds = [] := by
  rw [nonEmpty, List.filter_eq_nil_iff]
  simpa using h

theorem mem_of_mem_nonEmpty {ds : List Datagram} {d : Datagram} (h : d ∈ nonEmpty ds) : d ∈ ds :=
  (List.mem_filter.1 h).1

/-! ## `Reassembler` -/

/-- A per-direction reassembly buffer. -/
structure Reassembler where
  buf : List UInt8 := []
  deriving DecidableEq

namespace Reassembler

/-- `push`: a datagram is returned when its final chunk arrives. -/
def push (r : Reassembler) (chunk : Chunk) : Reassembler × Option Datagram :=
  match chunk with
  | [] => (r, none)
  | header :: body =>
      let buf := r.buf ++ body
      if isFinal header then
        let complete := buf
        if complete.length > maxDatagram then
          ({ buf := [] }, none)
        else
          ({ buf := [] }, some complete)
      else
        ({ buf := buf }, none)

/-- Push a list of chunks; the datagrams returned, in order. -/
def pushAll (r : Reassembler) : List Chunk → Reassembler × List Datagram
  | [] => (r, [])
  | c :: cs =>
      let rest := pushAll (r.push c).1 cs
      (rest.1, (r.push c).2.toList ++ rest.2)

theorem pushAll_append (r : Reassembler) (xs ys : List Chunk) :
    r.pushAll (xs ++ ys) =
      (((r.pushAll xs).1.pushAll ys).1, (r.pushAll xs).2 ++ ((r.pushAll xs).1.pushAll ys).2) := by
  -- the reassembler after the first part goes on with the second
  induction xs generalizing r with
  | nil =>
      rfl
  | cons c cs ih =>
      simp [pushAll, ih, List.append_assoc]

theorem pushAll_concat (r : Reassembler) (xs : List Chunk) (c : Chunk) :
    r.pushAll (xs ++ [c]) =
      (((r.pushAll xs).1.push c).1,
        (r.pushAll xs).2 ++ ((r.pushAll xs).1.push c).2.toList) := by
  simp [pushAll_append, pushAll]

/-! ## The reassembler is the segment receiver -/

/-- The size guard on a completed datagram. -/
def accept (complete : List UInt8) : Bool :=
  !decide (complete.length > maxDatagram)

/-- A non-empty chunk is a segment. -/
def segment? : Chunk → Option (Segment UInt8)
  | [] => none
  | header :: body => some { final := isFinal header, body := body }

theorem push_eq_segment (r : Reassembler) (header : UInt8) (body : List UInt8) :
    r.push (header :: body) =
      ({ buf := Segment.absorb r.buf { final := isFinal header, body := body } },
        Segment.release accept r.buf { final := isFinal header, body := body }) := by
  -- a final chunk empties the buffer, and its datagram is returned unless it is too long
  by_cases hfin : isFinal header = true
  · by_cases hlen : (r.buf ++ body).length > maxDatagram
    · have hacc : accept (r.buf ++ body) = false := by
        simpa [accept] using hlen
      simp only [push, hfin, hlen, if_true, Segment.absorb, Segment.release, hacc, Bool.and_false,
        Bool.false_eq_true, if_false]
    · have hacc : accept (r.buf ++ body) = true := by
        simpa [accept] using hlen
      simp only [push, hfin, hlen, if_true, if_false, Segment.absorb, Segment.release, hacc,
        Bool.and_self]
  · simp [push, hfin, Segment.absorb, Segment.release]

/-- `Reassembler` refines the receiver of `Lib.Segment`. -/
theorem pushAll_eq_segment (r : Reassembler) (cs : List Chunk) :
    r.pushAll cs =
      ({ buf := Segment.residue r.buf (cs.filterMap segment?) },
        Segment.feed accept r.buf (cs.filterMap segment?)) := by
  -- an empty chunk is no segment; each of the others is pushed as one
  induction cs generalizing r with
  | nil =>
      rfl
  | cons c cs ih =>
      cases c with
      | nil =>
          have hskip : ([] :: cs).filterMap segment? = cs.filterMap segment? := rfl
          simp [pushAll, push, ih, hskip]
      | cons header body =>
          simp [pushAll, push_eq_segment, ih, segment?, Segment.residue, Segment.feed]

/-! ## Lossless round trip -/

/-- Feeding the frame of one datagram to an empty buffer returns it (unless it is oversized) and
leaves the buffer empty. -/
theorem pushAll_frame_buf (d : Datagram) (r : Reassembler) :
    r.pushAll (frame d) =
      ({ buf := [] }, if (r.buf ++ d).length ≤ maxDatagram then [r.buf ++ d] else []) := by
  have hfinal : isFinal flagFinal = true := by decide
  have hmore : isFinal 0 = false := by decide
  -- the chunks in front of the last only grow the buffer, by the datagram's own bytes
  induction d using frame_induction generalizing r with
  | short d h =>
      by_cases hlen : (r.buf ++ d).length ≤ maxDatagram
      · have hgt : ¬ (r.buf ++ d).length > maxDatagram := by omega
        simp only [frame_short h, pushAll, push, hfinal, if_true, hgt, if_false, hlen,
          Option.toList_some, List.append_nil]
      · have hgt : (r.buf ++ d).length > maxDatagram := by omega
        simp only [frame_short h, pushAll, push, hfinal, if_true, hgt, hlen, if_false,
          Option.toList_none, List.append_nil]
  | long d h ih =>
      have hglue : r.buf ++ d.take maxChunk ++ d.drop maxChunk = r.buf ++ d := by
        simp
      simp only [frame_long h, pushAll, push, hmore, Bool.false_eq_true, if_false, ih,
        Option.toList_none, List.nil_append, hglue]

theorem pushAll_frame (d : Datagram) :
    ({} : Reassembler).pushAll (frame d) =
      ({}, if d.length ≤ maxDatagram then [d] else []) := by
  simpa using pushAll_frame_buf d {}

/-- Feeding a stream of frames returns the datagrams that are not oversized, in order. -/
theorem pushAll_flatMap_frame (ds : List Datagram) :
    ({} : Reassembler).pushAll (ds.flatMap frame) =
      ({}, ds.filter fun d => d.length ≤ maxDatagram) := by
  -- after each frame the buffer is empty again
  induction ds with
  | nil =>
      rfl
  | cons d ds ih =>
      rw [List.flatMap_cons, pushAll_append, pushAll_frame]
      by_cases hlen : d.length ≤ maxDatagram <;> simp [ih, hlen]

/-! ## A pump in front of a reassembler -/

/-- Every datagram returned is the buffer at the start of a stretch of chunks and their bodies. -/
theorem mem_pushAll (r : Reassembler) {cs : List Chunk} {d : Datagram}
    (hd : d ∈ (r.pushAll cs).2) :
    (∃ ys, ys <+: cs ∧ d = r.buf ++ ys.flatMap List.tail) ∨
      ∃ ys, ys <:+: cs ∧ d = ys.flatMap List.tail := by
  -- the stretch begins in the buffer, or after the last chunk that has emptied it
  induction cs generalizing r with
  | nil =>
      cases hd
  | cons c cs ih =>
      rw [pushAll, List.mem_append] at hd
      rcases hd with hhead | hrest
      · -- The chunk completes the buffered datagram.
        left
        refine ⟨[c], ⟨cs, rfl⟩, ?_⟩
        cases c with
        | nil =>
            simp [push] at hhead
        | cons header body =>
            rw [push_eq_segment] at hhead
            have hbody := Segment.eq_of_release (Option.mem_toList.1 hhead)
            simpa using hbody
      · have hbuf : (r.push c).1.buf = [] ∨ (r.push c).1.buf = r.buf ++ c.tail := by
          cases c with
          | nil =>
              exact .inr (by simp [push])
          | cons header body =>
              rw [push_eq_segment]
              by_cases hfin : isFinal header = true <;> simp [Segment.absorb, hfin]
        rcases ih (r.push c).1 hrest with ⟨ys, hys, rfl⟩ | ⟨ys, hys, rfl⟩
        · rcases hbuf with hempty | hkept
          · exact .inr ⟨ys, (hys.isInfix).trans (List.infix_cons (List.infix_refl cs)),
              by rw [hempty, List.nil_append]⟩
          · exact .inl ⟨c :: ys, List.cons_prefix_cons.2 ⟨rfl, hys⟩, by simp [hkept]⟩
        · exact .inr ⟨ys, hys.trans (List.infix_cons (List.infix_refl cs)), rfl⟩

/-- A pump has taken a first part of `accepted` and pushed it; the rest is still queued. -/
def Pumped (accepted queue : List Chunk) (r : Reassembler) (out : List Datagram) : Prop :=
  ∃ consumed, accepted = consumed ++ queue ∧ ({} : Reassembler).pushAll consumed = (r, out)

/-- `out` is what a first part of `accepted` reassembles to, up to datagrams not sent. -/
def Emits (accepted : List Chunk) (out : List Datagram) : Prop :=
  ∃ consumed, consumed <+: accepted ∧ out <+: (({} : Reassembler).pushAll consumed).2

theorem Pumped.start : Pumped [] [] {} [] :=
  ⟨[], rfl, rfl⟩

theorem Pumped.enqueue {accepted queue : List Chunk} {r : Reassembler} {out : List Datagram}
    (h : Pumped accepted queue r out) (c : Chunk) :
    Pumped (accepted ++ [c]) (queue ++ [c]) r out := by
  obtain ⟨consumed, hacc, hpush⟩ := h
  exact ⟨consumed, by rw [hacc, List.append_assoc], hpush⟩

theorem Pumped.push {accepted queue : List Chunk} {r : Reassembler} {out : List Datagram}
    {c : Chunk} (h : Pumped accepted (c :: queue) r out) :
    Pumped accepted queue (r.push c).1 (out ++ (r.push c).2.toList) := by
  obtain ⟨consumed, hacc, hpush⟩ := h
  refine ⟨consumed ++ [c], by rw [hacc, List.append_assoc, List.singleton_append], ?_⟩
  rw [pushAll_concat, hpush]

theorem Pumped.emits {accepted queue : List Chunk} {r : Reassembler} {out sent : List Datagram}
    (h : Pumped accepted queue r out) (hsent : sent <+: out) : Emits accepted sent := by
  obtain ⟨consumed, hacc, hpush⟩ := h
  exact ⟨consumed, ⟨queue, hacc.symm⟩, by rwa [hpush]⟩

/-- Chunks that start a stream of frames emit the first datagrams of the stream. -/
theorem Emits.prefix_of_frames {accepted : List Chunk} {out ds : List Datagram}
    (h : Emits accepted out) (hacc : accepted <+: ds.flatMap frame)
    (hsize : ∀ d ∈ ds, d.length ≤ maxDatagram) : out <+: ds := by
  obtain ⟨consumed, hconsumed, hout⟩ := h
  obtain ⟨rest, hrest⟩ := hconsumed.trans hacc
  have hwhole : (({} : Reassembler).pushAll (ds.flatMap frame)).2 = ds := by
    rw [pushAll_flatMap_frame]
    simpa using hsize
  rw [← hrest, pushAll_append] at hwhole
  have hfirst : (({} : Reassembler).pushAll consumed).2 <+: ds := by
    rw [← hwhole]
    exact List.prefix_append _ _
  exact hout.trans hfirst

/-- A whole stream of frames emits its datagrams. -/
theorem Pumped.eq_of_frames {r : Reassembler} {out ds : List Datagram}
    (h : Pumped (ds.flatMap frame) [] r out) (hsize : ∀ d ∈ ds, d.length ≤ maxDatagram) :
    out = ds := by
  obtain ⟨consumed, hconsumed, hpush⟩ := h
  rw [List.append_nil] at hconsumed
  rw [← hconsumed, pushAll_flatMap_frame] at hpush
  have hout : (ds.filter fun d => decide (d.length ≤ maxDatagram)) = out := congrArg Prod.snd hpush
  rw [← hout, List.filter_eq_self]
  simpa using hsize

/-- What is emitted is made of chunk bodies only. -/
theorem Emits.mem {accepted : List Chunk} {out : List Datagram} (h : Emits accepted out)
    {d : Datagram} (hd : d ∈ out) : ∃ ys, ys <:+: accepted ∧ d = ys.flatMap List.tail := by
  obtain ⟨consumed, hpre, hout⟩ := h
  rcases mem_pushAll {} (hout.subset hd) with ⟨ys, hys, rfl⟩ | ⟨ys, hys, rfl⟩
  · exact ⟨ys, (hys.trans hpre).isInfix, by simp⟩
  · exact ⟨ys, hys.trans hpre.isInfix, rfl⟩

end Reassembler

end SvenBridge
