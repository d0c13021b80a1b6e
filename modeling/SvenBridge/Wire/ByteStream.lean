import SvenBridge.Wire.GrantLane
import SvenBridge.Wire.SerialFraming

/-!
# ByteStream — one direction of a TCP connection

`serve_inner` (`byte_stream/framing.rs`) moves frames between the lanes of an interface and a byte
stream: the writer coalesces what is queued into one buffer, and the reader deframes whatever the
stream hands it straight into the inbound slot.  This file contains

* `streamMachine` — the manifold, the writer, the stream, the reader and the manifold of the peer,
  one atomic operation a step, with the loss of the connection at any point;
* `stream_delivers` — what arrives is a prefix of what was enqueued, frame by frame, and all of it
  once every stage is empty.
-/

namespace SvenBridge
namespace Wire

open Lib

/-! ## State -/

/-- Where the writer stands in its arm of the select. -/
inductive WriterPc
  | selecting
  /-- In the loop over `try_next_outbound`; `filled` is what the buffer holds. -/
  | coalescing (filled : List UInt8)
  /-- Writing a full buffer; `next` did not fit and is encoded after it. -/
  | flushing (filled next : List UInt8)
  /-- The write at the end of the arm. -/
  | writing (filled : List UInt8)
  /-- The connection is gone. -/
  | returned
  deriving DecidableEq

namespace WriterPc

/-- The encoded bytes that have not been written. -/
def buffered : WriterPc → List UInt8
  | .coalescing filled | .flushing filled _ | .writing filled => filled
  | .selecting | .returned => []

/-- The frame that waits for the buffer to be written. -/
def held : WriterPc → List (List UInt8)
  | .flushing _ next => [next]
  | .selecting | .coalescing _ | .writing _ | .returned => []

end WriterPc

structure StreamState (cap : ℕ) where
  outLane : GrantLane cap
  writer : WriterPc
  /-- The bytes written and not read. -/
  wire : List UInt8
  /-- The rest of the chunk that was read last. -/
  chunk : List UInt8
  scanner : RnsSerialScanner
  inLane : GrantLane cap
  /-- The frames enqueued so far, and those the manifold of the peer has taken. -/
  sent : List (List UInt8)
  received : List (List UInt8)

inductive StreamAction (cap : ℕ)
  | enqueue (frame : List UInt8) (h : frame.length ≤ cap)
  | nextOutbound
  | tryNextOutbound
  | writeAll
  | read (n : ℕ)
  | deframe
  | take
  /-- The connection is lost: of what was written, or was being written, `n` bytes can be read. -/
  | drop (n : ℕ)

/-! ## Operations -/

variable {cap : ℕ}

/-- `Egress::try_enqueue` on the lane it finds; `none` when the lane is full. -/
def GrantLane.tryEnqueue (lane : GrantLane cap) (frame : List UInt8) (h : frame.length ≤ cap) :
    Option (GrantLane cap) :=
  match lane.tryGrant.granted with
  | none => none
  | some _ => some (lane.tryGrant.write fun slot => slot.fill frame h).commit

/-- A slot as the sink of a deframer. -/
def HeapFrameSlot.sink (slot : HeapFrameSlot cap) : FrameSink cap :=
  ⟨slot.bytes, slot.fits⟩

/-- A slot after a deframer has written to it: opening a frame cleared it. -/
def HeapFrameSlot.deframed (sink : FrameSink cap) : HeapFrameSlot cap :=
  ⟨0, sink.bytes, sink.fits, Nat.zero_le _⟩

/-- `commit_inbound`: an empty frame commits nothing. -/
def GrantLane.commitInbound (lane : GrantLane cap) : GrantLane cap :=
  match lane.granted with
  | none => lane
  | some slot =>
      if slot.bytes.isEmpty then lane else (lane.write HeapFrameSlot.sealed).commit

/-- The length of `frame_buf`: `max_encoded_len(FRAME_CAP)`. -/
def framedLen (cap : ℕ) : ℕ :=
  maxEncodedLen cap

/-- `width` and `width'` are the lane widths of the two ends. -/
def StreamState.step (width width' : ℕ) (s : StreamState cap) :
    StreamAction cap → Option (StreamState cap)
  | .enqueue frame h =>
      match s.outLane.tryEnqueue frame h with
      | none => some { s with outLane := s.outLane.tryGrant }
      | some outLane => some { s with outLane := outLane, sent := s.sent ++ [frame] }
  | .nextOutbound =>
      if s.writer = .selecting then
        let outLane := s.outLane.release.tryPeek
        match outLane.peeked with
        | none => some { s with outLane := outLane }
        | some slot =>
            match encode width slot.frame (framedLen cap) with
            | .error _ => some { s with outLane := outLane }
            | .ok filled => some { s with outLane := outLane, writer := .coalescing filled }
      else none
  | .tryNextOutbound =>
      match s.writer with
      | .coalescing filled =>
          let outLane := s.outLane.release.tryPeek
          match outLane.peeked with
          | none => some { s with outLane := outLane, writer := .writing filled }
          | some slot =>
              match encode width slot.frame (framedLen cap - filled.length) with
              | .ok more =>
                  some { s with outLane := outLane, writer := .coalescing (filled ++ more) }
              | .error _ =>
                  some { s with outLane := outLane, writer := .flushing filled slot.frame }
      | _ => none
  | .writeAll =>
      match s.writer with
      | .flushing filled next =>
          let filled' := (encode width next (framedLen cap)).toOption.getD []
          some { s with
            wire := s.wire ++ filled
            writer := if filled'.isEmpty then .selecting else .writing filled' }
      | .writing filled => some { s with wire := s.wire ++ filled, writer := .selecting }
      | _ => none
  | .read n =>
      if s.chunk = [] ∧ 0 < n ∧ n ≤ s.wire.length then
        some { s with chunk := s.wire.take n, wire := s.wire.drop n }
      else none
  | .deframe =>
      if s.chunk = [] then none
      else
        match s.inLane.tryGrant.granted with
        | none => none
        | some slot =>
            let (d, result, chunk) :=
              RnsSerialDecoder.nextFrameInto width' ⟨s.scanner, slot.sink⟩ s.chunk
            let inLane := s.inLane.tryGrant.write fun _ => .deframed d.sink
            let inLane :=
              match result with
              | .ok (some _) => inLane.commitInbound
              | _ => inLane
            some { s with chunk := chunk, scanner := d.scanner, inLane := inLane }
  | .take =>
      match s.inLane.tryPeek.peeked with
      | none => none
      | some slot =>
          some { s with
            inLane := s.inLane.tryPeek.release
            received := s.received ++ [slot.frame] }
  | .drop n =>
      if s.writer = .returned then none
      else some { s with wire := (s.wire ++ s.writer.buffered).take n, writer := .returned }

/-- A connection just made: the deframer is reset. -/
def streamMachine (cap depth width width' : ℕ) : Machine (StreamState cap) (StreamAction cap) where
  init :=
    { outLane := tokioGrantLane cap depth
      writer := .selecting
      wire := []
      chunk := []
      scanner := .new
      inLane := tokioGrantLane cap depth
      sent := []
      received := [] }
  step := StreamState.step width width'

/-! ## The lanes -/

theorem HeapFrameSlot.length_frame_le (slot : HeapFrameSlot cap) : slot.frame.length ≤ cap :=
  (List.length_take_le' _ _).trans slot.fits

/-- A frame that is enqueued is the last of those the writer has not seen. -/
theorem GrantLane.tryEnqueue_some {lane lane' : GrantLane cap} {frame : List UInt8}
    {h : frame.length ≤ cap} (hlane : lane.Conserved) (henqueue : lane.tryEnqueue frame h = some lane') :
    lane'.Conserved ∧
      lane'.filled.map HeapFrameSlot.frame = lane.filled.map HeapFrameSlot.frame ++ [frame] := by
  have hgrant := conserved_tryGrant hlane
  have hfilled : lane.tryGrant.filled = lane.filled := by
    obtain ⟨capacity, free, filled, granted, peeked⟩ := lane
    cases granted <;> cases free <;> rfl
  simp only [tryEnqueue] at henqueue
  cases hgranted : lane.tryGrant.granted with
  | none =>
      rw [hgranted] at henqueue
      cases henqueue
  | some slot =>
      rw [hgranted, Option.some.injEq] at henqueue
      subst henqueue
      have hwrite := conserved_write (fun slot => slot.fill frame h) hgrant
      have hslot : (lane.tryGrant.write fun slot => slot.fill frame h).granted =
          some (slot.fill frame h) := by
        simp [write, hgranted]
      refine ⟨conserved_commit hwrite, ?_⟩
      rw [commit_some hwrite hslot]
      simp [write, hfilled]

theorem GrantLane.release_tryPeek {lane : GrantLane cap} (h : lane.Conserved) :
    lane.release.tryPeek.Conserved ∧ lane.release.tryPeek.peeked = lane.filled.head? ∧
      lane.release.tryPeek.filled = lane.filled.tail := by
  refine ⟨conserved_tryPeek (conserved_release h), ?_⟩
  have hrelease : lane.release.peeked = none ∧ lane.release.filled = lane.filled := by
    cases hpeeked : lane.peeked with
    | none =>
        rw [release, hpeeked]
        exact ⟨hpeeked, rfl⟩
    | some slot =>
        rw [release_some h hpeeked]
        exact ⟨rfl, rfl⟩
  obtain ⟨hnone, hfilled⟩ := hrelease
  cases hlane : lane.filled with
  | nil =>
      rw [hlane] at hfilled
      simp [tryPeek, hnone, hfilled]
  | cons slot rest =>
      rw [hlane] at hfilled
      simp [tryPeek, hnone, hfilled]

theorem GrantLane.granted_tryPeek_release {lane : GrantLane cap} :
    lane.tryPeek.release.granted = lane.granted := by
  have hpeek : lane.tryPeek.granted = lane.granted := by
    obtain ⟨capacity, free, filled, granted, peeked⟩ := lane
    cases peeked <;> cases filled <;> rfl
  rw [release]
  split
  · exact hpeek
  · split <;> exact hpeek

/-! ## What is on its way -/

namespace StreamState

/-- The deframer with the slot it fills. -/
def decoder (s : StreamState cap) : RnsSerialDecoder cap :=
  ⟨s.scanner, (s.inLane.granted.map HeapFrameSlot.sink).getD ⟨[], Nat.zero_le cap⟩⟩

/-- The bytes between the encoder and the deframer. -/
def inFlight (s : StreamState cap) : List UInt8 :=
  s.chunk ++ s.wire ++ s.writer.buffered

/-- What the deframer will make of them. -/
def arriving (s : StreamState cap) : RnsSerialDecoder cap × List (List UInt8) :=
  (RnsSerialDecoder.committed cap).run s.decoder s.inFlight

/-- The frames that are not encoded yet. -/
def behind (s : StreamState cap) : List (List UInt8) :=
  (s.writer.held ++ s.outLane.filled.map HeapFrameSlot.frame).filter fun p => !p.isEmpty

/-- The frames that were sent are those received, those that wait to be, those on their way and
those behind; once the connection is lost, the last part is not to come. -/
structure Flow (s : StreamState cap) : Prop where
  outLane : s.outLane.Conserved
  inLane : s.inLane.Conserved
  idle : s.inLane.granted = none → s.scanner.inFrame = false
  frames : ∃ rest, (s.sent.filter fun p => !p.isEmpty) =
    s.received ++ s.inLane.waiting ++ s.arriving.2 ++ rest ∧
      (s.writer ≠ .returned → rest = s.behind ∧ RnsSerialDecoder.Settled s.arriving.1)

/-! ## One step -/

variable {width width' : ℕ} {s t : StreamState cap}

theorem encode_slot (width : ℕ) (slot : HeapFrameSlot cap) :
    encode width slot.frame (framedLen cap) = .ok (framed slot.frame) := by
  have hlen := slot.length_frame_le
  refine encode_of_le ?_
  simp only [maxEncodedLen, framedLen]
  omega

/-- The reader's side is untouched, and the bytes and frames before it are the same. -/
structure Same (s t : StreamState cap) : Prop where
  inLane : t.inLane = s.inLane
  scanner : t.scanner = s.scanner
  sent : t.sent = s.sent
  received : t.received = s.received

theorem Same.decoder (h : Same s t) : t.decoder = s.decoder := by
  simp only [StreamState.decoder, h.inLane, h.scanner]

/-- A step that only moves bytes. -/
theorem Flow.move (h : s.Flow) (hsame : Same s t) (hout : t.outLane.Conserved)
    (hflight : t.inFlight = s.inFlight) (hbehind : t.behind = s.behind)
    (hwriter : s.writer ≠ .returned) : t.Flow := by
  obtain ⟨-, hin, hidle, rest, hframes, hrest⟩ := h
  have harriving : t.arriving = s.arriving := by
    rw [arriving, arriving, hsame.decoder, hflight]
  refine ⟨hout, by rwa [hsame.inLane], by rwa [hsame.inLane, hsame.scanner], rest, ?_, ?_⟩
  · rw [hsame.sent, hsame.received, hsame.inLane, harriving, hframes]
  · intro _
    rw [harriving, hbehind]
    exact hrest hwriter

/-- A step that encodes the next frame. -/
theorem Flow.encode (h : s.Flow) (hsame : Same s t) (hout : t.outLane.Conserved)
    {frame : List UInt8} (hframe : frame.length ≤ cap)
    (hflight : t.inFlight = s.inFlight ++ framed frame)
    (hbehind : s.behind = ([frame].filter fun p => !p.isEmpty) ++ t.behind)
    (hwriter : s.writer ≠ .returned) : t.Flow := by
  obtain ⟨-, hin, hidle, rest, hframes, hrest⟩ := h
  obtain ⟨rfl, hsettled⟩ := hrest hwriter
  obtain ⟨hmore, hsettled'⟩ := RnsSerialDecoder.run_append_packet hsettled hframe
  rw [← hflight, ← hsame.decoder] at hmore hsettled'
  refine ⟨hout, by rwa [hsame.inLane], by rwa [hsame.inLane, hsame.scanner], t.behind, ?_,
    fun _ => ⟨rfl, hsettled'⟩⟩
  have harriving : t.arriving.2 = s.arriving.2 ++ [frame].filter fun p => !p.isEmpty := by
    rw [arriving, hmore, hsame.decoder]
    rfl
  rw [hsame.sent, hsame.received, hsame.inLane, harriving, hframes, hbehind]
  simp only [List.append_assoc]

theorem Flow.enqueue (h : s.Flow) {frame : List UInt8} {hframe : frame.length ≤ cap}
    (hstep : s.step width width' (.enqueue frame hframe) = some t) : t.Flow := by
  obtain ⟨hout, hin, hidle, rest, hframes, hrest⟩ := h
  simp only [StreamState.step] at hstep
  split at hstep
  · cases hstep
    have hfilled : s.outLane.tryGrant.filled = s.outLane.filled := by
      rw [GrantLane.tryGrant]
      split <;> rfl
    refine ⟨GrantLane.conserved_tryGrant hout, hin, hidle, rest, hframes, fun hwriter => ?_⟩
    rw [behind, hfilled]
    exact hrest hwriter
  · next outLane henqueue =>
      cases hstep
      obtain ⟨hconserved, hfilled⟩ := GrantLane.tryEnqueue_some hout henqueue
      refine ⟨hconserved, hin, hidle, rest ++ [frame].filter fun p => !p.isEmpty, ?_,
        fun hwriter => ⟨?_, (hrest hwriter).2⟩⟩
      · rw [List.filter_append, hframes, List.append_assoc]
        rfl
      · rw [(hrest hwriter).1, behind, behind, hfilled, ← List.append_assoc, ← List.filter_append]

theorem Flow.nextOutbound (h : s.Flow)
    (hstep : s.step width width' .nextOutbound = some t) : t.Flow := by
  have hout := h.outLane
  obtain ⟨hconserved, hpeeked, hfilled⟩ := GrantLane.release_tryPeek hout
  simp only [StreamState.step, Option.ite_none_right_eq_some] at hstep
  obtain ⟨hselecting, hstep⟩ := hstep
  have hwriter : s.writer ≠ .returned := by simp [hselecting]
  split at hstep
  · next hnone =>
      cases hstep
      rw [hpeeked, List.head?_eq_none_iff] at hnone
      refine h.move ⟨rfl, rfl, rfl, rfl⟩ hconserved rfl ?_ hwriter
      simp [behind, hfilled, hnone]
  · next slot hslot =>
      rw [encode_slot] at hstep
      cases hstep
      rw [hpeeked] at hslot
      refine h.encode ⟨rfl, rfl, rfl, rfl⟩ hconserved slot.length_frame_le ?_ ?_ hwriter
      · simp [inFlight, hselecting, WriterPc.buffered]
      · rw [behind, behind, hfilled, hselecting, ← List.filter_append,
          List.eq_cons_of_mem_head? hslot]
        rfl

theorem Flow.tryNextOutbound (h : s.Flow)
    (hstep : s.step width width' .tryNextOutbound = some t) : t.Flow := by
  obtain ⟨hconserved, hpeeked, hfilled⟩ := GrantLane.release_tryPeek h.outLane
  simp only [StreamState.step] at hstep
  split at hstep
  · next filled hcoalescing =>
      have hwriter : s.writer ≠ .returned := by simp [hcoalescing]
      split at hstep
      · next hnone =>
          cases hstep
          rw [hpeeked, List.head?_eq_none_iff] at hnone
          refine h.move ⟨rfl, rfl, rfl, rfl⟩ hconserved ?_ ?_ hwriter
          · simp [inFlight, hcoalescing, WriterPc.buffered]
          · simp [behind, hfilled, hnone, hcoalescing, WriterPc.held]
      · next slot hslot =>
          rw [hpeeked] at hslot
          split at hstep
          · next more hmore =>
              cases hstep
              refine h.encode ⟨rfl, rfl, rfl, rfl⟩ hconserved slot.length_frame_le ?_ ?_ hwriter
              · simp [inFlight, hcoalescing, WriterPc.buffered, eq_framed_of_encode hmore]
              · rw [behind, behind, hfilled, hcoalescing, ← List.filter_append,
                  List.eq_cons_of_mem_head? hslot]
                rfl
          · cases hstep
            refine h.move ⟨rfl, rfl, rfl, rfl⟩ hconserved ?_ ?_ hwriter
            · simp [inFlight, hcoalescing, WriterPc.buffered]
            · rw [behind, behind, hfilled, hcoalescing, List.eq_cons_of_mem_head? hslot]
              rfl
  · cases hstep

theorem Flow.writeAll (h : s.Flow) (hheld : ∀ p ∈ s.writer.held, p.length ≤ cap)
    (hstep : s.step width width' .writeAll = some t) : t.Flow := by
  simp only [StreamState.step] at hstep
  split at hstep
  · next filled next hflushing =>
      have hwriter : s.writer ≠ .returned := by simp [hflushing]
      have hnext : next.length ≤ cap := hheld next (by simp [hflushing, WriterPc.held])
      have hencode : Wire.encode width next (framedLen cap) = .ok (framed next) :=
        encode_of_le (by simp only [maxEncodedLen, framedLen]; omega)
      have hfilled : ((Wire.encode width next (framedLen cap)).toOption.getD []) = framed next := by
        rw [hencode]
        rfl
      have hnonempty : (framed next).isEmpty = false := rfl
      rw [hfilled, hnonempty] at hstep
      cases hstep
      refine h.encode ⟨rfl, rfl, rfl, rfl⟩ h.outLane hnext ?_ ?_ hwriter
      · simp [inFlight, hflushing, WriterPc.buffered]
      · rw [behind, behind, hflushing, ← List.filter_append]
        rfl
  · next filled hwriting =>
      have hwriter : s.writer ≠ .returned := by simp [hwriting]
      cases hstep
      refine h.move ⟨rfl, rfl, rfl, rfl⟩ h.outLane ?_ ?_ hwriter
      · simp [inFlight, hwriting, WriterPc.buffered]
      · simp [behind, hwriting, WriterPc.held]
  · cases hstep

theorem Flow.read {n : ℕ} (h : s.Flow) (hstep : s.step width width' (.read n) = some t) :
    t.Flow := by
  obtain ⟨hout, hin, hidle, rest, hframes, hrest⟩ := h
  simp only [StreamState.step, Option.ite_none_right_eq_some, Option.some.injEq] at hstep
  obtain ⟨⟨hchunk, -, -⟩, rfl⟩ := hstep
  have hflight : inFlight { s with chunk := s.wire.take n, wire := s.wire.drop n } = s.inFlight := by
    simp only [inFlight, hchunk, List.take_append_drop, List.nil_append]
  have harriving : arriving { s with chunk := s.wire.take n, wire := s.wire.drop n } = s.arriving := by
    rw [arriving, arriving, hflight]
    rfl
  refine ⟨hout, hin, hidle, rest, ?_, ?_⟩
  · rw [harriving]
    exact hframes
  · rw [harriving]
    exact hrest

theorem Flow.take (h : s.Flow) (hstep : s.step width width' .take = some t) : t.Flow := by
  obtain ⟨hout, hin, hidle, rest, hframes, hrest⟩ := h
  simp only [StreamState.step] at hstep
  split at hstep
  · cases hstep
  · next slot hslot =>
      cases hstep
      have hpeek := GrantLane.conserved_tryPeek hin
      have hhead := GrantLane.waiting_release hpeek hslot
      rw [GrantLane.waiting_tryPeek] at hhead
      have hdecoder : decoder { s with
          inLane := s.inLane.tryPeek.release
          received := s.received ++ [slot.frame] } = s.decoder := by
        simp only [decoder, GrantLane.granted_tryPeek_release]
      have harriving : arriving { s with
          inLane := s.inLane.tryPeek.release
          received := s.received ++ [slot.frame] } = s.arriving := by
        rw [arriving, arriving, hdecoder]
        rfl
      refine ⟨hout, GrantLane.conserved_release hpeek, ?_, rest, ?_, ?_⟩
      · rw [GrantLane.granted_tryPeek_release]
        exact hidle
      · rw [harriving, hframes, hhead]
        simp
      · rw [harriving]
        exact hrest

/-- Of the bytes in flight some are lost: the frames still to come are the first of them. -/
theorem Flow.drop {n : ℕ} (h : s.Flow) (hstep : s.step width width' (.drop n) = some t) :
    t.Flow := by
  obtain ⟨hout, hin, hidle, rest, hframes, -⟩ := h
  simp only [StreamState.step] at hstep
  split at hstep
  · cases hstep
  · rw [Option.some.injEq] at hstep
    have hsplit : s.inFlight = t.inFlight ++ (s.wire ++ s.writer.buffered).drop n := by
      simp [← hstep, inFlight, WriterPc.buffered]
    obtain ⟨more, hmore⟩ : ∃ more, s.arriving.2 = t.arriving.2 ++ more := by
      have hdecoder : t.decoder = s.decoder := by
        rw [← hstep]
        rfl
      rw [arriving, arriving, hsplit, Transducer.run_append, hdecoder]
      exact ⟨_, rfl⟩
    rw [hmore] at hframes
    subst hstep
    exact ⟨hout, hin, hidle, more ++ rest, by simpa using hframes,
      fun hwriter => absurd rfl hwriter⟩

/-- The slot a deframer writes to is the one it wrote to before, or it begins a frame. -/
theorem Flow.decoder_agrees {slot : HeapFrameSlot cap} (h : s.Flow)
    (hslot : s.inLane.tryGrant.granted = some slot) (input : List UInt8) :
    ((RnsSerialDecoder.committed cap).run s.decoder input).2 =
        ((RnsSerialDecoder.committed cap).run ⟨s.scanner, slot.sink⟩ input).2 ∧
      (((RnsSerialDecoder.committed cap).run s.decoder input).1.Settled →
        ((RnsSerialDecoder.committed cap).run ⟨s.scanner, slot.sink⟩ input).1.Settled) := by
  cases hgranted : s.inLane.granted with
  | none =>
      exact RnsSerialDecoder.run_idle (h.idle hgranted) (h.idle hgranted) input
  | some old =>
      rw [GrantLane.tryGrant_some hgranted, hgranted] at hslot
      cases hslot
      have hdecoder : s.decoder = ⟨s.scanner, slot.sink⟩ := by
        rw [decoder, hgranted]
        rfl
      rw [hdecoder]
      exact ⟨rfl, id⟩

/-- What `commit_inbound` makes of the slot a deframer has written to. -/
theorem commitInbound_write {lane : GrantLane cap} {slot : HeapFrameSlot cap} (h : lane.Conserved)
    (hslot : lane.granted = some slot) (sink : FrameSink cap) :
    let written := lane.write fun _ => .deframed sink
    written.commitInbound.Conserved ∧
      written.commitInbound.waiting =
        lane.waiting ++ ([sink.bytes].filter fun p => !p.isEmpty) ∧
      (written.commitInbound.granted = none ∨
        written.commitInbound.granted = some (.deframed sink)) := by
  intro written
  have hwritten : written.Conserved := GrantLane.conserved_write _ h
  have hgranted : written.granted = some (.deframed sink) := by
    simp only [written, GrantLane.write, hslot, Option.map_some]
  cases hempty : sink.bytes.isEmpty with
  | true =>
      have hcommit : written.commitInbound = written := by
        simp only [GrantLane.commitInbound, hgranted]
        rw [HeapFrameSlot.deframed, hempty, if_pos rfl]
      rw [hcommit]
      exact ⟨hwritten, by simp [written, hempty], .inr hgranted⟩
  | false =>
      have hcommit : written.commitInbound = (written.write HeapFrameSlot.sealed).commit := by
        simp only [GrantLane.commitInbound, hgranted]
        rw [HeapFrameSlot.deframed, hempty, if_neg (by simp)]
      have hsealed := GrantLane.conserved_write HeapFrameSlot.sealed hwritten
      have hslot' : (written.write HeapFrameSlot.sealed).granted =
          some (HeapFrameSlot.deframed sink).sealed := by
        simp only [GrantLane.write, hgranted, Option.map_some]
      rw [hcommit, GrantLane.waiting_commit hsealed hslot', HeapFrameSlot.frame_sealed,
        GrantLane.commit_some hsealed hslot']
      refine ⟨?_, ?_, .inl rfl⟩
      · rw [← GrantLane.commit_some hsealed hslot']
        exact GrantLane.conserved_commit hsealed
      · simp [hempty, written, HeapFrameSlot.deframed]

/-- A step of the deframer: the frames it hands over leave what arrives and join what waits. -/
theorem Flow.hand_over (h : s.Flow) {d : RnsSerialDecoder cap} {frames : List (List UInt8)}
    (hout : t.outLane = s.outLane ∧ t.writer = s.writer) (hsent : t.sent = s.sent)
    (hreceived : t.received = s.received) (hconserved : t.inLane.Conserved)
    (hwaiting : t.inLane.waiting = s.inLane.waiting ++ frames)
    (harriving : s.arriving.2 =
      frames ++ ((RnsSerialDecoder.committed cap).run d t.inFlight).2)
    (hsettled : s.arriving.1.Settled →
      ((RnsSerialDecoder.committed cap).run d t.inFlight).1.Settled)
    (hscanner : t.scanner = d.scanner)
    (hgranted : (t.inLane.granted = none ∧ d.scanner.inFrame = false) ∨
      t.inLane.granted = some (.deframed d.sink)) : t.Flow := by
  have hagree : ((RnsSerialDecoder.committed cap).run d t.inFlight).2 = t.arriving.2 ∧
      (((RnsSerialDecoder.committed cap).run d t.inFlight).1.Settled → t.arriving.1.Settled) := by
    rcases hgranted with ⟨-, hidle⟩ | hslot
    · have hidle' : t.decoder.scanner.inFrame = false := by
        simp only [decoder, hscanner, hidle]
      exact RnsSerialDecoder.run_idle hidle hidle' _
    · have hdecoder : t.decoder = d := by
        rw [decoder, hslot, hscanner]
        rfl
      rw [arriving, hdecoder]
      exact ⟨rfl, id⟩
  obtain ⟨hconserved', -, -, rest, hframes, hrest⟩ := h
  refine ⟨hout.1 ▸ hconserved', hconserved, ?_, rest, ?_, ?_⟩
  · intro hnone
    rcases hgranted with ⟨-, hidle⟩ | hslot
    · rw [hscanner, hidle]
    · rw [hslot] at hnone
      cases hnone
  · rw [hsent, hreceived, hwaiting, hframes, harriving, hagree.1]
    simp only [List.append_assoc]
  · intro hwriter
    rw [hout.2] at hwriter
    obtain ⟨rfl, hset⟩ := hrest hwriter
    exact ⟨by rw [behind, behind, hout.1, hout.2], hagree.2 (hsettled hset)⟩

theorem Flow.deframe (h : s.Flow) (hstep : s.step width width' .deframe = some t) : t.Flow := by
  simp only [StreamState.step, Option.ite_none_left_eq_some] at hstep
  obtain ⟨-, hstep⟩ := hstep
  split at hstep
  · cases hstep
  · next slot hslot =>
      obtain ⟨consumed, hreads⟩ := RnsSerialDecoder.nextFrameInto_reads width'
        ⟨s.scanner, slot.sink⟩ s.chunk
      generalize RnsSerialDecoder.nextFrameInto width' ⟨s.scanner, slot.sink⟩ s.chunk = result
        at hreads hstep
      obtain ⟨d, result, chunk⟩ := result
      have hgrant := GrantLane.conserved_tryGrant h.inLane
      obtain ⟨hagree, hsettles⟩ := h.decoder_agrees hslot s.inFlight
      have hinput : s.inFlight = consumed ++ (chunk ++ s.wire ++ s.writer.buffered) := by
        rw [inFlight, hreads.split]
        simp
      have hfirst : (RnsSerialDecoder.committed cap).run ⟨s.scanner, slot.sink⟩ consumed =
          (d, (RnsSerialDecoder.completed d result).filter fun p => !p.isEmpty) := by
        rw [RnsSerialDecoder.committed, Transducer.run_filter, hreads.run]
      have hrun := (RnsSerialDecoder.committed cap).run_append_of_eq hfirst
        (rfl : _ = (RnsSerialDecoder.committed cap).run d (chunk ++ s.wire ++ s.writer.buffered))
      rw [← hinput] at hrun
      have harriving := hagree.trans (congrArg Prod.snd hrun)
      have hsettled := fun hset => congrArg Prod.fst hrun ▸ hsettles hset
      obtain ⟨hcommit, hcommitted, hgranted⟩ := commitInbound_write hgrant hslot d.sink
      rw [GrantLane.waiting_tryGrant] at hcommitted
      have hclosed := hreads.closed
      rcases result with e | (_ | n)
      · cases hstep
        exact h.hand_over ⟨rfl, rfl⟩ rfl rfl (GrantLane.conserved_write _ hgrant)
          (by simp [RnsSerialDecoder.completed]) harriving hsettled rfl
          (.inr (by simp [GrantLane.write, hslot]))
      · cases hstep
        exact h.hand_over ⟨rfl, rfl⟩ rfl rfl (GrantLane.conserved_write _ hgrant)
          (by simp [RnsSerialDecoder.completed]) harriving hsettled rfl
          (.inr (by simp [GrantLane.write, hslot]))
      · cases hstep
        exact h.hand_over ⟨rfl, rfl⟩ rfl rfl hcommit hcommitted harriving hsettled rfl
          (hgranted.imp (⟨·, hclosed n rfl⟩) id)

/-- The buffer holds what fits it, and a frame that waits for it is a frame. -/
structure Bounded (s : StreamState cap) : Prop where
  buffered : s.writer.buffered.length ≤ framedLen cap
  held : ∀ p ∈ s.writer.held, p.length ≤ cap

theorem Bounded.step {a : StreamAction cap} (h : s.Bounded)
    (hstep : s.step width width' a = some t) : t.Bounded := by
  have hnil : ([] : List UInt8).length ≤ framedLen cap := Nat.zero_le _
  have hnone : ∀ p ∈ ([] : List (List UInt8)), p.length ≤ cap :=
    fun _ hp => absurd hp List.not_mem_nil
  cases a with
  | enqueue frame hframe =>
      simp only [StreamState.step] at hstep
      split at hstep <;> cases hstep <;> exact ⟨h.buffered, h.held⟩
  | nextOutbound =>
      simp only [StreamState.step, Option.ite_none_right_eq_some] at hstep
      obtain ⟨-, hstep⟩ := hstep
      split at hstep
      · cases hstep
        exact ⟨h.buffered, h.held⟩
      · split at hstep
        · cases hstep
          exact ⟨h.buffered, h.held⟩
        · next hfilled =>
            cases hstep
            exact ⟨length_le_of_encode hfilled, hnone⟩
  | tryNextOutbound =>
      simp only [StreamState.step] at hstep
      split at hstep
      · next filled hcoalescing =>
          have hfilled : filled.length ≤ framedLen cap := by
            simpa [hcoalescing, WriterPc.buffered] using h.buffered
          split at hstep
          · cases hstep
            exact ⟨hfilled, hnone⟩
          · next slot _ =>
              split at hstep
              · next more hmore =>
                  cases hstep
                  have hlen := length_le_of_encode hmore
                  refine ⟨?_, hnone⟩
                  rw [WriterPc.buffered, List.length_append]
                  omega
              · cases hstep
                refine ⟨hfilled, fun p hp => ?_⟩
                rw [WriterPc.held, List.mem_singleton] at hp
                exact hp ▸ slot.length_frame_le
      · cases hstep
  | writeAll =>
      simp only [StreamState.step] at hstep
      split at hstep
      · next filled next hflushing =>
          have hnext : next.length ≤ cap := h.held next (by simp [hflushing, WriterPc.held])
          have hencode : Wire.encode width next (framedLen cap) = .ok (framed next) :=
            encode_of_le (by simp only [maxEncodedLen, framedLen]; omega)
          rw [hencode] at hstep
          cases hstep
          exact ⟨length_le_of_encode hencode, hnone⟩
      · cases hstep
        exact ⟨hnil, hnone⟩
      · cases hstep
  | read n =>
      simp only [StreamState.step, Option.ite_none_right_eq_some, Option.some.injEq] at hstep
      obtain ⟨-, rfl⟩ := hstep
      exact ⟨h.buffered, h.held⟩
  | deframe =>
      simp only [StreamState.step, Option.ite_none_left_eq_some] at hstep
      obtain ⟨-, hstep⟩ := hstep
      split at hstep
      · cases hstep
      · cases hstep
        exact ⟨h.buffered, h.held⟩
  | take =>
      simp only [StreamState.step] at hstep
      split at hstep
      · cases hstep
      · cases hstep
        exact ⟨h.buffered, h.held⟩
  | drop n =>
      simp only [StreamState.step] at hstep
      split at hstep
      · cases hstep
      · cases hstep
        exact ⟨hnil, hnone⟩

theorem Flow.step {a : StreamAction cap} (h : s.Flow) (hbounded : s.Bounded)
    (hstep : s.step width width' a = some t) : t.Flow := by
  cases a with
  | enqueue frame hframe => exact h.enqueue hstep
  | nextOutbound => exact h.nextOutbound hstep
  | tryNextOutbound => exact h.tryNextOutbound hstep
  | writeAll => exact h.writeAll hbounded.held hstep
  | read n => exact h.read hstep
  | deframe => exact h.deframe hstep
  | take => exact h.take hstep
  | drop n => exact h.drop hstep

end StreamState

/-! ## Every run -/

theorem flow_init {depth width width' : ℕ} : (streamMachine cap depth width width').init.Flow where
  outLane := GrantLane.conserved_new cap depth
  inLane := GrantLane.conserved_new cap depth
  idle := fun _ => rfl
  frames := ⟨[], rfl, fun _ => ⟨rfl, nofun⟩⟩

/-- Whatever the interleaving, however the bytes are cut and wherever the connection is lost: the
frames the peer gets are a prefix of those that were enqueued, and all of them once nothing is left
on the way.  A write never holds more than the buffer does. -/
theorem stream_delivers {depth width width' : ℕ} {s : StreamState cap}
    (h : (streamMachine cap depth width width').Reachable Machine.always s) :
    (s.received ++ s.inLane.waiting) <+: s.sent.filter (fun p => !p.isEmpty) ∧
      (s.writer = .selecting → s.outLane.filled = [] → s.inFlight = [] →
        s.received ++ s.inLane.waiting = s.sent.filter fun p => !p.isEmpty) ∧
      s.writer.buffered.length ≤ framedLen cap := by
  have hbounded : (streamMachine cap depth width width').init.Bounded := ⟨Nat.zero_le _, nofun⟩
  have hinv : s.Flow ∧ s.Bounded := by
    refine Machine.Reachable.invariant (I := fun s => s.Flow ∧ s.Bounded) ⟨flow_init, hbounded⟩ ?_ h
    rintro s a t ⟨hflow, hbounded⟩ _ hstep
    exact ⟨hflow.step hbounded hstep, hbounded.step hstep⟩
  obtain ⟨hflow, hbounded⟩ := hinv
  obtain ⟨rest, hframes, hrest⟩ := hflow.frames
  refine ⟨⟨s.arriving.2 ++ rest, ?_⟩, fun hselecting hfilled hflight => ?_, hbounded.buffered⟩
  · rw [hframes, List.append_assoc _ s.arriving.2]
  · obtain ⟨rfl, -⟩ := hrest (by simp [hselecting])
    have harriving : s.arriving.2 = [] := by
      rw [StreamState.arriving, hflight, Transducer.run_nil]
    have hbehind : s.behind = [] := by
      simp [StreamState.behind, hselecting, WriterPc.held, hfilled]
    rw [hframes, harriving, hbehind, List.append_nil, List.append_nil]

/-- Two frames coalesced into one write, cut in the middle of the second, and the connection lost
before a third is written. -/
def streamRun : List (StreamAction 4) :=
  [.enqueue [1, flag] (by decide), .enqueue [2] (by decide), .nextOutbound, .tryNextOutbound,
    .enqueue [3] (by decide), .drop 6, .read 6, .deframe, .deframe, .take]

theorem stream_delivers_run : ∃ s, (streamMachine 4 4 16 8).Reachable Machine.always s ∧
    s.received = [[1, flag]] ∧ s.sent = [[1, flag], [2], [3]] ∧
    ((s.received ++ s.inLane.waiting) <+: s.sent.filter (fun p => !p.isEmpty) ∧
      (s.writer = .selecting → s.outLane.filled = [] → s.inFlight = [] →
        s.received ++ s.inLane.waiting = s.sent.filter fun p => !p.isEmpty) ∧
      s.writer.buffered.length ≤ framedLen 4) := by
  have hrun : (((streamMachine 4 4 16 8).run (streamMachine 4 4 16 8).init streamRun).any
      fun s => s.received == [[1, flag]] && s.sent == [[1, flag], [2], [3]]) = true := by
    decide +kernel
  obtain ⟨s, hs, hstate⟩ := Machine.exists_reachable_of_run hrun
  rw [Bool.and_eq_true, beq_iff_eq, beq_iff_eq] at hstate
  exact ⟨s, hs, hstate.1, hstate.2, stream_delivers hs⟩

end Wire
end SvenBridge
