import SvenBridge.Lib.Transducer
import SvenBridge.Wire.FindSpecial

/-!
# SerialFraming — HDLC frames on a byte stream

The framing of `interfaces/framing/rns_serial_framing.rs`: a payload travels between two `FLAG`
bytes, and a `FLAG` or `ESC` inside it is escaped.  This file contains

* `encode` — the writer, into an output of limited length, and `encode_eq`;
* `RnsSerialDecoder` — the scanner and the sink its payload gathers in, byte by byte (`feed`) and
  slice by slice (`feedSlice`), and `feedSlice_eq`: both read the same;
* `run_packets` — what a scanner in any state whatever makes of a stream of packets.
-/

namespace SvenBridge
namespace Wire

open Lib

/-! ## The writer -/

inductive EncodeError
  | outputTooSmall
  deriving DecidableEq

def maxEncodedLen (payloadLen : ℕ) : ℕ :=
  2 + 2 * payloadLen

theorem findSpecial_lt {lane pos : ℕ} {rest : List UInt8} (h : findSpecial lane rest = some pos) :
    pos < rest.length := by
  rw [findSpecial_eq] at h
  exact (List.findIdx?_eq_some_iff_findIdx_eq.1 h).1

/-- The loop of `encode`; `written` is what the output holds so far. -/
def encodeFrom (lane outputLen : ℕ) (written rest : List UInt8) :
    Except EncodeError (List UInt8) :=
  let split := findSpecial lane rest
  let run := rest.take (split.getD rest.length)
  if written.length + run.length > outputLen then
    .error .outputTooSmall
  else
    let written := written ++ run
    match hsplit : split with
    | none =>
        if written.length ≥ outputLen then
          .error .outputTooSmall
        else
          .ok (written ++ [flag])
    | some pos =>
        if written.length + 2 > outputLen then
          .error .outputTooSmall
        else
          let special := rest.get ⟨pos, findSpecial_lt hsplit⟩
          encodeFrom lane outputLen (written ++ [esc, special ^^^ escMask]) (rest.drop (pos + 1))
  termination_by rest.length
  decreasing_by
    have := findSpecial_lt hsplit
    rw [List.length_drop]
    omega

/-- `encode` into an output of `outputLen` bytes: the bytes it fills. -/
def encode (lane : ℕ) (input : List UInt8) (outputLen : ℕ) : Except EncodeError (List UInt8) :=
  if outputLen = 0 then
    .error .outputTooSmall
  else
    encodeFrom lane outputLen [flag] input

/-! ## The scanner -/

inductive FrameSinkError
  | full
  deriving DecidableEq

/-- A frame under construction, within its capacity. -/
structure FrameSink (cap : ℕ) where
  bytes : List UInt8
  fits : bytes.length ≤ cap

namespace FrameSink

variable {cap : ℕ}

theorem eq_iff {a b : FrameSink cap} : a.bytes = b.bytes ↔ a = b := by
  refine ⟨fun h => ?_, fun h => h ▸ rfl⟩
  obtain ⟨bytes, fits⟩ := a
  cases h
  rfl

instance : DecidableEq (FrameSink cap) := fun _ _ => decidable_of_iff _ eq_iff

def clear (_ : FrameSink cap) : FrameSink cap :=
  ⟨[], Nat.zero_le cap⟩

def frameLen (sink : FrameSink cap) : ℕ :=
  sink.bytes.length

def freeCapacity (sink : FrameSink cap) : ℕ :=
  cap - sink.bytes.length

def extendFromSlice (sink : FrameSink cap) (run : List UInt8) :
    Except FrameSinkError (FrameSink cap) :=
  if h : run.length > cap - sink.bytes.length then
    .error .full
  else
    .ok ⟨sink.bytes ++ run, by have := sink.fits; rw [List.length_append]; omega⟩

def push (sink : FrameSink cap) (byte : UInt8) : Except FrameSinkError (FrameSink cap) :=
  if h : sink.bytes.length ≥ cap then
    .error .full
  else
    .ok ⟨sink.bytes ++ [byte], by rw [List.length_append]; exact Nat.lt_of_not_le h⟩

end FrameSink

inductive DecodeError
  | frameTooBig
  deriving DecidableEq

structure RnsSerialScanner where
  inFrame : Bool
  sawEscape : Bool
  deriving DecidableEq

def RnsSerialScanner.new : RnsSerialScanner where
  inFrame := false
  sawEscape := false

/-- A scanner with the sink it fills. -/
structure RnsSerialDecoder (cap : ℕ) where
  scanner : RnsSerialScanner
  sink : FrameSink cap
  deriving DecidableEq

namespace RnsSerialDecoder

variable {cap : ℕ}

/-- The byte an escaped byte stands for. -/
def unescape (byte : UInt8) : UInt8 :=
  if byte = flag ^^^ escMask then flag
  else if byte = esc ^^^ escMask then esc
  else byte

/-- `feed_one_into`: `.ok true` when a frame has ended, its payload left in the sink. -/
def feedOneInto (d : RnsSerialDecoder cap) (byte : UInt8) :
    RnsSerialDecoder cap × Except DecodeError Bool :=
  if byte = flag then
    if d.scanner.inFrame then
      ({ d with scanner := { inFrame := false, sawEscape := false } }, .ok true)
    else
      ({ scanner := { inFrame := true, sawEscape := false }, sink := d.sink.clear }, .ok false)
  else
    -- bytes with no frame open belong to a frame whose opening flag was missed
    let d : RnsSerialDecoder cap :=
      if d.scanner.inFrame then d
      else { scanner := { inFrame := true, sawEscape := false }, sink := d.sink.clear }
    if byte = esc then
      ({ d with scanner := { d.scanner with sawEscape := true } }, .ok false)
    else
      let payloadByte := if d.scanner.sawEscape then unescape byte else byte
      match d.sink.push payloadByte with
      | .error _ => ({ scanner := .new, sink := d.sink.clear }, .error .frameTooBig)
      | .ok sink => ({ scanner := { d.scanner with sawEscape := false }, sink := sink }, .ok false)

/-- `feed`, an oversized frame passed over. -/
def feed (d : RnsSerialDecoder cap) (byte : UInt8) : RnsSerialDecoder cap × Option (List UInt8) :=
  match d.feedOneInto byte with
  | (d, .ok true) => (d, some d.sink.bytes)
  | (d, _) => (d, none)

/-- The scanner reading byte by byte. -/
def bytewise (cap : ℕ) : Transducer (RnsSerialDecoder cap) UInt8 (List UInt8) where
  step := feed

/-- `next_frame_into` on what is left of the input after `offset`; the last component is what is
left after the new `offset`. -/
def nextFrameInto (lane : ℕ) (d : RnsSerialDecoder cap) (input : List UInt8) :
    RnsSerialDecoder cap × Except DecodeError (Option ℕ) × List UInt8 :=
  match input with
  | [] => (d, .ok none, [])
  | byte :: rest =>
      let runLen := (findSpecial lane (byte :: rest)).getD (byte :: rest).length
      if hbulk : d.scanner.inFrame && !d.scanner.sawEscape && runLen != 0 then
        if runLen ≤ d.sink.freeCapacity then
          let sink := (d.sink.extendFromSlice ((byte :: rest).take runLen)).toOption.getD d.sink
          nextFrameInto lane { d with sink := sink } ((byte :: rest).drop runLen)
        else
          ({ scanner := .new, sink := d.sink.clear }, .error .frameTooBig,
            (byte :: rest).drop (d.sink.freeCapacity + 1))
      else
        match d.feedOneInto byte with
        | (d, .error e) => (d, .error e, rest)
        | (d, .ok true) => (d, .ok (some d.sink.frameLen), rest)
        | (d, .ok false) => nextFrameInto lane d rest
  termination_by input.length
  decreasing_by
    · have hrun : runLen ≠ 0 := by
        simpa using (Bool.and_eq_true_iff.1 hbulk).2
      have hinput : 0 < (byte :: rest).length := Nat.succ_pos _
      rw [List.length_drop]
      omega
    · simp

/-! ## Byte by byte -/

/-- A frame is open and holds `p`. -/
def inside (p : List UInt8) (h : p.length ≤ cap) : RnsSerialDecoder cap where
  scanner := { inFrame := true, sawEscape := false }
  sink := ⟨p, h⟩

theorem feed_flag_inFrame {d : RnsSerialDecoder cap} (h : d.scanner.inFrame = true) :
    d.feed flag = ({ d with scanner := .new }, some d.sink.bytes) := by
  simp [feed, feedOneInto, h, RnsSerialScanner.new]

theorem feed_flag_idle {d : RnsSerialDecoder cap} (h : d.scanner.inFrame = false) :
    d.feed flag = (inside [] (Nat.zero_le cap), none) := by
  simp [feed, feedOneInto, h, inside, FrameSink.clear]

/-- A byte that finds no frame open is read as if an empty one were. -/
theorem feed_idle {d : RnsSerialDecoder cap} {byte : UInt8} (h : d.scanner.inFrame = false)
    (hbyte : byte ≠ flag) : d.feed byte = (inside [] (Nat.zero_le cap)).feed byte := by
  simp [feed, feedOneInto, h, inside, hbyte, FrameSink.clear]

theorem feed_plain {p : List UInt8} {byte : UInt8} (hp : p.length < cap)
    (hbyte : isSpecial byte = false) :
    (inside p hp.le).feed byte =
      (inside (p ++ [byte]) (by rw [List.length_append]; exact hp), none) := by
  have hne : byte ≠ flag ∧ byte ≠ esc := by
    simpa [isSpecial] using hbyte
  simp [feed, feedOneInto, inside, hne.1, hne.2, FrameSink.push, Nat.not_le.2 hp]

theorem feed_plain_full {p : List UInt8} {byte : UInt8} (hp : p.length = cap)
    (hbyte : isSpecial byte = false) :
    (inside p hp.le).feed byte = ({ scanner := .new, sink := ⟨[], Nat.zero_le cap⟩ }, none) := by
  have hne : byte ≠ flag ∧ byte ≠ esc := by
    simpa [isSpecial] using hbyte
  simp [feed, feedOneInto, inside, hne.1, hne.2, FrameSink.push, hp, FrameSink.clear]

/-- A run of plain bytes that fits is appended. -/
theorem run_plain {p run : List UInt8} (hp : p.length + run.length ≤ cap)
    (hrun : ∀ byte ∈ run, isSpecial byte = false) :
    (bytewise cap).run (inside p (by omega)) run =
      (inside (p ++ run) (by rw [List.length_append]; exact hp), []) := by
  induction run generalizing p with
  | nil =>
      simp
  | cons byte run ih =>
      rw [List.length_cons] at hp
      have hstep := feed_plain (p := p) (show p.length < cap by omega) (hrun byte (by simp))
      have hrest := ih (p := p ++ [byte]) (by rw [List.length_append, List.length_singleton]; omega)
        (fun b hb => hrun b (List.mem_cons_of_mem _ hb))
      rw [Transducer.run_cons]
      simp only [bytewise, hstep] at hrest ⊢
      rw [hrest]
      simp

/-- A run of plain bytes that does not fit is thrown away with the byte that did not. -/
theorem run_plain_full {p run : List UInt8} (hp : p.length ≤ cap)
    (hfull : cap < p.length + run.length) (hrun : ∀ byte ∈ run, isSpecial byte = false) :
    (bytewise cap).run (inside p hp) (run.take (cap - p.length + 1)) =
      ({ scanner := .new, sink := ⟨[], Nat.zero_le cap⟩ }, []) := by
  have hlt : cap - p.length < run.length := by omega
  rw [← List.take_append_getElem hlt]
  have hroom : p.length + (run.take (cap - p.length)).length ≤ cap := by
    rw [List.length_take]
    omega
  have hexact : (p ++ run.take (cap - p.length)).length = cap := by
    rw [List.length_append, List.length_take]
    omega
  have hfits := run_plain hroom fun b hb => hrun b (List.mem_of_mem_take hb)
  have hlast := feed_plain_full hexact (hrun _ (List.getElem_mem hlt))
  refine Transducer.run_append_of_eq _ hfits ?_
  rw [Transducer.run_cons]
  simp only [bytewise, hlast]
  rfl

/-! ## Slice by slice -/

/-- The frame a call of `next_frame_into` hands over. -/
def completed (d : RnsSerialDecoder cap) : Except DecodeError (Option ℕ) → List (List UInt8)
  | .ok (some _) => [d.sink.bytes]
  | _ => []

/-- What a call of `next_frame_into` did: it read some of the input as the scanner reads it byte by
byte, all of it unless it came back early, and something if it did. -/
structure Reads (d : RnsSerialDecoder cap) (input consumed : List UInt8)
    (result : RnsSerialDecoder cap × Except DecodeError (Option ℕ) × List UInt8) : Prop where
  split : input = consumed ++ result.2.2
  run : (bytewise cap).run d consumed = (result.1, completed result.1 result.2.1)
  exhausted : result.2.1 = .ok none → result.2.2 = []
  progress : result.2.1 ≠ .ok none → consumed ≠ []
  closed : ∀ n, result.2.1 = .ok (some n) → result.1.scanner.inFrame = false

/-- What was read before a call is read before what the call reads. -/
theorem Reads.prepend {d d' : RnsSerialDecoder cap} {front input consumed : List UInt8}
    {result : RnsSerialDecoder cap × Except DecodeError (Option ℕ) × List UInt8}
    (h : Reads d' input consumed result) (hfront : (bytewise cap).run d front = (d', [])) :
    Reads d (front ++ input) (front ++ consumed) result where
  split := by
    rw [List.append_assoc, ← h.split]
  run := by
    rw [(bytewise cap).run_append_of_eq hfront h.run]
    rfl
  exhausted := h.exhausted
  progress := by
    intro hresult hnil
    exact h.progress hresult (List.append_eq_nil_iff.1 hnil).2
  closed := h.closed

theorem closed_of_feedOneInto {d d' : RnsSerialDecoder cap} {byte : UInt8}
    (h : d.feedOneInto byte = (d', .ok true)) : d'.scanner.inFrame = false := by
  simp only [feedOneInto] at h
  split at h
  · split at h
    · cases h
      rfl
    · cases h
  · split at h
    · cases h
    · split at h <;> cases h

theorem eq_inside {d : RnsSerialDecoder cap}
    (h : (d.scanner.inFrame && !d.scanner.sawEscape) = true) :
    d = inside d.sink.bytes d.sink.fits := by
  obtain ⟨⟨inFrame, sawEscape⟩, sink⟩ := d
  simp only [Bool.and_eq_true, Bool.not_eq_true'] at h
  obtain ⟨rfl, rfl⟩ := h
  rfl

/-- A run copied at once is read as its bytes one by one. -/
theorem run_bulk {d : RnsSerialDecoder cap} {run : List UInt8}
    (hopen : (d.scanner.inFrame && !d.scanner.sawEscape) = true)
    (hfree : run.length ≤ d.sink.freeCapacity) (hrun : ∀ byte ∈ run, isSpecial byte = false) :
    (bytewise cap).run d run =
      ({ d with sink := (d.sink.extendFromSlice run).toOption.getD d.sink }, []) := by
  have hfits := d.sink.fits
  have hd := eq_inside hopen
  have hlen : d.sink.bytes.length + run.length ≤ cap := by
    rw [FrameSink.freeCapacity] at hfree
    omega
  have hplain := run_plain hlen hrun
  have hroom : ¬ run.length > cap - d.sink.bytes.length := Nat.not_lt.2 hfree
  rw [← hd] at hplain
  rw [hplain, FrameSink.extendFromSlice, dif_neg hroom]
  simp only [Bool.and_eq_true, Bool.not_eq_true'] at hopen
  simp [inside, Except.toOption, ← hopen.1, ← hopen.2]

theorem run_bulk_full {d : RnsSerialDecoder cap} {run : List UInt8}
    (hopen : (d.scanner.inFrame && !d.scanner.sawEscape) = true)
    (hfree : ¬ run.length ≤ d.sink.freeCapacity) (hrun : ∀ byte ∈ run, isSpecial byte = false) :
    (bytewise cap).run d (run.take (d.sink.freeCapacity + 1)) =
      ({ scanner := .new, sink := d.sink.clear }, []) := by
  have hfull : cap < d.sink.bytes.length + run.length := by
    rw [FrameSink.freeCapacity] at hfree
    omega
  have hplain := run_plain_full d.sink.fits hfull hrun
  rw [← eq_inside hopen] at hplain
  exact hplain

theorem getD_findSpecial_le (lane : ℕ) (input : List UInt8) :
    (findSpecial lane input).getD input.length ≤ input.length := by
  cases hfind : findSpecial lane input with
  | none =>
      exact Nat.le_refl _
  | some i =>
      exact (findSpecial_lt hfind).le

/-- The bytes before the next special one. -/
theorem not_special_of_mem_take {lane : ℕ} {input : List UInt8} {byte : UInt8}
    (h : byte ∈ input.take ((findSpecial lane input).getD input.length)) :
    isSpecial byte = false := by
  rw [findSpecial_eq] at h
  cases hfind : input.findIdx? isSpecial with
  | none =>
      rw [hfind, Option.getD_none, List.take_length] at h
      exact List.findIdx?_eq_none_iff.1 hfind byte h
  | some i =>
      rw [hfind, Option.getD_some] at h
      obtain ⟨j, hj, rfl⟩ := List.getElem_of_mem h
      rw [List.getElem_take]
      have hlt : j < i := by
        rw [List.length_take] at hj
        omega
      simpa using (List.findIdx?_eq_some_iff_getElem.1 hfind).2.2 j hlt

theorem nextFrameInto_reads (lane : ℕ) (d : RnsSerialDecoder cap) (input : List UInt8) :
    ∃ consumed, Reads d input consumed (nextFrameInto lane d input) := by
  fun_induction nextFrameInto lane d input with
  | case1 d =>
      exact ⟨[], rfl, rfl, fun _ => rfl, fun h => absurd rfl h, nofun⟩
  | case2 d byte rest runLen hbulk hfree sink ih =>
      obtain ⟨consumed, hconsumed⟩ := ih
      rw [Bool.and_eq_true] at hbulk
      have hlen : ((byte :: rest).take runLen).length = runLen := by
        rw [List.length_take]
        exact Nat.min_eq_left (getD_findSpecial_le lane (byte :: rest))
      have hrun := run_bulk hbulk.1 (hlen.symm ▸ hfree) fun b hb => not_special_of_mem_take hb
      have hreads := hconsumed.prepend hrun
      rw [List.take_append_drop] at hreads
      exact ⟨_, hreads⟩
  | case3 d byte rest runLen hbulk hfree =>
      rw [Bool.and_eq_true] at hbulk
      have hlen : ((byte :: rest).take runLen).length = runLen := by
        rw [List.length_take]
        exact Nat.min_eq_left (getD_findSpecial_le lane (byte :: rest))
      have hrun := run_bulk_full hbulk.1 (hlen.symm ▸ hfree) fun b hb => not_special_of_mem_take hb
      rw [List.take_take, Nat.min_eq_left (by omega)] at hrun
      exact ⟨(byte :: rest).take (d.sink.freeCapacity + 1), (List.take_append_drop _ _).symm, hrun,
        nofun, fun _ => List.cons_ne_nil _ _, nofun⟩
  | case4 d byte rest runLen hbulk d' e hfeed =>
      refine ⟨[byte], rfl, ?_, nofun, fun _ => List.cons_ne_nil _ _, nofun⟩
      rw [Transducer.run_cons]
      simp only [bytewise, feed, hfeed]
      rfl
  | case5 d byte rest runLen hbulk d' hfeed =>
      refine ⟨[byte], rfl, ?_, nofun, fun _ => List.cons_ne_nil _ _,
        fun _ _ => closed_of_feedOneInto hfeed⟩
      rw [Transducer.run_cons]
      simp only [bytewise, feed, hfeed]
      rfl
  | case6 d byte rest runLen hbulk d' hfeed ih =>
      obtain ⟨consumed, hconsumed⟩ := ih
      have hrun : (bytewise cap).run d [byte] = (d', []) := by
        rw [Transducer.run_cons]
        simp only [bytewise, feed, hfeed]
        rfl
      exact ⟨_, hconsumed.prepend hrun⟩

theorem nextFrameInto_lt {lane : ℕ} {d : RnsSerialDecoder cap} {input : List UInt8}
    (h : (nextFrameInto lane d input).2.1 ≠ .ok none) :
    (nextFrameInto lane d input).2.2.length < input.length := by
  obtain ⟨consumed, hreads⟩ := nextFrameInto_reads lane d input
  have hlen := congrArg List.length hreads.split
  have hpos := List.length_pos_iff.2 (hreads.progress h)
  rw [List.length_append] at hlen
  omega

/-- `feed_slice`: the frames handed to `on_frame`. -/
def feedSlice (lane : ℕ) (d : RnsSerialDecoder cap) (input : List UInt8) :
    RnsSerialDecoder cap × List (List UInt8) :=
  match _hnext : nextFrameInto lane d input with
  | (d', .ok none, _) => (d', [])
  | (d', .ok (some _), rest) =>
      let (d'', frames) := feedSlice lane d' rest
      (d'', d'.sink.bytes :: frames)
  | (d', .error _, rest) => feedSlice lane d' rest
  termination_by input.length
  decreasing_by
    all_goals
      have hresult : (nextFrameInto lane d input).2.1 ≠ .ok none := by
        rw [_hnext]
        simp
      have hlt := nextFrameInto_lt hresult
      rw [_hnext] at hlt
      exact hlt

/-- The bulk copies change nothing: a slice is read as its bytes one by one. -/
theorem feedSlice_eq (lane : ℕ) (d : RnsSerialDecoder cap) (input : List UInt8) :
    feedSlice lane d input = (bytewise cap).run d input := by
  fun_induction feedSlice lane d input with
  | case1 d input d' rest hnext =>
      obtain ⟨consumed, hreads⟩ := nextFrameInto_reads lane d input
      rw [hnext] at hreads
      have hsplit : input = consumed := by
        rw [hreads.split, hreads.exhausted rfl, List.append_nil]
      rw [hsplit, hreads.run]
      rfl
  | case2 d input d' len rest hnext d'' frames hrest ih =>
      obtain ⟨consumed, hreads⟩ := nextFrameInto_reads lane d input
      rw [hnext] at hreads
      rw [hreads.split, (bytewise cap).run_append_of_eq hreads.run (ih.symm.trans hrest)]
      rfl
  | case3 d input d' e rest hnext ih =>
      obtain ⟨consumed, hreads⟩ := nextFrameInto_reads lane d input
      rw [hnext] at hreads
      rw [ih, hreads.split, Transducer.run_append, hreads.run]
      rfl

/-- A stream that arrives in slices. -/
def feedSlices (lane : ℕ) : RnsSerialDecoder cap → List (List UInt8) →
    RnsSerialDecoder cap × List (List UInt8)
  | d, [] => (d, [])
  | d, slice :: slices =>
      let (d', frames) := feedSlice lane d slice
      let (d'', more) := feedSlices lane d' slices
      (d'', frames ++ more)

theorem feedSlices_eq (lane : ℕ) (d : RnsSerialDecoder cap) (slices : List (List UInt8)) :
    feedSlices lane d slices = (bytewise cap).run d slices.flatten := by
  rw [← Transducer.runs_eq]
  induction slices generalizing d with
  | nil =>
      rfl
  | cons slice slices ih =>
      simp only [feedSlices, feedSlice_eq, ih, Transducer.runs]

end RnsSerialDecoder

/-! ## The bytes of a packet -/

def escape (byte : UInt8) : List UInt8 :=
  if isSpecial byte then [esc, byte ^^^ escMask] else [byte]

/-- A payload between its two flags. -/
def framed (payload : List UInt8) : List UInt8 :=
  flag :: (payload.flatMap escape ++ [flag])

theorem escape_of_special {byte : UInt8} (h : isSpecial byte = true) :
    escape byte = [esc, byte ^^^ escMask] :=
  if_pos h

theorem flatMap_escape_of_plain {run : List UInt8} (h : ∀ byte ∈ run, isSpecial byte = false) :
    run.flatMap escape = run := by
  induction run with
  | nil =>
      rfl
  | cons byte run ih =>
      rw [List.flatMap_cons, ih fun b hb => h b (List.mem_cons_of_mem _ hb), escape,
        h byte (by simp)]
      rfl

theorem flatMap_escape_of_none {lane : ℕ} {rest : List UInt8} (h : findSpecial lane rest = none) :
    rest.flatMap escape = rest := by
  rw [findSpecial_eq, List.findIdx?_eq_none_iff] at h
  exact flatMap_escape_of_plain h

/-- The run before the first special byte, that byte escaped, and the rest. -/
theorem flatMap_escape_of_some {lane pos : ℕ} {rest : List UInt8}
    (h : findSpecial lane rest = some pos) :
    rest.flatMap escape =
      rest.take pos ++ [esc, rest.get ⟨pos, findSpecial_lt h⟩ ^^^ escMask] ++
        (rest.drop (pos + 1)).flatMap escape := by
  have hplain : ∀ byte ∈ rest.take pos, isSpecial byte = false := by
    intro byte hbyte
    have hmem : byte ∈ rest.take ((findSpecial lane rest).getD rest.length) := by
      rwa [h]
    exact RnsSerialDecoder.not_special_of_mem_take hmem
  have hlt := findSpecial_lt h
  have hspecial : isSpecial rest[pos] = true := by
    rw [findSpecial_eq] at h
    exact (List.findIdx?_eq_some_iff_getElem.1 h).2.1
  have hsplit : rest = rest.take pos ++ rest[pos] :: rest.drop (pos + 1) := by
    rw [List.getElem_cons_drop, List.take_append_drop]
  conv_lhs => rw [hsplit]
  rw [List.flatMap_append, List.flatMap_cons, flatMap_escape_of_plain hplain,
    escape_of_special hspecial, List.append_assoc]
  rfl

/-- The loop writes the rest of the payload, or fails if that does not fit. -/
theorem encodeFrom_eq (lane outputLen : ℕ) (written rest : List UInt8) :
    encodeFrom lane outputLen written rest =
      if (written ++ rest.flatMap escape ++ [flag]).length ≤ outputLen then
        .ok (written ++ rest.flatMap escape ++ [flag])
      else
        .error .outputTooSmall := by
  fun_induction encodeFrom lane outputLen written rest with
  | case1 written rest split run hbig =>
      -- the run alone is too long
      have hrun : run.length ≤ (rest.flatMap escape).length := by
        cases hsplit : split with
        | none =>
            rw [flatMap_escape_of_none hsplit]
            exact List.length_take_le' _ _
        | some pos =>
            have hlen : run.length = (rest.take pos).length := by
              simp only [run, hsplit, Option.getD_some]
            rw [flatMap_escape_of_some hsplit, hlen]
            simp only [List.length_append]
            omega
      rw [if_neg]
      simp only [List.length_append]
      omega
  | case2 written rest split run hfits written' hsplit hbig =>
      have hrun : run = rest := by
        simp only [run, hsplit, Option.getD_none, List.take_length]
      rw [flatMap_escape_of_none hsplit, if_neg]
      simp only [written', hrun, List.length_append, List.length_singleton] at hbig ⊢
      omega
  | case3 written rest split run hfits written' hsplit hroom =>
      have hrun : run = rest := by
        simp only [run, hsplit, Option.getD_none, List.take_length]
      rw [flatMap_escape_of_none hsplit, if_pos]
      · rw [← hrun]
      · simp only [written', hrun, List.length_append, List.length_singleton] at hroom ⊢
        omega
  | case4 written rest split run hfits written' pos hsplit hbig =>
      have hrun : run = rest.take pos := by
        simp only [run, hsplit, Option.getD_some]
      rw [flatMap_escape_of_some hsplit, if_neg]
      simp only [written', hrun, List.length_append, List.length_cons, List.length_nil] at hbig ⊢
      omega
  | case5 written rest split run hfits written' pos hsplit hroom special ih =>
      have hrun : run = rest.take pos := by
        simp only [run, hsplit, Option.getD_some]
      have hassoc : written ++ rest.flatMap escape =
          written' ++ [esc, special ^^^ escMask] ++ (rest.drop (pos + 1)).flatMap escape := by
        rw [flatMap_escape_of_some hsplit]
        simp only [written', hrun, special, List.append_assoc]
      rw [ih, hassoc]

/-- `encode` fills the output with the framed payload, or fails if that does not fit. -/
theorem encode_eq (lane : ℕ) (input : List UInt8) (outputLen : ℕ) :
    encode lane input outputLen =
      if (framed input).length ≤ outputLen then .ok (framed input)
      else .error .outputTooSmall := by
  by_cases hzero : outputLen = 0
  · subst hzero
    rw [encode, if_pos rfl, if_neg (by simp [framed])]
  · rw [encode, if_neg hzero, encodeFrom_eq]
    rfl

theorem eq_framed_of_encode {lane n : ℕ} {input output : List UInt8}
    (h : encode lane input n = .ok output) : output = framed input := by
  rw [encode_eq] at h
  split at h
  · exact (Except.ok.inj h).symm
  · cases h

theorem length_framed_le (payload : List UInt8) :
    (framed payload).length ≤ maxEncodedLen payload.length := by
  have hescape : (payload.flatMap escape).length ≤ 2 * payload.length := by
    induction payload with
    | nil =>
        exact Nat.le_refl _
    | cons byte payload ih =>
        have hbyte : (escape byte).length ≤ 2 := by
          rw [escape]
          split <;> simp
        rw [List.flatMap_cons, List.length_append, List.length_cons]
        omega
  rw [framed, List.length_cons, List.length_append, List.length_singleton, maxEncodedLen]
  omega

/-- An output of `max_encoded_len` bytes always suffices. -/
theorem encode_of_le {lane n : ℕ} {payload : List UInt8}
    (h : maxEncodedLen payload.length ≤ n) : encode lane payload n = .ok (framed payload) := by
  rw [encode_eq, if_pos ((length_framed_le payload).trans h)]

theorem length_le_of_encode {lane n : ℕ} {input output : List UInt8}
    (h : encode lane input n = .ok output) : output.length ≤ n := by
  rw [encode_eq] at h
  split at h
  · next hfits => exact Except.ok.inj h ▸ hfits
  · cases h

/-! ## Reading packets back -/

namespace RnsSerialDecoder

variable {cap : ℕ}

/-- An escaped byte is neither `FLAG` nor `ESC`, and stands for the byte it was made from. -/
theorem escaped {byte : UInt8} (h : isSpecial byte = true) :
    byte ^^^ escMask ≠ flag ∧ byte ^^^ escMask ≠ esc ∧ unescape (byte ^^^ escMask) = byte := by
  rcases List.mem_pair.1 ((isSpecial_iff byte).1 h) with rfl | rfl <;> decide

/-- An open frame takes one byte of the payload. -/
theorem run_escape {p : List UInt8} {byte : UInt8} (hp : p.length < cap) :
    (bytewise cap).run (inside p hp.le) (escape byte) =
      (inside (p ++ [byte]) (by rw [List.length_append]; exact hp), []) := by
  cases hbyte : isSpecial byte with
  | false =>
      rw [escape, hbyte, if_neg (by simp), Transducer.run_cons]
      simp only [bytewise, feed_plain hp hbyte]
      rfl
  | true =>
      obtain ⟨hflag, hesc, hback⟩ := escaped hbyte
      have hne : esc ≠ flag := by decide
      rw [escape_of_special hbyte, Transducer.run_cons, Transducer.run_cons]
      simp [bytewise, feed, feedOneInto, inside, hne, hflag, hesc, hback, FrameSink.push,
        Nat.not_le.2 hp]

/-- An open frame takes a payload it has room for. -/
theorem run_payload {p payload : List UInt8} (hp : p.length + payload.length ≤ cap) :
    (bytewise cap).run (inside p (by omega)) (payload.flatMap escape) =
      (inside (p ++ payload) (by rw [List.length_append]; exact hp), []) := by
  induction payload generalizing p with
  | nil =>
      simp
  | cons byte payload ih =>
      rw [List.length_cons] at hp
      have hrest := ih (p := p ++ [byte]) (by rw [List.length_append, List.length_singleton]; omega)
      have hbyte : (bytewise cap).run (inside p (by omega)) (escape byte) = _ :=
        run_escape (by omega)
      rw [List.flatMap_cons, (bytewise cap).run_append_of_eq hbyte hrest]
      simp

/-- The scanner between two frames, the last payload still in the sink. -/
def closed (payload : List UInt8) (h : payload.length ≤ cap) : RnsSerialDecoder cap where
  scanner := .new
  sink := ⟨payload, h⟩

/-- The rest of a frame whose opening flag was read. -/
theorem run_body {payload : List UInt8} (h : payload.length ≤ cap) :
    (bytewise cap).run (inside [] (Nat.zero_le cap)) (payload.flatMap escape ++ [flag]) =
      (closed payload h, [payload]) := by
  have hbody : (bytewise cap).run (inside [] (Nat.zero_le cap)) (payload.flatMap escape) = _ :=
    run_payload (by simpa using h)
  have hclose : (bytewise cap).run (inside payload h) [flag] = (closed payload h, [payload]) := by
    rw [Transducer.run_cons]
    simp only [bytewise, feed_flag_inFrame (d := inside payload h) rfl]
    rfl
  exact (bytewise cap).run_append_of_eq hbody hclose

/-- Between two frames a payload needs no opening flag, unless it is empty. -/
theorem run_body_idle {d : RnsSerialDecoder cap} {payload : List UInt8}
    (hidle : d.scanner.inFrame = false) (hne : payload ≠ []) (h : payload.length ≤ cap) :
    (bytewise cap).run d (payload.flatMap escape ++ [flag]) = (closed payload h, [payload]) := by
  rw [← run_body h]
  obtain ⟨byte, payload, rfl⟩ := List.exists_cons_of_ne_nil hne
  obtain ⟨first, more, hword, hfirst⟩ :
      ∃ first more, escape byte = first :: more ∧ first ≠ flag := by
    cases hbyte : isSpecial byte with
    | false =>
        refine ⟨byte, [], by rw [escape, hbyte]; rfl, ?_⟩
        rintro rfl
        cases hbyte
    | true =>
        exact ⟨esc, [byte ^^^ escMask], escape_of_special hbyte, by decide⟩
  rw [List.flatMap_cons, hword, List.cons_append, List.cons_append, Transducer.run_cons,
    Transducer.run_cons]
  simp only [bytewise, feed_idle hidle hfirst]

theorem run_framed_idle {d : RnsSerialDecoder cap} {payload : List UInt8}
    (hidle : d.scanner.inFrame = false) (h : payload.length ≤ cap) :
    (bytewise cap).run d (framed payload) = (closed payload h, [payload]) := by
  rw [framed, Transducer.run_cons]
  simp only [bytewise, feed_flag_idle hidle] at *
  have hbody := run_body h
  simp only [bytewise] at hbody
  rw [hbody]
  rfl

/-- The opening flag closes a frame that was open: its payload comes out, then the packet. -/
theorem run_framed_inFrame {d : RnsSerialDecoder cap} {payload : List UInt8}
    (hopen : d.scanner.inFrame = true) (hne : payload ≠ []) (h : payload.length ≤ cap) :
    (bytewise cap).run d (framed payload) = (closed payload h, [d.sink.bytes, payload]) := by
  have hbody := run_body_idle (d := { d with scanner := .new }) rfl hne h
  rw [framed, Transducer.run_cons]
  simp only [bytewise, feed_flag_inFrame hopen] at hbody ⊢
  rw [hbody]
  rfl

theorem run_framed_nil_inFrame {d : RnsSerialDecoder cap} (hopen : d.scanner.inFrame = true) :
    (bytewise cap).run d (framed []) = (inside [] (Nat.zero_le cap), [d.sink.bytes]) := by
  rw [framed, Transducer.run_cons]
  simp only [bytewise, feed_flag_inFrame hopen]
  rfl

/-- The scanner behind a seam whose `commit_inbound` drops empty frames. -/
def committed (cap : ℕ) : Transducer (RnsSerialDecoder cap) UInt8 (List UInt8) :=
  (bytewise cap).filter fun payload => !payload.isEmpty

/-- No frame is open, or an empty one: the next packet is read whole and alone. -/
def Settled (d : RnsSerialDecoder cap) : Prop :=
  d.scanner.inFrame = true → d.sink.bytes = []

/-- What a frame that was open adds before the packets of a stream. -/
def leftover (d : RnsSerialDecoder cap) : List (List UInt8) :=
  if d.scanner.inFrame && !d.sink.bytes.isEmpty then [d.sink.bytes] else []

theorem leftover_of_settled {d : RnsSerialDecoder cap} (h : Settled d) : leftover d = [] := by
  cases hopen : d.scanner.inFrame with
  | false =>
      rw [leftover, hopen, Bool.false_and, if_neg (by simp)]
  | true =>
      rw [leftover, h hopen, List.isEmpty_nil, Bool.not_true, Bool.and_false, if_neg (by simp)]

/-- A packet read from any state: what was open comes out first, and no phase is lost. -/
theorem run_packet (d : RnsSerialDecoder cap) {payload : List UInt8} (h : payload.length ≤ cap) :
    ∃ t, (committed cap).run d (framed payload) =
      (t, leftover d ++ [payload].filter fun p => !p.isEmpty) ∧ Settled t := by
  rw [committed, Transducer.run_filter]
  cases hopen : d.scanner.inFrame with
  | false =>
      refine ⟨closed payload h, ?_, nofun⟩
      rw [run_framed_idle hopen h, leftover_of_settled (by simp [Settled, hopen])]
      rfl
  | true =>
      have hleft : leftover d = [d.sink.bytes].filter fun p => !p.isEmpty := by
        cases hbytes : d.sink.bytes <;> simp [leftover, hopen, hbytes]
      by_cases hne : payload = []
      · subst hne
        refine ⟨inside [] (Nat.zero_le cap), ?_, fun _ => rfl⟩
        rw [run_framed_nil_inFrame hopen, hleft]
        simp
      · refine ⟨closed payload h, ?_, nofun⟩
        rw [run_framed_inFrame hopen hne h, hleft, ← List.filter_append]
        rfl

/-- From between two frames it makes no difference what an earlier one left in the sink. -/
theorem run_idle {d d' : RnsSerialDecoder cap} (h : d.scanner.inFrame = false)
    (h' : d'.scanner.inFrame = false) (input : List UInt8) :
    ((committed cap).run d input).2 = ((committed cap).run d' input).2 ∧
      (Settled ((committed cap).run d input).1 → Settled ((committed cap).run d' input).1) := by
  cases input with
  | nil =>
      exact ⟨rfl, fun _ hopen => by rw [Transducer.run_nil, h'] at hopen; cases hopen⟩
  | cons byte input =>
      have hfeed : d.feed byte = d'.feed byte := by
        by_cases hbyte : byte = flag
        · rw [hbyte, feed_flag_idle h, feed_flag_idle h']
        · rw [feed_idle h hbyte, feed_idle h' hbyte]
      have hrun : (committed cap).run d (byte :: input) = (committed cap).run d' (byte :: input) := by
        rw [Transducer.run_cons, Transducer.run_cons]
        simp only [committed, Transducer.filter, bytewise, hfeed]
      rw [hrun]
      exact ⟨rfl, id⟩

/-- A packet behind a word that leaves the scanner settled. -/
theorem run_append_packet {d : RnsSerialDecoder cap} {input payload : List UInt8}
    (hsettled : Settled ((committed cap).run d input).1) (h : payload.length ≤ cap) :
    ((committed cap).run d (input ++ framed payload)).2 =
        ((committed cap).run d input).2 ++ ([payload].filter fun p => !p.isEmpty) ∧
      Settled ((committed cap).run d (input ++ framed payload)).1 := by
  obtain ⟨t, hpacket, ht⟩ := run_packet ((committed cap).run d input).1 h
  rw [leftover_of_settled hsettled, List.nil_append] at hpacket
  rw [Transducer.run_append, hpacket]
  exact ⟨rfl, ht⟩

/-- A stream of packets read from any state: what was open, then the packets. -/
theorem run_packets (d : RnsSerialDecoder cap) {payloads : List (List UInt8)}
    (h : ∀ payload ∈ payloads, payload.length ≤ cap) (hne : payloads ≠ []) :
    ∃ t, (committed cap).run d (payloads.flatMap framed) =
      (t, leftover d ++ payloads.filter fun p => !p.isEmpty) ∧ Settled t := by
  obtain ⟨payload, payloads, rfl⟩ := List.exists_cons_of_ne_nil hne
  obtain ⟨t, hfirst, ht⟩ := run_packet d (h payload (by simp))
  have hword : ∀ s, Settled s → ∀ p ∈ payloads,
      ∃ t, (committed cap).run s (framed p) = (t, [p].filter fun p => !p.isEmpty) ∧
        Settled t := by
    intro s hs p hp
    have hpacket := run_packet s (h p (List.mem_cons_of_mem _ hp))
    rwa [leftover_of_settled hs] at hpacket
  obtain ⟨u, hrest, hu⟩ := (committed cap).run_flatMap hword ht
  refine ⟨u, ?_, hu⟩
  have hmessages : (payloads.flatMap fun p => [p].filter fun p => !p.isEmpty) =
      payloads.filter fun p => !p.isEmpty := by
    rw [← List.filter_flatMap, List.flatMap_singleton']
  rw [List.flatMap_cons, (committed cap).run_append_of_eq hfirst hrest, hmessages,
    List.append_assoc, ← List.filter_append]
  rfl

/-- Neither the width of a lane nor where the input is cut changes what a scanner makes of it. -/
theorem feedSlices_agree (lane lane' : ℕ) (d : RnsSerialDecoder cap)
    {slices slices' : List (List UInt8)} (h : slices.flatten = slices'.flatten) :
    feedSlices lane d slices = feedSlices lane' d slices' := by
  rw [feedSlices_eq, feedSlices_eq, h]

theorem feedSlices_agree_cut :
    feedSlices 16 (inside [] (Nat.zero_le 4)) [[1, esc], [0x5E, 2, flag]] =
      feedSlices 8 (inside [] (Nat.zero_le 4)) [[1, esc, 0x5E, 2, flag]] :=
  feedSlices_agree 16 8 _ rfl

/-- Packets written one after the other, cut anywhere, are read back from a scanner in any state:
what it was in the middle of comes out first, once, and every packet after it. -/
theorem feedSlices_encode (lane lane' : ℕ) (d : RnsSerialDecoder cap)
    {payloads outputs slices : List (List UInt8)} (hne : payloads ≠ [])
    (hfits : ∀ payload ∈ payloads, payload.length ≤ cap)
    (hencode : List.Forall₂ (fun payload output => ∃ n, encode lane payload n = .ok output)
      payloads outputs)
    (hslices : slices.flatten = outputs.flatten) :
    ((feedSlices lane' d slices).2.filter fun p => !p.isEmpty) =
      leftover d ++ payloads.filter fun p => !p.isEmpty := by
  have houtputs : outputs.flatten = payloads.flatMap framed := by
    clear hslices hne hfits
    induction hencode with
    | nil =>
        rfl
    | cons hfirst _ ih =>
        obtain ⟨n, hn⟩ := hfirst
        rw [List.flatten_cons, List.flatMap_cons, ih, eq_framed_of_encode hn]
  obtain ⟨t, hrun, -⟩ := run_packets d hfits hne
  rw [committed, Transducer.run_filter] at hrun
  rw [feedSlices_eq, hslices, houtputs]
  exact congrArg Prod.snd hrun

theorem feedSlices_encode_mid_frame :
    ((feedSlices 8 (inside [9] (by decide : 1 ≤ 4)) [[flag, 1, esc], [0x5E, flag]]).2.filter
      fun p => !p.isEmpty) = [[9], [1, flag]] := by
  have hfits : ∀ payload ∈ [[1, flag]], payload.length ≤ 4 := by decide
  have hencode : encode 16 [1, flag] 6 = .ok [flag, 1, esc, 0x5E, flag] :=
    encode_of_le (by decide)
  exact feedSlices_encode 16 8 (inside [9] (by decide : 1 ≤ 4)) (List.cons_ne_nil _ _) hfits
    (.cons ⟨6, hencode⟩ .nil) rfl

end RnsSerialDecoder
end Wire
end SvenBridge
