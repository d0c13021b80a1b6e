import SvenBridge.Lib.Machine
import SvenBridge.Lib.Reorder
import SvenBridge.LinkMtu

/-!
# Channel — messages in order over a link

The receiving half of a channel (`routing/links/channel/`): each message travels in an envelope with
a sequence number of 16 bits, and envelopes come late, twice, in another order or not at all.  This
file contains

* `writeEnvelope` and `parseEnvelope`, and `parseEnvelope_iff`: an envelope is read from exactly the
  bytes that writing it gives;
* `receive`, over the growing table, and `channelSequences` — the labels it goes by;
* `receiver` — a sender's messages, of which any may arrive at any time and any number of times — and
  `channel_delivers_in_order`.
-/

namespace SvenBridge
namespace Wire

open Lib

abbrev MessageType := UInt16
abbrev ChannelSequence := UInt16

namespace Channel

/-! ## Envelopes -/

/-- `to_be_bytes` of `u16`. -/
def toBeBytes (n : UInt16) : List UInt8 :=
  [UInt8.ofNat (n.toNat / 256), UInt8.ofNat n.toNat]

/-- `from_be_bytes` of `u16`. -/
def fromBeBytes (high low : UInt8) : UInt16 :=
  UInt16.ofNat (high.toNat * 256 + low.toNat)

theorem fromBeBytes_toBeBytes (n : UInt16) :
    fromBeBytes (UInt8.ofNat (n.toNat / 256)) (UInt8.ofNat n.toNat) = n := by
  rw [← UInt16.toNat_inj, fromBeBytes, UInt16.toNat_ofNat', UInt8.toNat_ofNat', UInt8.toNat_ofNat']
  have := n.toNat_lt
  omega

theorem toBeBytes_fromBeBytes (high low : UInt8) : toBeBytes (fromBeBytes high low) = [high, low] := by
  have hhigh := high.toNat_lt
  have hlow := low.toNat_lt
  have hvalue : (fromBeBytes high low).toNat = high.toNat * 256 + low.toNat := by
    rw [fromBeBytes, UInt16.toNat_ofNat']
    omega
  have hfirst : UInt8.ofNat ((high.toNat * 256 + low.toNat) / 256) = high := by
    rw [← UInt8.toNat_inj, UInt8.toNat_ofNat']
    omega
  have hsecond : UInt8.ofNat (high.toNat * 256 + low.toNat) = low := by
    rw [← UInt8.toNat_inj, UInt8.toNat_ofNat']
    omega
  rw [toBeBytes, hvalue, hfirst, hsecond]

def envelopeHeaderLen : ℕ := 6

inductive EnvelopeError
  | payloadTooLong
  | bufferTooShort
  | truncatedHeader
  | lengthMismatch
  deriving DecidableEq

structure Envelope where
  messageType : MessageType
  sequence : ChannelSequence
  payload : List UInt8
  deriving DecidableEq

/-- The envelope of a payload, in a buffer of this length. -/
def writeEnvelope (messageType : MessageType) (sequence : ChannelSequence) (payload : List UInt8)
    (bufLen : ℕ) : Except EnvelopeError (List UInt8) :=
  if payload.length > 65535 then
    .error .payloadTooLong
  else if bufLen < envelopeHeaderLen + payload.length then
    .error .bufferTooShort
  else
    .ok (toBeBytes messageType ++ toBeBytes sequence ++ toBeBytes (UInt16.ofNat payload.length) ++
      payload)

def parseEnvelope : List UInt8 → Except EnvelopeError Envelope
  | type₁ :: type₀ :: sequence₁ :: sequence₀ :: length₁ :: length₀ :: payload =>
      if payload.length ≠ (fromBeBytes length₁ length₀).toNat then
        .error .lengthMismatch
      else
        .ok ⟨fromBeBytes type₁ type₀, fromBeBytes sequence₁ sequence₀, payload⟩
  | _ => .error .truncatedHeader

theorem writeEnvelope_eq_ok_iff {messageType : MessageType} {sequence : ChannelSequence}
    {payload : List UInt8} {bufLen : ℕ} {bytes : List UInt8} :
    writeEnvelope messageType sequence payload bufLen = .ok bytes ↔
      payload.length ≤ 65535 ∧ envelopeHeaderLen + payload.length ≤ bufLen ∧
        bytes = toBeBytes messageType ++ toBeBytes sequence ++
          toBeBytes (UInt16.ofNat payload.length) ++ payload := by
  rw [writeEnvelope]
  constructor
  · intro h
    split at h
    · cases h
    · rename_i hlong
      split at h
      · cases h
      · rename_i hshort
        cases h
        exact ⟨Nat.le_of_not_lt hlong, Nat.le_of_not_lt hshort, rfl⟩
  · rintro ⟨hlong, hshort, rfl⟩
    rw [if_neg (Nat.not_lt.2 hlong), if_neg (Nat.not_lt.2 hshort)]

theorem toNat_ofNat_length {payload : List UInt8} (h : payload.length ≤ 65535) :
    (UInt16.ofNat payload.length).toNat = payload.length := by
  rw [UInt16.toNat_ofNat']
  omega

theorem parseEnvelope_of_written {messageType : MessageType} {sequence : ChannelSequence}
    {payload : List UInt8} (h : payload.length ≤ 65535) :
    parseEnvelope (toBeBytes messageType ++ toBeBytes sequence ++
      toBeBytes (UInt16.ofNat payload.length) ++ payload) = .ok ⟨messageType, sequence, payload⟩ := by
  simp only [toBeBytes, List.cons_append, List.nil_append, parseEnvelope, fromBeBytes_toBeBytes]
  rw [if_neg (not_not.2 (toNat_ofNat_length h).symm)]

/-- An envelope is read from exactly the bytes that writing it gives. -/
theorem parseEnvelope_iff (bytes : List UInt8) (envelope : Envelope) :
    parseEnvelope bytes = .ok envelope ↔
      writeEnvelope envelope.messageType envelope.sequence envelope.payload bytes.length =
        .ok bytes := by
  rw [writeEnvelope_eq_ok_iff]
  constructor
  · intro h
    rw [parseEnvelope.eq_def] at h
    split at h
    · rename_i type₁ type₀ sequence₁ sequence₀ length₁ length₀ payload
      split at h
      · cases h
      rename_i hlength
      rw [not_not] at hlength
      obtain rfl := Except.ok.inj h
      have hlong : payload.length ≤ 65535 := by
        have := (fromBeBytes length₁ length₀).toNat_lt
        omega
      have hofNat : UInt16.ofNat payload.length = fromBeBytes length₁ length₀ := by
        rw [hlength, UInt16.ofNat_toNat]
      refine ⟨hlong, ?_, ?_⟩
      · simp only [List.length_cons, envelopeHeaderLen]
        omega
      · rw [hofNat, toBeBytes_fromBeBytes, toBeBytes_fromBeBytes, toBeBytes_fromBeBytes]
        rfl
    · cases h
  · rintro ⟨hlong, -, hbytes⟩
    rw [hbytes]
    exact parseEnvelope_of_written hlong

/-! ## Receiving -/

def windowMaxMessages : UInt16 := 48

/-- `ChannelSequence::next`. -/
def next (sequence : ChannelSequence) : ChannelSequence :=
  sequence + 1

def withinReceiveWindow (sequence nextRx : ChannelSequence) : Bool :=
  decide (sequence - nextRx ≤ windowMaxMessages)

/-- `BufferFull` and `Untracked` are of the tables of a fixed size. -/
inductive ReceiveOutcome
  | delivered (count : ℕ)
  | buffered
  | alreadyHave
  | outOfWindow
  | bufferFull
  | untracked
  deriving DecidableEq

def ReceiveOutcome.owesProof : ReceiveOutcome → Bool
  | .bufferFull | .untracked => false
  | .delivered _ | .buffered | .alreadyHave | .outOfWindow => true

def ReceiveOutcome.ofArrival : Arrival → ReceiveOutcome
  | .delivered count => .delivered count
  | .buffered => .buffered
  | .alreadyHave => .alreadyHave
  | .outOfWindow => .outOfWindow

structure ChannelMessage where
  messageType : MessageType
  payload : List UInt8
  deriving DecidableEq

/-- What a channel has received: `next_expected` and the reorder buffer. -/
abbrev ReceiveRow := Reorder ChannelSequence ChannelMessage

def receive (sequence : ChannelSequence) (messageType : MessageType) (payload : List UInt8)
    (row : ReceiveRow) : ReceiveOutcome × List ChannelMessage × ReceiveRow :=
  let (arrival, messages, row) :=
    Reorder.receive next withinReceiveWindow sequence ⟨messageType, payload⟩ row
  (.ofArrival arrival, messages, row)

/-- The sequence number of the message with this number. -/
def sequenceOf (k : ℕ) : ChannelSequence :=
  UInt16.ofNat k

def channelSequences : Reorder.Labelling ChannelSequence where
  label := sequenceOf
  succ := next
  within := withinReceiveWindow
  modulus := 65536
  window := 48
  window_lt := by decide
  succ_label k := by
    rw [← UInt16.toNat_inj, next, UInt16.toNat_add, sequenceOf, sequenceOf, UInt16.toNat_ofNat',
      UInt16.toNat_ofNat', UInt16.toNat_one]
    omega
  label_eq_iff j k := by
    rw [← UInt16.toNat_inj, sequenceOf, sequenceOf, UInt16.toNat_ofNat', UInt16.toNat_ofNat']
  within_iff k r := by
    rw [withinReceiveWindow, decide_eq_true_eq, UInt16.le_iff_toNat_le, UInt16.toNat_sub, sequenceOf,
      sequenceOf, UInt16.toNat_ofNat', UInt16.toNat_ofNat']
    have hwindow : windowMaxMessages.toNat = 48 := rfl
    rw [hwindow]
    omega

/-! ## A sender and a receiver -/

def channelMdu (mtu : ℕ) : ℕ :=
  min (linkMdu mtu - envelopeHeaderLen) 65535

/-- An envelope with the longest body of a command (`CHANNEL_PLAINTEXT_CAP`). -/
def plaintextCap : ℕ :=
  envelopeHeaderLen + channelMdu broadcastMtu

/-- A receiver, what it has handed over, and the numbers of the messages it has kept and of those it
has acknowledged. -/
structure Receiver where
  row : ReceiveRow
  delivered : List ChannelMessage
  kept : List ℕ
  acknowledged : List ℕ

/-- A copy of the message with this number arrives. -/
def Receiver.step (messages : List ChannelMessage) (s : Receiver) (k : ℕ) : Option Receiver := do
  let message ← messages[k]?
  let bytes ←
    (writeEnvelope message.messageType (sequenceOf k) message.payload plaintextCap).toOption
  let envelope ← (parseEnvelope bytes).toOption
  let (outcome, handed, row) :=
    receive envelope.sequence envelope.messageType envelope.payload s.row
  return {
    row := row
    delivered := s.delivered ++ handed
    kept := if outcome = .outOfWindow then s.kept else k :: s.kept
    acknowledged := if outcome.owesProof then k :: s.acknowledged else s.acknowledged }

def receiver (messages : List ChannelMessage) : Machine Receiver ℕ where
  init := ⟨⟨sequenceOf 0, []⟩, [], [], []⟩
  step := Receiver.step messages

/-- The copy is neither so old nor so far ahead that its number has come round. -/
def Receiver.Fresh (s : Receiver) (k : ℕ) : Prop :=
  k < s.delivered.length + 65536 ∧ s.delivered.length + 48 < k + 65536

instance (s : Receiver) (k : ℕ) : Decidable (s.Fresh k) :=
  inferInstanceAs (Decidable (_ ∧ _))

/-- What a receiver has kept, it has handed over or still holds. -/
structure Receiver.InOrder (messages : List ChannelMessage) (s : Receiver) : Prop where
  holds : Reorder.Holds channelSequences messages {k | k ∈ s.kept} s.delivered.length s.row
  delivered : s.delivered = messages.take s.delivered.length
  sent : ∀ k ∈ s.kept, k < messages.length

namespace Receiver

variable {messages : List ChannelMessage} {s t : Receiver} {k : ℕ}

/-- What an arrival does. -/
theorem step_spec (hstep : Receiver.step messages s k = some t) :
    ∃ message arrival handed row, messages[k]? = some message ∧
      Reorder.receive channelSequences.succ channelSequences.within (channelSequences.label k) message
        s.row = (arrival, handed, row) ∧
      t = ⟨row, s.delivered ++ handed,
        if arrival = .outOfWindow then s.kept else k :: s.kept, k :: s.acknowledged⟩ := by
  rw [Receiver.step] at hstep
  cases hmessage : messages[k]? with
  | none =>
      rw [hmessage] at hstep
      cases hstep
  | some message =>
      rw [hmessage, Option.bind_eq_bind, Option.bind_some] at hstep
      cases hwrite : writeEnvelope message.messageType (sequenceOf k) message.payload plaintextCap with
      | error _ =>
          rw [hwrite] at hstep
          cases hstep
      | ok bytes =>
          obtain ⟨hlong, -, rfl⟩ := writeEnvelope_eq_ok_iff.1 hwrite
          simp only [hwrite, Except.toOption, Option.bind_eq_bind, Option.bind_some,
            parseEnvelope_of_written hlong] at hstep
          obtain ⟨⟨arrival, handed, row⟩, hreceive⟩ :
              ∃ result, Reorder.receive channelSequences.succ channelSequences.within
                (channelSequences.label k) message s.row = result := ⟨_, rfl⟩
          refine ⟨message, arrival, handed, row, rfl, hreceive, ?_⟩
          have hown : receive (sequenceOf k) message.messageType message.payload s.row =
              (.ofArrival arrival, handed, row) := by
            change Reorder.receive next withinReceiveWindow (sequenceOf k)
              ⟨message.messageType, message.payload⟩ s.row = _ at hreceive
            rw [receive, hreceive]
          simp only [hown] at hstep
          obtain rfl := Option.some.inj hstep
          cases arrival <;> rfl

/-- One arrival: what it hands over comes next, and what it is kept for is told by its number. -/
theorem InOrder.step (h : s.InOrder messages) (hfresh : s.Fresh k)
    (hstep : Receiver.step messages s k = some t) :
    t.InOrder messages ∧ k ∈ t.acknowledged ∧ (k ∈ t.kept ↔ k ≤ s.delivered.length + 48) := by
  obtain ⟨message, arrival, handed, row, hmessage, hreceive, rfl⟩ := step_spec hstep
  have hlabel : channelSequences.Fresh s.delivered.length k := hfresh
  obtain ⟨r, hle, hholds, htake⟩ := Reorder.receive_spec h.holds hlabel hmessage
  have hdrop := Reorder.receive_outOfWindow_iff h.holds hlabel message
  rw [hreceive] at hholds htake hdrop
  have hwindow : channelSequences.window = 48 := rfl
  rw [hwindow] at hholds hdrop
  have hkept : ∀ j, j ∈ (if arrival = .outOfWindow then s.kept else k :: s.kept) ↔
      j ∈ (if k ≤ s.delivered.length + 48 then insert k {j | j ∈ s.kept} else {j | j ∈ s.kept}) := by
    intro j
    by_cases harrival : arrival = .outOfWindow
    · rw [if_pos harrival]
      rcases hdrop.1 harrival with hold | hahead
      · have hmem : k ∈ {j | j ∈ s.kept} := h.holds.below k hold
        rw [if_pos (by omega), Set.insert_eq_of_mem hmem]
        exact Iff.rfl
      · rw [if_neg (by omega)]
        exact Iff.rfl
    · have hnear := mt hdrop.2 harrival
      rw [if_neg harrival, if_pos (by omega), List.mem_cons]
      exact Iff.rfl
  have hset : {j | j ∈ (if arrival = .outOfWindow then s.kept else k :: s.kept)} =
      if k ≤ s.delivered.length + 48 then insert k {j | j ∈ s.kept} else {j | j ∈ s.kept} :=
    Set.ext hkept
  have hsent : ∀ j ∈ (if arrival = .outOfWindow then s.kept else k :: s.kept),
      j < messages.length := by
    intro j hj
    split at hj
    · exact h.sent j hj
    · rcases List.mem_cons.1 hj with rfl | hj
      · exact (List.getElem?_eq_some_iff.1 hmessage).1
      · exact h.sent j hj
  rw [← hset] at hholds
  have hdelivered : s.delivered ++ handed = messages.take r := by
    rw [← htake, ← h.delivered]
  have hr : r ≤ messages.length := by
    rcases Nat.eq_zero_or_pos r with hzero | hpos
    · rw [hzero]
      exact Nat.zero_le _
    · have := hsent (r - 1) (hholds.below (r - 1) (by omega))
      omega
  have hlen : (s.delivered ++ handed).length = r := by
    rw [hdelivered, List.length_take, Nat.min_eq_left hr]
  refine ⟨⟨?_, ?_, hsent⟩, List.mem_cons_self, ?_⟩
  · rw [hlen]
    exact hholds
  · rw [hlen]
    exact hdelivered
  · rw [hkept]
    split
    · rename_i hnear
      exact iff_of_true (Set.mem_insert k _) hnear
    · rename_i hahead
      refine iff_of_false (fun hk => hahead ?_) hahead
      exact h.holds.near k hk

theorem inOrder_of_reachable (h : (receiver messages).Reachable Receiver.Fresh s) :
    s.InOrder messages := by
  refine Machine.Reachable.invariant (I := Receiver.InOrder messages) ?_ ?_ h
  · refine ⟨?_, rfl, fun k hk => absurd hk List.not_mem_nil⟩
    have hempty : {k : ℕ | k ∈ ([] : List ℕ)} = ∅ := Set.eq_empty_of_forall_notMem
      fun k hk => List.not_mem_nil hk
    change Reorder.Holds channelSequences messages {k : ℕ | k ∈ ([] : List ℕ)} 0 _
    rw [hempty]
    exact Reorder.holds_start messages
  · exact fun s k t hinv hfresh hstep => (hinv.step hfresh hstep).1

end Receiver

/-- However the copies of a sender's messages are lost, doubled and shuffled: those handed over are
the first of them, in order and once each; all that were kept are handed over or wait, never more
than the window holds, up to the first that was not.  Every copy is acknowledged, and its message
kept unless it is more than 48 ahead. -/
theorem channel_delivers_in_order {messages : List ChannelMessage} {s : Receiver}
    (h : (receiver messages).Reachable Receiver.Fresh s) :
    s.delivered = messages.take s.delivered.length ∧
      (∀ k < s.delivered.length, k ∈ s.kept) ∧ s.delivered.length ∉ s.kept ∧
      (∀ k ∈ s.kept, s.delivered.length < k →
        ∃ message, messages[k]? = some message ∧ (sequenceOf k, message) ∈ s.row.waiting) ∧
      s.row.waiting.length ≤ 48 ∧
      ∀ k t, s.Fresh k → (receiver messages).step s k = some t →
        k ∈ t.acknowledged ∧ (k ∈ t.kept ↔ k ≤ s.delivered.length + 48) := by
  have hinv := Receiver.inOrder_of_reachable h
  refine ⟨hinv.delivered, hinv.holds.below, hinv.holds.gap, fun k hk hahead => ?_,
    hinv.holds.length_waiting, fun k t hfresh hstep => (hinv.step hfresh hstep).2⟩
  obtain ⟨w, hw, hlabel⟩ := List.mem_map.1 (hinv.holds.kept k hk (Nat.le_of_lt hahead))
  obtain ⟨j, hj, hrj, hwj, hitem⟩ := hinv.holds.waits w hw
  obtain rfl : j = k := hinv.holds.label_inj hj hrj (Nat.le_of_lt hahead) (hinv.holds.near k hk)
    (hwj.symm.trans hlabel)
  have hpair : (sequenceOf j, w.2) = w := Prod.ext hwj.symm rfl
  rw [← hpair] at hw
  exact ⟨w.2, hitem, hw⟩

/-- The second message comes first, and twice; the first lets both out, and comes again. -/
theorem channel_delivers_in_order_run :
    ∃ (messages : List ChannelMessage) (s : Receiver),
      s.delivered = messages.take 2 ∧ s.kept = [0, 1, 1] ∧ 2 ∉ s.kept := by
  let messages : List ChannelMessage := [⟨7, [10]⟩, ⟨7, [20, 21]⟩, ⟨8, []⟩]
  have hrun : ((receiver messages).runWhile Receiver.Fresh (receiver messages).init
      [1, 1, 0, 0]).any (fun s => decide (s.delivered.length = 2 ∧ s.kept = [0, 1, 1])) = true := by
    decide
  obtain ⟨s, h, hs⟩ := Machine.exists_reachable_of_runWhile hrun
  obtain ⟨hlen, hkept⟩ := of_decide_eq_true hs
  obtain ⟨hdelivered, -, hgap, -⟩ := channel_delivers_in_order h
  rw [hlen] at hdelivered hgap
  exact ⟨messages, s, hdelivered, hkept, hgap⟩

end Channel
end Wire
end SvenBridge
