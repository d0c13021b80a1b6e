import SvenBridge.Lib.Reader
import Mathlib.Data.List.Basic

/-!
# Header — the head of every packet on the wire

`[flags:1][hops:1] ( [transport_id:16] )? [destination:16][context:1] [payload…]` (`wire/`).  This
file contains

* `WirePacketHeader` with `parse` and `write`, and `parse_iff`: the accepted bytes are exactly those
  a header writes;
* `PacketHash` — the identity of a packet for the duplicate filter (`routing/dedup/core.rs`), and
  what of a packet it depends on.
-/

namespace SvenBridge
namespace Wire

open Lib

/-- `TRUNCATED_HASH_BYTE_LEN` bytes: a destination, a link or a transport node. -/
abbrev WireAddress := List.Vector UInt8 16

inductive WireError
  | bufferTooShort
  deriving DecidableEq

/-! ## Flags -/

inductive IfacFlag
  | «open»
  | authenticated
  deriving DecidableEq

inductive ContextFlag
  | unset
  | set
  deriving DecidableEq

inductive PropagationType
  | broadcast
  | transport
  deriving DecidableEq

inductive DestinationType
  | single
  | group
  | plain
  | link
  deriving DecidableEq

inductive PacketType
  | data
  | announce
  | linkRequest
  | proof
  deriving DecidableEq

def IfacFlag.toBits : IfacFlag → UInt8
  | .open => 0b0
  | .authenticated => 0b1

def IfacFlag.fromBits (bits : UInt8) : IfacFlag :=
  if bits &&& 0b1 = 0b0 then .open else .authenticated

def ContextFlag.toBits : ContextFlag → UInt8
  | .unset => 0b0
  | .set => 0b1

def ContextFlag.fromBits (bits : UInt8) : ContextFlag :=
  if bits &&& 0b1 = 0b0 then .unset else .set

def PropagationType.toBits : PropagationType → UInt8
  | .broadcast => 0b0
  | .transport => 0b1

def PropagationType.fromBits (bits : UInt8) : PropagationType :=
  if bits &&& 0b1 = 0b0 then .broadcast else .transport

def DestinationType.toBits : DestinationType → UInt8
  | .single => 0b00
  | .group => 0b01
  | .plain => 0b10
  | .link => 0b11

def DestinationType.fromBits (bits : UInt8) : DestinationType :=
  if bits &&& 0b11 = 0b00 then .single
  else if bits &&& 0b11 = 0b01 then .group
  else if bits &&& 0b11 = 0b10 then .plain
  else .link

def PacketType.toBits : PacketType → UInt8
  | .data => 0b00
  | .announce => 0b01
  | .linkRequest => 0b10
  | .proof => 0b11

def PacketType.fromBits (bits : UInt8) : PacketType :=
  if bits &&& 0b11 = 0b00 then .data
  else if bits &&& 0b11 = 0b01 then .announce
  else if bits &&& 0b11 = 0b10 then .linkRequest
  else .proof

/-! ## The context byte -/

inductive WireContext
  | none
  | resource
  | resourceAdvertisement
  | resourceRequest
  | resourceHashUpdate
  | resourceProof
  | resourceInitiatorCancel
  | resourceReceiverCancel
  | cacheRequest
  | request
  | response
  | pathResponse
  | command
  | commandStatus
  | channel
  | keepAlive
  | linkIdentify
  | linkClose
  | linkProof
  | linkRtt
  | linkRequestProof
  | unknown (byte : UInt8)
  deriving DecidableEq

namespace WireContext

def fromByte (byte : UInt8) : WireContext :=
  if byte = 0x00 then .none
  else if byte = 0x01 then .resource
  else if byte = 0x02 then .resourceAdvertisement
  else if byte = 0x03 then .resourceRequest
  else if byte = 0x04 then .resourceHashUpdate
  else if byte = 0x05 then .resourceProof
  else if byte = 0x06 then .resourceInitiatorCancel
  else if byte = 0x07 then .resourceReceiverCancel
  else if byte = 0x08 then .cacheRequest
  else if byte = 0x09 then .request
  else if byte = 0x0A then .response
  else if byte = 0x0B then .pathResponse
  else if byte = 0x0C then .command
  else if byte = 0x0D then .commandStatus
  else if byte = 0x0E then .channel
  else if byte = 0xFA then .keepAlive
  else if byte = 0xFB then .linkIdentify
  else if byte = 0xFC then .linkClose
  else if byte = 0xFD then .linkProof
  else if byte = 0xFE then .linkRtt
  else if byte = 0xFF then .linkRequestProof
  else .unknown byte

def toByte : WireContext → UInt8
  | .none => 0x00
  | .resource => 0x01
  | .resourceAdvertisement => 0x02
  | .resourceRequest => 0x03
  | .resourceHashUpdate => 0x04
  | .resourceProof => 0x05
  | .resourceInitiatorCancel => 0x06
  | .resourceReceiverCancel => 0x07
  | .cacheRequest => 0x08
  | .request => 0x09
  | .response => 0x0A
  | .pathResponse => 0x0B
  | .command => 0x0C
  | .commandStatus => 0x0D
  | .channel => 0x0E
  | .keepAlive => 0xFA
  | .linkIdentify => 0xFB
  | .linkClose => 0xFC
  | .linkProof => 0xFD
  | .linkRtt => 0xFE
  | .linkRequestProof => 0xFF
  | .unknown byte => byte

/-- A byte that has a name is not spelled `unknown`. -/
def Canonical (context : WireContext) : Prop :=
  fromByte context.toByte = context

theorem toByte_fromByte (byte : UInt8) : (fromByte byte).toByte = byte := by
  have hall : ∀ n : Fin 256, (fromByte (UInt8.ofNat n)).toByte = UInt8.ofNat n := by
    decide +kernel
  simpa using hall ⟨byte.toNat, byte.toNat_lt⟩

theorem canonical_fromByte (byte : UInt8) : (fromByte byte).Canonical := by
  rw [Canonical, toByte_fromByte]

end WireContext

/-! ## Headers -/

structure WirePacketHeader where
  ifacFlag : IfacFlag
  contextFlag : ContextFlag
  propagation : PropagationType
  destinationType : DestinationType
  packetType : PacketType
  hops : UInt8
  transportId : Option WireAddress
  address : WireAddress
  context : WireContext
  deriving DecidableEq

namespace WirePacketHeader

/-- The first byte; `transport_id.is_some()` is the type bit. -/
def flags (header : WirePacketHeader) : UInt8 :=
  let headerTypeBit : UInt8 := if header.transportId.isSome then 1 else 0
  header.ifacFlag.toBits <<< 7
    ||| headerTypeBit <<< 6
    ||| header.contextFlag.toBits <<< 5
    ||| header.propagation.toBits <<< 4
    ||| header.destinationType.toBits <<< 2
    ||| header.packetType.toBits

def bytes (header : WirePacketHeader) : List UInt8 :=
  header.flags :: header.hops ::
    ((header.transportId.map List.Vector.toList).getD [] ++
      (header.address.toList ++ [header.context.toByte]))

/-- `write` into a buffer of `bufLen` bytes: the bytes it fills. -/
def write (header : WirePacketHeader) (bufLen : ℕ) : Except WireError (List UInt8) :=
  let transportLen := if header.transportId.isSome then 16 else 0
  if bufLen < 2 + transportLen + 16 + 1 then .error .bufferTooShort else .ok header.bytes

/-- Only a type-2 header has a transport id. -/
def readTransportId (isType2 : Bool) : Reader UInt8 WireError (Option WireAddress) :=
  if isType2 then some <$> Reader.readChunk 16 .bufferTooShort else pure none

/-- The header, and what is left is the payload. -/
def parse : Reader UInt8 WireError WirePacketHeader := do
  let first ← Reader.readOne .bufferTooShort
  let hops ← Reader.readOne .bufferTooShort
  let transportId ← readTransportId ((first >>> 6) &&& 0b1 == 0b1)
  let address ← Reader.readChunk 16 .bufferTooShort
  let context ← Reader.readOne .bufferTooShort
  return {
    ifacFlag := .fromBits (first >>> 7)
    contextFlag := .fromBits (first >>> 5)
    propagation := .fromBits (first >>> 4)
    destinationType := .fromBits (first >>> 2)
    packetType := .fromBits first
    hops := hops
    transportId := transportId
    address := address
    context := .fromByte context }

/-! ## Round trips -/

/-- A header whose context byte is spelled by its name. -/
def Canonical (header : WirePacketHeader) : Prop :=
  header.context.Canonical

theorem length_bytes (header : WirePacketHeader) :
    header.bytes.length = 2 + (if header.transportId.isSome then 16 else 0) + 16 + 1 := by
  cases hid : header.transportId <;> simp [bytes, hid]

theorem write_eq (header : WirePacketHeader) (bufLen : ℕ) :
    header.write bufLen =
      if header.bytes.length ≤ bufLen then .ok header.bytes else .error .bufferTooShort := by
  have hlen := header.length_bytes
  by_cases hbuf : header.bytes.length ≤ bufLen
  · rw [if_pos hbuf, write, if_neg (by omega)]
  · rw [if_neg hbuf, write, if_pos (by omega)]

/-- The fields the first byte is made of can be read off it. -/
structure FlagsRead (header : WirePacketHeader) : Prop where
  ifacFlag : IfacFlag.fromBits (header.flags >>> 7) = header.ifacFlag
  isType2 : ((header.flags >>> 6) &&& 0b1 == 0b1) = header.transportId.isSome
  contextFlag : ContextFlag.fromBits (header.flags >>> 5) = header.contextFlag
  propagation : PropagationType.fromBits (header.flags >>> 4) = header.propagation
  destinationType : DestinationType.fromBits (header.flags >>> 2) = header.destinationType
  packetType : PacketType.fromBits header.flags = header.packetType

theorem flagsRead (header : WirePacketHeader) : FlagsRead header := by
  obtain ⟨ifacFlag, contextFlag, propagation, destinationType, packetType, hops, transportId,
    address, context⟩ := header
  constructor
  all_goals
    simp only [flags]
    generalize transportId.isSome = isType2
    revert isType2
    cases ifacFlag <;> cases contextFlag <;> cases propagation <;> cases destinationType <;>
      cases packetType <;> decide

/-- The first byte is that of the header read off it. -/
theorem flags_of_byte (first : UInt8) :
    (IfacFlag.fromBits (first >>> 7)).toBits <<< 7 |||
      (if (first >>> 6) &&& 0b1 == 0b1 then (1 : UInt8) else 0) <<< 6 |||
      (ContextFlag.fromBits (first >>> 5)).toBits <<< 5 |||
      (PropagationType.fromBits (first >>> 4)).toBits <<< 4 |||
      (DestinationType.fromBits (first >>> 2)).toBits <<< 2 |||
      (PacketType.fromBits first).toBits = first := by
  have hall : ∀ n : Fin 256,
      (IfacFlag.fromBits (UInt8.ofNat n >>> 7)).toBits <<< 7 |||
        (if (UInt8.ofNat n >>> 6) &&& 0b1 == 0b1 then (1 : UInt8) else 0) <<< 6 |||
        (ContextFlag.fromBits (UInt8.ofNat n >>> 5)).toBits <<< 5 |||
        (PropagationType.fromBits (UInt8.ofNat n >>> 4)).toBits <<< 4 |||
        (DestinationType.fromBits (UInt8.ofNat n >>> 2)).toBits <<< 2 |||
        (PacketType.fromBits (UInt8.ofNat n)).toBits = UInt8.ofNat n := by
    decide +kernel
  simpa using hall ⟨first.toNat, first.toNat_lt⟩

/-- A header that is written is read back, and nothing of the payload with it. -/
theorem parse_reads {header : WirePacketHeader} (h : header.Canonical) :
    Reader.Reads parse header.bytes header := by
  have hflags := flagsRead header
  have htransport : Reader.Reads (readTransportId ((header.flags >>> 6) &&& 0b1 == 0b1))
      ((header.transportId.map List.Vector.toList).getD []) header.transportId := by
    rw [hflags.isType2]
    cases header.transportId with
    | none => exact .pure none
    | some id => exact (Reader.Reads.chunk _ id).map
  refine (Reader.Reads.one _ header.flags).bind ((Reader.Reads.one _ header.hops).bind
    (htransport.bind ((Reader.Reads.chunk _ header.address).bind ?_)))
  rw [hflags.ifacFlag, hflags.contextFlag, hflags.propagation, hflags.destinationType,
    hflags.packetType]
  have hcontext := (Reader.Reads.one WireError.bufferTooShort header.context.toByte).map
    (g := fun context => { header with context := .fromByte context })
  rw [show WireContext.fromByte header.context.toByte = header.context from h, map_eq_pure_bind]
    at hcontext
  exact hcontext

/-- What is read is the bytes of the header it is read as. -/
theorem parse_takes :
    Reader.Takes parse fun front header => header.Canonical ∧ front = header.bytes := by
  have htransport : ∀ isType2, Reader.Takes (readTransportId isType2) fun front id =>
      id.isSome = isType2 ∧ front = (id.map List.Vector.toList).getD [] := by
    rintro (_ | _)
    · refine (Reader.Takes.pure none).mono ?_
      rintro front id ⟨rfl, rfl⟩
      exact ⟨rfl, rfl⟩
    · refine (Reader.Takes.chunk 16 _).map.mono ?_
      rintro front id ⟨v, rfl, rfl⟩
      exact ⟨rfl, rfl⟩
  refine ((Reader.Takes.one _).bind fun first => (Reader.Takes.one _).bind fun hops =>
    (htransport _).bind fun transportId => (Reader.Takes.chunk 16 _).bind fun address =>
      (Reader.Takes.one _).bind fun context => .pure _).mono ?_
  rintro front header ⟨_, _, first, rfl, rfl, _, _, hops, rfl, rfl, _, _, transportId, rfl,
    ⟨hid, rfl⟩, _, _, address, rfl, rfl, _, _, context, rfl, rfl, rfl, rfl⟩
  refine ⟨WireContext.canonical_fromByte context, ?_⟩
  have hbyte := flags_of_byte first
  rw [← hid] at hbyte
  simp only [bytes, flags, hbyte, WireContext.toByte_fromByte]
  simp

/-- The accepted packets are those that start with the bytes of a header, spelled in its one way. -/
theorem parse_iff {header : WirePacketHeader} {input payload : List UInt8} :
    parse input = .ok (header, payload) ↔ header.Canonical ∧ input = header.bytes ++ payload := by
  constructor
  · intro h
    obtain ⟨front, hinput, hcanonical, rfl⟩ := parse_takes input header payload h
    exact ⟨hcanonical, hinput⟩
  · rintro ⟨hcanonical, rfl⟩
    exact (parse_reads hcanonical).whole payload

end WirePacketHeader

/-! ## The identity of a packet -/

section PacketHash

variable {Hash : Type} (sha256 : List UInt8 → Hash)

/-- `PacketHash::of_wire_packet`: the hop count and the transport id are left out. -/
def ofWirePacket (bytes : List UInt8) : Except WireError Hash :=
  match bytes with
  | [] => .error .bufferTooShort
  | first :: _ =>
      let hashableFrom := if first &&& 0b01000000 = 0b01000000 then 2 + 16 else 2
      if bytes.length < hashableFrom then .error .bufferTooShort
      else .ok (sha256 ((first &&& 0b00001111) :: bytes.drop hashableFrom))

/-- `PacketHash::of_fields`: the same from the fields of a packet. -/
def ofFields (destinationType : DestinationType) (packetType : PacketType)
    (address : WireAddress) (context : WireContext) (payload : List UInt8) : Hash :=
  let hashedFlags := destinationType.toBits <<< 2 ||| packetType.toBits
  sha256 (hashedFlags :: (address.toList ++ [context.toByte] ++ payload))

/-- The bits of the first byte that are hashed, and the one that tells where to go on. -/
theorem hashed_flags (header : WirePacketHeader) :
    header.flags &&& (0b00001111 : UInt8) =
        header.destinationType.toBits <<< 2 ||| header.packetType.toBits ∧
      (header.flags &&& (0b01000000 : UInt8) = 0b01000000 ↔ header.transportId.isSome = true) := by
  obtain ⟨ifacFlag, contextFlag, propagation, destinationType, packetType, hops, transportId,
    address, context⟩ := header
  simp only [WirePacketHeader.flags]
  generalize transportId.isSome = isType2
  revert isType2
  cases ifacFlag <;> cases contextFlag <;> cases propagation <;> cases destinationType <;>
    cases packetType <;> decide

theorem ofWirePacket_bytes (header : WirePacketHeader) (payload : List UInt8) :
    ofWirePacket sha256 (header.bytes ++ payload) =
      .ok (ofFields sha256 header.destinationType header.packetType header.address header.context
        payload) := by
  obtain ⟨hflags, htype⟩ := hashed_flags header
  simp only [WirePacketHeader.bytes, List.cons_append, ofWirePacket, hflags, ofFields]
  rcases Option.eq_none_or_eq_some header.transportId with hid | ⟨id, hid⟩
  · have hno : ¬ header.flags &&& (0b01000000 : UInt8) = 0b01000000 := by
      simp [htype, hid]
    simp [hno, hid]
  · have hyes : header.flags &&& (0b01000000 : UInt8) = 0b01000000 := by
      simp [htype, hid]
    simp [hyes, hid]

/-- What is hashed tells the fields that are hashed. -/
theorem hashed_eq_iff {destinationType destinationType' : DestinationType}
    {packetType packetType' : PacketType} {address address' : WireAddress}
    {context context' : WireContext} (hcontext : context.Canonical) (hcontext' : context'.Canonical)
    {payload payload' : List UInt8} :
    ofFields id destinationType packetType address context payload =
        ofFields id destinationType' packetType' address' context' payload' ↔
      destinationType = destinationType' ∧ packetType = packetType' ∧ address = address' ∧
        context = context' ∧ payload = payload' := by
  constructor
  · intro h
    simp only [ofFields, id, List.cons.injEq, List.append_assoc] at h
    obtain ⟨hflags, htail⟩ := h
    have hlen : address.toList.length = address'.toList.length := by
      rw [address.toList_length, address'.toList_length]
    obtain ⟨haddress, hrest⟩ := List.append_inj htail hlen
    obtain ⟨hbyte, hpayload⟩ := List.append_inj hrest rfl
    have hcontexts : context = context' := by
      rw [← hcontext, ← hcontext', List.singleton_inj.1 hbyte]
    have htypes : destinationType = destinationType' ∧ packetType = packetType' := by
      revert hflags
      cases destinationType <;> cases destinationType' <;> cases packetType <;>
        cases packetType' <;> decide
    exact ⟨htypes.1, htypes.2, List.Vector.eq _ _ haddress, hcontexts, hpayload⟩
  · rintro ⟨rfl, rfl, rfl, rfl, rfl⟩
    rfl

/-- Two packets have one hash, whatever the hash function, just when they agree in destination,
types, context and payload: hops, transport ids and the other flags a relay may set do not count. -/
theorem packetHash_iff {input input' payload payload' : List UInt8}
    {header header' : WirePacketHeader}
    (hparse : WirePacketHeader.parse input = .ok (header, payload))
    (hparse' : WirePacketHeader.parse input' = .ok (header', payload')) :
    (∀ (Hash : Type) (sha256 : List UInt8 → Hash),
        ofWirePacket sha256 input = ofWirePacket sha256 input') ↔
      header.destinationType = header'.destinationType ∧ header.packetType = header'.packetType ∧
        header.address = header'.address ∧ header.context = header'.context ∧
        payload = payload' := by
  obtain ⟨_, rfl, hcanonical, rfl⟩ := WirePacketHeader.parse_takes _ _ _ hparse
  obtain ⟨_, rfl, hcanonical', rfl⟩ := WirePacketHeader.parse_takes _ _ _ hparse'
  simp only [ofWirePacket_bytes, Except.ok.injEq]
  constructor
  · intro h
    exact (hashed_eq_iff hcanonical hcanonical').1 (h _ id)
  · rintro ⟨hdestination, hpacket, haddress, hcontext, rfl⟩ Hash sha256
    rw [hdestination, hpacket, haddress, hcontext]

/-- A plain data packet, and the same packet once a transport node has sent it on. -/
theorem packetHash_relayed :
    (WirePacketHeader.parse ([0x58, 0x03] ++ List.replicate 16 9 ++ List.replicate 16 5 ++
      [0x00, 1, 2])).map (fun r => r.1.hops) = .ok 3 ∧
    ∀ (Hash : Type) (sha256 : List UInt8 → Hash),
      ofWirePacket sha256 ([0x08, 0x00] ++ List.replicate 16 5 ++ [0x00, 1, 2]) =
        ofWirePacket sha256
          ([0x58, 0x03] ++ List.replicate 16 9 ++ List.replicate 16 5 ++ [0x00, 1, 2]) := by
  have hparse : WirePacketHeader.parse
      ([0x08, 0x00] ++ List.replicate 16 5 ++ [0x00, 1, 2]) =
        .ok (⟨.open, .unset, .broadcast, .plain, .data, 0, none,
          ⟨List.replicate 16 5, rfl⟩, .none⟩, [1, 2]) := by decide
  have hrelayed : WirePacketHeader.parse
      ([0x58, 0x03] ++ List.replicate 16 9 ++ List.replicate 16 5 ++ [0x00, 1, 2]) =
        .ok (⟨.open, .unset, .transport, .plain, .data, 3, some ⟨List.replicate 16 9, rfl⟩,
          ⟨List.replicate 16 5, rfl⟩, .none⟩, [1, 2]) := by decide
  exact ⟨by rw [hrelayed]; rfl, (packetHash_iff hparse hrelayed).2 ⟨rfl, rfl, rfl, rfl, rfl⟩⟩

end PacketHash
end Wire
end SvenBridge
