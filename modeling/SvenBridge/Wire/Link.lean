import SvenBridge.Wire.Header
import SvenBridge.Wire.Token

/-!
# Link — session keys and sealed link packets

`[header:19] iv ‖ ciphertext ‖ tag`, addressed to the link both ends derived (`routing/links/mod.rs`,
`routing/links/data.rs`).  This file contains

* `LinkKey` and `LinkMode`;
* `writeLinkPacket` — a link packet with a sealed payload;
* `length_writeLinkPacket`: the length arithmetic of `LinkMtu` is that of the packets.
-/

namespace SvenBridge
namespace Wire

abbrev LinkId := WireAddress
abbrev X25519SecretKey := List.Vector UInt8 32
abbrev Ed25519PublicKey := List.Vector UInt8 32
abbrev Ed25519SecretKey := List.Vector UInt8 32

/-- A link's derived session key. -/
structure LinkKey where
  material : List.Vector UInt8 64
  deriving DecidableEq

namespace LinkKey

def tokenKey (key : LinkKey) : TokenKey :=
  .fromAes256 key.material

def «seal» (crypto : TokenCrypto) (key : LinkKey) (iv : TokenBlock) (plaintext : List UInt8)
    (available : ℕ) : Option (List UInt8) :=
  tokenSeal crypto key.tokenKey iv plaintext available

end LinkKey

/-- The cipher a link negotiates. -/
inductive LinkMode
  | aes256Cbc
  deriving DecidableEq

/-! ## Link packets -/

def linkPacketHeader (linkId : LinkId) (packetType : PacketType) (context : WireContext) :
    WirePacketHeader where
  ifacFlag := .open
  contextFlag := .unset
  propagation := .broadcast
  destinationType := .link
  packetType := packetType
  hops := 0
  transportId := none
  address := linkId
  context := context

/-- A sealed link data packet, written to a buffer of `bufLen` bytes. -/
def writeLinkPacket (crypto : TokenCrypto) (linkId : LinkId) (linkKey : LinkKey) (mtu : ℕ)
    (context : WireContext) (plaintext : List UInt8) (iv : TokenBlock) (bufLen : ℕ) :
    Except LinkDataError (List UInt8) :=
  if plaintext.length > linkMdu mtu then
    .error .payloadTooLong
  else
    match (linkPacketHeader linkId .data context).write bufLen with
    | .error _ => .error .bufferTooShort
    | .ok header =>
        match linkKey.seal crypto iv plaintext (bufLen - header.length) with
        | none => .error .bufferTooShort
        | some sealed => .ok (header ++ sealed)

section

variable {crypto : TokenCrypto}

theorem length_linkPacketHeader (linkId : LinkId) (packetType : PacketType)
    (context : WireContext) :
    (linkPacketHeader linkId packetType context).bytes.length = headerMinLen := by
  rw [WirePacketHeader.length_bytes]
  rfl

/-- When a link packet is written, and what it is. -/
theorem writeLinkPacket_iff {linkId : LinkId} {linkKey : LinkKey} {mtu : ℕ} {context : WireContext}
    {plaintext packet : List UInt8} {iv : TokenBlock} {bufLen : ℕ} :
    writeLinkPacket crypto linkId linkKey mtu context plaintext iv bufLen = .ok packet ↔
      plaintext.length ≤ linkMdu mtu ∧ headerMinLen + sealedLen plaintext.length ≤ bufLen ∧
        packet = (linkPacketHeader linkId .data context).bytes ++
          sealedToken crypto linkKey.tokenKey iv plaintext := by
  rw [writeLinkPacket, WirePacketHeader.write_eq, length_linkPacketHeader]
  by_cases hlong : plaintext.length > linkMdu mtu
  · rw [if_pos hlong]
    exact iff_of_false nofun fun h => absurd h.1 (Nat.not_le.2 hlong)
  rw [if_neg hlong]
  by_cases hbuf : headerMinLen ≤ bufLen
  · rw [if_pos hbuf]
    simp only [length_linkPacketHeader, LinkKey.seal]
    cases hseal : tokenSeal crypto linkKey.tokenKey iv plaintext
        (bufLen - headerMinLen) with
    | none =>
        refine iff_of_false nofun ?_
        rintro ⟨-, hfits, -⟩
        have hsome : tokenSeal crypto linkKey.tokenKey iv plaintext
            (bufLen - headerMinLen) = some _ := tokenSeal_eq_some_iff.2 ⟨by omega, rfl⟩
        rw [hseal] at hsome
        cases hsome
    | some sealed =>
        obtain ⟨hfits, rfl⟩ := tokenSeal_eq_some_iff.1 hseal
        rw [Except.ok.injEq]
        constructor
        · rintro rfl
          exact ⟨Nat.le_of_not_lt hlong, by omega, rfl⟩
        · rintro ⟨-, -, rfl⟩
          rfl
  · rw [if_neg hbuf]
    refine iff_of_false nofun fun h => ?_
    have := h.2.1
    omega

/-- The length arithmetic of a link packet is that of the packet. -/
theorem length_writeLinkPacket (hcrypto : crypto.Padded) (linkId : LinkId) (linkKey : LinkKey)
    (mtu : ℕ) (context : WireContext) (plaintext : List UInt8) (iv : TokenBlock) (bufLen : ℕ) :
    (writeLinkPacket crypto linkId linkKey mtu context plaintext iv bufLen).map List.length =
      SvenBridge.writeLinkPacket mtu plaintext bufLen := by
  rw [SvenBridge.writeLinkPacket]
  by_cases hlong : plaintext.length > linkMdu mtu
  · rw [writeLinkPacket, if_pos hlong, if_pos hlong]
    rfl
  rw [if_neg hlong]
  by_cases hfits : headerMinLen + sealedLen plaintext.length ≤ bufLen
  · have hwrite : writeLinkPacket crypto linkId linkKey mtu context plaintext iv bufLen = .ok _ :=
      writeLinkPacket_iff.2 ⟨Nat.le_of_not_lt hlong, hfits, rfl⟩
    rw [hwrite, if_neg (by omega), if_neg (by omega), Except.map, List.length_append,
      length_linkPacketHeader, length_sealedToken hcrypto]
  · have hshort : writeLinkPacket crypto linkId linkKey mtu context plaintext iv bufLen =
        .error .bufferTooShort := by
      cases hwrite : writeLinkPacket crypto linkId linkKey mtu context plaintext iv bufLen with
      | ok packet => exact absurd (writeLinkPacket_iff.1 hwrite).2.1 hfits
      | error e =>
          cases e with
          | bufferTooShort => rfl
          | payloadTooLong =>
              rw [writeLinkPacket, if_neg hlong] at hwrite
              split at hwrite
              · cases hwrite
              · split at hwrite <;> cases hwrite
    rw [hshort]
    by_cases hbuf : bufLen < headerMinLen
    · rw [if_pos hbuf]
      rfl
    · rw [if_neg hbuf, if_pos (by omega)]
      rfl

end

end Wire
end SvenBridge
