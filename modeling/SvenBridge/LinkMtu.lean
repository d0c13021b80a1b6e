import SvenBridge.Framing

/-!
# LinkMtu — the size limits of a link

The engine refuses a `SendToLink` whose payload exceeds the link's MDU, and the bridge discards the
refusal.  This file embeds the engine's MTU arithmetic (`routing/links/data.rs`,
`routing/links/handshake.rs`, `interfaces/policy`, `interfaces/wifi_auto/policy.rs`) and compares it
with the bridge's fixed `maxChunk`.
-/

namespace SvenBridge

/-! ## Wire constants -/

def truncatedHashByteLen : ℕ := 16
def broadcastMtu : ℕ := 500
def headerMinLen : ℕ := 2 + truncatedHashByteLen + 1
def ifacMinLen : ℕ := 1
def ivLen : ℕ := 16
def macLen : ℕ := 32
def blockLen : ℕ := 16
def tokenOverhead : ℕ := ivLen + macLen
def maxLinkMtu : ℕ := 524288

/-- `wifi_auto::policy::hardwareMtu`. -/
def hardwareMtu : ℕ := 1196

/-- `wifi_auto::policy::wifiHwMtuCap`. -/
def wifiHwMtuCap : ℕ :=
  if hardwareMtu < maxLinkMtu then hardwareMtu else maxLinkMtu

/-! ## Negotiated MTUs -/

/-- An interface's MTU: fixed, or optimized from its bitrate up to a ceiling. -/
inductive MtuPolicy
  | fixed (mtu : ℕ)
  | optimizedFromBitrate (ceiling : ℕ)

/-- RNS `Interface.optimise_mtu`. -/
def hardwareMtuForBitrate (bitrateBps : ℕ) : Option ℕ :=
  if 1000000000 ≤ bitrateBps then some 524288
  else if 750000001 ≤ bitrateBps then some 262144
  else if 400000001 ≤ bitrateBps then some 131072
  else if 200000001 ≤ bitrateBps then some 65536
  else if 100000001 ≤ bitrateBps then some 32768
  else if 10000001 ≤ bitrateBps then some 16384
  else if 5000001 ≤ bitrateBps then some 8192
  else if 2000001 ≤ bitrateBps then some 4096
  else if 1000001 ≤ bitrateBps then some 2048
  else if 62501 ≤ bitrateBps then some 1024
  else none

def MtuPolicy.resolve (policy : MtuPolicy) (bitrate : ℕ) : Option ℕ :=
  match policy with
  | .fixed mtu => some mtu
  | .optimizedFromBitrate ceiling =>
      (hardwareMtuForBitrate bitrate).map fun optimized => min optimized ceiling

/-- The ceiling an attached interface puts on a link; `hardwareMtu?` is its descriptor's. -/
def linkMtuCeiling (hardwareMtu? : Option ℕ) : ℕ :=
  min (hardwareMtu?.getD broadcastMtu) maxLinkMtu

/-- An unsignalled request (`0`) asks for the broadcast MTU; the interface ceiling caps either. -/
def negotiatedLinkMtu (requested ceiling : ℕ) : ℕ :=
  min (if requested = 0 then broadcastMtu else requested) ceiling

/-- The policy of the Wi-Fi auto interface (`--auto`). -/
def wifiAutoMtu : MtuPolicy :=
  .optimizedFromBitrate wifiHwMtuCap

/-- A link MTU from the broadcast MTU up. -/
def LinkMtu : Type := { mtu : ℕ // broadcastMtu ≤ mtu }

/-- A link over Wi-Fi auto never gets more than `hardwareMtu`, whatever its bitrate. -/
theorem negotiated_wifiAuto_le (requested bitrate : ℕ) :
    negotiatedLinkMtu requested (linkMtuCeiling (wifiAutoMtu.resolve bitrate)) ≤
      hardwareMtu := by
  have hcap : wifiHwMtuCap = hardwareMtu := by decide
  have hbroadcast : broadcastMtu ≤ hardwareMtu := by decide
  have hceiling : linkMtuCeiling (wifiAutoMtu.resolve bitrate) ≤ hardwareMtu := by
    cases hopt : hardwareMtuForBitrate bitrate with
    | none =>
        simp only [wifiAutoMtu, MtuPolicy.resolve, hopt, Option.map_none, linkMtuCeiling,
          Option.getD_none]
        omega
    | some optimized =>
        simp only [wifiAutoMtu, MtuPolicy.resolve, hopt, Option.map_some, linkMtuCeiling,
          Option.getD_some, hcap]
        omega
  exact (Nat.min_le_right _ _).trans hceiling

/-! ## Link packets -/

/-- RNS `Link.update_mdu`. -/
def linkMdu (mtu : ℕ) : ℕ :=
  ((mtu - ifacMinLen - headerMinLen - tokenOverhead) / 16) * 16 - 1

/-- The most bytes a `SendToLinkPayload` may hold. -/
def maxSendToLinkPlaintextLen : ℕ := linkMdu 2048

/-- PKCS#7 always pads, so a sealed token strictly outgrows its plaintext. -/
def sealedLen (plaintextLen : ℕ) : ℕ :=
  ivLen + (plaintextLen / blockLen + 1) * blockLen + macLen

inductive LinkDataError
  | payloadTooLong
  | bufferTooShort
  deriving DecidableEq

/-- A sealed link data packet written to a buffer of `bufLen` bytes: how many bytes it takes. -/
def writeLinkPacket (mtu : ℕ) (plaintext : Chunk) (bufLen : ℕ) : Except LinkDataError ℕ :=
  if plaintext.length > linkMdu mtu then
    .error .payloadTooLong
  else if bufLen < headerMinLen then
    .error .bufferTooShort
  else if bufLen - headerMinLen < sealedLen plaintext.length then
    .error .bufferTooShort
  else
    .ok (headerMinLen + sealedLen plaintext.length)

theorem writeLinkPacket_payloadTooLong_iff (mtu : ℕ) (plaintext : Chunk) (bufLen : ℕ) :
    writeLinkPacket mtu plaintext bufLen = .error .payloadTooLong ↔
      linkMdu mtu < plaintext.length := by
  by_cases hlong : plaintext.length > linkMdu mtu
  · rw [writeLinkPacket, if_pos hlong]
    exact iff_of_true rfl hlong
  · rw [writeLinkPacket, if_neg hlong]
    constructor
    · intro h
      split at h
      · cases h
      · split at h <;> cases h
    · intro h
      exact absurd h hlong

/-- A framed chunk always fits a `SendToLinkPayload`: the bridge's `expect` never fires. -/
theorem frame_chunk_fits_payload {d : Datagram} {c : Chunk} (hc : c ∈ frame d) :
    c.length ≤ maxSendToLinkPlaintextLen := by
  have hlen := (frame_chunk_length hc).2
  have hmax : maxChunk + 1 ≤ maxSendToLinkPlaintextLen := by decide
  omega

/-! ## Do framed chunks fit the link? -/

/-- Every chunk of the datagram is within the link's MDU, and none is refused as too long. -/
def FitsLink (mtu : LinkMtu) (d : Datagram) : Prop :=
  (∀ c ∈ frame d, c.length ≤ linkMdu mtu.1) ∧
    ∀ c ∈ frame d, ∀ bufLen, writeLinkPacket mtu.1 c bufLen ≠ .error .payloadTooLong

/-- A datagram fits a link exactly when its longest chunk does. -/
theorem fitsLink_iff (mtu : LinkMtu) (d : Datagram) :
    FitsLink mtu d ↔ min d.length maxChunk + 1 ≤ linkMdu mtu.1 := by
  constructor
  · rintro ⟨hfits, _⟩
    obtain ⟨c, hc, hlen⟩ := exists_longest_chunk d
    exact hlen ▸ hfits c hc
  · intro hle
    have hfits : ∀ c ∈ frame d, c.length ≤ linkMdu mtu.1 := fun c hc =>
      (frame_chunk_length hc).2.trans hle
    refine ⟨hfits, fun c hc bufLen hrefused => ?_⟩
    exact absurd (hfits c hc) (Nat.not_le.2 ((writeLinkPacket_payloadTooLong_iff _ _ _).1 hrefused))

/-- All datagrams fit exactly the links of MTU 1972 and up; Wi-Fi auto stops at 1196. -/
theorem forall_fitsLink_iff (mtu : LinkMtu) :
    (∀ d : Datagram, FitsLink mtu d) ↔ 1972 ≤ mtu.1 := by
  have hmdu : maxChunk + 1 ≤ linkMdu mtu.1 ↔ 1972 ≤ mtu.1 := by
    simp only [maxChunk, linkMdu, ifacMinLen, headerMinLen, truncatedHashByteLen,
      tokenOverhead, ivLen, macLen]
    omega
  rw [← hmdu]
  constructor
  · intro hall
    have hlong := (fitsLink_iff mtu _).1 (hall (List.replicate maxChunk 0))
    simpa using hlong
  · intro hle d
    rw [fitsLink_iff]
    omega

/-- A 1400-byte game datagram does not fit a Wi-Fi auto link. -/
theorem exists_oversized_chunk :
    ¬ ∀ (mtu : ℕ) (d : Datagram), broadcastMtu ≤ mtu → d.length ≤ udpReadBuf →
      ∀ c ∈ frame d, c.length ≤ linkMdu mtu := by
  intro hall
  have hlen : (List.replicate 1400 (0 : UInt8)).length = 1400 := List.length_replicate
  obtain ⟨c, hc, hlong⟩ := exists_longest_chunk (List.replicate 1400 0)
  have hfits := hall hardwareMtu _ (by decide) (by rw [hlen]; decide) c hc
  rw [hlong, hlen] at hfits
  exact absurd hfits (by decide)

end SvenBridge
