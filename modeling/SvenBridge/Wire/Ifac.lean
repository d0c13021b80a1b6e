import SvenBridge.Lib.Keystream
import Mathlib.Data.Vector.Defs
import Mathlib.Data.UInt

/-!
# Ifac — interface access codes

A packet for an interface with an access code leaves masked and signed, and a frame from such an
interface is opened before the engine sees it (`interfaces/packet/ifac.rs`).  Hashes, keys and
signatures are parameters.  This file contains

* `IfacContext` with `tryMaskOutbound` and `unmaskInbound`, and `applyRnsMask`, the mask of both;
* `unmaskInbound_iff`: opened is just what masking a packet makes.
-/

namespace SvenBridge
namespace Wire

open Lib

def ifacMaxSize : ℕ := 64

/-- Bytes of access code in each packet. -/
abbrev IfacSize := { bytes : ℕ // 0 < bytes ∧ bytes ≤ ifacMaxSize }

inductive IfacMaskError
  | packetTooShort
  | lengthOverflow
  | outputTooSmall (required available : ℕ)
  deriving DecidableEq

def ifacFlag : UInt8 := 0x80

/-- After the flags and the hops. -/
def ifacStart : ℕ := 2

abbrev MacBlock := List.Vector UInt8 32
abbrev Signature := List.Vector UInt8 64

/-- `masked_packet_len`, with its `checked_add`. -/
def maskedPacketLen (cleanLen : ℕ) (ifacSize : IfacSize) : Except IfacMaskError ℕ :=
  if cleanLen + ifacSize.1 < 2 ^ 64 then .ok (cleanLen + ifacSize.1) else .error .lengthOverflow

structure IfacContext where
  key : List.Vector UInt8 64
  /-- What the identity of `key` signs. -/
  sign : List UInt8 → Signature
  size : IfacSize

/-- `ct_eq`. -/
def ctEq (a b : List UInt8) : Bool :=
  a.length == b.length && (a.zip b).foldl (fun acc p => acc ||| (p.1 ^^^ p.2)) 0 == 0

/-! ## The mask -/

section Mask

variable (hmacSha256 : List UInt8 → List UInt8 → MacBlock)

/-- The mask of a chunk, from that of the chunk before; the counter wraps. -/
def maskBlock (pseudorandomKey : List UInt8) (blockIndex : ℕ) (previous : MacBlock) : MacBlock :=
  let counter := [UInt8.ofNat (blockIndex + 1)]
  if blockIndex = 0 then
    hmacSha256 pseudorandomKey counter
  else
    hmacSha256 pseudorandomKey (previous.toList ++ counter)

/-- What a chunk's mask does to its byte `index`; the access code itself stays readable. -/
def maskByte (lo hi : ℕ) (block : MacBlock) (blockIndex index : ℕ) (byte : UInt8) : UInt8 :=
  let position := blockIndex * 32 + index
  if lo ≤ position ∧ position < hi then byte else byte ^^^ block.toList.getD index 0

/-- `apply_rns_mask`. -/
def applyRnsMask (deriveFrom salt bytes : List UInt8) (lo hi : ℕ) : List UInt8 :=
  let pseudorandomKey := (hmacSha256 salt deriveFrom).toList
  Keystream.overChunks (maskBlock hmacSha256 pseudorandomKey) (maskByte lo hi) 0
    (List.Vector.replicate 32 0) (Keystream.chunks 32 bytes)

namespace IfacContext

/-- `try_mask_outbound`, for a buffer of `available` bytes; the result is what is written to it. -/
def tryMaskOutbound (c : IfacContext) (clean : List UInt8) (available : UInt64) :
    Except IfacMaskError (List UInt8) := do
  let size := c.size.1
  let total ← maskedPacketLen clean.length c.size
  if clean.length ≤ ifacStart then
    .error .packetTooShort
  else if available.toNat < total then
    .error (.outputTooSmall total available.toNat)
  else
    let ifac := (c.sign clean).toList.drop (64 - size)
    let out := (clean.take ifacStart).modifyHead (· ||| ifacFlag) ++ ifac ++ clean.drop ifacStart
    let out := applyRnsMask hmacSha256 ifac c.key.toList out ifacStart (ifacStart + size)
    .ok (out.modifyHead (· ||| ifacFlag))

/-- `unmask_inbound_in_place`; the result is the bytes left in front. -/
def unmaskInboundInPlace (c : IfacContext) (wire : List UInt8) : Option (List UInt8) :=
  let size := c.size.1
  let ifacEnd := ifacStart + size
  if wire.length ≤ ifacEnd ∨ wire.headD 0 &&& ifacFlag = 0 then
    none
  else
    let ifac := (wire.drop ifacStart).take size
    let wire := applyRnsMask hmacSha256 ifac c.key.toList wire ifacStart ifacEnd
    let wire := wire.modifyHead (· &&& ~~~ifacFlag)
    let clean := wire.take ifacStart ++ wire.drop ifacEnd
    let expected := c.sign clean
    if ctEq ifac (expected.toList.drop (64 - size)) then some clean else none

/-- `unmask_inbound`, for a buffer of `room` bytes. -/
def unmaskInbound (c : IfacContext) (wire : List UInt8) (room : UInt64) : Option (List UInt8) :=
  if room.toNat < wire.length then none else c.unmaskInboundInPlace hmacSha256 wire

end IfacContext
end Mask

/-! ## Bits -/

theorem getElem_flag (i : ℕ) (hi : i < 8) : ifacFlag.toBitVec[i] = decide (i = 7) := by
  revert hi
  have : ∀ i : Fin 8, ifacFlag.toBitVec[i.1] = decide (i.1 = 7) := by decide
  intro hi
  exact this ⟨i, hi⟩

theorem eq_of_bits {a b : UInt8}
    (h : ∀ (i : ℕ) (hi : i < 8), a.toBitVec[i] = b.toBitVec[i]) : a = b := by
  apply UInt8.toBitVec_inj.1
  apply BitVec.eq_of_getElem_eq
  exact h

theorem and_flag_eq_zero_iff {b : UInt8} : b &&& ifacFlag = 0 ↔ b.toBitVec[7] = false := by
  constructor
  · intro h
    have hbit := congrArg (fun c : UInt8 => c.toBitVec[7]) h
    simpa [getElem_flag] using hbit
  · intro h
    apply eq_of_bits
    intro i hi
    by_cases h7 : i = 7
    · subst h7
      simp [h]
    · simp [getElem_flag, h7]

/-- What masking the flags byte does, and what undoes it. -/
theorem flag_mask_iff (w b k : UInt8) :
    ((b ||| ifacFlag) ^^^ k) ||| ifacFlag = w ∧ b &&& ifacFlag = 0 ↔
      w &&& ifacFlag ≠ 0 ∧ (w ^^^ k) &&& ~~~ifacFlag = b := by
  rw [ne_eq, and_flag_eq_zero_iff, and_flag_eq_zero_iff, Bool.not_eq_false]
  constructor
  · rintro ⟨rfl, hb⟩
    refine ⟨by simp [getElem_flag], eq_of_bits fun i hi => ?_⟩
    by_cases h7 : i = 7
    · subst h7
      simp [getElem_flag, hb]
    · simp [getElem_flag, h7]
  · rintro ⟨hw, rfl⟩
    refine ⟨eq_of_bits fun i hi => ?_, by simp [getElem_flag]⟩
    by_cases h7 : i = 7
    · subst h7
      simp [getElem_flag, hw]
    · simp [getElem_flag, h7]
/-! ## Comparing -/

theorem foldl_or_eq_zero (pairs : List (UInt8 × UInt8)) (acc : UInt8) :
    pairs.foldl (fun acc p => acc ||| (p.1 ^^^ p.2)) acc = 0 ↔
      acc = 0 ∧ ∀ p ∈ pairs, p.1 = p.2 := by
  induction pairs generalizing acc with
  | nil => simp
  | cons p pairs ih =>
      rw [List.foldl_cons, ih, UInt8.or_eq_zero_iff, UInt8.xor_eq_zero_iff]
      simp [and_assoc]

theorem ctEq_iff (a b : List UInt8) : ctEq a b = true ↔ a = b := by
  rw [ctEq, Bool.and_eq_true, beq_iff_eq, beq_iff_eq, foldl_or_eq_zero]
  constructor
  · rintro ⟨hlen, -, hall⟩
    apply List.ext_getElem hlen
    intro i hi hi'
    apply hall (a[i], b[i])
    rw [List.mem_iff_getElem]
    exact ⟨i, by rw [List.length_zip]; omega, List.getElem_zip⟩
  · rintro rfl
    refine ⟨rfl, rfl, ?_⟩
    intro p hp
    obtain ⟨i, hi, rfl⟩ := List.mem_iff_getElem.1 hp
    rw [List.getElem_zip]

/-! ## The mask as a keystream -/

section

variable (hmacSha256 : List UInt8 → List UInt8 → MacBlock)

/-- The keystream that an access code gives under a key. -/
def maskStream (deriveFrom salt : List UInt8) (lo hi : ℕ) : ℕ → UInt8 → UInt8 :=
  Keystream.streamOf 32 (maskBlock hmacSha256 (hmacSha256 salt deriveFrom).toList)
    (maskByte lo hi) (List.Vector.replicate 32 0)

variable {hmacSha256}
variable {deriveFrom salt : List UInt8} {lo hi : ℕ}

theorem applyRnsMask_eq (bytes : List UInt8) :
    applyRnsMask hmacSha256 deriveFrom salt bytes lo hi =
      Keystream.under (maskStream hmacSha256 deriveFrom salt lo hi) 0 bytes :=
  Keystream.overChunks_chunks (by decide) _ _ _ bytes

/-- Inside the access code nothing changes, outside of it a byte is xored. -/
theorem maskStream_spec (position : ℕ) :
    (lo ≤ position ∧ position < hi → maskStream hmacSha256 deriveFrom salt lo hi position = id) ∧
      (¬ (lo ≤ position ∧ position < hi) → ∃ k, ∀ byte,
        maskStream hmacSha256 deriveFrom salt lo hi position byte = byte ^^^ k) := by
  have hposition : position / 32 * 32 + position % 32 = position := Nat.div_add_mod' position 32
  constructor
  · intro hin
    funext byte
    simp only [maskStream, Keystream.streamOf, maskByte, hposition, if_pos hin, id]
  · intro hout
    refine ⟨(Keystream.keyOf (maskBlock hmacSha256 (hmacSha256 salt deriveFrom).toList)
      (List.Vector.replicate 32 0) (position / 32)).toList.getD (position % 32) 0, fun byte => ?_⟩
    simp only [maskStream, Keystream.streamOf, maskByte, hposition, if_neg hout]

theorem maskStream_involutive (position : ℕ) :
    Function.Involutive (maskStream hmacSha256 deriveFrom salt lo hi position) := by
  obtain ⟨hin, hout⟩ := @maskStream_spec hmacSha256 deriveFrom salt lo hi position
  intro byte
  by_cases h : lo ≤ position ∧ position < hi
  · rw [hin h]
    rfl
  · obtain ⟨k, hk⟩ := hout h
    rw [hk, hk, UInt8.xor_assoc, UInt8.xor_self, UInt8.xor_zero]

end

namespace IfacContext

variable (hmacSha256 : List UInt8 → List UInt8 → MacBlock) (c : IfacContext)

/-- The keystream of a packet, from its access code. -/
def stream (ifac : List UInt8) : ℕ → UInt8 → UInt8 :=
  maskStream hmacSha256 ifac c.key.toList ifacStart (ifacStart + c.size.1)

/-- The bytes a packet is masked to under the access code `ifac`. -/
def masked (ifac : List UInt8) (flags hops : UInt8) (body : List UInt8) : List UInt8 :=
  (c.stream hmacSha256 ifac 0 (flags ||| ifacFlag) ||| ifacFlag) ::
    c.stream hmacSha256 ifac 1 hops ::
      (ifac ++ Keystream.under (c.stream hmacSha256 ifac) (ifacStart + c.size.1) body)

/-- The bytes a frame with the access code `ifac` is opened to. -/
def opened (ifac : List UInt8) (w0 w1 : UInt8) (body : List UInt8) : List UInt8 :=
  (c.stream hmacSha256 ifac 0 w0 &&& ~~~ifacFlag) ::
    c.stream hmacSha256 ifac 1 w1 ::
      Keystream.under (c.stream hmacSha256 ifac) (ifacStart + c.size.1) body

/-- The access code of a packet. -/
def ifacOf (clean : List UInt8) : List UInt8 :=
  (c.sign clean).toList.drop (64 - c.size.1)

variable {hmacSha256 c}

theorem length_ifacOf (clean : List UInt8) : (c.ifacOf clean).length = c.size.1 := by
  have h := c.size.2.2
  rw [ifacOf, List.length_drop, List.Vector.toList_length]
  simp only [ifacMaxSize] at h
  omega

theorem under_ifac {ifac : List UInt8} (hlen : ifac.length = c.size.1) :
    Keystream.under (c.stream hmacSha256 ifac) ifacStart ifac = ifac := by
  apply Keystream.under_eq_self
  intro index hindex
  apply (maskStream_spec _).1
  rw [hlen] at hindex
  exact ⟨Nat.le_add_right _ _, Nat.add_lt_add_left hindex _⟩

/-- The whole text under its keystream. -/
theorem under_whole {ifac : List UInt8} (hlen : ifac.length = c.size.1) (flags hops : UInt8)
    (body : List UInt8) :
    Keystream.under (c.stream hmacSha256 ifac) 0 (flags :: hops :: (ifac ++ body)) =
      c.stream hmacSha256 ifac 0 flags :: c.stream hmacSha256 ifac 1 hops ::
        (ifac ++ Keystream.under (c.stream hmacSha256 ifac) (ifacStart + c.size.1) body) := by
  have hifac := @under_ifac hmacSha256 c ifac hlen
  simp only [ifacStart] at hifac ⊢
  rw [Keystream.under_cons, Keystream.under_cons, Keystream.under_append, hifac, hlen]

/-- The packet as it is put together and masked. -/
theorem masked_eq (flags hops : UInt8) (body : List UInt8) :
    (applyRnsMask hmacSha256 (c.ifacOf (flags :: hops :: body)) c.key.toList
        (((flags :: hops :: body).take ifacStart).modifyHead (· ||| ifacFlag) ++
          c.ifacOf (flags :: hops :: body) ++ (flags :: hops :: body).drop ifacStart)
        ifacStart (ifacStart + c.size.1)).modifyHead (· ||| ifacFlag) =
      c.masked hmacSha256 (c.ifacOf (flags :: hops :: body)) flags hops body := by
  have hout : ((flags :: hops :: body).take ifacStart).modifyHead (· ||| ifacFlag) ++
      c.ifacOf (flags :: hops :: body) ++ (flags :: hops :: body).drop ifacStart =
        (flags ||| ifacFlag) :: hops :: (c.ifacOf (flags :: hops :: body) ++ body) := rfl
  have hwhole := @under_whole hmacSha256 c _
    (length_ifacOf (c := c) (flags :: hops :: body)) (flags ||| ifacFlag) hops body
  rw [hout, applyRnsMask_eq, ← stream, hwhole]
  rfl

/-- Opening a frame that is long enough. -/
theorem unmaskInboundInPlace_cons {w0 w1 : UInt8} {ifac body : List UInt8}
    (hlen : ifac.length = c.size.1) (hbody : body ≠ []) :
    c.unmaskInboundInPlace hmacSha256 (w0 :: w1 :: (ifac ++ body)) =
      if w0 &&& ifacFlag ≠ 0 ∧ ifac = c.ifacOf (c.opened hmacSha256 ifac w0 w1 body) then
        some (c.opened hmacSha256 ifac w0 w1 body)
      else none := by
  have hlong : ¬ (w0 :: w1 :: (ifac ++ body)).length ≤ ifacStart + c.size.1 := by
    have := List.length_pos_of_ne_nil hbody
    simp only [List.length_cons, List.length_append, hlen, ifacStart]
    omega
  have htake : ((w0 :: w1 :: (ifac ++ body)).drop ifacStart).take c.size.1 = ifac := by
    rw [ifacStart, List.drop_succ_cons, List.drop_succ_cons, List.drop_zero, ← hlen,
      List.take_left]
  have hdrop : ∀ a b : UInt8, ∀ rest : List UInt8,
      (a :: b :: (ifac ++ rest)).drop (ifacStart + c.size.1) = rest := by
    intro a b rest
    rw [ifacStart, Nat.add_comm, List.drop_succ_cons, List.drop_succ_cons, ← hlen, List.drop_left]
  have hwhole := @under_whole hmacSha256 c _ hlen w0 w1 body
  rw [stream] at hwhole
  rw [unmaskInboundInPlace]
  simp only [htake, applyRnsMask_eq, hwhole, List.modifyHead_cons, hdrop, hlong, false_or,
    ctEq_iff, List.headD_cons]
  by_cases hflag : w0 &&& ifacFlag = 0
  · rw [if_pos hflag, if_neg (fun h => h.1 hflag)]
  · rw [if_neg hflag]
    simp only [ne_eq, hflag, not_false_eq_true, true_and]
    rfl

/-- When a packet is masked, and to what. -/
theorem tryMaskOutbound_iff {clean wire : List UInt8} {available : UInt64} :
    c.tryMaskOutbound hmacSha256 clean available = .ok wire ↔
      ∃ flags hops body, clean = flags :: hops :: body ∧ body ≠ [] ∧
        clean.length + c.size.1 ≤ available.toNat ∧
        wire = c.masked hmacSha256 (c.ifacOf clean) flags hops body := by
  have hroom : available.toNat < 2 ^ 64 := available.toNat_lt
  have hrun : c.tryMaskOutbound hmacSha256 clean available =
      (maskedPacketLen clean.length c.size).bind fun total =>
        if clean.length ≤ ifacStart then .error .packetTooShort
        else if available.toNat < total then .error (.outputTooSmall total available.toNat)
        else .ok ((applyRnsMask hmacSha256 (c.ifacOf clean) c.key.toList
          ((clean.take ifacStart).modifyHead (· ||| ifacFlag) ++ c.ifacOf clean ++
            clean.drop ifacStart) ifacStart (ifacStart + c.size.1)).modifyHead (· ||| ifacFlag)) :=
    rfl
  rw [hrun, maskedPacketLen]
  constructor
  · intro h
    split at h
    case isFalse => cases h
    simp only [Except.bind] at h
    split at h
    case isTrue => cases h
    split at h
    case isTrue => cases h
    rename_i hshort hsmall
    match clean with
    | flags :: hops :: b :: body =>
        refine ⟨flags, hops, b :: body, rfl, List.cons_ne_nil _ _, Nat.le_of_not_lt hsmall, ?_⟩
        cases h
        exact masked_eq _ _ _
    | [] | [_] | [_, _] => exact absurd (by simp [ifacStart]) hshort
  · rintro ⟨flags, hops, body, rfl, hbody, hfits, rfl⟩
    have hlong : ¬ (flags :: hops :: body).length ≤ ifacStart := by
      have := List.length_pos_of_ne_nil hbody
      simp only [List.length_cons, ifacStart]
      omega
    rw [if_pos (Nat.lt_of_le_of_lt hfits hroom)]
    simp only [Except.bind]
    rw [if_neg hlong, if_neg (Nat.not_lt.2 hfits), ← masked_eq]

theorem eq_cons_cons_append {wire : List UInt8} {size : ℕ} (hlen : ifacStart + size < wire.length) :
    ∃ w0 w1 ifac body, wire = w0 :: w1 :: (ifac ++ body) ∧ ifac.length = size ∧ body ≠ [] := by
  match wire with
  | [] | [_] => simp [ifacStart] at hlen
  | w0 :: w1 :: rest =>
      simp only [List.length_cons, ifacStart] at hlen
      refine ⟨w0, w1, rest.take size, rest.drop size, by rw [List.take_append_drop],
        List.length_take_of_le (by omega), ?_⟩
      intro hnil
      rw [List.drop_eq_nil_iff] at hnil
      omega

/-- When a frame is opened, and to what. -/
theorem unmaskInbound_spec {wire clean : List UInt8} {room : UInt64} :
    c.unmaskInbound hmacSha256 wire room = some clean ↔
      ∃ w0 w1 ifac body, wire = w0 :: w1 :: (ifac ++ body) ∧ ifac.length = c.size.1 ∧ body ≠ [] ∧
        wire.length ≤ room.toNat ∧ w0 &&& ifacFlag ≠ 0 ∧
        clean = c.opened hmacSha256 ifac w0 w1 body ∧ ifac = c.ifacOf clean := by
  rw [unmaskInbound]
  constructor
  · intro h
    split at h
    case isTrue => cases h
    rename_i hfits
    by_cases hshort : wire.length ≤ ifacStart + c.size.1
    · rw [unmaskInboundInPlace, if_pos (Or.inl hshort)] at h
      cases h
    obtain ⟨w0, w1, ifac, body, rfl, hlen, hbody⟩ := eq_cons_cons_append (Nat.lt_of_not_le hshort)
    rw [unmaskInboundInPlace_cons hlen hbody] at h
    split at h
    case isFalse => cases h
    rename_i hopen
    cases h
    exact ⟨w0, w1, ifac, body, rfl, hlen, hbody, Nat.le_of_not_lt hfits, hopen.1, rfl, hopen.2⟩
  · rintro ⟨w0, w1, ifac, body, rfl, hlen, hbody, hfits, hflag, rfl, hifac⟩
    rw [if_neg (Nat.not_lt.2 hfits), unmaskInboundInPlace_cons hlen hbody, if_pos ⟨hflag, hifac⟩]

theorem stream_involutive (ifac : List UInt8) (place : ℕ) :
    Function.Involutive (c.stream hmacSha256 ifac place) :=
  maskStream_involutive place

/-- The flags byte is xored. -/
theorem stream_zero (ifac : List UInt8) :
    ∃ k, ∀ byte, c.stream hmacSha256 ifac 0 byte = byte ^^^ k :=
  (maskStream_spec 0).2 (by simp [ifacStart])

/-- Masking what a frame was opened to gives the frame. -/
theorem masked_opened {ifac : List UInt8} {w0 : UInt8} (hflag : w0 &&& ifacFlag ≠ 0) (w1 : UInt8)
    (body : List UInt8) :
    c.masked hmacSha256 ifac (c.stream hmacSha256 ifac 0 w0 &&& ~~~ifacFlag)
        (c.stream hmacSha256 ifac 1 w1)
        (Keystream.under (c.stream hmacSha256 ifac) (ifacStart + c.size.1) body) =
      w0 :: w1 :: (ifac ++ body) := by
  obtain ⟨k, hk⟩ := @stream_zero hmacSha256 c ifac
  have hflags := ((flag_mask_iff w0 _ k).2 ⟨hflag, rfl⟩).1
  rw [masked, hk, hk, hflags, stream_involutive ifac 1 w1,
    Keystream.under_under (stream_involutive ifac)]

/-- Opening what a packet was masked to gives the packet. -/
theorem opened_masked {flags : UInt8} (hopen : flags &&& ifacFlag = 0) (ifac : List UInt8)
    (hops : UInt8) (body : List UInt8) :
    c.opened hmacSha256 ifac (c.stream hmacSha256 ifac 0 (flags ||| ifacFlag) ||| ifacFlag)
        (c.stream hmacSha256 ifac 1 hops)
        (Keystream.under (c.stream hmacSha256 ifac) (ifacStart + c.size.1) body) =
      flags :: hops :: body := by
  obtain ⟨k, hk⟩ := @stream_zero hmacSha256 c ifac
  have hflags := ((flag_mask_iff _ flags k).1 ⟨rfl, hopen⟩).2
  rw [opened, hk, hk, hflags, stream_involutive ifac 1 hops,
    Keystream.under_under (stream_involutive ifac)]

/-- A masked packet shows the flag. -/
theorem masked_flag {flags : UInt8} (hopen : flags &&& ifacFlag = 0) (ifac : List UInt8) :
    (c.stream hmacSha256 ifac 0 (flags ||| ifacFlag) ||| ifacFlag) &&& ifacFlag ≠ 0 := by
  obtain ⟨k, hk⟩ := @stream_zero hmacSha256 c ifac
  rw [hk]
  exact ((flag_mask_iff _ flags k).1 ⟨rfl, hopen⟩).1

/-- A frame that opens is the packet masked. -/
theorem tryMaskOutbound_of_unmask {wire clean : List UInt8} {room : UInt64}
    (h : c.unmaskInbound hmacSha256 wire room = some clean) :
    clean.headD 0 &&& ifacFlag = 0 ∧ c.tryMaskOutbound hmacSha256 clean room = .ok wire := by
  obtain ⟨w0, w1, ifac, body, rfl, hlen, hbody, hfits, hflag, rfl, hifac⟩ := unmaskInbound_spec.1 h
  constructor
  · obtain ⟨k, hk⟩ := @stream_zero hmacSha256 c ifac
    rw [opened, List.headD_cons, hk]
    exact ((flag_mask_iff w0 _ k).2 ⟨hflag, rfl⟩).2
  · refine tryMaskOutbound_iff.2 ⟨_, _, _, rfl, ?_, ?_, ?_⟩
    · rw [← List.length_pos_iff, Keystream.length_under]
      exact List.length_pos_of_ne_nil hbody
    · simp only [List.length_cons, List.length_append, opened, Keystream.length_under] at hfits ⊢
      omega
    · rw [← hifac, masked_opened hflag]

/-- A masked packet opens to itself. -/
theorem unmaskInbound_of_mask {wire clean : List UInt8} {room : UInt64}
    (hopen : clean.headD 0 &&& ifacFlag = 0)
    (h : c.tryMaskOutbound hmacSha256 clean room = .ok wire) :
    c.unmaskInbound hmacSha256 wire room = some clean := by
  obtain ⟨flags, hops, body, rfl, hbody, hfits, rfl⟩ := tryMaskOutbound_iff.1 h
  rw [List.headD_cons] at hopen
  refine unmaskInbound_spec.2 ⟨_, _, _, _, rfl, length_ifacOf _, ?_, ?_, masked_flag hopen _, ?_, ?_⟩
  · rw [← List.length_pos_iff, Keystream.length_under]
    exact List.length_pos_of_ne_nil hbody
  · simp only [List.length_cons, List.length_append, masked, Keystream.length_under,
      length_ifacOf] at hfits ⊢
    omega
  · rw [opened_masked hopen]
  · rfl

/-- A frame opens to a packet just when the packet, its top bit clear, is masked to the frame:
no other frame opens to it, and no frame opens to anything else. -/
theorem unmaskInbound_iff (hmacSha256 : List UInt8 → List UInt8 → MacBlock) (c : IfacContext)
    (wire clean : List UInt8) (room : UInt64) :
    c.unmaskInbound hmacSha256 wire room = some clean ↔
      clean.headD 0 &&& ifacFlag = 0 ∧ c.tryMaskOutbound hmacSha256 clean room = .ok wire :=
  ⟨tryMaskOutbound_of_unmask, fun h => unmaskInbound_of_mask h.1 h.2⟩

end IfacContext

end Wire
end SvenBridge
