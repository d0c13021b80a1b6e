import SvenBridge.Lib.Swar

/-!
# FindSpecial — the next delimiter, lane by lane

HDLC framing looks for the next `FLAG` or `ESC` a machine word at a time: 16 bytes in a `u128` on
64-bit targets, 8 in a `u64` elsewhere (`interfaces/framing/rns_serial_framing.rs`).  This file
embeds the scan for any lane width and shows that it finds the first special byte.
-/

namespace SvenBridge
namespace Wire

open Lib

/-! ## Constants -/

def flag : UInt8 := 0x7E
def esc : UInt8 := 0x7D

/-- XOR mask applied after `esc` to recover the original byte. -/
def escMask : UInt8 := 0x20

/-- `byte == FLAG || byte == ESC`. -/
def isSpecial (byte : UInt8) : Bool :=
  byte == flag || byte == esc

theorem isSpecial_iff (byte : UInt8) : isSpecial byte = true ↔ byte ∈ [flag, esc] := by
  simp [isSpecial]

/-! ## One lane -/

/-- `ONES`. -/
def ones (lane : ℕ) : BitVec (8 * lane) :=
  BitVec.ofNat _ (Swar.repeated 0x01 lane)

/-- `HIGHS`. -/
def highs (lane : ℕ) : BitVec (8 * lane) :=
  BitVec.ofNat _ (Swar.repeated 0x80 lane)

example : ones 8 = 0x0101010101010101#64 ∧ highs 8 = 0x8080808080808080#64 := by
  decide

/-- `FLAG_REP` and `ESC_REP`. -/
def rep (lane : ℕ) (byte : UInt8) : BitVec (8 * lane) :=
  BitVec.ofNat _ byte.toNat * ones lane

/-- `from_le_bytes`. -/
def fromLeBytes (lane : ℕ) (chunk : List UInt8) : BitVec (8 * lane) :=
  BitVec.ofNat _ (Swar.word chunk)

/-- The bytes of a lane that are special: the lowest mark is exact. -/
def marks (lane : ℕ) (word : BitVec (8 * lane)) : BitVec (8 * lane) :=
  let f := word ^^^ rep lane flag
  let e := word ^^^ rep lane esc
  (((f - ones lane) &&& ~~~f) ||| ((e - ones lane) &&& ~~~e)) &&& highs lane

/-! ## The scan -/

/-- `as_chunks`, for the given number of chunks: the chunks and the remainder. -/
def splitChunks (lane : ℕ) : ℕ → List UInt8 → List (List UInt8) × List UInt8
  | 0, haystack => ([], haystack)
  | count + 1, haystack =>
      let (chunks, rest) := splitChunks lane count (haystack.drop lane)
      (haystack.take lane :: chunks, rest)

def asChunks (lane : ℕ) (haystack : List UInt8) : List (List UInt8) × List UInt8 :=
  splitChunks lane (haystack.length / lane) haystack

/-- The loop over the chunks. -/
def scanChunks (lane chunkIndex : ℕ) : List (List UInt8) → Option ℕ
  | [] => none
  | chunk :: chunks =>
      let marks := marks lane (fromLeBytes lane chunk)
      if marks ≠ 0 then
        some (chunkIndex * lane + marks.ctz.toNat / 8)
      else
        scanChunks lane (chunkIndex + 1) chunks

/-- The first special byte. -/
def findSpecial (lane : ℕ) (haystack : List UInt8) : Option ℕ :=
  let (chunks, _) := asChunks lane haystack
  match scanChunks lane 0 chunks with
  | some found => some found
  | none =>
      let scanned := chunks.length * lane
      ((haystack.drop scanned).findIdx? isSpecial).map (scanned + ·)

/-! ## Marks -/

theorem two_pow_eight_mul (lane : ℕ) : 2 ^ (8 * lane) = 256 ^ lane := by
  rw [Nat.pow_mul]

theorem toNat_ones (lane : ℕ) : (ones lane).toNat = Swar.repeated 0x01 lane := by
  rw [ones, BitVec.toNat_ofNat, two_pow_eight_mul, Nat.mod_eq_of_lt (Swar.repeated_lt (by decide) lane)]

theorem toNat_highs (lane : ℕ) : (highs lane).toNat = Swar.repeated 0x80 lane := by
  rw [highs, BitVec.toNat_ofNat, two_pow_eight_mul,
    Nat.mod_eq_of_lt (Swar.repeated_lt (by decide) lane)]

theorem toNat_rep (lane : ℕ) (byte : UInt8) :
    (rep lane byte).toNat = Swar.repeated byte.toNat lane := by
  rw [rep, BitVec.toNat_mul, toNat_ones, BitVec.toNat_ofNat, Nat.mod_mul_mod,
    Swar.mul_repeated_one, two_pow_eight_mul,
    Nat.mod_eq_of_lt (Swar.repeated_lt byte.toNat_lt lane)]

theorem toNat_zeroMarks (lane : ℕ) (x : BitVec (8 * lane)) :
    ((x - ones lane) &&& ~~~x).toNat = Swar.zeroMarks lane x.toNat := by
  rw [BitVec.toNat_and, BitVec.toNat_sub, BitVec.toNat_not, toNat_ones, two_pow_eight_mul,
    Swar.zeroMarks]

theorem toNat_marks (lane : ℕ) (word : BitVec (8 * lane)) :
    (marks lane word).toNat = Swar.marks [flag, esc] lane word.toNat := by
  simp only [marks, BitVec.toNat_and, BitVec.toNat_or, toNat_highs, Swar.marks, Swar.rawMarks,
    Nat.or_zero]
  rw [← BitVec.toNat_and, ← BitVec.toNat_and, toNat_zeroMarks, toNat_zeroMarks, BitVec.toNat_xor,
    BitVec.toNat_xor, toNat_rep, toNat_rep]

/-- What one lane says is what a search of its bytes says. -/
theorem marks_fromLeBytes {lane : ℕ} {chunk : List UInt8} (hlen : chunk.length = lane) :
    (if marks lane (fromLeBytes lane chunk) ≠ 0 then
        some ((marks lane (fromLeBytes lane chunk)).ctz.toNat / 8)
      else none) = chunk.findIdx? isSpecial := by
  have hneedles : chunk.findIdx? isSpecial = chunk.findIdx? (· ∈ [flag, esc]) := by
    congr 1
    funext byte
    rw [Bool.eq_iff_iff, isSpecial_iff, decide_eq_true_iff]
  have hword : (marks lane (fromLeBytes lane chunk)).toNat =
      Swar.marks [flag, esc] chunk.length (Swar.word chunk) := by
    have hlt : Swar.word chunk < 256 ^ lane := hlen ▸ Swar.word_lt chunk
    rw [toNat_marks, fromLeBytes, BitVec.toNat_ofNat, two_pow_eight_mul, Nat.mod_eq_of_lt hlt, hlen]
  rw [hneedles]
  cases hfind : chunk.findIdx? (· ∈ [flag, esc]) with
  | none =>
      have hzero : marks lane (fromLeBytes lane chunk) = 0 := by
        apply BitVec.eq_of_toNat_eq
        rw [hword, Swar.marks_of_findIdx?_none hfind]
        rfl
      rw [hzero, if_neg (by simp)]
  | some j =>
      obtain ⟨high, hmarks⟩ := Swar.marks_of_findIdx?_some hfind
      rw [hmarks] at hword
      have hne : marks lane (fromLeBytes lane chunk) ≠ 0 := by
        intro hzero
        rw [hzero] at hword
        have hpos : 0 < 256 ^ j * (128 + 256 * high) :=
          Nat.mul_pos (Nat.pow_pos (by decide)) (by omega)
        rw [← hword] at hpos
        exact absurd hpos (Nat.lt_irrefl 0)
      rw [if_pos hne, Swar.ctz_div_eight hword]

/-! ## The whole scan -/

theorem splitChunks_flatten (lane count : ℕ) (haystack : List UInt8) :
    (splitChunks lane count haystack).1.flatten ++ (splitChunks lane count haystack).2 =
      haystack := by
  induction count generalizing haystack with
  | zero =>
      rfl
  | succ count ih =>
      rw [splitChunks, List.flatten_cons, List.append_assoc, ih, List.take_append_drop]

theorem length_of_mem_splitChunks {lane count : ℕ} {haystack chunk : List UInt8}
    (hlen : count * lane ≤ haystack.length)
    (hchunk : chunk ∈ (splitChunks lane count haystack).1) : chunk.length = lane := by
  induction count generalizing haystack with
  | zero =>
      cases hchunk
  | succ count ih =>
      rw [Nat.succ_mul] at hlen
      rcases List.mem_cons.1 hchunk with rfl | hrest
      · rw [List.length_take]
        omega
      · exact ih (by rw [List.length_drop]; omega) hrest

theorem scanChunks_eq {lane : ℕ} {chunks : List (List UInt8)}
    (hlen : ∀ chunk ∈ chunks, chunk.length = lane) (chunkIndex : ℕ) :
    scanChunks lane chunkIndex chunks =
      (chunks.flatten.findIdx? isSpecial).map (chunkIndex * lane + ·) := by
  induction chunks generalizing chunkIndex with
  | nil =>
      rfl
  | cons chunk chunks ih =>
      have hrest := ih (fun c hc => hlen c (List.mem_cons_of_mem _ hc)) (chunkIndex + 1)
      have hchunk := marks_fromLeBytes (hlen chunk (by simp))
      rw [scanChunks, List.flatten_cons, List.findIdx?_append, ← hchunk]
      by_cases hmarks : marks lane (fromLeBytes lane chunk) = 0
      · rw [if_neg (not_not.2 hmarks), if_neg (not_not.2 hmarks), hrest, Option.none_or,
          Option.map_map, hlen chunk (by simp)]
        congr 1
        funext i
        simp only [Function.comp_apply, Nat.succ_mul]
        omega
      · rw [if_pos hmarks, if_pos hmarks]
        rfl

theorem length_flatten_of_forall {lane : ℕ} {chunks : List (List UInt8)}
    (hlen : ∀ chunk ∈ chunks, chunk.length = lane) :
    chunks.flatten.length = chunks.length * lane := by
  rw [List.length_flatten, List.map_congr_left hlen, List.map_const', List.sum_replicate_nat]

/-- Whatever the lane width, the scan finds the first special byte. -/
theorem findSpecial_eq (lane : ℕ) (haystack : List UInt8) :
    findSpecial lane haystack = haystack.findIdx? isSpecial := by
  have hlen : ∀ chunk ∈ (asChunks lane haystack).1, chunk.length = lane :=
    fun chunk hchunk => length_of_mem_splitChunks (Nat.div_mul_le_self _ _) hchunk
  have hsplit : (asChunks lane haystack).1.flatten ++ (asChunks lane haystack).2 = haystack :=
    splitChunks_flatten lane _ haystack
  have hscan := scanChunks_eq hlen 0
  simp only [findSpecial]
  generalize (asChunks lane haystack).1 = chunks at hlen hsplit hscan ⊢
  generalize (asChunks lane haystack).2 = rest at hsplit
  subst hsplit
  rw [hscan, List.findIdx?_append, ← length_flatten_of_forall hlen, List.drop_left]
  cases chunks.flatten.findIdx? isSpecial with
  | some i =>
      simp
  | none =>
      simp [Nat.add_comm]

end Wire
end SvenBridge
