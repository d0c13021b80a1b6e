import Mathlib.Data.List.Basic

/-!
# Utf8 — strings as bytes

The UTF-8 bytes of a string, and the decoder that never fails: it takes one byte at a time and puts
a replacement character for every longest part that cannot be continued to a character.

* `toUTF8_toList` and `prefix_of_bytes` — the bytes of a string, character by character;
* `mem_toUTF8_iff` — an ASCII byte stands where its character does;
* `decodeLossy` — the decoder, with what it has begun as its state;
* `decodeLossy_bytes` — it reads what was encoded;
* `decodeLossy_split` — an ASCII byte leaves nothing begun behind it.
-/

namespace SvenBridge
namespace Lib
namespace Utf8

/-! ## Encoded strings -/

theorem toList_loop (bytes : ByteArray) (i : ℕ) (r : List UInt8) :
    ByteArray.toList.loop bytes i r = r.reverse ++ bytes.data.toList.drop i := by
  -- on the bytes that are still to be copied
  rw [ByteArray.toList.loop]
  split
  · rename_i hlt
    have hlt' : i < bytes.data.toList.length := hlt
    have hget : bytes.get! i = bytes.data.toList[i] := by
      show bytes.data[i]! = bytes.data.toList[i]
      rw [getElem!_pos bytes.data i hlt]
      rfl
    rw [toList_loop bytes (i + 1), List.drop_eq_getElem_cons hlt', hget]
    simp
  · rename_i hge
    have hle : bytes.data.toList.length ≤ i := Nat.not_lt.1 hge
    rw [List.drop_eq_nil_of_le hle, List.append_nil]
  termination_by bytes.size - i

theorem toList_eq (bytes : ByteArray) : bytes.toList = bytes.data.toList :=
  toList_loop bytes 0 []

/-- The bytes of a string are those of its characters. -/
theorem toUTF8_toList (s : String) : s.toUTF8.toList = s.toList.flatMap String.utf8EncodeChar := by
  have hbytes : s.toUTF8 = s.toList.utf8Encode := String.utf8Encode_toList.symm
  rw [toList_eq, hbytes, List.utf8Encode, List.data_toByteArray, List.toList_toArray]

theorem length_toUTF8 (s : String) : s.toUTF8.toList.length = s.utf8ByteSize := by
  rw [toList_eq]
  rfl

theorem fromUTF8?_of_bytes {bytes : List UInt8} {s : String} (h : s.toUTF8.toList = bytes) :
    String.fromUTF8? ⟨bytes.toArray⟩ = some s := by
  have heq : (⟨bytes.toArray⟩ : ByteArray) = s.toUTF8 := by
    rw [← h, toList_eq, Array.toArray_toList]
  have hvalid : s.toUTF8.IsValidUTF8 := s.isValidUTF8
  rw [heq, String.fromUTF8?, dif_pos hvalid]
  rfl

theorem bytes_of_fromUTF8? {bytes : List UInt8} {s : String}
    (h : String.fromUTF8? ⟨bytes.toArray⟩ = some s) : s.toUTF8.toList = bytes := by
  rw [String.fromUTF8?] at h
  split at h
  · cases h
    exact toList_eq _
  · cases h

/-- Where the bytes of one string begin those of another, so do its characters. -/
theorem prefix_of_bytes {s t : String} (h : s.toUTF8.toList <+: t.toUTF8.toList) :
    s.toList <+: t.toList := by
  obtain ⟨rest, hrest⟩ := h
  rw [toUTF8_toList, toUTF8_toList] at hrest
  apply List.isPrefix_of_utf8Encode_append_eq_utf8Encode rest.toByteArray
  rw [List.utf8Encode, List.utf8Encode, ← hrest, List.toByteArray_append]

/-! ## ASCII bytes -/

theorem toNat_ofNat_of_lt {n : ℕ} (h : n < 256) : (UInt8.ofNat n).toNat = n := by
  rw [UInt8.toNat_ofNat']
  exact Nat.mod_eq_of_lt h

/-- An ASCII byte is the encoding of its character, and no part of another one. -/
theorem eq_of_mem_encodeChar {c : Char} {b : UInt8} (hb : b.toNat < 0x80)
    (h : b ∈ String.utf8EncodeChar c) : c = Char.ofNat b.toNat := by
  suffices hcode : c.val.toNat = b.toNat by
    have hchar : Char.ofNat c.val.toNat = c := Char.ofNat_toNat c
    rw [← hcode, hchar]
  have hvalid : c.val.toNat < 0xD800 ∨ 0xDFFF < c.val.toNat ∧ c.val.toNat < 0x110000 := c.valid
  unfold String.utf8EncodeChar at h
  -- of the four lengths of an encoding only the first has bytes below 0x80
  generalize c.val.toNat = v at *
  have hbig : ∀ {n : ℕ}, 0x80 ≤ n → n < 256 → b ≠ UInt8.ofNat n := by
    rintro n hn hlt rfl
    rw [toNat_ofNat_of_lt hlt] at hb
    omega
  dsimp only at h
  split at h
  · rw [List.mem_singleton.1 h, toNat_ofNat_of_lt (by omega)]
  split at h
  · simp only [List.mem_cons, List.not_mem_nil, or_false] at h
    rcases h with h | h <;> exact absurd h (hbig (by omega) (by omega))
  split at h
  · simp only [List.mem_cons, List.not_mem_nil, or_false] at h
    rcases h with h | h | h <;> exact absurd h (hbig (by omega) (by omega))
  · simp only [List.mem_cons, List.not_mem_nil, or_false] at h
    rcases h with h | h | h | h <;> exact absurd h (hbig (by omega) (by omega))

theorem mem_toUTF8_iff {s : String} {b : UInt8} (hb : b.toNat < 0x80) :
    b ∈ s.toUTF8.toList ↔ Char.ofNat b.toNat ∈ s.toList := by
  rw [toUTF8_toList, List.mem_flatMap]
  constructor
  · rintro ⟨c, hc, hmem⟩
    rwa [← eq_of_mem_encodeChar hb hmem]
  · intro hc
    refine ⟨_, hc, ?_⟩
    have hvalid : b.toNat.isValidChar := .inl (by omega)
    have hcode : (Char.ofNat b.toNat).val.toNat = b.toNat := by
      rw [Char.ofNat, dif_pos hvalid]
      rfl
    unfold String.utf8EncodeChar
    simp only [hcode]
    rw [if_pos (by omega)]
    simp

/-! ## Decoding without errors -/

/-- U+FFFD. -/
def replacement : Char :=
  Char.ofNat 0xFFFD

/-- A character that has begun: its bits so far, the bytes it still needs, and the bounds of the
next of them. -/
structure Partial where
  code : ℕ
  owed : ℕ
  lo : ℕ
  hi : ℕ
  /-- No ASCII byte continues a character. -/
  tail : 0x80 ≤ lo

/-- The first byte of a character, by its value. -/
def lead (n : ℕ) : List Char × Option Partial :=
  -- one byte, the ASCII range
  if n < 0x80 then
    ([Char.ofNat n], none)
  -- a byte inside a character, or an encoding that would be too long
  else if n < 0xC2 then
    ([replacement], none)
  else if n < 0xE0 then
    ([], some ⟨n - 0xC0, 1, 0x80, 0xBF, Nat.le_refl _⟩)
  -- the second byte of `E0` must not be too low, that of `ED` must keep off the surrogates
  else if n < 0xF0 then
    ([], some ⟨n - 0xE0, 2, if n = 0xE0 then 0xA0 else 0x80, if n = 0xED then 0x9F else 0xBF,
      by split <;> omega⟩)
  -- the same for `F0`, and for `F4` the end of Unicode
  else if n < 0xF5 then
    ([], some ⟨n - 0xF0, 3, if n = 0xF0 then 0x90 else 0x80, if n = 0xF4 then 0x8F else 0xBF,
      by split <;> omega⟩)
  else
    ([replacement], none)

/-- The next byte of one; a byte that does not continue it begins anew. -/
def Partial.next (p : Partial) (b : UInt8) : List Char × Option Partial :=
  if p.lo ≤ b.toNat ∧ b.toNat ≤ p.hi then
    let code := 64 * p.code + (b.toNat - 0x80)
    if p.owed = 1 then ([Char.ofNat code], none) else ([], some ⟨code, p.owed - 1, 0x80, 0xBF, Nat.le_refl _⟩)
  else
    -- the part is given up, and the byte is looked at again
    (replacement :: (lead b.toNat).1, (lead b.toNat).2)

def step : Option Partial → UInt8 → List Char × Option Partial
  | none, b => lead b.toNat
  | some p, b => p.next b

def decodeFrom : Option Partial → List UInt8 → List Char
  | none, [] => []
  | some _, [] => [replacement]
  | p, b :: bytes => (step p b).1 ++ decodeFrom (step p b).2 bytes

def decodeLossy (bytes : List UInt8) : List Char :=
  decodeFrom none bytes

theorem decodeFrom_cons (p : Option Partial) (b : UInt8) (bytes : List UInt8) :
    decodeFrom p (b :: bytes) = (step p b).1 ++ decodeFrom (step p b).2 bytes := by
  cases p <;> rfl

/-- The last byte of a character. -/
theorem decodeFrom_last {code lo hi n : ℕ} {tail : 0x80 ≤ lo} (hlo : lo ≤ n) (hhi : n ≤ hi) (hn : n < 256)
    (bytes : List UInt8) :
    decodeFrom (some ⟨code, 1, lo, hi, tail⟩) (UInt8.ofNat n :: bytes) =
      Char.ofNat (64 * code + (n - 0x80)) :: decodeFrom none bytes := by
  rw [decodeFrom_cons, step, Partial.next, toNat_ofNat_of_lt hn, if_pos ⟨hlo, hhi⟩]
  rfl

/-- One of the bytes before the last. -/
theorem decodeFrom_more {code owed lo hi n : ℕ} {tail : 0x80 ≤ lo} (hlo : lo ≤ n) (hhi : n ≤ hi)
    (hn : n < 256) (howed : owed ≠ 1) (bytes : List UInt8) :
    decodeFrom (some ⟨code, owed, lo, hi, tail⟩) (UInt8.ofNat n :: bytes) =
      decodeFrom (some ⟨64 * code + (n - 0x80), owed - 1, 0x80, 0xBF, Nat.le_refl _⟩) bytes := by
  rw [decodeFrom_cons, step, Partial.next, toNat_ofNat_of_lt hn, if_pos ⟨hlo, hhi⟩]
  dsimp only
  rw [if_neg howed]
  rfl

/-- The first byte of a longer character. -/
theorem decodeFrom_lead {n : ℕ} {p : Partial} (hn : n < 256) (h : lead n = ([], some p))
    (bytes : List UInt8) :
    decodeFrom none (UInt8.ofNat n :: bytes) = decodeFrom (some p) bytes := by
  rw [decodeFrom_cons, step, toNat_ofNat_of_lt hn, h]
  rfl

/-- An encoded character is read back. -/
theorem decodeLossy_encodeChar (c : Char) (rest : List UInt8) :
    decodeLossy (String.utf8EncodeChar c ++ rest) = c :: decodeLossy rest := by
  have hchar : Char.ofNat c.val.toNat = c := Char.ofNat_toNat c
  have hvalid : c.val.toNat < 0xD800 ∨ 0xDFFF < c.val.toNat ∧ c.val.toNat < 0x110000 := c.valid
  unfold String.utf8EncodeChar
  -- by the length of the encoding; in each case its numbers make up the character's again
  generalize hv : c.val.toNat = v at *
  unfold decodeLossy
  dsimp only
  split
  · rw [List.singleton_append, decodeFrom_cons, step, toNat_ofNat_of_lt (by omega), lead,
      if_pos (by omega), hchar]
    rfl
  split
  · -- two bytes
    have hlead : lead (v / 64 % 0x20 + 0xC0) =
        ([], some ⟨v / 64 % 0x20 + 0xC0 - 0xC0, 1, 0x80, 0xBF, Nat.le_refl _⟩) := by
      rw [lead, if_neg (by omega), if_neg (by omega), if_pos (by omega)]
    have hcode : 64 * (v / 64 % 0x20 + 0xC0 - 0xC0) + (v % 0x40 + 0x80 - 0x80) = v := by omega
    rw [List.cons_append, List.singleton_append, decodeFrom_lead (by omega) hlead,
      decodeFrom_last (by omega) (by omega) (by omega), hcode, hchar]
  split
  · -- three bytes; the second has bounds of its own after `E0` and `ED`
    have hlead : lead (v / 4096 % 0x10 + 0xE0) =
        ([], some ⟨v / 4096 % 0x10 + 0xE0 - 0xE0, 2,
          if v / 4096 % 0x10 + 0xE0 = 0xE0 then 0xA0 else 0x80,
          if v / 4096 % 0x10 + 0xE0 = 0xED then 0x9F else 0xBF, by split <;> omega⟩) := by
      rw [lead, if_neg (by omega), if_neg (by omega), if_neg (by omega), if_pos (by omega)]
    have hcode : 64 * (64 * (v / 4096 % 0x10 + 0xE0 - 0xE0) + (v / 64 % 0x40 + 0x80 - 0x80)) +
        (v % 0x40 + 0x80 - 0x80) = v := by omega
    rw [List.cons_append, List.cons_append, List.singleton_append, decodeFrom_lead (by omega) hlead,
      decodeFrom_more (by split <;> omega) (by split <;> omega) (by omega) (by omega),
      decodeFrom_last (by omega) (by omega) (by omega), hcode, hchar]
  · -- four bytes, likewise after `F0` and `F4`
    have hlead : lead (v / 262144 % 0x08 + 0xF0) =
        ([], some ⟨v / 262144 % 0x08 + 0xF0 - 0xF0, 3,
          if v / 262144 % 0x08 + 0xF0 = 0xF0 then 0x90 else 0x80,
          if v / 262144 % 0x08 + 0xF0 = 0xF4 then 0x8F else 0xBF, by split <;> omega⟩) := by
      rw [lead, if_neg (by omega), if_neg (by omega), if_neg (by omega), if_neg (by omega),
        if_pos (by omega)]
    have hcode : 64 * (64 * (64 * (v / 262144 % 0x08 + 0xF0 - 0xF0) +
        (v / 4096 % 0x40 + 0x80 - 0x80)) + (v / 64 % 0x40 + 0x80 - 0x80)) +
          (v % 0x40 + 0x80 - 0x80) = v := by omega
    rw [List.cons_append, List.cons_append, List.cons_append, List.singleton_append,
      decodeFrom_lead (by omega) hlead,
      decodeFrom_more (by split <;> omega) (by split <;> omega) (by omega) (by omega),
      decodeFrom_more (by omega) (by omega) (by omega) (by omega),
      decodeFrom_last (by omega) (by omega) (by omega), hcode, hchar]

theorem decodeLossy_encode (chars : List Char) (rest : List UInt8) :
    decodeLossy (chars.flatMap String.utf8EncodeChar ++ rest) = chars ++ decodeLossy rest := by
  induction chars with
  | nil => rfl
  | cons c chars ih =>
      rw [List.flatMap_cons, List.append_assoc, decodeLossy_encodeChar, ih]
      rfl

/-- The bytes of a string are read back. -/
theorem decodeLossy_bytes (s : String) : decodeLossy s.toUTF8.toList = s.toList := by
  have h := decodeLossy_encode s.toList []
  rw [List.append_nil, ← toUTF8_toList] at h
  rw [h]
  exact List.append_nil _

/-- An ASCII byte leaves nothing begun behind it: what follows is read on its own. -/
theorem decodeFrom_split {b : UInt8} (hb : b.toNat < 0x80) (p : Option Partial)
    (front rest : List UInt8) :
    decodeFrom p (front ++ b :: rest) = decodeFrom p (front ++ [b]) ++ decodeLossy rest := by
  -- whatever has begun by then; the byte itself is ASCII and continues nothing
  induction front generalizing p with
  | nil =>
      have hfresh : (step p b).2 = none := by
        cases p with
        | none => rw [step, lead, if_pos hb]
        | some p =>
            rw [step, Partial.next]
            have hout : ¬ (p.lo ≤ b.toNat ∧ b.toNat ≤ p.hi) := by
              have htail := p.tail
              omega
            rw [if_neg hout, lead, if_pos hb]
      rw [List.nil_append, List.nil_append, decodeFrom_cons, decodeFrom_cons, hfresh,
        List.append_assoc]
      rfl
  | cons a front ih =>
      rw [List.cons_append, List.cons_append, decodeFrom_cons, decodeFrom_cons, ih,
        List.append_assoc]

theorem decodeLossy_split {b : UInt8} (hb : b.toNat < 0x80) (front rest : List UInt8) :
    decodeLossy (front ++ b :: rest) = decodeLossy (front ++ [b]) ++ decodeLossy rest :=
  decodeFrom_split hb none front rest

/-- What has begun in front of an ASCII byte is not continued by it. -/
theorem decodeFrom_before {b : UInt8} (hb : b.toNat < 0x80) (p : Option Partial)
    (front rest : List UInt8) :
    decodeFrom p (front ++ b :: rest) = decodeFrom p front ++ decodeLossy (b :: rest) := by
  -- whatever has begun by then is replaced where the front ends, or where the byte comes
  induction front generalizing p with
  | nil =>
      cases p with
      | none => rfl
      | some p =>
          have hout : ¬ (p.lo ≤ b.toNat ∧ b.toNat ≤ p.hi) := by
            have htail := p.tail
            omega
          have hnext : step (some p) b =
              (replacement :: (lead b.toNat).1, (lead b.toNat).2) := if_neg hout
          rw [List.nil_append, decodeFrom_cons, hnext]
          rfl
  | cons a front ih =>
      rw [List.cons_append, decodeFrom_cons, decodeFrom_cons, ih, List.append_assoc]

theorem decodeLossy_before {b : UInt8} (hb : b.toNat < 0x80) (front rest : List UInt8) :
    decodeLossy (front ++ b :: rest) = decodeLossy front ++ decodeLossy (b :: rest) :=
  decodeFrom_before hb none front rest

theorem decodeLossy_cons {b : UInt8} (hb : b.toNat < 0x80) (rest : List UInt8) :
    decodeLossy (b :: rest) = Char.ofNat b.toNat :: decodeLossy rest := by
  have hlead : lead b.toNat = ([Char.ofNat b.toNat], none) := if_pos hb
  rw [decodeLossy, decodeFrom_cons, step, hlead]
  rfl

end Utf8
end Lib
end SvenBridge
