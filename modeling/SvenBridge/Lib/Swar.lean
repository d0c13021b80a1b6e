import Mathlib.Data.List.Basic
import Mathlib.Tactic.Common
import Mathlib.Tactic.Ring

/-!
# Swar — searching the bytes of a word at once

A word of `n` bytes is searched for any of some needles by subtracting one from every byte of
`word ^ needle` and looking at the borrows.  A borrow may also hit the bytes above the first match,
so only the lowest mark means something.  This file contains

* `word` and `repeated` — the word of some bytes, and the word of one byte repeated;
* `zeroMarks` and `marks` — the subtraction, for one needle and for several;
* `marks_of_findIdx?_some` and `marks_of_findIdx?_none` — the lowest mark is the first match;
* `ctz_div_eight` — how a machine word reads the place off its trailing zeros.
-/

namespace SvenBridge
namespace Lib
namespace Swar

/-! ## Words -/

/-- The number that some bytes, the low one first, stand for. -/
def word : List UInt8 → ℕ
  | [] => 0
  | b :: bs => b.toNat + 256 * word bs

/-- The same byte `n` times. -/
def repeated (c : ℕ) : ℕ → ℕ
  | 0 => 0
  | n + 1 => c + 256 * repeated c n

theorem word_lt (bs : List UInt8) : word bs < 256 ^ bs.length := by
  induction bs with
  | nil =>
      decide
  | cons b bs ih =>
      have hb : b.toNat < 256 := b.toNat_lt
      rw [word, List.length_cons, Nat.pow_succ]
      omega

theorem repeated_lt {c : ℕ} (hc : c < 256) (n : ℕ) : repeated c n < 256 ^ n := by
  induction n with
  | zero =>
      exact Nat.zero_lt_one
  | succ n ih =>
      rw [repeated, Nat.pow_succ]
      omega

/-- A product is that of the repeated byte. -/
theorem mul_repeated_one (c n : ℕ) : c * repeated 1 n = repeated c n := by
  induction n with
  | zero =>
      rfl
  | succ n ih =>
      rw [repeated, repeated, ← ih, Nat.mul_add]
      ring

/-! ## Bitwise operations, the low byte apart -/

section LowByte

variable {a b x y : ℕ}

theorem mod_low (ha : a < 256) : (a + 256 * x) % 2 ^ 8 = a := by
  omega

theorem div_low (ha : a < 256) : (a + 256 * x) / 2 ^ 8 = x := by
  omega

theorem and_low (ha : a < 256) (hb : b < 256) :
    (a + 256 * x) &&& (b + 256 * y) = (a &&& b) + 256 * (x &&& y) := by
  have hsplit := Nat.mod_add_div ((a + 256 * x) &&& (b + 256 * y)) (2 ^ 8)
  rw [Nat.and_mod_two_pow, Nat.and_div_two_pow, mod_low ha, mod_low hb, div_low ha, div_low hb]
    at hsplit
  exact hsplit.symm

theorem or_low (ha : a < 256) (hb : b < 256) :
    (a + 256 * x) ||| (b + 256 * y) = (a ||| b) + 256 * (x ||| y) := by
  have hsplit := Nat.mod_add_div ((a + 256 * x) ||| (b + 256 * y)) (2 ^ 8)
  rw [Nat.or_mod_two_pow, Nat.or_div_two_pow, mod_low ha, mod_low hb, div_low ha, div_low hb]
    at hsplit
  exact hsplit.symm

theorem xor_low (ha : a < 256) (hb : b < 256) :
    (a + 256 * x) ^^^ (b + 256 * y) = (a ^^^ b) + 256 * (x ^^^ y) := by
  have hsplit := Nat.mod_add_div ((a + 256 * x) ^^^ (b + 256 * y)) (2 ^ 8)
  rw [Nat.xor_mod_two_pow, Nat.xor_div_two_pow, mod_low ha, mod_low hb, div_low ha, div_low hb]
    at hsplit
  exact hsplit.symm

end LowByte

/-! ## Zero bytes -/

/-- `(x - 0x01…01) & !x` on a word of `n` bytes. -/
def zeroMarks (n x : ℕ) : ℕ :=
  ((256 ^ n - repeated 1 n + x) % 256 ^ n) &&& (256 ^ n - 1 - x)

/-- A low byte other than zero lends nothing. -/
theorem zeroMarks_pos {n b x : ℕ} (hpos : 0 < b) (hb : b < 256) (hx : x < 256 ^ n) :
    zeroMarks (n + 1) (b + 256 * x) = ((b - 1) &&& (255 - b)) + 256 * zeroMarks n x := by
  have hlt := repeated_lt (show 1 < 256 by decide) n
  simp only [zeroMarks, repeated, Nat.pow_succ]
  generalize 256 ^ n = size at hx hlt ⊢
  have hdiff : size * 256 - (1 + 256 * repeated 1 n) + (b + 256 * x) =
      (b - 1) + 256 * (size - repeated 1 n + x) := by
    omega
  have hmod : ((b - 1) + 256 * (size - repeated 1 n + x)) % (size * 256) =
      (b - 1) + 256 * ((size - repeated 1 n + x) % size) := by
    have hlow : ((b - 1) + 256 * (size - repeated 1 n + x)) % 256 = b - 1 := by omega
    have hhigh : ((b - 1) + 256 * (size - repeated 1 n + x)) / 256 = size - repeated 1 n + x := by
      omega
    rw [Nat.mul_comm size, Nat.mod_mul, hlow, hhigh]
  have hnot : size * 256 - 1 - (b + 256 * x) = (255 - b) + 256 * (size - 1 - x) := by
    omega
  rw [hdiff, hmod, hnot, and_low (by omega) (by omega)]

/-- A low byte that is zero is marked in every bit. -/
theorem zeroMarks_zero {n x : ℕ} (hx : x < 256 ^ n) :
    ∃ y, zeroMarks (n + 1) (256 * x) = 255 + 256 * y := by
  have hlt := repeated_lt (show 1 < 256 by decide) n
  simp only [zeroMarks, repeated, Nat.pow_succ]
  generalize 256 ^ n = size at hx hlt ⊢
  have hnot : size * 256 - 1 - 256 * x = 255 + 256 * (size - 1 - x) := by
    omega
  -- the borrow comes from the byte above
  have hdiff : (size * 256 - (1 + 256 * repeated 1 n) + 256 * x) % (size * 256) % 256 = 255 := by
    rw [Nat.mod_mod_of_dvd _ ⟨size, Nat.mul_comm size 256⟩]
    omega
  have hsplit := Nat.mod_add_div
    ((size * 256 - (1 + 256 * repeated 1 n) + 256 * x) % (size * 256)) 256
  rw [hdiff] at hsplit
  rw [hnot, ← hsplit, and_low (by decide) (by decide)]
  exact ⟨_, rfl⟩

/-! ## Needles -/

/-- The marks of several needles, before the high bits are picked. -/
def rawMarks (n x : ℕ) : List UInt8 → ℕ
  | [] => 0
  | c :: cs => zeroMarks n (x ^^^ repeated c.toNat n) ||| rawMarks n x cs

/-- The bytes of `x` at which a needle was seen: their high bits. -/
def marks (needles : List UInt8) (n x : ℕ) : ℕ :=
  rawMarks n x needles &&& repeated 0x80 n

theorem xor_repeated_lt (bs : List UInt8) (c : UInt8) :
    word bs ^^^ repeated c.toNat bs.length < 256 ^ bs.length := by
  have hpow : 256 ^ bs.length = 2 ^ (8 * bs.length) := by
    rw [Nat.pow_mul]
  have hlt : repeated c.toNat bs.length < 256 ^ bs.length := repeated_lt c.toNat_lt _
  rw [hpow] at hlt ⊢
  exact Nat.xor_lt_two_pow (hpow ▸ word_lt bs) hlt

variable {needles : List UInt8} {b : UInt8}

/-- Below 128 after the subtraction, or from 128 on before it: never both. -/
theorem no_mark (d : UInt8) (hd : d ≠ 0) : (d.toNat - 1) &&& (255 - d.toNat) &&& 0x80 = 0 := by
  have hall : ∀ n : Fin 256, n ≠ 0 → (n.val - 1) &&& (255 - n.val) &&& 0x80 = 0 := by
    decide +kernel
  refine hall ⟨d.toNat, d.toNat_lt⟩ ?_
  intro h
  exact hd (UInt8.toNat_inj.1 (congrArg Fin.val h))

theorem rawMarks_cons_of_not_mem (bs : List UInt8) (hb : b ∉ needles) :
    ∃ low, low < 256 ∧ low &&& 0x80 = 0 ∧
      rawMarks (bs.length + 1) (word (b :: bs)) needles =
        low + 256 * rawMarks bs.length (word bs) needles := by
  induction needles with
  | nil =>
      exact ⟨0, by decide, by decide, rfl⟩
  | cons c cs ih =>
      have hbc : b ≠ c := List.ne_of_not_mem_cons hb
      obtain ⟨low, hlow, hmark, hraw⟩ := ih (List.not_mem_of_not_mem_cons hb)
      have hne : b ^^^ c ≠ 0 := by
        intro h
        exact hbc (UInt8.xor_eq_zero_iff.1 h)
      have hxor : word (b :: bs) ^^^ repeated c.toNat (bs.length + 1) =
          (b ^^^ c).toNat + 256 * (word bs ^^^ repeated c.toNat bs.length) := by
        rw [word, repeated, xor_low b.toNat_lt c.toNat_lt, UInt8.toNat_xor]
      have hpos : 0 < (b ^^^ c).toNat := by
        rw [Nat.pos_iff_ne_zero]
        intro h
        exact hne (UInt8.toNat_inj.1 h)
      have hdlt : (b ^^^ c).toNat < 256 := (b ^^^ c).toNat_lt
      have hand : ((b ^^^ c).toNat - 1) &&& (255 - (b ^^^ c).toNat) < 256 :=
        lt_of_le_of_lt Nat.and_le_left (by omega)
      refine ⟨(((b ^^^ c).toNat - 1) &&& (255 - (b ^^^ c).toNat)) ||| low,
        Nat.or_lt_two_pow (n := 8) hand hlow, ?_, ?_⟩
      · rw [Nat.and_or_distrib_right, no_mark _ hne, hmark]
        rfl
      · rw [rawMarks, hxor, zeroMarks_pos hpos hdlt (xor_repeated_lt bs c), hraw,
          or_low hand hlow, rawMarks]

theorem rawMarks_cons_of_mem (bs : List UInt8) (hb : b ∈ needles) :
    ∃ low high, low < 256 ∧ low &&& 0x80 = 0x80 ∧
      rawMarks (bs.length + 1) (word (b :: bs)) needles = low + 256 * high := by
  induction needles with
  | nil =>
      cases hb
  | cons c cs ih =>
      by_cases hbc : b = c
      · subst hbc
        have hxor : word (b :: bs) ^^^ repeated b.toNat (bs.length + 1) =
            256 * (word bs ^^^ repeated b.toNat bs.length) := by
          rw [word, repeated, xor_low b.toNat_lt b.toNat_lt, Nat.xor_self, Nat.zero_add]
        obtain ⟨y, hy⟩ := zeroMarks_zero (xor_repeated_lt bs b)
        have hsplit := Nat.mod_add_div (rawMarks (bs.length + 1) (word (b :: bs)) cs) 256
        have hlow : rawMarks (bs.length + 1) (word (b :: bs)) cs % 256 < 256 :=
          Nat.mod_lt _ (by decide)
        have hall : ∀ n : Fin 256, (255 ||| n.val) < 256 ∧ (255 ||| n.val) &&& 0x80 = 0x80 := by
          decide +kernel
        obtain ⟨hor, hmark⟩ := hall ⟨_, hlow⟩
        refine ⟨_, y ||| rawMarks (bs.length + 1) (word (b :: bs)) cs / 256, hor, hmark, ?_⟩
        rw [rawMarks, hxor, hy, ← or_low (by decide) hlow, hsplit]
      · obtain ⟨low, high, hlow, hmark, hraw⟩ := ih (List.mem_of_ne_of_mem hbc hb)
        have hsplit := Nat.mod_add_div
          (zeroMarks (bs.length + 1) (word (b :: bs) ^^^ repeated c.toNat (bs.length + 1))) 256
        have hfirst := Nat.mod_lt (zeroMarks (bs.length + 1)
          (word (b :: bs) ^^^ repeated c.toNat (bs.length + 1))) (show 256 > 0 by decide)
        have hall : ∀ n : Fin 256, (n.val &&& 0x80) ||| 0x80 = 0x80 := by
          decide +kernel
        refine ⟨_, zeroMarks (bs.length + 1)
            (word (b :: bs) ^^^ repeated c.toNat (bs.length + 1)) / 256 ||| high,
          Nat.or_lt_two_pow (n := 8) hfirst hlow, ?_, ?_⟩
        · rw [Nat.and_or_distrib_right, hmark]
          exact hall ⟨_, hfirst⟩
        · rw [rawMarks, hraw, ← or_low hfirst hlow, hsplit]

theorem marks_cons_of_not_mem (bs : List UInt8) (hb : b ∉ needles) :
    marks needles (bs.length + 1) (word (b :: bs)) = 256 * marks needles bs.length (word bs) := by
  obtain ⟨low, hlow, hmark, hraw⟩ := rawMarks_cons_of_not_mem bs hb
  rw [marks, hraw, repeated, and_low hlow (by decide), hmark, Nat.zero_add, marks]

theorem marks_cons_of_mem (bs : List UInt8) (hb : b ∈ needles) :
    ∃ high, marks needles (bs.length + 1) (word (b :: bs)) = 128 + 256 * high := by
  obtain ⟨low, high, hlow, hmark, hraw⟩ := rawMarks_cons_of_mem bs hb
  rw [marks, hraw, repeated, and_low hlow (by decide), hmark]
  exact ⟨_, rfl⟩

/-! ## The first match -/

/-- No byte is a needle: nothing is marked. -/
theorem marks_of_findIdx?_none {bs : List UInt8} (h : bs.findIdx? (· ∈ needles) = none) :
    marks needles bs.length (word bs) = 0 := by
  induction bs with
  | nil =>
      rw [marks, List.length_nil, repeated, Nat.and_zero]
  | cons b bs ih =>
      by_cases hb : b ∈ needles
      · simp [List.findIdx?_cons, hb] at h
      · have hrest : bs.findIdx? (· ∈ needles) = none := by
          simpa [List.findIdx?_cons, hb] using h
        rw [List.length_cons, marks_cons_of_not_mem bs hb, ih hrest]

/-- The lowest mark is the high bit of the first byte that is a needle. -/
theorem marks_of_findIdx?_some {bs : List UInt8} {j : ℕ}
    (h : bs.findIdx? (· ∈ needles) = some j) :
    ∃ high, marks needles bs.length (word bs) = 256 ^ j * (128 + 256 * high) := by
  induction bs generalizing j with
  | nil =>
      cases h
  | cons b bs ih =>
      by_cases hb : b ∈ needles
      · have hj : j = 0 := by
          simpa [List.findIdx?_cons, hb] using h.symm
        obtain ⟨high, hmarks⟩ := marks_cons_of_mem bs hb
        exact ⟨high, by rw [List.length_cons, hmarks, hj, Nat.pow_zero, Nat.one_mul]⟩
      · obtain ⟨i, hi, hij⟩ : ∃ i, bs.findIdx? (· ∈ needles) = some i ∧ i + 1 = j := by
          simpa [List.findIdx?_cons, hb] using h
        obtain ⟨high, hmarks⟩ := ih hi
        refine ⟨high, ?_⟩
        rw [List.length_cons, marks_cons_of_not_mem bs hb, hmarks, ← hij, Nat.pow_succ]
        ring

/-- Eight times the place, and seven, is the number of trailing zeros. -/
theorem ctz_div_eight {w j high : ℕ} {x : BitVec w} (h : x.toNat = 256 ^ j * (128 + 256 * high)) :
    x.ctz.toNat / 8 = j := by
  have hpow : x.toNat = 2 ^ (8 * j + 7) * (1 + 2 * high) := by
    rw [h, Nat.pow_add, Nat.pow_mul]
    ring
  have hbit : ∀ i, x.getLsbD i = (decide (i ≥ 8 * j + 7) &&
      Nat.testBit (1 + 2 * high) (i - (8 * j + 7))) := by
    intro i
    rw [← BitVec.testBit_toNat, hpow, Nat.testBit_two_pow_mul]
  have hset : x.getLsbD (8 * j + 7) = true := by
    rw [hbit]
    simp [Nat.testBit_zero]
  have hne : x ≠ 0#w := by
    rintro rfl
    simp at hset
  -- the first set bit is neither above nor below
  have hle : x.ctz.toNat ≤ 8 * j + 7 := by
    by_contra hlt
    have hclear := BitVec.getLsbD_false_of_lt_ctz (x := x) (Nat.lt_of_not_le hlt)
    rw [hset] at hclear
    cases hclear
  have hge : 8 * j + 7 ≤ x.ctz.toNat := by
    have htrue := BitVec.getLsbD_true_ctz_of_ne_zero hne
    rw [hbit] at htrue
    simp only [Bool.and_eq_true, decide_eq_true_eq] at htrue
    exact htrue.1
  omega

end Swar
end Lib
end SvenBridge
