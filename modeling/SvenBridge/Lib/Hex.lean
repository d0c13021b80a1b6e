import Mathlib.Data.List.Basic
import SvenBridge.Lib.Json

/-!
# Hex — byte strings in hexadecimal

`encode` writes two lower-case digits a byte; `decode` reads pairs of digits of either case and
names what it cannot read.  Both are written out, since callers answer by what is refused; what is
relied on beyond that is that no two byte strings are encoded alike, and that lowering the case does
not touch what is encoded.
-/

namespace SvenBridge
namespace Lib
namespace Hex

/-- Two digits, the high half first. -/
def encodeByte (b : UInt8) : List Char :=
  [Json.hexDigit (b.toNat / 16), Json.hexDigit (b.toNat % 16)]

def encode (bytes : List UInt8) : String :=
  String.ofList (bytes.flatMap encodeByte)

inductive FromHexError where
  | oddLength
  | invalidHexCharacter (c : Char) (index : ℕ)
  deriving DecidableEq

/-- The value of the digit at `index`. -/
def val (c : Char) (index : ℕ) : Except FromHexError ℕ :=
  match Json.hexValue c with
  | some n => .ok n
  | none => .error (.invalidHexCharacter c index)

/-- Pairs of digits, from `index` on. -/
def decodePairs (index : ℕ) : List Char → Except FromHexError (List UInt8)
  | hi :: lo :: rest => do
      let h ← val hi index
      let l ← val lo (index + 1)
      let bytes ← decodePairs (index + 2) rest
      return UInt8.ofNat (16 * h + l) :: bytes
  | _ => .ok []

/-- Decode the bytes of a text, each taken as a character. -/
def decode (text : String) : Except FromHexError (List UInt8) :=
  let chars := text.toUTF8.toList.map fun b => Char.ofNat b.toNat
  if chars.length % 2 ≠ 0 then .error .oddLength else decodePairs 0 chars

/-- ASCII letters to lower case. -/
def lowerAscii (text : String) : String :=
  String.ofList (text.toList.map Char.toLower)

/-! ## What is encoded reads back -/

theorem decodePairs_encode (index : ℕ) (bytes : List UInt8) :
    decodePairs index (bytes.flatMap encodeByte) = .ok bytes := by
  induction bytes generalizing index with
  | nil =>
      rfl
  | cons b bytes ih =>
      have hlt : b.toNat < 256 := b.toNat_lt
      have hhi : Json.hexValue (Json.hexDigit (b.toNat / 16)) = some (b.toNat / 16) :=
        Json.hexValue_hexDigit (by omega)
      have hlo : Json.hexValue (Json.hexDigit (b.toNat % 16)) = some (b.toNat % 16) :=
        Json.hexValue_hexDigit (by omega)
      have hbyte : 16 * (b.toNat / 16) + b.toNat % 16 = b.toNat := by omega
      simp [encodeByte, decodePairs, val, hhi, hlo, ih, hbyte, bind, Except.bind, pure,
        Except.pure]

theorem encode_injective {xs ys : List UInt8} (h : encode xs = encode ys) : xs = ys := by
  have hchars : xs.flatMap encodeByte = ys.flatMap encodeByte := by
    simpa [encode] using congrArg String.toList h
  have hdecode := decodePairs_encode 0 xs
  rw [hchars, decodePairs_encode, Except.ok.injEq] at hdecode
  exact hdecode.symm

theorem toLower_hexDigit {n : ℕ} (h : n < 16) :
    (Json.hexDigit n).toLower = Json.hexDigit n := by
  have hall : ∀ n < 16, (Json.hexDigit n).toLower = Json.hexDigit n := by decide
  exact hall n h

theorem lowerAscii_encode (bytes : List UInt8) : lowerAscii (encode bytes) = encode bytes := by
  rw [lowerAscii, encode, String.toList_ofList]
  congr 1
  induction bytes with
  | nil =>
      rfl
  | cons b bytes ih =>
      have hlt : b.toNat < 256 := b.toNat_lt
      rw [List.flatMap_cons, List.map_append, ih]
      simp [encodeByte, toLower_hexDigit (show b.toNat / 16 < 16 by omega),
        toLower_hexDigit (show b.toNat % 16 < 16 by omega)]

end Hex
end Lib
end SvenBridge
