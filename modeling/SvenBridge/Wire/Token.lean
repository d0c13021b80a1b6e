import SvenBridge.LinkMtu
import Mathlib.Data.UInt
import Mathlib.Data.Vector.Defs

/-!
# Token — the sealed payload

`iv ‖ AES-CBC(PKCS7(plaintext)) ‖ HMAC-SHA256`, encrypt then MAC (`crypto/token.rs`).  The cipher
with its padding and the MAC are parameters.  This file contains

* `TokenCrypto.Padded` — what is relied on of the cipher;
* `tokenSeal` and the two ways to open, `tokenOpenInPlace` and `tokenOpen`;
* `tokenOpenInPlace_iff`: opened is just what sealing a plaintext makes.
-/

namespace SvenBridge
namespace Wire

abbrev TokenBlock := List.Vector UInt8 blockLen
abbrev Tag := List.Vector UInt8 32

/-- An encryption key, in the mode its length tells. -/
inductive AesKey
  | aes128 (key : List.Vector UInt8 16)
  | aes256 (key : List.Vector UInt8 32)

/-- The primitives of a token. -/
structure TokenCrypto where
  hmacSha256 : List UInt8 → List UInt8 → Tag
  /-- `encrypt_padded_mut::<Pkcs7>` of an `Encryptor` with this key and IV. -/
  encryptPadded : AesKey → TokenBlock → List UInt8 → List UInt8
  /-- `decrypt_padded_mut::<Pkcs7>` of a `Decryptor`; `none` is `UnpadError`. -/
  decryptPadded : AesKey → TokenBlock → List UInt8 → Option (List UInt8)

/-- The padding fills the last block up, or adds one, and over whole blocks each of the two undoes
the other. -/
structure TokenCrypto.Padded (crypto : TokenCrypto) : Prop where
  length_encrypt : ∀ key iv plaintext, (crypto.encryptPadded key iv plaintext).length =
    (plaintext.length / blockLen + 1) * blockLen
  decrypt_encrypt : ∀ key iv plaintext,
    crypto.decryptPadded key iv (crypto.encryptPadded key iv plaintext) = some plaintext
  encrypt_decrypt : ∀ key iv ciphertext plaintext, ciphertext.length % blockLen = 0 →
    crypto.decryptPadded key iv ciphertext = some plaintext →
      crypto.encryptPadded key iv plaintext = ciphertext

/-- A key's signing half and its encryption half. -/
inductive TokenKey
  | aes128 (signingKey encryptionKey : List.Vector UInt8 16)
  | aes256 (signingKey encryptionKey : List.Vector UInt8 32)

inductive TokenOpenError
  | malformed
  | invalidMac
  | invalidPadding
  | bufferTooShort
  deriving DecidableEq

namespace TokenKey

def signingKey : TokenKey → List UInt8
  | .aes128 signingKey _ => signingKey.toList
  | .aes256 signingKey _ => signingKey.toList

def encryptionKey : TokenKey → AesKey
  | .aes128 _ encryptionKey => .aes128 encryptionKey
  | .aes256 _ encryptionKey => .aes256 encryptionKey

def fromAes256 (key : List.Vector UInt8 64) : TokenKey :=
  .aes256 ⟨key.toList.take 32, by rw [List.length_take, key.toList_length]; rfl⟩
    ⟨key.toList.drop 32, by rw [List.length_drop, key.toList_length]⟩

end TokenKey

section

variable (crypto : TokenCrypto)

/-- All of a token but its tag. -/
def signedParts (key : TokenKey) (iv : TokenBlock) (plaintext : List UInt8) : List UInt8 :=
  iv.toList ++ crypto.encryptPadded key.encryptionKey iv plaintext

/-- `token_seal_chunks`, for a buffer of `available` bytes; `none` is `BufferTooShort`. -/
def tokenSealChunks (key : TokenKey) (iv : TokenBlock) (chunks : List (List UInt8))
    (available : ℕ) : Option (List UInt8) :=
  let plainLen := (chunks.map List.length).sum
  if available < sealedLen plainLen then
    none
  else
    let signed := signedParts crypto key iv chunks.flatten
    some (signed ++ (crypto.hmacSha256 key.signingKey signed).toList)

def tokenSeal (key : TokenKey) (iv : TokenBlock) (plaintext : List UInt8) (available : ℕ) :
    Option (List UInt8) :=
  tokenSealChunks crypto key iv [plaintext] available

/-- The `map_err` after the decryption. -/
def unpadded : Option (List UInt8) → Except TokenOpenError (List UInt8)
  | some plaintext => .ok plaintext
  | none => .error .invalidPadding

/-- The first bytes of a token that is long enough. -/
def ivOf (token : List UInt8) (h : ¬ token.length < ivLen + blockLen + macLen) : TokenBlock :=
  ⟨(token.take (token.length - macLen)).take ivLen, by
    simp only [ivLen, blockLen, macLen, List.length_take] at h ⊢
    omega⟩

/-- `token_open_in_place`. -/
def tokenOpenInPlace (key : TokenKey) (token : List UInt8) : Except TokenOpenError (List UInt8) :=
  if h : token.length < ivLen + blockLen + macLen then
    .error .malformed
  else
    let signed := token.take (token.length - macLen)
    let tag := token.drop (token.length - macLen)
    if (crypto.hmacSha256 key.signingKey signed).toList ≠ tag then
      .error .invalidMac
    else
      let ciphertext := signed.drop ivLen
      if ciphertext.length % blockLen ≠ 0 then
        .error .malformed
      else
        unpadded (crypto.decryptPadded key.encryptionKey (ivOf token h) ciphertext)

/-- `token_open`, for a buffer of `available` bytes. -/
def tokenOpen (key : TokenKey) (token : List UInt8) (available : ℕ) :
    Except TokenOpenError (List UInt8) :=
  if h : token.length < ivLen + blockLen + macLen then
    .error .malformed
  else
    let signed := token.take (token.length - macLen)
    let tag := token.drop (token.length - macLen)
    if (crypto.hmacSha256 key.signingKey signed).toList ≠ tag then
      .error .invalidMac
    else
      let ciphertext := signed.drop ivLen
      if ciphertext.length % blockLen ≠ 0 then
        .error .malformed
      else if available < ciphertext.length then
        .error .bufferTooShort
      else
        unpadded (crypto.decryptPadded key.encryptionKey (ivOf token h) ciphertext)

variable {crypto} {key : TokenKey}

theorem length_signedParts (hcrypto : crypto.Padded) (iv : TokenBlock) (plaintext : List UInt8) :
    (signedParts crypto key iv plaintext).length =
      ivLen + (plaintext.length / blockLen + 1) * blockLen := by
  rw [signedParts, List.length_append, iv.toList_length, hcrypto.length_encrypt]
  rfl

/-- What a token is sealed to, where it fits. -/
theorem tokenSeal_eq (iv : TokenBlock) (plaintext : List UInt8) (available : ℕ) :
    tokenSeal crypto key iv plaintext available =
      if available < sealedLen plaintext.length then none
      else some (signedParts crypto key iv plaintext ++
        (crypto.hmacSha256 key.signingKey (signedParts crypto key iv plaintext)).toList) := by
  simp only [tokenSeal, tokenSealChunks, List.map_cons, List.map_nil, List.sum_cons, List.sum_nil,
    Nat.add_zero, List.flatten_cons, List.flatten_nil, List.append_nil]

/-- Over whole blocks, what decrypts to a plaintext is that plaintext encrypted. -/
theorem TokenCrypto.Padded.unpadded_iff (hcrypto : crypto.Padded) {iv : TokenBlock}
    {ciphertext plaintext : List UInt8} (hblocks : ciphertext.length % blockLen = 0) :
    unpadded (crypto.decryptPadded key.encryptionKey iv ciphertext) = .ok plaintext ↔
      iv.toList ++ ciphertext = signedParts crypto key iv plaintext := by
  rw [signedParts, List.append_cancel_left_eq]
  constructor
  · intro h
    cases hdecrypt : crypto.decryptPadded key.encryptionKey iv ciphertext with
    | none =>
        rw [hdecrypt] at h
        cases h
    | some found =>
        rw [hdecrypt] at h
        cases h
        exact (hcrypto.encrypt_decrypt _ _ _ _ hblocks hdecrypt).symm
  · rintro rfl
    rw [hcrypto.decrypt_encrypt]
    rfl

/-- The bytes of a sealed token. -/
def sealedToken (crypto : TokenCrypto) (key : TokenKey) (iv : TokenBlock)
    (plaintext : List UInt8) : List UInt8 :=
  signedParts crypto key iv plaintext ++
    (crypto.hmacSha256 key.signingKey (signedParts crypto key iv plaintext)).toList

theorem length_sealedToken (hcrypto : crypto.Padded) (key : TokenKey) (iv : TokenBlock)
    (plaintext : List UInt8) :
    (sealedToken crypto key iv plaintext).length = sealedLen plaintext.length := by
  rw [sealedToken, List.length_append, length_signedParts hcrypto, List.Vector.toList_length]
  rfl

theorem tokenSeal_eq_some_iff {iv : TokenBlock} {plaintext token : List UInt8} {available : ℕ} :
    tokenSeal crypto key iv plaintext available = some token ↔
      sealedLen plaintext.length ≤ available ∧ sealedToken crypto key iv plaintext = token := by
  rw [tokenSeal_eq, sealedToken]
  by_cases hfits : available < sealedLen plaintext.length
  · rw [if_pos hfits]
    exact iff_of_false nofun fun h => absurd h.1 (Nat.not_le.2 hfits)
  · rw [if_neg hfits, Option.some.injEq]
    exact (and_iff_right (Nat.le_of_not_lt hfits)).symm

theorem length_sealedToken_sub (hcrypto : crypto.Padded) (key : TokenKey) (iv : TokenBlock)
    (plaintext : List UInt8) : (sealedToken crypto key iv plaintext).length - macLen =
      (signedParts crypto key iv plaintext).length := by
  rw [length_sealedToken hcrypto, length_signedParts hcrypto, sealedLen, Nat.add_sub_cancel]

/-- Cut before its tag, a token gives the part that is signed. -/
theorem take_signedParts (hcrypto : crypto.Padded) {iv : TokenBlock}
    {plaintext token : List UInt8} (h : sealedToken crypto key iv plaintext = token) :
    token.take (token.length - macLen) = signedParts crypto key iv plaintext := by
  subst h
  rw [length_sealedToken_sub hcrypto, sealedToken, List.take_left]

/-- A sealed token is long enough, cut where it was put together, and its blocks are whole. -/
structure WellCut (crypto : TokenCrypto) (key : TokenKey) (token : List UInt8) : Prop where
  long : ¬ token.length < ivLen + blockLen + macLen
  tag : (crypto.hmacSha256 key.signingKey (token.take (token.length - macLen))).toList =
    token.drop (token.length - macLen)
  whole : ((token.take (token.length - macLen)).drop ivLen).length % blockLen = 0

theorem wellCut_sealedToken (hcrypto : crypto.Padded) (key : TokenKey) (iv : TokenBlock)
    (plaintext : List UInt8) :
    WellCut crypto key (sealedToken crypto key iv plaintext) := by
  have hsealed := length_sealedToken hcrypto key iv plaintext
  have hcut := length_sealedToken_sub hcrypto key iv plaintext
  refine ⟨?_, ?_, ?_⟩
  · rw [hsealed, sealedLen]
    simp only [ivLen, blockLen, macLen]
    omega
  · rw [hcut, sealedToken, List.take_left, List.drop_left]
  · rw [hcut, sealedToken, List.take_left, List.length_drop, length_signedParts hcrypto,
      Nat.add_sub_cancel_left]
    exact Nat.mul_mod_left _ _

/-- Opening a token that is cut well is decrypting it. -/
theorem tokenOpenInPlace_of_wellCut {token : List UInt8} (h : WellCut crypto key token) :
    tokenOpenInPlace crypto key token = unpadded (crypto.decryptPadded key.encryptionKey
      (ivOf token h.long) ((token.take (token.length - macLen)).drop ivLen)) := by
  rw [tokenOpenInPlace, dif_neg h.long, if_neg (not_not.2 h.tag), if_neg (not_not.2 h.whole)]

theorem wellCut_of_open {token plaintext : List UInt8}
    (h : tokenOpenInPlace crypto key token = .ok plaintext) : WellCut crypto key token := by
  by_cases hlong : token.length < ivLen + blockLen + macLen
  · rw [tokenOpenInPlace, dif_pos hlong] at h
    cases h
  by_cases htag : (crypto.hmacSha256 key.signingKey (token.take (token.length - macLen))).toList =
      token.drop (token.length - macLen)
  · by_cases hwhole : ((token.take (token.length - macLen)).drop ivLen).length % blockLen = 0
    · exact ⟨hlong, htag, hwhole⟩
    · rw [tokenOpenInPlace, dif_neg hlong, if_neg (not_not.2 htag), if_pos hwhole] at h
      cases h
  · rw [tokenOpenInPlace, dif_neg hlong, if_pos htag] at h
    cases h

theorem WellCut.decrypt_iff (hcrypto : crypto.Padded) {token plaintext : List UInt8}
    (h : WellCut crypto key token) :
    unpadded (crypto.decryptPadded key.encryptionKey (ivOf token h.long)
        ((token.take (token.length - macLen)).drop ivLen)) = .ok plaintext ↔
      sealedToken crypto key (ivOf token h.long) plaintext = token := by
  have hiv : (ivOf token h.long).toList = (token.take (token.length - macLen)).take ivLen := rfl
  rw [hcrypto.unpadded_iff h.whole, hiv, List.take_append_drop]
  constructor
  · intro hsigned
    rw [sealedToken, ← hsigned, h.tag, List.take_append_drop]
  · exact take_signedParts hcrypto

theorem tokenOpenInPlace_sealedToken (hcrypto : crypto.Padded) (iv : TokenBlock)
    (plaintext : List UInt8) :
    tokenOpenInPlace crypto key (sealedToken crypto key iv plaintext) = .ok plaintext := by
  have hcut := wellCut_sealedToken hcrypto key iv plaintext
  have hiv : ivOf (sealedToken crypto key iv plaintext) hcut.long = iv := by
    apply List.Vector.eq
    change ((sealedToken crypto key iv plaintext).take _).take ivLen = iv.toList
    rw [take_signedParts hcrypto rfl, signedParts]
    exact List.take_left' iv.toList_length
  rw [tokenOpenInPlace_of_wellCut hcut, hcut.decrypt_iff hcrypto, hiv]

theorem sealedToken_of_open (hcrypto : crypto.Padded) {token plaintext : List UInt8}
    (h : tokenOpenInPlace crypto key token = .ok plaintext) :
    ∃ iv, sealedToken crypto key iv plaintext = token := by
  have hcut := wellCut_of_open h
  rw [tokenOpenInPlace_of_wellCut hcut] at h
  exact ⟨_, (hcut.decrypt_iff hcrypto).1 h⟩

/-- A token opens to a plaintext just when it is that plaintext sealed under the same key. -/
theorem tokenOpenInPlace_iff (crypto : TokenCrypto) (hcrypto : crypto.Padded) (key : TokenKey)
    (token plaintext : List UInt8) :
    tokenOpenInPlace crypto key token = .ok plaintext ↔
      ∃ iv, tokenSeal crypto key iv plaintext token.length = some token := by
  constructor
  · intro h
    obtain ⟨iv, htoken⟩ := sealedToken_of_open hcrypto h
    refine ⟨iv, tokenSeal_eq_some_iff.2 ⟨?_, htoken⟩⟩
    rw [← htoken, length_sealedToken hcrypto]
  · rintro ⟨iv, h⟩
    obtain ⟨-, rfl⟩ := tokenSeal_eq_some_iff.1 h
    exact tokenOpenInPlace_sealedToken hcrypto iv plaintext

/-! ### A cipher that only pads -/

/-- As many bytes as are missing to a whole block, each saying how many. -/
def pkcs7 (plaintext : List UInt8) : List UInt8 :=
  let missing := blockLen - plaintext.length % blockLen
  plaintext ++ List.replicate missing (UInt8.ofNat missing)

/-- The last byte says where the padding starts; that it is padding is checked. -/
def unPkcs7 (text : List UInt8) : Option (List UInt8) :=
  let plaintext := text.take (text.length - (text.getLastD 0).toNat)
  if pkcs7 plaintext = text then some plaintext else none

/-- Each byte under the byte of the mask at its place in the block. -/
def maskBlocks (mask : TokenBlock) (text : List UInt8) : List UInt8 :=
  text.mapIdx fun i byte => byte ^^^ mask.toList.getD (i % blockLen) 0

/-- Padding under a mask, and a tag that is the same for all. -/
def TokenCrypto.masked (mask : TokenBlock) (tag : Tag) : TokenCrypto where
  hmacSha256 _ _ := tag
  encryptPadded _ _ plaintext := maskBlocks mask (pkcs7 plaintext)
  decryptPadded _ _ ciphertext := unPkcs7 (maskBlocks mask ciphertext)

theorem unPkcs7_pkcs7 (plaintext : List UInt8) : unPkcs7 (pkcs7 plaintext) = some plaintext := by
  have hmod : plaintext.length % blockLen < 16 := Nat.mod_lt _ (by decide)
  have hmissing : blockLen - plaintext.length % blockLen ≠ 0 := by
    simp only [blockLen] at hmod ⊢
    omega
  have hlast : ((pkcs7 plaintext).getLastD 0).toNat = blockLen - plaintext.length % blockLen := by
    rw [pkcs7, List.getLastD_eq_getLast?, List.getLast?_append, List.getLast?_replicate,
      if_neg hmissing, Option.some_or, Option.getD_some, UInt8.toNat_ofNat']
    exact Nat.mod_eq_of_lt (by simp only [blockLen]; omega)
  have hcut : (pkcs7 plaintext).take ((pkcs7 plaintext).length -
      ((pkcs7 plaintext).getLastD 0).toNat) = plaintext := by
    rw [hlast, pkcs7, List.length_append, List.length_replicate, Nat.add_sub_cancel, List.take_left]
  rw [unPkcs7, hcut, if_pos rfl]

theorem maskBlocks_maskBlocks (mask : TokenBlock) (text : List UInt8) :
    maskBlocks mask (maskBlocks mask text) = text := by
  refine List.ext_getElem (by simp [maskBlocks]) fun i _ _ => ?_
  simp [maskBlocks, UInt8.xor_assoc]

theorem padded_masked (mask : TokenBlock) (tag : Tag) : (TokenCrypto.masked mask tag).Padded where
  length_encrypt _ _ plaintext := by
    have hmod : plaintext.length % 16 < 16 := Nat.mod_lt _ (by decide)
    simp only [TokenCrypto.masked, maskBlocks, pkcs7, List.length_mapIdx, List.length_append,
      List.length_replicate, blockLen]
    omega
  decrypt_encrypt _ _ plaintext := by
    show unPkcs7 (maskBlocks mask (maskBlocks mask (pkcs7 plaintext))) = some plaintext
    rw [maskBlocks_maskBlocks, unPkcs7_pkcs7]
  encrypt_decrypt _ _ ciphertext plaintext _ h := by
    obtain ⟨hpad, hfound⟩ := Option.ite_none_right_eq_some.1 h
    cases hfound
    show maskBlocks mask (pkcs7 _) = ciphertext
    rw [hpad, maskBlocks_maskBlocks]

/-- What AES-128-CBC and HMAC-SHA256 do with the key, the IV and the text of the next theorem. -/
def TokenCrypto.sample : TokenCrypto :=
  .masked ⟨[0xE6, 0x4B, 0x2E, 0x0E, 0x73, 0xFC, 0x82, 0xF0, 0xF8, 0x78, 0x9C, 0xE9, 0x9E, 0x2C, 0x09,
      0x71], rfl⟩
    ⟨[0x75, 0xDF, 0xF2, 0xC8, 0x3E, 0x1C, 0xC3, 0x6D, 0x3B, 0xC7, 0x3F, 0xC1, 0x3F, 0xBE, 0xF8, 0x01,
      0xA5, 0xB6, 0x50, 0x67, 0x46, 0x98, 0x27, 0x59, 0x70, 0xB0, 0x74, 0xD6, 0x3C, 0xC1, 0x70,
      0xCA], rfl⟩

/-- Three bytes are sealed under a zero IV, and opened. -/
theorem exists_token_opened :
    tokenOpenInPlace .sample (.aes128 (.replicate 16 1) (.replicate 16 2))
      (List.replicate 16 0 ++
        [0xE1, 0x43, 0x27, 0x03, 0x7E, 0xF1, 0x8F, 0xFD, 0xF5, 0x75, 0x91, 0xE4, 0x93, 0x21, 0x04,
          0x7C] ++
        [0x75, 0xDF, 0xF2, 0xC8, 0x3E, 0x1C, 0xC3, 0x6D, 0x3B, 0xC7, 0x3F, 0xC1, 0x3F, 0xBE, 0xF8,
          0x01, 0xA5, 0xB6, 0x50, 0x67, 0x46, 0x98, 0x27, 0x59, 0x70, 0xB0, 0x74, 0xD6, 0x3C, 0xC1,
          0x70, 0xCA]) = .ok [7, 8, 9] := by
  refine (tokenOpenInPlace_iff .sample (padded_masked _ _) _ _ [7, 8, 9]).2 ?_
  exact ⟨List.Vector.replicate blockLen 0, tokenSeal_eq_some_iff.2 ⟨by decide, by decide⟩⟩

/-- With room for the ciphertext, opening into a buffer is opening in place, and errs alike. -/
theorem tokenOpen_eq {token : List UInt8} {available : ℕ}
    (h : token.length - tokenOverhead ≤ available) :
    tokenOpen crypto key token available = tokenOpenInPlace crypto key token := by
  have hlen : ((token.take (token.length - macLen)).drop ivLen).length =
      token.length - tokenOverhead := by
    rw [List.length_drop, List.length_take, tokenOverhead]
    omega
  have hfits : ¬ available < ((token.take (token.length - macLen)).drop ivLen).length := by
    rw [hlen]
    exact Nat.not_lt.2 h
  simp only [tokenOpen, tokenOpenInPlace, if_neg hfits]

end

end Wire
end SvenBridge
