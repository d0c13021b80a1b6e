import SvenBridge.Query.Decode

/-!
# Query.Legacy — the obsolete answer and how it is read

The layout of an `m` answer, which has no version byte after its strings, against a reader that
takes one.  This file contains

* `LegacyInfo` — the answer, with or without a block about the mod;
* `parseInfo_legacy_iff` — the answers that are read as they were meant.
-/

namespace SvenBridge
namespace A2s

open Lib Reader

/-! ## The layout -/

structure ModBlock where
  link : CString
  downloadLink : CString
  version : BitVec 32
  size : BitVec 32
  type : UInt8
  dll : UInt8

def ModBlock.encode (m : ModBlock) : List UInt8 :=
  m.link.encode ++ m.downloadLink.encode ++ [0] ++ le32 m.version ++ le32 m.size ++
    [m.type, m.dll]

/-- An answer of an old server. -/
structure LegacyInfo where
  address : CString
  serverName : CString
  map : CString
  folder : CString
  game : CString
  players : UInt8
  maxPlayers : UInt8
  protocol : UInt8
  serverType : UInt8
  environment : UInt8
  visibility : UInt8
  mod : Option ModBlock
  vac : UInt8
  bots : UInt8

namespace LegacyInfo

/-- The flag of the mod block, and the block. -/
def encodeMod (r : LegacyInfo) : List UInt8 :=
  match r.mod with
  | some m => 1 :: m.encode
  | none => [0]

def encode (r : LegacyInfo) : List UInt8 :=
  header ++ ['m'.toUInt8] ++ r.address.encode ++ r.serverName.encode ++ r.map.encode ++
    r.folder.encode ++ r.game.encode ++
    [r.players, r.maxPlayers, r.protocol, r.serverType, r.environment, r.visibility] ++
    r.encodeMod ++ [r.vac, r.bots]

/-- The fields as they were meant. -/
def info (r : LegacyInfo) : A2sInfo where
  serverName := r.serverName.text
  map := r.map.text
  gameDir := r.folder.text
  gameDescription := r.game.text
  players := r.players
  maxPlayers := r.maxPlayers
  bots := r.bots
  serverType := decodeServerType r.serverType
  environment := decodeEnvironment r.environment
  passwordProtected := r.visibility != 0
  vacSecured := r.vac != 0
  version := ""

end LegacyInfo

/-! ## Bytes under a word -/

theorem toDigits_byte {n : ℕ} (hn : n < 256) :
    Nat.toDigits 16 n =
      if n < 16 then [Nat.digitChar n] else [Nat.digitChar (n / 16), Nat.digitChar (n % 16)] := by
  split
  · rename_i hlt
    exact Nat.toDigits_of_lt_base hlt
  · rename_i hge
    -- two digits: the quotient is a digit already
    have hhigh : n / 16 < 16 := by omega
    rw [Nat.toDigits_of_base_le (by decide) (by omega), Nat.toDigits_of_lt_base hhigh]
    rfl

theorem hexByte_inj {a b : UInt8} (h : hexByte a = hexByte b) : a = b := by
  have hdigit : ∀ m < 16, ∀ n < 16, Nat.digitChar m = Nat.digitChar n → m = n := by decide
  have hlist := congrArg String.toList h
  simp only [hexByte, String.toList_append, String.toList_ofList, List.append_cancel_left_eq] at hlist
  rw [toDigits_byte a.toNat_lt, toDigits_byte b.toNat_lt] at hlist
  have ha := a.toNat_lt
  have hb := b.toNat_lt
  -- one digit or two on either side; the lengths must match
  apply UInt8.toNat_inj.1
  split at hlist <;> split at hlist
  · exact hdigit _ (by omega) _ (by omega) (List.cons.inj hlist).1
  · simp at hlist
  · simp at hlist
  · simp only [List.cons.injEq, and_true] at hlist
    have hhigh := hdigit _ (by omega) _ (by omega) hlist.1
    have hlow := hdigit _ (by omega) _ (by omega) hlist.2
    omega

/-- Only a byte without a word is spelled in digits. -/
theorem hexByte_ne {b : UInt8} {word : String} (hword : word.toList.head? ≠ some '0') :
    hexByte b ≠ word := by
  rintro rfl
  simp [hexByte] at hword

theorem decodeServerType_cases (b : UInt8) :
    b = 'd'.toUInt8 ∧ decodeServerType b = "dedicated" ∨
    b = 'l'.toUInt8 ∧ decodeServerType b = "listen" ∨
    b = 'p'.toUInt8 ∧ decodeServerType b = "proxy" ∨ decodeServerType b = hexByte b := by
  rw [decodeServerType]
  split
  · exact .inl ⟨‹_›, rfl⟩
  split
  · exact .inr (.inl ⟨‹_›, rfl⟩)
  split
  · exact .inr (.inr (.inl ⟨‹_›, rfl⟩))
  · exact .inr (.inr (.inr rfl))

theorem decodeServerType_inj {a b : UInt8} (h : decodeServerType a = decodeServerType b) :
    a = b := by
  -- a word against a word, digits against digits; a word is never digits
  rcases decodeServerType_cases a with ⟨ha, hwa⟩ | ⟨ha, hwa⟩ | ⟨ha, hwa⟩ | hwa <;>
    rcases decodeServerType_cases b with ⟨hb, hwb⟩ | ⟨hb, hwb⟩ | ⟨hb, hwb⟩ | hwb <;>
    rw [hwa, hwb] at h <;>
    first
    | exact ha.trans hb.symm
    | exact hexByte_inj h
    | exact absurd h (hexByte_ne (by decide))
    | exact absurd h.symm (hexByte_ne (by decide))
    | exact absurd h (by decide)

theorem decodeEnvironment_cases (b : UInt8) :
    b = 'l'.toUInt8 ∧ decodeEnvironment b = "linux" ∨
    b = 'w'.toUInt8 ∧ decodeEnvironment b = "windows" ∨
    (b = 'm'.toUInt8 ∨ b = 'o'.toUInt8) ∧ decodeEnvironment b = "mac" ∨
    decodeEnvironment b = hexByte b := by
  rw [decodeEnvironment]
  split
  · exact .inl ⟨‹_›, rfl⟩
  split
  · exact .inr (.inl ⟨‹_›, rfl⟩)
  split
  · exact .inr (.inr (.inl ⟨‹_›, rfl⟩))
  · exact .inr (.inr (.inr rfl))

theorem decodeEnvironment_eq_iff {a b : UInt8} :
    decodeEnvironment a = decodeEnvironment b ↔
      a = b ∨ (a = 'm'.toUInt8 ∨ a = 'o'.toUInt8) ∧ (b = 'm'.toUInt8 ∨ b = 'o'.toUInt8) := by
  constructor
  -- the only two bytes that share a word are those of a Mac
  · intro h
    rcases decodeEnvironment_cases a with ⟨ha, hwa⟩ | ⟨ha, hwa⟩ | ⟨ha, hwa⟩ | hwa <;>
      rcases decodeEnvironment_cases b with ⟨hb, hwb⟩ | ⟨hb, hwb⟩ | ⟨hb, hwb⟩ | hwb <;>
      rw [hwa, hwb] at h <;>
      first
      | exact .inr ⟨ha, hb⟩
      | exact .inl (ha.trans hb.symm)
      | exact .inl (hexByte_inj h)
      | exact absurd h (hexByte_ne (by decide))
      | exact absurd h.symm (hexByte_ne (by decide))
      | exact absurd h (by decide)
  · rintro (rfl | ⟨rfl | rfl, rfl | rfl⟩) <;> rfl

/-! ## What is read -/

theorem reads_mod (link dl : List UInt8) (hlink : ∀ b ∈ link, (b == 0) = false)
    (hdl : ∀ b ∈ dl, (b == 0) = false) (nul : UInt8) (version size : BitVec 32)
    (type dll : UInt8) : Reads readMod
      ((link ++ [0]) ++ ((dl ++ [0]) ++ (nul :: (le32 version ++ (le32 size ++ [type, dll])))))
      () := by
  have hread : Reads readMod ((link ++ [0]) ++ ((dl ++ [0]) ++ ([nul] ++ (le32 version ++
      (le32 size ++ ([type] ++ ([dll] ++ []))))))) () := by
    apply (reads_rawCstring hlink).bind
    apply (reads_rawCstring hdl).bind
    apply (reads_u8 nul).bind
    apply (reads_i32le_bytes ..).bind
    apply (reads_i32le_bytes ..).bind
    apply (reads_u8 type).bind
    exact (reads_u8 dll).bind (.pure ())
  exact hread

/-- The bytes after the strings of an answer, under the names that the reader has for them. -/
structure LegacyTail where
  version : UInt8
  players : UInt8
  maxPlayers : UInt8
  protocol : UInt8
  serverType : UInt8
  environment : UInt8
  password : UInt8
  isMod : UInt8
  modBlock : List UInt8
  vac : UInt8
  bots : UInt8

def LegacyTail.encode (t : LegacyTail) : List UInt8 :=
  t.version :: t.players :: t.maxPlayers :: t.protocol :: t.serverType :: t.environment ::
    t.password :: t.isMod :: (t.modBlock ++ [t.vac, t.bots])

def LegacyInfo.read (r : LegacyInfo) (t : LegacyTail) : A2sInfo where
  serverName := r.serverName.text
  map := r.map.text
  gameDir := r.folder.text
  gameDescription := r.game.text
  players := t.players
  maxPlayers := t.maxPlayers
  bots := t.bots
  serverType := decodeServerType t.serverType
  environment := decodeEnvironment t.environment
  passwordProtected := t.password != 0
  vacSecured := t.vac != 0
  version := ""

def LegacyInfo.strings (r : LegacyInfo) (tail : List UInt8) : List UInt8 :=
  r.address.encode ++ (r.serverName.encode ++ (r.map.encode ++ (r.folder.encode ++
    (r.game.encode ++ tail))))

theorem reads_legacy (r : LegacyInfo) {t : LegacyTail}
    (hmod : t.isMod ≠ 0 → Reads readMod t.modBlock ()) (hnone : t.isMod = 0 → t.modBlock = []) :
    Reads readInfo ('m'.toUInt8 :: r.strings t.encode) (r.read t) := by
  have hlegacy : Reads readLegacy (r.address.encode ++ (r.serverName.encode ++ (r.map.encode ++
      (r.folder.encode ++ (r.game.encode ++ ([t.version] ++ ([t.players] ++ ([t.maxPlayers] ++
        ([t.protocol] ++ ([t.serverType] ++ ([t.environment] ++ ([t.password] ++ ([t.isMod] ++
          (t.modBlock ++ ([t.vac] ++ ([t.bots] ++ [])))))))))))))))) (r.read t) := by
    apply (reads_cstring r.address).bind
    apply (reads_cstring r.serverName).bind
    apply (reads_cstring r.map).bind
    apply (reads_cstring r.folder).bind
    apply (reads_cstring r.game).bind
    apply (reads_u8 t.version).bind
    apply (reads_u8 t.players).bind
    apply (reads_u8 t.maxPlayers).bind
    apply (reads_u8 t.protocol).bind
    apply (reads_u8 t.serverType).bind
    apply (reads_u8 t.environment).bind
    apply (reads_u8 t.password).bind
    apply (reads_u8 t.isMod).bind
    -- the flag decides whether a block is read
    by_cases hzero : t.isMod = 0
    · rw [hnone hzero, if_neg (by simpa using hzero)]
      apply (reads_u8 t.vac).bind
      apply (reads_u8 t.bots).bind
      exact .pure (r.read t)
    · rw [if_pos (by simpa using hzero)]
      apply (hmod hzero).bind
      apply (reads_u8 t.vac).bind
      apply (reads_u8 t.bots).bind
      exact .pure (r.read t)
  exact (reads_u8 'm'.toUInt8).bind hlegacy

/-- The bytes after the strings, read one place too far to the left. -/
def LegacyInfo.shifted (r : LegacyInfo) (flag isMod : UInt8) (modBlock : List UInt8)
    (vac bots : UInt8) : LegacyTail where
  version := r.players
  players := r.maxPlayers
  maxPlayers := r.protocol
  protocol := r.serverType
  serverType := r.environment
  environment := r.visibility
  password := flag
  isMod := isMod
  modBlock := modBlock
  vac := vac
  bots := bots

theorem LegacyInfo.encode_eq (r : LegacyInfo) : r.encode = header ++ ('m'.toUInt8 ::
    r.strings (r.players :: r.maxPlayers :: r.protocol :: r.serverType :: r.environment ::
      r.visibility :: (r.encodeMod ++ [r.vac, r.bots]))) := by
  simp [LegacyInfo.encode, LegacyInfo.strings]

theorem LegacyInfo.strings_append (r : LegacyInfo) (tail rest : List UInt8) :
    r.strings tail ++ rest = r.strings (tail ++ rest) := by
  simp [LegacyInfo.strings]

theorem LegacyInfo.two_le_length (r : LegacyInfo) (t : LegacyTail) :
    2 ≤ ('m'.toUInt8 :: r.strings t.encode).length := by
  simp only [LegacyInfo.strings, LegacyTail.encode, List.length_append, List.length_cons]
  omega

/-- An answer that starts with what is read as `t` is read as `t`. -/
theorem parseInfo_shifted {r : LegacyInfo} {t : LegacyTail} (rest : List UInt8)
    (hmod : t.isMod ≠ 0 → Reads readMod t.modBlock ()) (hnone : t.isMod = 0 → t.modBlock = [])
    (hencode : r.encode = header ++ ('m'.toUInt8 :: r.strings (t.encode ++ rest))) :
    parseInfo r.encode = .ok (r.read t) := by
  have hparse := (parseInfo_of_reads (reads_legacy r hmod hnone) (r.two_le_length t)).1 rest
  rw [hencode, ← r.strings_append]
  simpa using hparse

/-- Any byte can start a block about the mod. -/
theorem exists_modBlock (b : UInt8) : ∃ more, Reads readMod (b :: more) () := by
  by_cases hb : b = 0
  · subst hb
    exact ⟨_, reads_mod [] [] nofun nofun 0 0 0 0 0⟩
  · have hlink : ∀ w ∈ [b], (w == 0) = false := by simpa using hb
    exact ⟨_, reads_mod [b] [] hlink nofun 0 0 0 0 0⟩

/-- Without a mod block the bytes run out. -/
theorem parseInfo_legacy_none {r : LegacyInfo} (hnone : r.mod = none) :
    ∃ message, parseInfo r.encode = .error (.error message) := by
  have hflag : r.encodeMod = [0] := by rw [LegacyInfo.encodeMod, hnone]
  -- the answer is a proper part of a longer one
  obtain ⟨t, rest, hmod, hblock, hencode, hrest⟩ : ∃ (t : LegacyTail) (rest : List UInt8),
      (t.isMod ≠ 0 → Reads readMod t.modBlock ()) ∧ (t.isMod = 0 → t.modBlock = []) ∧
      t.encode = r.players :: r.maxPlayers :: r.protocol :: r.serverType :: r.environment ::
        r.visibility :: (r.encodeMod ++ [r.vac, r.bots]) ++ rest ∧ rest ≠ [] := by
    -- the reader takes the VAC byte for the flag of the block
    by_cases hvac : r.vac = 0
    -- no block: the byte for the bots is missing
    · refine ⟨r.shifted 0 r.vac [] r.bots 0, [0], fun h => absurd hvac h, fun _ => rfl, ?_,
        List.cons_ne_nil _ _⟩
      simp [LegacyTail.encode, LegacyInfo.shifted, hflag]
    -- a block starts with the last byte there is, and is never finished
    · obtain ⟨more, hmore⟩ := exists_modBlock r.bots
      refine ⟨r.shifted 0 r.vac (r.bots :: more) 0 0, more ++ [0, 0], fun _ => hmore,
        fun h => absurd h hvac, ?_, by simp⟩
      simp [LegacyTail.encode, LegacyInfo.shifted, hflag]
  have hlong : header ++ ('m'.toUInt8 :: r.strings t.encode) = r.encode ++ rest := by
    rw [hencode, r.encode_eq, ← r.strings_append]
    simp
  apply (parseInfo_of_reads (reads_legacy r hmod hblock) (r.two_le_length t)).2
  · exact ⟨rest, hlong.symm⟩
  · intro heq
    rw [heq] at hlong
    exact hrest (by simpa using hlong)

/-- A mod block with a link is skipped with the wrong bytes and the right length. -/
theorem parseInfo_legacy_link {r : LegacyInfo} {m : ModBlock} (hr : r.mod = some m) {b : UInt8}
    {link : List UInt8} (hlink : m.link.text.toUTF8.toList = b :: link) :
    parseInfo r.encode = .ok (r.read (r.shifted 1 b (link ++ [0] ++ (m.downloadLink.encode ++
      (0 :: (le32 m.version ++ (le32 m.size ++ [m.type, m.dll]))))) r.vac r.bots)) := by
  have hnonzero := m.link.bytes_ne_zero
  rw [hlink] at hnonzero
  have hb : b ≠ 0 := by simpa using hnonzero b List.mem_cons_self
  -- the first byte of the link is the flag, the rest of it the block's first string
  apply parseInfo_shifted []
  · intro _
    exact reads_mod _ _ (fun w hw => hnonzero w (List.mem_cons_of_mem b hw))
      m.downloadLink.bytes_ne_zero 0 m.version m.size m.type m.dll
  · intro hzero
    exact absurd hzero hb
  · have hencode : m.link.encode = b :: (link ++ [0]) := by rw [CString.encode, hlink]; rfl
    rw [r.encode_eq, LegacyInfo.encodeMod, hr]
    simp [LegacyTail.encode, LegacyInfo.shifted, ModBlock.encode, hencode]

/-- A mod block without a link is not seen as one. -/
theorem parseInfo_legacy_noLink {r : LegacyInfo} {m : ModBlock} (hr : r.mod = some m)
    (hlink : m.link.text = "") {b0 b1 : UInt8} {rest : List UInt8}
    (hafter : m.downloadLink.encode ++ [0] = b0 :: b1 :: rest) :
    parseInfo r.encode = .ok (r.read (r.shifted 1 0 [] b0 b1)) := by
  have hencode : m.link.encode = [0] := by
    rw [CString.encode, Utf8.toUTF8_toList, hlink]
    rfl
  -- the NUL of the empty link is the flag, and the block is what nobody reads
  apply parseInfo_shifted (rest ++ (le32 m.version ++ (le32 m.size ++
    [m.type, m.dll, r.vac, r.bots])))
  · intro hne
    exact absurd rfl hne
  · intro _
    rfl
  · rw [r.encode_eq, LegacyInfo.encodeMod, hr]
    have hblock : m.encode = 0 :: b0 :: b1 :: (rest ++ (le32 m.version ++ (le32 m.size ++
        [m.type, m.dll]))) := by
      rw [ModBlock.encode, hencode, List.append_assoc [0], hafter]
      simp
    simp [LegacyTail.encode, LegacyInfo.shifted, hblock]

/-! ## The answers that come back -/

/-- The bytes stand where the reader, one place too far, expects others: each must be equal to the
one after it, and without a link the bytes after it must agree with the last two. -/
def LegacyInfo.Fits (r : LegacyInfo) : Prop :=
  ∃ m, r.mod = some m ∧ r.maxPlayers = r.players ∧ r.protocol = r.maxPlayers ∧
    r.environment = r.serverType ∧
    (r.visibility = r.environment ∨ (r.visibility = 'm'.toUInt8 ∨ r.visibility = 'o'.toUInt8) ∧
      (r.environment = 'm'.toUInt8 ∨ r.environment = 'o'.toUInt8)) ∧
    r.visibility ≠ 0 ∧
    (m.link.text = "" → ∃ b0 rest, m.downloadLink.encode ++ [0] = b0 :: r.bots :: rest ∧
      (b0 = 0 ↔ r.vac = 0))

theorem LegacyInfo.read_shifted_eq_iff (r : LegacyInfo) (isMod : UInt8) (modBlock : List UInt8)
    (vac bots : UInt8) :
    r.read (r.shifted 1 isMod modBlock vac bots) = r.info ↔
      r.maxPlayers = r.players ∧ r.protocol = r.maxPlayers ∧ r.environment = r.serverType ∧
        (r.visibility = r.environment ∨ (r.visibility = 'm'.toUInt8 ∨ r.visibility = 'o'.toUInt8) ∧
          (r.environment = 'm'.toUInt8 ∨ r.environment = 'o'.toUInt8)) ∧
        r.visibility ≠ 0 ∧ bots = r.bots ∧ (vac = 0 ↔ r.vac = 0) := by
  have htype : decodeServerType r.environment = decodeServerType r.serverType ↔
      r.environment = r.serverType :=
    ⟨decodeServerType_inj, fun h => by rw [h]⟩
  have hvac : ((vac != 0) = (r.vac != 0)) ↔ (vac = 0 ↔ r.vac = 0) := by
    rw [Bool.eq_iff_iff, bne_iff_ne, bne_iff_ne, not_iff_not]
  -- the flag of the mod block is read as the password byte: always set
  have hpassword : ((1 : UInt8) != 0) = (r.visibility != 0) ↔ r.visibility ≠ 0 := by
    rw [Bool.eq_iff_iff, bne_iff_ne, bne_iff_ne]
    simp
  simp only [LegacyInfo.read, LegacyInfo.shifted, LegacyInfo.info, A2sInfo.mk.injEq, true_and,
    and_true, htype, hvac, hpassword, decodeEnvironment_eq_iff]
  constructor
  · rintro ⟨hmax, hprotocol, hbots, htype, henv, hvis, hvac⟩
    exact ⟨hmax, hprotocol, htype, henv, hvis, hbots, hvac⟩
  · rintro ⟨hmax, hprotocol, htype, henv, hvis, hbots, hvac⟩
    exact ⟨hmax, hprotocol, hbots, htype, henv, hvis, hvac⟩

/-- An old answer comes back as it was meant exactly when its bytes agree with their
neighbours. -/
theorem parseInfo_legacy_iff (r : LegacyInfo) : parseInfo r.encode = .ok r.info ↔ r.Fits := by
  cases hr : r.mod with
  | none =>
      obtain ⟨message, herror⟩ := parseInfo_legacy_none hr
      constructor
      · intro h
        rw [herror] at h
        cases h
      · rintro ⟨m, hm, -⟩
        rw [hr] at hm
        cases hm
  | some m =>
      by_cases hlink : m.link.text = ""
      -- the two bytes that are read as VAC and bots come from the download link
      · obtain ⟨b0, b1, rest, hafter⟩ : ∃ b0 b1 rest,
            m.downloadLink.encode ++ [0] = b0 :: b1 :: rest := by
          rw [CString.encode]
          rcases m.downloadLink.text.toUTF8.toList with _ | ⟨b0, _ | ⟨b1, rest⟩⟩
          · exact ⟨0, 0, [], rfl⟩
          · exact ⟨b0, 0, [0], rfl⟩
          · exact ⟨b0, b1, rest ++ [0] ++ [0], rfl⟩
        rw [parseInfo_legacy_noLink hr hlink hafter, Except.ok.injEq, r.read_shifted_eq_iff]
        constructor
        · rintro ⟨hmax, hprotocol, htype, henv, hvis, hbots, hvac⟩
          refine ⟨m, hr, hmax, hprotocol, htype, henv, hvis, fun _ => ⟨b0, rest, ?_, hvac⟩⟩
          rw [hafter, hbots]
        · rintro ⟨m', hm', hmax, hprotocol, htype, henv, hvis, hrest⟩
          rw [hr] at hm'
          cases hm'
          obtain ⟨b0', rest', hafter', hvac⟩ := hrest hlink
          rw [hafter] at hafter'
          obtain ⟨hb0, hbots, -⟩ := by simpa only [List.cons.injEq] using hafter'
          rw [← hb0] at hvac
          exact ⟨hmax, hprotocol, htype, henv, hvis, hbots, hvac⟩
      · obtain ⟨b, link, hbytes⟩ : ∃ b link, m.link.text.toUTF8.toList = b :: link := by
          -- a text without bytes is empty
          apply List.exists_cons_of_ne_nil
          intro hnil
          apply hlink
          have htext := m.link.fromUtf8Lossy_bytes
          rw [hnil] at htext
          exact htext.symm.trans rfl
        rw [parseInfo_legacy_link hr hbytes, Except.ok.injEq, r.read_shifted_eq_iff]
        constructor
        · rintro ⟨hmax, hprotocol, htype, henv, hvis, -, -⟩
          exact ⟨m, hr, hmax, hprotocol, htype, henv, hvis, fun h => absurd h hlink⟩
        · rintro ⟨m', -, hmax, hprotocol, htype, henv, hvis, -⟩
          exact ⟨hmax, hprotocol, htype, henv, hvis, rfl, Iff.rfl⟩

/-- The answer of a server without a mod: two of sixteen players, a dedicated server on Linux. -/
def plainServer : LegacyInfo where
  address := ⟨"10.0.0.2:27015", by decide⟩
  serverName := ⟨"Bridge", by decide⟩
  map := ⟨"svencoop1", by decide⟩
  folder := ⟨"svencoop", by decide⟩
  game := ⟨"Sven Co-op", by decide⟩
  players := 2
  maxPlayers := 16
  protocol := 48
  serverType := 'd'.toUInt8
  environment := 'l'.toUInt8
  visibility := 0
  mod := none
  vac := 0
  bots := 0

theorem plainServer_refused : parseInfo plainServer.encode ≠ .ok plainServer.info := by
  obtain ⟨message, herror⟩ := parseInfo_legacy_none (r := plainServer) rfl
  rw [herror]
  nofun

end A2s
end SvenBridge
