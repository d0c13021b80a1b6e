import SvenBridge.Query.A2s

/-!
# Query.Decode — encoded answers are read back

The layouts of the query protocol, and that the parsers read them: every field comes back, and an
answer that is cut short is refused.  This file contains

* `CString`, `le16` and `le32` — the fields as they are encoded;
* `ModernInfo` and `parseInfo_modern` — the layout of an `I` answer;
* `Player`, `RawPlayer` and `parsePlayers_encode` — the layout of a `D` answer.
-/

namespace SvenBridge
namespace A2s

open Lib Reader

/-! ## Fields -/

/-- A text that can be ended with a NUL. -/
structure CString where
  text : String
  noNul : Char.ofNat 0 ∉ text.toList

def CString.encode (s : CString) : List UInt8 :=
  s.text.toUTF8.toList ++ [0]

def le16 (v : BitVec 16) : List UInt8 :=
  [⟨v.extractLsb' 0 8⟩, ⟨v.extractLsb' 8 8⟩]

def le32 (v : BitVec 32) : List UInt8 :=
  [⟨v.extractLsb' 0 8⟩, ⟨v.extractLsb' 8 8⟩, ⟨v.extractLsb' 16 8⟩, ⟨v.extractLsb' 24 8⟩]

theorem reads_u8 (b : UInt8) : Reads readU8 [b] b :=
  .one endOfResponse b

theorem reads_i16le (v : BitVec 16) : Reads readI16le (le16 v) v := by
  have hjoin : v.extractLsb' 8 8 ++ v.extractLsb' 0 8 = v := by
    -- bit by bit: the low eight come from the second operand
    apply BitVec.eq_of_getLsbD_eq
    intro i hi
    simp only [BitVec.getLsbD_append, BitVec.getLsbD_extractLsb']
    by_cases h8 : i < 8
    · simp [h8]
    · have hlast : i - 8 < 8 := by omega
      have hindex : 8 + (i - 8) = i := by omega
      simp [h8, hlast, hindex]
  have hreads : Reads readI16le (le16 v) (v.extractLsb' 8 8 ++ v.extractLsb' 0 8) :=
    (reads_u8 _).bind ((reads_u8 _).bind (.pure _))
  rwa [hjoin] at hreads

theorem reads_i32le_bytes (b0 b1 b2 b3 : UInt8) : Reads readI32le [b0, b1, b2, b3]
    (b3.toBitVec ++ b2.toBitVec ++ b1.toBitVec ++ b0.toBitVec) :=
  (reads_u8 _).bind ((reads_u8 _).bind ((reads_u8 _).bind ((reads_u8 _).bind (.pure _))))

theorem join32 (v : BitVec 32) : v.extractLsb' 24 8 ++ v.extractLsb' 16 8 ++
    v.extractLsb' 8 8 ++ v.extractLsb' 0 8 = v := by
  apply BitVec.eq_of_getLsbD_eq
  intro i hi
  simp only [BitVec.getLsbD_append, BitVec.getLsbD_extractLsb']
  by_cases h8 : i < 8
  · simp [h8]
  by_cases h16 : i - 8 < 8
  · have hindex : 8 + (i - 8) = i := by omega
    simp [h8, h16, hindex]
  by_cases h24 : i - 8 - 8 < 8
  · have hindex : 16 + (i - 8 - 8) = i := by omega
    simp [h8, h16, h24, hindex]
  · have hlast : i - 8 - 8 - 8 < 8 := by omega
    have hindex : 24 + (i - 8 - 8 - 8) = i := by omega
    simp [h8, h16, h24, hlast, hindex]

/-- Only NUL is encoded with a zero byte. -/
theorem CString.bytes_ne_zero (s : CString) : ∀ b ∈ s.text.toUTF8.toList, (b == 0) = false := by
  intro b hb
  rw [beq_eq_false_iff_ne]
  rintro rfl
  exact s.noNul ((Utf8.mem_toUTF8_iff (by decide)).1 hb)

/-- A run of bytes without a NUL, and a NUL. -/
theorem reads_rawCstring {bytes : List UInt8} (hbytes : ∀ b ∈ bytes, (b == 0) = false) :
    Reads readCstring (bytes ++ [0]) (fromUtf8Lossy bytes) :=
  (Reads.until_stop endOfResponse hbytes rfl).map

theorem CString.fromUtf8Lossy_bytes (s : CString) :
    fromUtf8Lossy s.text.toUTF8.toList = s.text := by
  rw [fromUtf8Lossy, Utf8.decodeLossy_bytes, String.ofList_toList]

theorem reads_cstring (s : CString) : Reads readCstring s.encode s.text := by
  have hread := reads_rawCstring s.bytes_ne_zero
  rwa [s.fromUtf8Lossy_bytes] at hread

/-! ## Whole answers -/

theorem slice_of_le {bytes : List UInt8} {j : ℕ} (hj : j ≤ bytes.length) :
    slice bytes 0 j = .ok (bytes.take j) :=
  if_pos ⟨Nat.zero_le j, hj⟩

theorem sliceFrom_of_le {bytes : List UInt8} {i : ℕ} (hi : i ≤ bytes.length) :
    sliceFrom bytes i = .ok (bytes.drop i) := by
  rw [sliceFrom, slice, if_pos ⟨hi, Nat.le_refl _⟩, List.take_length]

/-- The slices of `parse_info` are within the answer. -/
theorem parseInfo_eq (resp : List UInt8) :
    parseInfo resp =
      if 6 ≤ resp.length ∧ resp.take 4 = header then runRead readInfo (resp.drop 4)
      else .error (.error "not an A2S response (bad header)") := by
  rw [parseInfo]
  by_cases hlen : resp.length < 6
  -- six bytes are checked before any slice is taken, so both slices are in bounds
  · rw [if_pos hlen, if_neg (by omega)]
    rfl
  · rw [if_neg hlen, slice_of_le (by omega), sliceFrom_of_le (by omega)]
    show (if resp.take 4 ≠ header then _ else _) = _
    by_cases hheader : resp.take 4 = header
    · rw [if_neg (by simpa using hheader), if_pos ⟨by omega, hheader⟩]
      rfl
    · rw [if_pos hheader, if_neg fun h => hheader h.2]
      rfl

theorem parsePlayers_eq (resp : List UInt8) :
    parsePlayers resp =
      if 6 ≤ resp.length ∧ resp.take 4 = header ∧ resp[4]? = some 'D'.toUInt8 then
        runRead readPlayers (resp.drop 5)
      else .error (.error "not an A2S_PLAYER response") := by
  rw [parsePlayers]
  by_cases hlen : resp.length < 6
  · rw [if_pos hlen, if_neg (by omega)]
    rfl
  -- the length check covers the index too
  · obtain ⟨b, hb⟩ : ∃ b, resp[4]? = some b := ⟨resp[4], List.getElem?_eq_getElem (by omega)⟩
    rw [if_neg hlen, slice_of_le (by omega), sliceFrom_of_le (by omega), index, hb]
    show (if resp.take 4 ≠ header then _ else if b ≠ 'D'.toUInt8 then _ else _) = _
    by_cases hheader : resp.take 4 = header
    · rw [if_neg (by simpa using hheader)]
      by_cases hd : b = 'D'.toUInt8
      · rw [if_neg (by simpa using hd), if_pos ⟨by omega, hheader, by rw [hd]⟩]
        rfl
      · rw [if_pos hd, if_neg fun h => hd (Option.some.inj h.2.2)]
        rfl
    · rw [if_pos hheader, if_neg fun h => hheader h.2.1]
      rfl

/-- A reader ends with what it has read, or with an error. -/
theorem runRead_cases {α : Type} (p : Read α) (bytes : List UInt8) :
    (∃ x rest, p bytes = .ok (x, rest) ∧ runRead p bytes = .ok x) ∨
      ∃ message, p bytes = .error message ∧ runRead p bytes = .error (.error message) := by
  cases h : p bytes with
  | ok r => exact .inl ⟨r.1, r.2, rfl, by rw [runRead, h]⟩
  | error message => exact .inr ⟨message, rfl, by rw [runRead, h]⟩

theorem parseInfo_ne_panic (resp : List UInt8) : parseInfo resp ≠ .error .panic := by
  rw [parseInfo_eq]
  split
  · rcases runRead_cases readInfo (resp.drop 4) with ⟨x, rest, -, h⟩ | ⟨message, -, h⟩ <;>
      rw [h] <;> nofun
  · nofun

theorem parsePlayers_ne_panic (resp : List UInt8) : parsePlayers resp ≠ .error .panic := by
  rw [parsePlayers_eq]
  split
  · rcases runRead_cases readPlayers (resp.drop 5) with ⟨x, rest, -, h⟩ | ⟨message, -, h⟩ <;>
      rw [h] <;> nofun
  · nofun

/-! ## Modern A2S_INFO -/

/-- The fields of an `I` answer. -/
structure ModernInfo where
  protocol : UInt8
  serverName : CString
  map : CString
  folder : CString
  game : CString
  appId : BitVec 16
  players : UInt8
  maxPlayers : UInt8
  bots : UInt8
  serverType : UInt8
  environment : UInt8
  visibility : UInt8
  vac : UInt8
  version : CString

namespace ModernInfo

variable (r : ModernInfo)

def encode : List UInt8 :=
  header ++ ['I'.toUInt8] ++ [r.protocol] ++ r.serverName.encode ++ r.map.encode ++
    r.folder.encode ++ r.game.encode ++ le16 r.appId ++ [r.players] ++ [r.maxPlayers] ++
    [r.bots] ++ [r.serverType] ++ [r.environment] ++ [r.visibility] ++ [r.vac] ++ r.version.encode

/-- What a client is told of them. -/
def info : A2sInfo where
  serverName := r.serverName.text
  map := r.map.text
  gameDir := r.folder.text
  gameDescription := r.game.text
  players := r.players
  maxPlayers := r.maxPlayers
  bots := r.bots
  serverType := decodeServerType r.serverType
  environment := decodeEnvironment r.environment
  passwordProtected := r.visibility != 0
  vacSecured := r.vac != 0
  version := r.version.text

end ModernInfo

/-- An answer that a reader reads exactly is parsed, and refused when it is cut short. -/
theorem parseInfo_of_reads {body : List UInt8} {x : A2sInfo} (h : Reads readInfo body x)
    (hlen : 2 ≤ body.length) :
    (∀ rest, parseInfo (header ++ body ++ rest) = .ok x) ∧
      ∀ front, front <+: header ++ body → front ≠ header ++ body →
        ∃ message, parseInfo front = .error (.error message) := by
  refine ⟨?_, ?_⟩
  · intro rest
    have hsize : 6 ≤ (header ++ body ++ rest).length := by
      simp [header]
      omega
    have hread : runRead readInfo (body ++ rest) = .ok x := by rw [runRead, h.whole]
    rw [parseInfo_eq, if_pos ⟨hsize, by simp [header]⟩]
    simpa [header] using hread
  · intro front hfront hne
    rw [parseInfo_eq]
    split
    -- the front kept the header: the body is what was cut
    · rename_i hhead
      have hsplit : header ++ front.drop 4 = front := by
        rw [← hhead.2, List.take_append_drop]
      have htail : front.drop 4 <+: body := by
        rw [← hsplit] at hfront
        exact (List.prefix_append_right_inj header).1 hfront
      have hshort : front.drop 4 ≠ body := by
        intro heq
        exact hne (by rw [← heq, hsplit])
      obtain ⟨e, he⟩ := h.cut_short htail hshort
      exact ⟨e, by rw [runRead, he]⟩
    · exact ⟨_, rfl⟩

theorem reads_modern (r : ModernInfo) : Reads readInfo
    ('I'.toUInt8 :: r.protocol :: (r.serverName.encode ++ (r.map.encode ++ (r.folder.encode ++
      (r.game.encode ++ (le16 r.appId ++ (r.players :: r.maxPlayers :: r.bots :: r.serverType ::
        r.environment :: r.visibility :: r.vac :: (r.version.encode ++ []))))))) ) r.info := by
  -- one rule for each field, in the order of the source
  have hmodern : Reads readModern ([r.protocol] ++ (r.serverName.encode ++ (r.map.encode ++
      (r.folder.encode ++ (r.game.encode ++ (le16 r.appId ++ ([r.players] ++ ([r.maxPlayers] ++
        ([r.bots] ++ ([r.serverType] ++ ([r.environment] ++ ([r.visibility] ++ ([r.vac] ++
          (r.version.encode ++ [])))))))))))))) r.info := by
    apply (reads_u8 r.protocol).bind
    apply (reads_cstring r.serverName).bind
    apply (reads_cstring r.map).bind
    apply (reads_cstring r.folder).bind
    apply (reads_cstring r.game).bind
    apply (reads_i16le r.appId).bind
    apply (reads_u8 r.players).bind
    apply (reads_u8 r.maxPlayers).bind
    apply (reads_u8 r.bots).bind
    apply (reads_u8 r.serverType).bind
    apply (reads_u8 r.environment).bind
    apply (reads_u8 r.visibility).bind
    apply (reads_u8 r.vac).bind
    apply (reads_cstring r.version).bind
    exact .pure r.info
  exact (reads_u8 'I'.toUInt8).bind hmodern

/-- A modern answer, whatever follows it, is read back field by field; cut anywhere it is refused;
and nothing makes the parser panic. -/
theorem parseInfo_modern (r : ModernInfo) :
    (∀ rest, parseInfo (r.encode ++ rest) = .ok r.info) ∧
    (∀ front, front <+: r.encode → front ≠ r.encode →
      ∃ message, parseInfo front = .error (.error message)) ∧
    ∀ resp, parseInfo resp ≠ .error .panic := by
  have hparse := parseInfo_of_reads (reads_modern r) (by simp)
  have hencode : r.encode = header ++ ('I'.toUInt8 :: r.protocol :: (r.serverName.encode ++
      (r.map.encode ++ (r.folder.encode ++ (r.game.encode ++ (le16 r.appId ++ (r.players ::
        r.maxPlayers :: r.bots :: r.serverType :: r.environment :: r.visibility :: r.vac ::
          (r.version.encode ++ []))))))) ) := by
    simp [ModernInfo.encode]
  rw [hencode]
  exact ⟨hparse.1, hparse.2, parseInfo_ne_panic⟩

/-! ## A2S_PLAYER -/

/-- One player of a `D` answer. -/
structure Player where
  index : UInt8
  name : CString
  score : BitVec 32
  duration : BitVec 32

namespace Player

def encode (p : Player) : List UInt8 :=
  [p.index] ++ p.name.encode ++ le32 p.score ++ le32 p.duration

def player (p : Player) : A2sPlayer where
  index := p.index
  name := p.name.text
  score := p.score
  durationSecs := p.duration

end Player

def encodePlayers (players : List Player) : List UInt8 :=
  header ++ ['D'.toUInt8] ++ [UInt8.ofNat players.length] ++ players.flatMap Player.encode

/-- A record as it stands in an answer, whatever its bytes mean. -/
structure RawPlayer where
  index : UInt8
  name : List UInt8
  noNul : ∀ b ∈ name, (b == 0) = false
  s0 : UInt8
  s1 : UInt8
  s2 : UInt8
  s3 : UInt8
  d0 : UInt8
  d1 : UInt8
  d2 : UInt8
  d3 : UInt8

namespace RawPlayer

def encode (p : RawPlayer) : List UInt8 :=
  [p.index] ++ ((p.name ++ [0]) ++ ([p.s0, p.s1, p.s2, p.s3] ++ [p.d0, p.d1, p.d2, p.d3]))

def player (p : RawPlayer) : A2sPlayer where
  index := p.index
  name := fromUtf8Lossy p.name
  score := p.s3.toBitVec ++ p.s2.toBitVec ++ p.s1.toBitVec ++ p.s0.toBitVec
  durationSecs := p.d3.toBitVec ++ p.d2.toBitVec ++ p.d1.toBitVec ++ p.d0.toBitVec

end RawPlayer

theorem reads_player (p : RawPlayer) : Reads readPlayer p.encode p.player := by
  have hname := reads_rawCstring p.noNul
  have hread : Reads readPlayer ([p.index] ++ ((p.name ++ [0]) ++
      ([p.s0, p.s1, p.s2, p.s3] ++ ([p.d0, p.d1, p.d2, p.d3] ++ [])))) p.player :=
    (reads_u8 p.index).bind (hname.bind ((reads_i32le_bytes ..).bind
      ((reads_i32le_bytes ..).bind (.pure p.player))))
  simpa only [RawPlayer.encode, List.append_nil] using hread

theorem takes_i32le : Takes readI32le fun front _ => ∃ b0 b1 b2 b3, front = [b0, b1, b2, b3] := by
  have hone : Takes readU8 fun front b => front = [b] := .one endOfResponse
  intro input v rest h
  obtain ⟨front, hinput, hfront⟩ := (hone.bind fun b0 => hone.bind fun b1 => hone.bind fun b2 =>
    hone.bind fun b3 => Takes.pure (b3.toBitVec ++ b2.toBitVec ++ b1.toBitVec ++ b0.toBitVec))
      input v rest h
  obtain ⟨_, _, b0, rfl, rfl, _, _, b1, rfl, rfl, _, _, b2, rfl, rfl, _, _, b3, rfl, rfl, rfl, -⟩ :=
    hfront
  exact ⟨_, hinput, b0, b1, b2, b3, rfl⟩

theorem takes_cstring : Takes readCstring fun front _ =>
    ∃ name : List UInt8, front = name ++ [0] ∧ ∀ b ∈ name, (b == 0) = false := by
  intro input text rest h
  rw [readCstring, map_eq_pure_bind] at h
  obtain ⟨front, hinput, hfront⟩ := ((Takes.until_stop (· == 0) endOfResponse).bind
    fun name => Takes.pure (fromUtf8Lossy name)) input text rest h
  obtain ⟨_, _, name, rfl, ⟨z, rfl, hz, hall⟩, rfl, -⟩ := hfront
  -- the byte that ended the run is the NUL
  have hzero : z = 0 := by simpa using hz
  subst hzero
  exact ⟨_, hinput, name, List.append_nil _, hall⟩

/-- What is read as a player is a record. -/
theorem raw_of_readPlayer {input rest : List UInt8} {x : A2sPlayer}
    (h : readPlayer input = .ok (x, rest)) : ∃ p : RawPlayer, input = p.encode ++ rest := by
  have hone : Takes readU8 fun front b => front = [b] := .one endOfResponse
  -- what each of the four fields took from the input, and their concatenation
  obtain ⟨front, hinput, hfront⟩ := (hone.bind fun index => takes_cstring.bind fun name =>
    takes_i32le.bind fun score => takes_i32le.bind fun durationSecs =>
      Takes.pure ({ index, name, score, durationSecs } : A2sPlayer)) input x rest h
  obtain ⟨_, _, index, rfl, rfl, _, _, text, rfl, ⟨name, rfl, hname⟩, _, _, score, rfl,
    ⟨s0, s1, s2, s3, rfl⟩, _, _, duration, rfl, ⟨d0, d1, d2, d3, rfl⟩, rfl, -⟩ := hfront
  refine ⟨⟨index, name, hname, s0, s1, s2, s3, d0, d1, d2, d3⟩, ?_⟩
  rw [hinput, RawPlayer.encode, List.append_nil]

/-- The bytes of a player whose name is a text. -/
def Player.raw (p : Player) : RawPlayer where
  index := p.index
  name := p.name.text.toUTF8.toList
  noNul := p.name.bytes_ne_zero
  s0 := ⟨p.score.extractLsb' 0 8⟩
  s1 := ⟨p.score.extractLsb' 8 8⟩
  s2 := ⟨p.score.extractLsb' 16 8⟩
  s3 := ⟨p.score.extractLsb' 24 8⟩
  d0 := ⟨p.duration.extractLsb' 0 8⟩
  d1 := ⟨p.duration.extractLsb' 8 8⟩
  d2 := ⟨p.duration.extractLsb' 16 8⟩
  d3 := ⟨p.duration.extractLsb' 24 8⟩

theorem Player.raw_encode (p : Player) : p.raw.encode = p.encode := by
  simp [RawPlayer.encode, Player.raw, Player.encode, CString.encode, le32]

theorem Player.raw_player (p : Player) : p.raw.player = p.player := by
  have htext := p.name.fromUtf8Lossy_bytes
  have hscore := join32 p.score
  have hduration := join32 p.duration
  simp only [RawPlayer.player, Player.raw, Player.player, htext, hscore, hduration]

theorem reads_players (players : List Player) (hcount : players.length ≤ 255) :
    Reads readPlayers (UInt8.ofNat players.length :: players.flatMap Player.encode)
      (players.map Player.player) := by
  have hone : ∀ p : Player, Reads readPlayer p.encode p.player := by
    intro p
    rw [← p.raw_encode, ← p.raw_player]
    exact reads_player p.raw
  have hall := Reads.many hone players
  -- a count up to 255 fits its byte
  have hnat : (UInt8.ofNat players.length).toNat = players.length :=
    Utf8.toNat_ofNat_of_lt (by omega)
  rw [← hnat] at hall
  exact (reads_u8 _).bind hall

/-- Without another record in front of it, the tail of an answer is not read as a player. -/
theorem readPlayer_error {tail : List UInt8}
    (htail : ∀ (p : RawPlayer) (rest : List UInt8), tail ≠ p.encode ++ rest) :
    ∃ e, readPlayer tail = .error e := by
  cases hread : readPlayer tail with
  | error e => exact ⟨e, rfl⟩
  | ok r =>
      obtain ⟨p, hp⟩ := raw_of_readPlayer hread
      exact absurd hp (htail p r.2)

/-- An answer of the right kind is read after its first five bytes. -/
theorem parsePlayers_append {body : List UInt8} (hlen : 1 ≤ body.length) :
    parsePlayers (header ++ ['D'.toUInt8] ++ body) = runRead readPlayers body := by
  have hsize : 6 ≤ (header ++ ['D'.toUInt8] ++ body).length := by
    simp [header]
    omega
  rw [parsePlayers_eq, if_pos ⟨hsize, by simp [header], by simp [header]⟩]
  simp [header]

/-- A list of players, whatever follows it, is read back in order; an answer with fewer complete
records than it counts is refused, in particular a list that is cut anywhere; and nothing makes the
parser panic. -/
theorem parsePlayers_encode :
    (∀ players : List Player, players.length ≤ 255 → ∀ rest,
      parsePlayers (encodePlayers players ++ rest) = .ok (players.map Player.player)) ∧
    (∀ players : List Player, players.length ≤ 255 → ∀ front, front <+: encodePlayers players →
      front ≠ encodePlayers players → ∃ message, parsePlayers front = .error (.error message)) ∧
    (∀ (count : UInt8) (records : List RawPlayer) (tail : List UInt8),
      (∀ (p : RawPlayer) (rest : List UInt8), tail ≠ p.encode ++ rest) →
      records.length < count.toNat → ∃ message,
        parsePlayers (header ++ ['D'.toUInt8] ++
          (count :: records.flatMap RawPlayer.encode ++ tail)) = .error (.error message)) ∧
    ∀ resp, parsePlayers resp ≠ .error .panic := by
  refine ⟨?_, ?_, ?_, parsePlayers_ne_panic⟩
  · intro players hcount rest
    have hread : runRead readPlayers
        (UInt8.ofNat players.length :: players.flatMap Player.encode ++ rest) =
          .ok (players.map Player.player) := by
      rw [runRead, (reads_players players hcount).whole]
    have hencode : encodePlayers players ++ rest = header ++ ['D'.toUInt8] ++
        (UInt8.ofNat players.length :: players.flatMap Player.encode ++ rest) := by
      simp [encodePlayers]
    rw [hencode, parsePlayers_append (by simp)]
    exact hread
  · intro players hcount front hfront hne
    have hencode : encodePlayers players = header ++ ['D'.toUInt8] ++
        (UInt8.ofNat players.length :: players.flatMap Player.encode) := by
      simp [encodePlayers]
    rw [hencode] at hfront hne
    rw [parsePlayers_eq]
    split
    · rename_i hhead
      obtain ⟨hsize, hfour, hd⟩ := hhead
      -- the front starts as the answer does, so it is the rest of it that is cut
      have hfive : front.take 5 = header ++ ['D'.toUInt8] := by
        rw [List.take_add_one, hfour, hd]
        rfl
      have hsplit : header ++ ['D'.toUInt8] ++ front.drop 5 = front := by
        rw [← hfive, List.take_append_drop]
      rw [← hsplit] at hfront hne
      have htail := (List.prefix_append_right_inj _).1 hfront
      have hshort : front.drop 5 ≠ UInt8.ofNat players.length :: players.flatMap Player.encode := by
        intro heq
        exact hne (by rw [heq])
      obtain ⟨e, he⟩ := (reads_players players hcount).cut_short htail hshort
      exact ⟨e, by rw [runRead, he]⟩
    · exact ⟨_, rfl⟩
  -- the reader gets past the records and fails in the tail
  · intro count records tail htail hlt
    obtain ⟨e, he⟩ := readPlayer_error htail
    have hread : readPlayers (count :: records.flatMap RawPlayer.encode ++ tail) = .error e :=
      readMany_short reads_player he hlt
    refine ⟨e, ?_⟩
    rw [parsePlayers_append (by simp), runRead, hread]

end A2s
end SvenBridge
