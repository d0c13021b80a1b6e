import SvenBridge.Lib.Reader
import SvenBridge.Lib.Utf8

/-!
# Query.A2s — answers to server queries

`parse_info` and `parse_players` read what a game server answers to a query.  This file contains

* `Fault` and the slices, so that a panic would be seen;
* the readers of the fields, and of strings that end with a NUL;
* `parseInfo` and `parsePlayers`.

Scores and durations are bit patterns; a cursor that has failed is not read again.
-/

namespace SvenBridge
namespace A2s

open Lib

/-! ## Answers -/

structure A2sInfo where
  serverName : String
  map : String
  gameDir : String
  gameDescription : String
  players : UInt8
  maxPlayers : UInt8
  bots : UInt8
  serverType : String
  environment : String
  passwordProtected : Bool
  vacSecured : Bool
  version : String
  deriving DecidableEq

structure A2sPlayer where
  index : UInt8
  name : String
  score : BitVec 32
  durationSecs : BitVec 32
  deriving DecidableEq

/-- How a parser ends without an answer. -/
inductive Fault where
  | error (message : String)
  /-- An index out of bounds. -/
  | panic
  deriving DecidableEq

/-- `&bytes[i..j]`. -/
def slice (bytes : List UInt8) (i j : ℕ) : Except Fault (List UInt8) :=
  if i ≤ j ∧ j ≤ bytes.length then .ok ((bytes.take j).drop i) else .error .panic

/-- `&bytes[i..]`. -/
def sliceFrom (bytes : List UInt8) (i : ℕ) : Except Fault (List UInt8) :=
  slice bytes i bytes.length

/-- `bytes[i]`. -/
def index (bytes : List UInt8) (i : ℕ) : Except Fault UInt8 :=
  match bytes[i]? with
  | some b => .ok b
  | none => .error .panic

/-! ## Fields -/

abbrev Read (α : Type) :=
  Reader UInt8 String α

def endOfResponse : String :=
  "unexpected end of A2S response"

def readU8 : Read UInt8 :=
  Reader.readOne endOfResponse

def readI16le : Read (BitVec 16) := do
  let b0 ← readU8
  let b1 ← readU8
  return b1.toBitVec ++ b0.toBitVec

def readI32le : Read (BitVec 32) := do
  let b0 ← readU8
  let b1 ← readU8
  let b2 ← readU8
  let b3 ← readU8
  return b3.toBitVec ++ b2.toBitVec ++ b1.toBitVec ++ b0.toBitVec

/-- The bits of an `f32`. -/
def readF32le : Read (BitVec 32) :=
  readI32le

/-- `String::from_utf8_lossy`. -/
def fromUtf8Lossy (bytes : List UInt8) : String :=
  String.ofList (Utf8.decodeLossy bytes)

/-- A string that ends with a NUL. -/
def readCstring : Read String :=
  fromUtf8Lossy <$> Reader.readUntil (· == 0) endOfResponse

/-- `format!("{b:#x}")`. -/
def hexByte (b : UInt8) : String :=
  "0x" ++ String.ofList (Nat.toDigits 16 b.toNat)

def decodeServerType (b : UInt8) : String :=
  if b = 'd'.toUInt8 then "dedicated"
  else if b = 'l'.toUInt8 then "listen"
  else if b = 'p'.toUInt8 then "proxy"
  else hexByte b

def decodeEnvironment (b : UInt8) : String :=
  if b = 'l'.toUInt8 then "linux"
  else if b = 'w'.toUInt8 then "windows"
  else if b = 'm'.toUInt8 ∨ b = 'o'.toUInt8 then "mac"
  else hexByte b

/-! ## A2S_INFO -/

/-- The modern format, after its `I`. -/
def readModern : Read A2sInfo := do
  let _protocol ← readU8
  let serverName ← readCstring
  let map ← readCstring
  let gameDir ← readCstring
  let gameDescription ← readCstring
  -- read and dropped, like the protocol byte
  let _appId ← readI16le
  let players ← readU8
  let maxPlayers ← readU8
  let bots ← readU8
  let serverType ← readU8
  let environment ← readU8
  let password ← readU8
  let vac ← readU8
  let version ← readCstring
  return {
    serverName, map, gameDir, gameDescription, players, maxPlayers, bots
    serverType := decodeServerType serverType
    environment := decodeEnvironment environment
    passwordProtected := password != 0
    vacSecured := vac != 0
    version }

/-- The mod block of the legacy format. -/
def readMod : Read Unit := do
  let _urlInfo ← readCstring
  let _urlDl ← readCstring
  -- the NUL between the links and the numbers
  let _ ← readU8
  let _modVersion ← readI32le
  let _modSize ← readI32le
  let _svonly ← readU8
  let _cldll ← readU8

/-- The legacy format, after its `m`. -/
def readLegacy : Read A2sInfo := do
  let _address ← readCstring
  let serverName ← readCstring
  let map ← readCstring
  let gameDir ← readCstring
  let gameDescription ← readCstring
  -- the byte that the layout of an old answer does not have
  let _version ← readU8
  let players ← readU8
  let maxPlayers ← readU8
  let _protocol ← readU8
  let serverType ← readU8
  let environment ← readU8
  let password ← readU8
  let isMod ← readU8
  -- the block is there only when the flag is set
  if isMod != 0 then readMod
  let vac ← readU8
  let bots ← readU8
  return {
    serverName, map, gameDir, gameDescription, players, maxPlayers, bots
    serverType := decodeServerType serverType
    environment := decodeEnvironment environment
    passwordProtected := password != 0
    vacSecured := vac != 0
    version := "" }

def readInfo : Read A2sInfo := do
  let header ← readU8
  if header = 'I'.toUInt8 then readModern
  else if header = 'm'.toUInt8 then readLegacy
  -- neither of the two formats
  else throw ("unrecognized A2S_INFO response type " ++ hexByte header)

/-- Read a slice from its start; what follows is ignored. -/
def runRead {α : Type} (p : Read α) (bytes : List UInt8) : Except Fault α :=
  match p bytes with
  -- the cursor is dropped with whatever it has not reached
  | .ok (x, _) => .ok x
  | .error message => .error (.error message)

def header : List UInt8 :=
  [0xFF, 0xFF, 0xFF, 0xFF]

def parseInfo (resp : List UInt8) : Except Fault A2sInfo :=
  let badHeader := Fault.error "not an A2S response (bad header)"
  if resp.length < 6 then
    throw badHeader
  else do
    if (← slice resp 0 4) ≠ header then
      throw badHeader
    else
      -- the cursor starts at the response type
      runRead readInfo (← sliceFrom resp 4)

/-! ## A2S_PLAYER -/

def readPlayer : Read A2sPlayer := do
  let index ← readU8
  let name ← readCstring
  let score ← readI32le
  let durationSecs ← readF32le
  return { index, name, score, durationSecs }

def readPlayers : Read (List A2sPlayer) := do
  let count ← readU8
  Reader.readMany readPlayer count.toNat

def parsePlayers (resp : List UInt8) : Except Fault (List A2sPlayer) :=
  let notPlayers := Fault.error "not an A2S_PLAYER response"
  if resp.length < 6 then
    throw notPlayers
  else do
    if (← slice resp 0 4) ≠ header then
      throw notPlayers
    else if (← index resp 4) ≠ 'D'.toUInt8 then
      throw notPlayers
    else
      -- the cursor starts at the count
      runRead readPlayers (← sliceFrom resp 5)

end A2s
end SvenBridge
