import Mathlib.Tactic.Common

/-!
# Basic — the data shared by both sides of the bridge

Bytes, identifiers and the constants of `src/relay.rs`.  Hashes and link ids are the 16-byte values
of the engine; a socket address is an IPv4 address and a port (the client listens on 127.0.0.1).
-/

namespace SvenBridge

abbrev Datagram := List UInt8
abbrev Chunk := List UInt8

abbrev LinkId := BitVec 128
abbrev DestinationHash := BitVec 128
abbrev IdentityHash := BitVec 128

instance : LawfulBEq LinkId :=
  inferInstance

instance : LawfulBEq Datagram :=
  inferInstance

structure SocketAddr where
  ip : UInt32
  port : UInt16
  deriving DecidableEq

/-- The size of the buffer every UDP read goes through. -/
def udpReadBuf : ℕ := 8192

/-- The capacity of every `mpsc::channel` of a relay. -/
def channelCapacity : ℕ := 256

end SvenBridge
