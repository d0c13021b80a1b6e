import SvenBridge.Events

/-!
# Announce — what a bridge server announces

The app data of a server's announces, cut to the wire budget of one announce.
-/

namespace SvenBridge

/-! ## The wire budget -/

def announcePublicKeyByteLen : ℕ := 64
def dottedNameHashByteLen : ℕ := 10
def announceIdWireLen : ℕ := 10
def signatureByteLen : ℕ := 64

/-- The fields of every announce besides its app data. -/
def announceFixedFieldsLen : ℕ :=
  announcePublicKeyByteLen + dottedNameHashByteLen + announceIdWireLen + signatureByteLen

/-- `BROADCAST_MTU` less the longest header (`2 + 2 * 16 + 1`) and the smallest access code. -/
def broadcastMdu : ℕ := 500 - (2 + 16 * 2 + 1) - 1

def maxAnnounceAppDataLen : ℕ := broadcastMdu - announceFixedFieldsLen

/-! ## The name -/

def defaultServerAnnounceName : List UInt8 := "sc-rns-bridge".toUTF8.toList

/-- The configured name, trimmed and truncated, or the default when it is unset or blank. -/
def serverAnnounceNameBytes (name : Option String) : List UInt8 :=
  let trimmed := (name.map trim).filter fun s => !s.isEmpty
  let bytes := (trimmed.map fun s => s.toUTF8.toList).getD defaultServerAnnounceName
  bytes.take maxAnnounceAppDataLen

/-- `AnnounceAppDataBytes::from_slice`. -/
def announceAppDataFromSlice (bytes : List UInt8) : Option (List UInt8) :=
  if bytes.length ≤ maxAnnounceAppDataLen then some bytes else none

/-- The app data of the periodic announcer and of the manual announce. -/
def serverAnnounceAppData (name : Option String) : List UInt8 :=
  (announceAppDataFromSlice (serverAnnounceNameBytes name)).getD []

/-- The name always fits. -/
theorem serverAnnounceAppData_eq (name : Option String) :
    serverAnnounceAppData name = serverAnnounceNameBytes name := by
  have hlen : (serverAnnounceNameBytes name).length ≤ maxAnnounceAppDataLen :=
    List.length_take_le _ _
  rw [serverAnnounceAppData, announceAppDataFromSlice, if_pos hlen]
  rfl

end SvenBridge
