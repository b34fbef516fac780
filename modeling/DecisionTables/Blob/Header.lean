import DecisionTables.Blob.Digest

/-!
# Headers

Every blob starts with thirty-two bytes: a mark, the versions of the format and of the engine,
reserved flags, the length of the payload and its digest.
-/

namespace DecisionTables.Blob

def mark : List UInt8 :=
  [0x4A, 0x52, 0x54, 0x42]

def formatVersion : Nat :=
  1

def engineVersion : Nat :=
  1

def headerLength : Nat :=
  32

structure Header where
  formatVersion : Nat
  engineVersion : Nat
  flags : Nat
  payloadLength : Nat
  digest : List UInt8
deriving DecidableEq

namespace Header

def ofPayload (payload : List UInt8) : Header :=
  ⟨Blob.formatVersion, Blob.engineVersion, 0, payload.length, Blob.digest payload⟩

def write (header : Header) : List UInt8 :=
  mark ++ littleEndian 2 header.formatVersion ++ littleEndian 2 header.engineVersion ++
    littleEndian 4 header.flags ++ littleEndian 4 header.payloadLength ++ header.digest

def field (bytes : List UInt8) (position length : Nat) : Nat :=
  ofLittleEndian ((bytes.drop position).take length)

/-- The header at the front of a blob that is long enough and has the right mark. -/
def read (bytes : List UInt8) : Header where
  formatVersion := field bytes 4 2
  engineVersion := field bytes 6 2
  flags := field bytes 8 4
  payloadLength := field bytes 12 4
  digest := (bytes.drop 16).take 16

end Header

end DecisionTables.Blob
