import DecisionTables.Blob.Header
import DecisionTables.Blob.Payload
import DecisionTables.Table.Compilation

/-!
# Storing tables

A table is stored as a blob, a header and the payload of its definition.  Reading a blob checks its
header, the digest of its payload and the payload itself, and then compiles the definition as any
other.  Bytes after the payload carry no meaning.
-/

namespace DecisionTables

inductive BlobError where
  | wrongMark
  | otherVersion (found : Nat)
  | wrongLength (expected actual : Nat)
  | wrongDigest
  | undecodable
  | payload (fault : Blob.PayloadFault)
  | defects (defects : List Defect)

def BlobError.message : BlobError → String
  | wrongMark => "not a decision table binary: invalid magic bytes"
  | otherVersion found =>
    s!"incompatible format version: blob is v{found}, engine supports v{Blob.formatVersion}"
  | wrongLength expected actual =>
    s!"payload length mismatch: expected {expected} bytes, got {actual}"
  | wrongDigest => "integrity check failed: BLAKE3 checksum mismatch"
  | undecodable => "failed to decode payload"
  | payload fault => s!"malformed payload: {fault.message}"
  | defects found => defectsMessage found

namespace Blob

/-- The blob of a definition, unless its payload is too long for the header to tell its length. -/
def ofDefinition? (definition : Definition) : Option (List UInt8) :=
  let payload := Payload.coder.write (.ofDefinition definition)
  if payload.length < UInt32.size then some ((Header.ofPayload payload).write ++ payload) else none

/-- The payload of a blob whose header is right. -/
def payload (bytes : List UInt8) : Except BlobError (List UInt8) :=
  if bytes.length < headerLength then .error (.wrongLength headerLength bytes.length)
  else if bytes.take 4 ≠ mark then .error .wrongMark
  else
    let header := Header.read bytes
    let body := bytes.drop headerLength
    if header.formatVersion ≠ formatVersion then .error (.otherVersion header.formatVersion)
    else if body.length < header.payloadLength then
      .error (.wrongLength header.payloadLength body.length)
    else
      let payload := body.take header.payloadLength
      if digest payload = header.digest then .ok payload else .error .wrongDigest

def definition (bytes : List UInt8) : Except BlobError Definition :=
  match payload bytes with
  | .error error => .error error
  | .ok payload =>
    match Payload.coder.read payload with
    | none => .error .undecodable
    | some (payload, _) =>
      match payload.definition with
      | .error fault => .error (.payload fault)
      | .ok definition => .ok definition

end Blob

namespace Table

def toBlob? (table : Table) : Option (List UInt8) :=
  Blob.ofDefinition? table.definition

def ofBlob (bytes : List UInt8) (functions : Registry) (options : TableOptions := {}) :
    Except BlobError Table :=
  match Blob.definition bytes with
  | .error error => .error error
  | .ok definition =>
    match definition.compile functions options with
    | .error found => .error (.defects found)
    | .ok table => .ok table

end Table

end DecisionTables
