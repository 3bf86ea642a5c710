import SealedScript.Frozen
import SealedScript.Wire.Data

/-!
Stored executables.

A `Record` is everything a stored executable consists of apart from its engine. A `Payload` ties a
record to the digest of the source it was compiled from, and an `Envelope` carries the bytes of a
payload with the name and option of the engine that can use it.
-/

namespace SealedScript
set_option autoImplicit false

/-- The stored form of an executable. -/
structure Record where
  kind : Kind
  code : Text
  frozen : Frozen
  captured : List (Text × Value)
  signature : Option Signature
  paramNames : List Text
  image : Bytes

/-- A stored executable and the digest of its source. -/
structure Payload where
  executable : Record
  sourceDigest : Text

/-- A payload as bytes with the engine it is for. -/
structure Envelope where
  version : Nat
  engine : Text
  parameter : Option Text
  payload : Bytes
deriving DecidableEq

namespace Codec

def kinds : List Kind := [.script, .function, .macroRoutine]

def kind : Codec Kind := tag.via (fun k => kinds.idxOf k) fun n => kinds[n]?

def record : Codec Record where
  write r :=
    kind.write r.kind ++ text.write r.code ++ (list (pair text ty)).write r.frozen.entries
      ++ (list (pair text value)).write r.captured ++ (option signature).write r.signature
      ++ (list text).write r.paramNames ++ bytes.write r.image
  read := do
    let kind ← kind.read
    let code ← text.read
    let frozen ← (list (pair text ty)).read
    let captured ← (list (pair text value)).read
    let signature ← (option signature).read
    let paramNames ← (list text).read
    let image ← bytes.read
    return { kind, code, frozen := ⟨frozen⟩, captured, signature, paramNames, image }

def payload : Codec Payload where
  write p := record.write p.executable ++ text.write p.sourceDigest
  read := do
    let executable ← record.read
    let sourceDigest ← text.read
    return { executable, sourceDigest }

def envelope : Codec Envelope where
  write e :=
    (number 2).write e.version ++ text.write e.engine ++ (option text).write e.parameter
      ++ bytes.write e.payload
  read := do
    let version ← (number 2).read
    let engine ← text.read
    let parameter ← (option text).read
    let payload ← bytes.read
    return { version, engine, parameter, payload }

end Codec

namespace Payload

def encode (p : Payload) : Bytes := Codec.payload.write p

/-- The payload at the front of the bytes; what follows it is not looked at. -/
def decode (bs : Bytes) : Except CodecFault Payload := (Codec.payload.read.run bs).map Prod.fst

end Payload

namespace Envelope

/-- The version that this library writes and reads. -/
def supportedVersion : Nat := 1

def encode (e : Envelope) : Bytes := Codec.envelope.write e

/-- The envelope at the front of the bytes, when it is of the supported version. -/
def decode (bs : Bytes) : Except CodecFault Envelope := do
  let (e, _) ← Codec.envelope.read.run bs
  if e.version = supportedVersion then return e
  else throw (.version e.version supportedVersion)

end Envelope
end SealedScript
