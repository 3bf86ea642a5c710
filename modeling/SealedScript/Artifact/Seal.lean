import SealedScript.Artifact.Block
import SealedScript.Digest
import SealedScript.Executable.Storage

/-!
Writing artifacts: a source text with its compiled form sealed behind it.

The source is padded to end with three line feeds. Behind it stands one block comment that holds the
compiled block, the digests of source and block, and their lengths in UTF-16 code units, the line feed
behind the block counted with it.
-/

namespace SealedScript.Artifact
set_option autoImplicit false

/-! ## Layout -/

/-- The columns of the first and last lines of the trailer's comment. -/
def commentWidth : Nat := 80

/-- What the digest line starts with, the line feed in front of it included. -/
def hashesLead : Text := "\n##:HASHES:0x"

/-- What the line of lengths starts with, the line feed in front of it included. -/
def countsLead : Text := "\n##:COUNTS:0x"

def fieldSeparator : Text := "-0x"

/-- The text with line feeds added until it ends with three. -/
def pad (t : Text) : Text :=
  t ++ List.replicate (3 - ((t.reverse.take 3).takeWhile (· == '\n')).length) '\n'

/-- The block with the two lines that vouch for it and for the source. -/
def sealedBlock (source block : Text) : Text :=
  block ++ hashesLead ++ Digest.ofText source ++ fieldSeparator ++ Digest.ofText block ++ [';']
    ++ countsLead ++ Digest.field (Text.unitLength source) ++ fieldSeparator
    ++ Digest.field (Text.unitLength block + 1) ++ [';']

def assemble (engine : Engine) (source block : Text) : Text :=
  source ++ '\n' :: engine.longComment (sealedBlock source block) commentWidth

/-! ## Merging -/

/-- The block that stores an executable compiled from a padded source. -/
def blockOf (e : Executable) (source : Text) : Outcome Text := do
  let record ← e.toRecord
  let payload : Payload := ⟨record, Digest.ofText source⟩
  let envelope : Envelope :=
    ⟨Envelope.supportedVersion, e.engine.name, e.engine.parameter, payload.encode⟩
  return Block.encode envelope.encode

/-- The artifact of a source and an executable. An engine that stores nothing leaves the padded source
alone. -/
def merge (code : Text) (e : Executable) : Outcome Text :=
  let source := pad code
  if e.engine.compiles && e.engine.isSerializable then
    (blockOf e source).map (assemble e.engine source)
  else .ok source

end SealedScript.Artifact
