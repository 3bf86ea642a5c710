import SealedScript.Artifact.Trailer
import SealedScript.Registry

/-!
Taking artifacts apart.

`extract` always answers a source text, and an executable exactly when the artifact is fresh: the
trailer can be read, both digests agree, and the block decodes to an executable that was stored for
this source.
-/

namespace SealedScript.Artifact
set_option autoImplicit false

/-- The parts of an artifact and what checking it found. -/
structure Contents where
  validation : Validation
  code : Text
  executable : Option Executable

def decode (r : Registry) (t : Trailer) : Outcome Executable := do
  let bytes ← (Block.decode t.block).mapError .codec
  let envelope ← (Envelope.decode bytes).mapError .codec
  let engine ← r.resolve envelope.engine envelope.parameter
  let payload ← (Payload.decode envelope.payload).mapError .codec
  if payload.sourceDigest ≠ t.sourceDigest then
    .error (.codec (.digestMismatch (Text.trim payload.sourceDigest) (Text.trim t.sourceDigest)))
  else Executable.ofRecord payload.executable engine

def Trailer.sourceChanged (t : Trailer) : Bool :=
  t.split || t.sourceDigest != Digest.ofText t.source

def Trailer.blockChanged (t : Trailer) : Bool := t.blockDigest != Digest.ofText t.block

def extractTrailer (r : Registry) (text : Text) (t : Trailer) : Contents :=
  if t.sourceChanged then ⟨.staleSource, sourceBefore text t.head, none⟩
  else if t.blockChanged then ⟨.staleCompiled, sourceBefore text t.head, none⟩
  else
    match decode r t with
    | .ok e => ⟨.fresh, t.source, some e⟩
    | .error _ => ⟨.staleCompiled, t.source, none⟩

def extract (r : Registry) (text : Text) : Contents :=
  match splitAtCounts? text with
  | none => ⟨.noTrailer, text, none⟩
  | some (before, counts) =>
    match readTrailer before counts with
    | .error fault => ⟨.malformed fault, sourceBefore text before, none⟩
    | .ok t => extractTrailer r text t

end SealedScript.Artifact
