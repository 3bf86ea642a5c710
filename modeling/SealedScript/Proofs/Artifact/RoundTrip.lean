import SealedScript.Proofs.Artifact.Block
import SealedScript.Proofs.Artifact.Extract
import SealedScript.Proofs.Artifact.Seal
import SealedScript.Proofs.Executable
import SealedScript.Proofs.Record

/-!
Merging and extracting: an artifact gives back its padded source and the executable it was made of
(`extract_merge`).

The writer lays an artifact out from the front and the reader finds its way from the last line of lengths
backwards. They meet at `sealedText`, of which every artifact is an instance, so what the source holds does
not matter: it may imitate any part of a trailer.
-/

namespace SealedScript.Artifact
set_option autoImplicit false

/-! ## Blocks of executables -/

/-- The payload for an executable and its source. -/
def payloadOf (e : Executable) (source : Text) : Payload := ⟨e.form, Digest.ofText source⟩

def envelopeOf (e : Executable) (source : Text) : Envelope :=
  ⟨Envelope.supportedVersion, e.engine.name, e.engine.parameter, (payloadOf e source).encode⟩

def storedBlock (e : Executable) (source : Text) : Text := Block.encode (envelopeOf e source).encode

theorem blockOf_eq {e : Executable} (h : e.engine.isSerializable = true) (source : Text) :
    blockOf e source = .ok (storedBlock e source) := by
  rw [blockOf, Executable.toRecord_eq h]
  rfl

theorem merge_eq {e : Executable} (h : e.engine.isSerializable = true) (code : Text) :
    merge code e = .ok (sealedText (pad code) commentStart (storedBlock e (pad code))) := by
  have hcompiles : (e.engine.compiles && e.engine.isSerializable) = true := by
    rw [h]
    rfl
  rw [merge, if_pos hcompiles, blockOf_eq h, ← assemble_eq e.engine]
  rfl

theorem merge_total (code : Text) (e : Executable) : ∃ merged, merge code e = .ok merged := by
  cases hserializable : e.engine.isSerializable with
  | true => exact ⟨_, merge_eq hserializable code⟩
  | false =>
    rw [merge, hserializable, Bool.and_false]
    exact ⟨_, rfl⟩

/-- A block whose length can be recorded holds no more bytes than can be counted. -/
theorem length_envelope_lt {e : Executable} {source : Text}
    (h : Text.unitLength (storedBlock e source) < Nat.pow 2 32) :
    (envelopeOf e source).encode.length < Nat.pow 2 64 := by
  have hbytes := Block.length_le_encode (envelopeOf e source).encode
  have hunits := Text.length_le_unitLength (storedBlock e source)
  rw [storedBlock] at hunits h
  simp only [Nat.pow_eq] at h ⊢
  omega

theorem length_payload_lt {e : Executable} {source : Text}
    (h : Text.unitLength (storedBlock e source) < Nat.pow 2 32) :
    (payloadOf e source).encode.length < Nat.pow 2 64 :=
  Nat.lt_of_le_of_lt (envelopeOf e source).length_payload_le (length_envelope_lt h)

theorem length_image_lt {e : Executable} {source : Text}
    (h : Text.unitLength (storedBlock e source) < Nat.pow 2 32) : e.image.length < Nat.pow 2 64 :=
  Nat.lt_of_le_of_lt (payloadOf e source).length_image_le (length_payload_lt h)

theorem fits_of_lengths {e : Executable} {source : Text} (hserializable : e.engine.isSerializable = true)
    (hsource : Text.unitLength source < Nat.pow 2 32 - 1)
    (hblock : ∀ block, blockOf e source = .ok block → Text.unitLength block < Nat.pow 2 32 - 1) :
    Fits source (storedBlock e source) := by
  have hlength := hblock _ (blockOf_eq hserializable source)
  constructor <;> omega

/-! ## Reading -/

section Reading
variable {r : Registry} {g : Engine} {e : Executable} {program : Program} {source : Text}

/-- A block decodes to the stored executable, under the engine that the registry finds for it. -/
theorem decode_storedBlock (hsound : e.shape.Sound)
    (hengine : r.resolve e.engine.name e.engine.parameter = .ok g)
    (hsize : Text.unitLength (storedBlock e source) < Nat.pow 2 32) {t : Trailer}
    (hblock : t.block = storedBlock e source) (hdigest : t.sourceDigest = Digest.ofText source) :
    decode r t = .ok (e.stored g) := by
  have hbytes : (Block.decode t.block).mapError Failure.codec = .ok (envelopeOf e source).encode := by
    rw [hblock, storedBlock, Block.decode_encode, mapError_ok]
  have henvelope : (Envelope.decode (envelopeOf e source).encode).mapError Failure.codec =
      .ok (envelopeOf e source) := by
    rw [Envelope.decode_encode _ rfl (length_envelope_lt hsize), mapError_ok]
  have hpayload : (Payload.decode (envelopeOf e source).payload).mapError Failure.codec =
      .ok (payloadOf e source) := by
    rw [show (envelopeOf e source).payload = (payloadOf e source).encode from rfl,
      Payload.decode_encode _ (length_payload_lt hsize), mapError_ok]
  have hsame : (payloadOf e source).sourceDigest = t.sourceDigest := hdigest.symm
  refine bind_eq_ok.mpr ⟨_, hbytes, bind_eq_ok.mpr ⟨_, henvelope, bind_eq_ok.mpr ⟨_, hengine, ?_⟩⟩⟩
  refine bind_eq_ok.mpr ⟨_, hpayload, ?_⟩
  rw [if_neg (not_not_intro hsame)]
  exact Executable.ofRecord_form hsound g

theorem extract_sealed_of_sound (hsound : e.shape.Sound)
    (hengine : r.resolve e.engine.name e.engine.parameter = .ok g) (between : Text)
    (hfits : Fits source (storedBlock e source)) :
    extract r (sealedText source between (storedBlock e source)) = ⟨.fresh, source, some (e.stored g)⟩ := by
  have hsource : (sealedTrailer source between (storedBlock e source)).sourceChanged = false := by
    simp [Trailer.sourceChanged, sealedTrailer]
  have hblock : (sealedTrailer source between (storedBlock e source)).blockChanged = false := by
    simp [Trailer.blockChanged, sealedTrailer]
  have hdecode : decode r (sealedTrailer source between (storedBlock e source)) = .ok (e.stored g) :=
    decode_storedBlock hsound hengine (by have := hfits.2; omega) rfl rfl
  rw [extract_ok (splitAtCounts?_sealed source between _) (readTrailer_sealed between hfits)]
  exact (extractTrailer_unchanged hsource hblock).1 _ hdecode

/-- **A sealed text is fresh**, whatever stands between its source and its block. -/
theorem extract_sealed (hcompiled : e.Compiled program)
    (hengine : r.resolve e.engine.name e.engine.parameter = .ok g) (between : Text)
    (hfits : Fits source (storedBlock e source)) :
    extract r (sealedText source between (storedBlock e source)) = ⟨.fresh, source, some (e.stored g)⟩ :=
  extract_sealed_of_sound hcompiled.sound hengine between hfits

end Reading

/-! ## Round trip -/

/-- **Merging and extracting.** An artifact of a compiled executable is fresh, its source is the padded
source it was made of, and its executable has the same record. -/
theorem extract_merge {fileName : Option Text} {text code : Text} {scope : Option Scope} {e : Executable}
    (hcompile : Engine.compiling.compile fileName text scope = .ok e)
    (hsource : Text.unitLength (pad code) < Nat.pow 2 32 - 1)
    (hblock : ∀ block, blockOf e (pad code) = .ok block → Text.unitLength block < Nat.pow 2 32 - 1) :
    ∃ artifact e', merge code e = .ok artifact ∧
      extract .builtins artifact = ⟨.fresh, pad code, some e'⟩ ∧
      ∃ record, e.toRecord = .ok record ∧ e'.toRecord = .ok record := by
  obtain ⟨hengine, -, program, hcompiled⟩ := Engine.compile_spec hcompile
  have hserializable : e.engine.isSerializable = true := by rw [hengine]; rfl
  have hresolve : Registry.builtins.resolve e.engine.name e.engine.parameter = .ok .compiling := by
    rw [hengine]
    rfl
  have hfits : Fits (pad code) (storedBlock e (pad code)) := by
    have hlength := hblock _ (blockOf_eq hserializable (pad code))
    constructor <;> omega
  refine ⟨_, e.stored .compiling, merge_eq hserializable code,
    extract_sealed hcompiled hresolve commentStart hfits, e.form, ?_, ?_⟩
  · exact Executable.toRecord_eq hserializable
  · rw [Executable.toRecord_eq rfl, Executable.stored_form]

/-- A source that imitates a trailer, lines of lengths and digests included. -/
def imitation : Text :=
  "1 // \n##:COMPILED::BASE64 \x7b\n\x7d\n##:HASHES:0x       0-0x       0;\n##:COUNTS:0x       1-0x       2;\n"

def capturing : Executable where
  engine := .compiling
  code := "x 1 +"
  frozen := ⟨[("x", .integer)]⟩
  captured := [("x", .int 5)]
  shape := .function .main
  body := .attached ⟨[.load "x", .push (.int 1), .arith .add], true⟩

theorem extract_merge_imitation :
    ∃ artifact e', merge imitation capturing = .ok artifact ∧
      extract .builtins artifact = ⟨.fresh, pad imitation, some e'⟩ ∧
      ∃ record, capturing.toRecord = .ok record ∧ e'.toRecord = .ok record := by
  have hcompile : Engine.compiling.compile none "x 1 +" (some ⟨[⟨"x", .integer, .int 5, false⟩]⟩) =
      .ok capturing := rfl
  refine extract_merge hcompile (by decide +kernel) fun block hblock => ?_
  rw [blockOf_eq rfl, Except.ok.injEq] at hblock
  rw [← hblock]
  decide +kernel

end SealedScript.Artifact
