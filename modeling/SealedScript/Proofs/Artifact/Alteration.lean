import SealedScript.Proofs.Artifact.RoundTrip
import SealedScript.Proofs.Executable.Origin

/-!
Artifacts whose source and block are replaced by others of the same lengths (`extract_altered`).

The recorded lengths still lead to the parts that were put in, so nothing but the two digests is left to tell
them from the old ones. A digest is blind exactly to texts whose sums are equal or opposite.
-/

namespace SealedScript.Artifact
set_option autoImplicit false

/-! ## A seal around other parts -/

/-- What stands behind the block of an artifact. -/
def sealEnd (source block : Text) : Text := hashesLine source block ++ (countsMark ++ countsFields source block)

/-- The trailer that is read when the seal of a source and a block stands around others. -/
def alteredTrailer (source block source' between block' : Text) : Trailer :=
  { sealedTrailer source' between block' with
    sourceDigest := Digest.ofText source, blockDigest := Digest.ofText block }

variable {r : Registry} {source block source' block' : Text}

theorem sealedText_end (source between block : Text) :
    sealedText source between block = source ++ between ++ block ++ sealEnd source block := by
  simp only [sealedText, sealedFront, sealEnd, List.append_assoc]

theorem sourceChanged_altered (between : Text) :
    (alteredTrailer source block source' between block').sourceChanged = true ↔ ¬ Digest.Alike source' source := by
  have hdigest : Digest.ofText source ≠ Digest.ofText source' ↔ ¬ Digest.Alike source' source := by
    rw [ne_comm, ne_eq, Digest.ofText_eq_iff]
  simpa [Trailer.sourceChanged, alteredTrailer, sealedTrailer] using hdigest

theorem blockChanged_altered (between : Text) :
    (alteredTrailer source block source' between block').blockChanged = true ↔ ¬ Digest.Alike block' block := by
  have hdigest : Digest.ofText block ≠ Digest.ofText block' ↔ ¬ Digest.Alike block' block := by
    rw [ne_comm, ne_eq, Digest.ofText_eq_iff]
  simpa [Trailer.blockChanged, alteredTrailer, sealedTrailer] using hdigest

theorem extract_around (r : Registry) (between : Text) (hfits : Fits source block)
    (hsource : Text.unitLength source' = Text.unitLength source)
    (hblock : Text.unitLength block' = Text.unitLength block) :
    extract r (source' ++ between ++ block' ++ sealEnd source block) =
      extractTrailer r (source' ++ between ++ block' ++ sealEnd source block)
        (alteredTrailer source block source' between block') := by
  have hsplit : splitAtCounts? (source' ++ between ++ block' ++ sealEnd source block) =
      some (source' ++ between ++ block' ++ hashesLine source block, countsMark ++ countsFields source block) := by
    rw [sealEnd, ← List.append_assoc]
    exact splitAtCounts?_line (not_mark_countsFields source block)
  exact extract_ok hsplit (readTrailer_altered between hfits hsource hblock)

/-! ## What is found -/

theorem validation_around (r : Registry) (between : Text) (hfits : Fits source block)
    (hsource : Text.unitLength source' = Text.unitLength source)
    (hblock : Text.unitLength block' = Text.unitLength block) :
    (extract r (source' ++ between ++ block' ++ sealEnd source block)).validation = .staleSource ↔
      ¬ Digest.Alike source' source := by
  rw [extract_around r between hfits hsource hblock, ← sourceChanged_altered between]
  refine ⟨fun h => ?_, fun h => by rw [extractTrailer, if_pos h]⟩
  -- Every other way out of the reader reports something else.
  by_cases hchanged : (alteredTrailer source block source' between block').sourceChanged = true
  · exact hchanged
  · rw [extractTrailer, if_neg hchanged] at h
    split at h
    · cases h
    · split at h <;> cases h

theorem validation_around_alike (r : Registry) (between : Text) (hfits : Fits source block)
    (hsource : Text.unitLength source' = Text.unitLength source)
    (hblock : Text.unitLength block' = Text.unitLength block) (halike : Digest.Alike source' source)
    (hdiffer : ¬ Digest.Alike block' block) :
    (extract r (source' ++ between ++ block' ++ sealEnd source block)).validation = .staleCompiled := by
  have hkept : ¬ (alteredTrailer source block source' between block').sourceChanged = true := by
    rw [sourceChanged_altered]
    exact not_not_intro halike
  rw [extract_around r between hfits hsource hblock, extractTrailer, if_neg hkept,
    if_pos ((blockChanged_altered between).mpr hdiffer)]

/-- Another source of the same digest is taken for the one that was compiled. -/
theorem extract_around_alike {e : Executable} {g : Engine} (hsound : e.shape.Sound)
    (hengine : r.resolve e.engine.name e.engine.parameter = .ok g) (between : Text)
    (hfits : Fits source (storedBlock e source)) (hsource : Text.unitLength source' = Text.unitLength source)
    (halike : Digest.Alike source' source) :
    extract r (source' ++ between ++ storedBlock e source ++ sealEnd source (storedBlock e source)) =
      ⟨.fresh, source', some (e.stored g)⟩ := by
  have hkept : (alteredTrailer source (storedBlock e source) source' between
      (storedBlock e source)).sourceChanged = false := by
    rw [← Bool.not_eq_true, sourceChanged_altered]
    exact not_not_intro halike
  have hblock : (alteredTrailer source (storedBlock e source) source' between
      (storedBlock e source)).blockChanged = false := by
    rw [← Bool.not_eq_true, blockChanged_altered]
    exact not_not_intro (Or.inl rfl)
  have hdecode : decode r (alteredTrailer source (storedBlock e source) source' between
      (storedBlock e source)) = .ok (e.stored g) :=
    decode_storedBlock hsound hengine (by have := hfits.2; omega) rfl rfl
  rw [extract_around r between hfits hsource rfl]
  exact (extractTrailer_unchanged hkept hblock).1 _ hdecode

/-- **What the digests detect.** A source that is put in the place of the padded one is noticed exactly if
their sums are neither equal nor opposite; a block that is put in the place of the stored one, if the source
passes, at least when their sums are neither. With the stored block a source that passes is fresh. -/
theorem extract_altered {code block : Text} {e : Executable} (he : e.Made)
    (hserializable : e.engine.isSerializable = true) (hblock : blockOf e (pad code) = .ok block)
    (hsource : Text.unitLength (pad code) < Nat.pow 2 32 - 1)
    (hlength : Text.unitLength block < Nat.pow 2 32 - 1) :
    ∃ rest, merge code e = .ok (pad code ++ commentStart ++ block ++ rest) ∧
      ∀ source' block', Text.unitLength source' = Text.unitLength (pad code) →
        Text.unitLength block' = Text.unitLength block →
        ((extract .builtins (source' ++ commentStart ++ block' ++ rest)).validation = .staleSource ↔
          ¬ Digest.Alike source' (pad code)) ∧
        (Digest.Alike source' (pad code) → ¬ Digest.Alike block' block →
          (extract .builtins (source' ++ commentStart ++ block' ++ rest)).validation = .staleCompiled) ∧
        (Digest.Alike source' (pad code) → block' = block →
          (extract .builtins (source' ++ commentStart ++ block' ++ rest)).validation = .fresh ∧
            (extract .builtins (source' ++ commentStart ++ block' ++ rest)).code = source') := by
  rw [blockOf_eq hserializable, Except.ok.injEq] at hblock
  subst hblock
  have hfits : Fits (pad code) (storedBlock e (pad code)) := by
    constructor <;> omega
  have hresolve : Registry.builtins.resolve e.engine.name e.engine.parameter = .ok .compiling := by
    rw [Engine.eq_compiling hserializable]
    rfl
  refine ⟨sealEnd (pad code) (storedBlock e (pad code)), ?_, fun source' block' hsame hsame' => ⟨?_, ?_, ?_⟩⟩
  · rw [merge_eq hserializable, sealedText_end]
  · exact validation_around _ commentStart hfits hsame hsame'
  · exact validation_around_alike _ commentStart hfits hsame hsame'
  · rintro halike rfl
    rw [extract_around_alike he.sound hresolve commentStart hfits hsame halike]
    exact ⟨rfl, rfl⟩

/-- Two words that change places are not noticed, and another digit is. -/
theorem extract_altered_capturing :
    ∃ rest, merge "x 1 +" capturing =
        .ok (pad "x 1 +" ++ commentStart ++ storedBlock capturing (pad "x 1 +") ++ rest) ∧
      (extract .builtins (pad "1 x +" ++ commentStart ++ storedBlock capturing (pad "x 1 +") ++ rest)).validation =
        .fresh ∧
      (extract .builtins (pad "1 x +" ++ commentStart ++ storedBlock capturing (pad "x 1 +") ++ rest)).code =
        pad "1 x +" ∧
      (extract .builtins (pad "x 2 +" ++ commentStart ++ storedBlock capturing (pad "x 1 +") ++ rest)).validation =
        .staleSource := by
  have hcompile : Engine.compiling.compile none "x 1 +" (some ⟨[⟨"x", .integer, .int 5, false⟩]⟩) =
      .ok capturing := rfl
  have hlength : Text.unitLength (storedBlock capturing (pad "x 1 +")) < Nat.pow 2 32 - 1 := by decide +kernel
  obtain ⟨rest, hmerge, hfound⟩ := extract_altered (.compiled hcompile) rfl (blockOf_eq rfl (pad "x 1 +"))
    (by decide +kernel) hlength
  obtain ⟨-, -, hfresh⟩ := hfound (pad "1 x +") _ (by decide +kernel) rfl
  obtain ⟨hnoticed, -, -⟩ := hfound (pad "x 2 +") _ (by decide +kernel) rfl
  obtain ⟨hvalidation, hcode⟩ := hfresh (by decide +kernel) rfl
  exact ⟨rest, hmerge, hvalidation, hcode, hnoticed.mpr (by decide +kernel)⟩

end SealedScript.Artifact
