import SealedScript.Proofs.Artifact.Padding
import SealedScript.Proofs.Executable.Compile

/-!
The trailer of an artifact is a comment to the compiler (`compile_merge`).

A trailer is written with symbols of base64, digits and fixed words. None of them holds a star or an at sign, so
nothing in a trailer ends its comment early or starts an engine marker. The one opening brace that it has is the last
character of its line, so no info block starts there. And it begins behind a line feed, over which no header and no
token of a padded source reaches.
-/

namespace SealedScript
set_option autoImplicit false

open Header (marker? blockIn? behindLaunchLines EndsInLaunchLine)

/-! ## What trailers are written with -/

/-- The characters that end a comment, start an engine marker and start an info block. -/
def signals : Text := "*@\x7b"

theorem Base64.IsSymbol.not_signal {c : Char} (h : IsSymbol c) : c ∉ signals := by
  have hdigit : ∀ v, v < 64 → digit v ∉ signals := by decide +kernel
  rcases h with rfl | ⟨v, hv, rfl⟩
  · decide
  · exact hdigit v hv

theorem Digest.field_not_signal {n : Nat} {c : Char} (h : c ∈ field n) : c ∉ signals := by
  have hdigit : ∀ d, d < 16 → Numeral.hexDigit d ∉ signals := by decide
  rw [field_eq, List.mem_append] at h
  rcases h with hspace | hhex
  · rw [List.eq_of_mem_replicate hspace]
    decide
  · obtain ⟨d, hd, rfl⟩ := Numeral.exists_hexDigit hhex
    exact hdigit d hd

/-- No signal is among the characters of the text. -/
def Plain (t : Text) : Prop := ∀ c ∈ t, c ∉ signals

instance (t : Text) : Decidable (Plain t) := List.decidableBAll (· ∉ signals) t

theorem Plain.append {s t : Text} (hs : Plain s) (ht : Plain t) : Plain (s ++ t) := by
  intro c hc
  rcases List.mem_append.mp hc with hc | hc
  · exact hs c hc
  · exact ht c hc

theorem Plain.not_mem {t : Text} (h : Plain t) {c : Char} (hc : c ∈ signals) : c ∉ t := fun hmem => h c hmem hc

theorem Block.plain_wrap (width : Nat) (bs : Bytes) : Plain (wrap width (Base64.encode bs)) := by
  intro c hc hsignal
  have hfound : c ∈ (wrap width (Base64.encode bs)).filter (signals.contains ·) :=
    List.mem_filter.mpr ⟨hc, by simpa using hsignal⟩
  rw [filter_wrap (by decide), List.mem_filter] at hfound
  exact (Base64.encode_symbols bs c hfound.1).not_signal hsignal

namespace Artifact

/-- What follows the line that a block opens with, up to the last line of the comment. -/
def trailerLines (source block : Text) (bs : Bytes) : Text :=
  Block.wrap Block.width (Base64.encode bs) ++ '\n' :: Block.closing ++ hashesLine source block ++ countsLead
    ++ Digest.field (Text.unitLength source) ++ fieldSeparator ++ Digest.field (Text.unitLength block + 1) ++ [';']

theorem plain_trailerLines (source block : Text) (bs : Bytes) : Plain (trailerLines source block bs) := by
  have hsource : Plain (Digest.field (Text.unitLength source)) := fun c => Digest.field_not_signal
  have hblock : Plain (Digest.field (Text.unitLength block + 1)) := fun c => Digest.field_not_signal
  have hseparator : Plain fieldSeparator := by decide
  have hhashes : Plain (hashesLine source block) := by
    have hdigest : ∀ t, Plain (Digest.ofText t) := fun t c => Digest.field_not_signal
    have hlead : Plain hashesLead := by decide
    exact hlead.append ((hdigest source).append (hseparator.append ((hdigest block).append (by decide))))
  refine Plain.append ?_ (by decide)
  refine Plain.append ?_ hblock
  refine Plain.append ?_ hseparator
  refine Plain.append ?_ hsource
  refine Plain.append ?_ (by decide)
  refine Plain.append ?_ hhashes
  exact (Block.plain_wrap Block.width bs).append (by decide)

/-- The stars between the two characters that start a comment and the end of its first line. -/
def stars : Text := List.replicate (commentWidth - 2) '*'

/-- What the comment of a trailer holds between its start and its end. -/
def commentBody (source block : Text) (bs : Bytes) : Text :=
  stars ++ '\n' :: (Block.opening ++ '\n' :: (trailerLines source block bs ++ '\n' :: stars))

/-- **A trailer is one comment** on lines of its own. -/
theorem assemble_comment (g : Engine) (source : Text) (bs : Bytes) :
    assemble g source (Block.encode bs) =
      source ++ '\n' :: '/' :: '*' :: (commentBody source (Block.encode bs) bs ++ ['*', '/']) := by
  have hfirst : rule = '*' :: stars := rfl
  have hlast : rule = stars ++ ['*'] := by decide
  have hcomment : ∀ text, g.longComment text commentWidth =
      '/' :: '*' :: (stars ++ '\n' :: (text ++ '\n' :: (stars ++ ['*', '/']))) := by
    intro text
    show '/' :: (rule ++ '\n' :: (text ++ '\n' :: (rule ++ ['/']))) = _
    nth_rewrite 1 [hfirst]
    rw [hlast]
    simp
  rw [assemble, hcomment, sealedBlock, commentBody, trailerLines, hashesLine]
  nth_rewrite 1 [Block.encode_eq]
  simp [Block.lines]

theorem not_infix_of_not_mem {c : Char} {p t : Text} (hc : c ∈ p) (ht : c ∉ t) : ¬ p <:+: t :=
  fun h => ht (h.subset hc)

theorem not_end_in_commentBody (source block : Text) (bs : Bytes) : ¬ ['*', '/'] <:+: commentBody source block bs := by
  have hstars : ¬ ['*', '/'] <:+: stars := not_infix_of_not_mem (c := '/') (by decide) (by decide)
  have hopening : ¬ ['*', '/'] <:+: Block.opening := not_infix_of_not_mem (c := '*') (by decide) (by decide)
  have hlines : ¬ ['*', '/'] <:+: trailerLines source block bs :=
    not_infix_of_not_mem (c := '*') (by decide) ((plain_trailerLines source block bs).not_mem (by decide))
  have hfeed : '\n' ∉ ['*', '/'] := by decide
  rw [commentBody, Text.infix_across_line_iff hfeed, Text.infix_across_line_iff hfeed, Text.infix_across_line_iff hfeed]
  rintro (h | h | h | h)
  · exact hstars h
  · exact hopening h
  · exact hlines h
  · exact hstars h

/-! ## Compiling artifacts -/

theorem sign_not_mem_comment (source block : Text) (bs : Bytes) :
    '@' ∉ '/' :: '*' :: (commentBody source block bs ++ ['*', '/']) := by
  have hstars : '@' ∉ stars := by decide
  have hopening : '@' ∉ Block.opening := by decide
  have hlines := (plain_trailerLines source block bs).not_mem (c := '@') (by decide)
  simp [commentBody, hstars, hopening, hlines]

theorem blockIn?_comment (source block : Text) (bs : Bytes) :
    blockIn? ('/' :: '*' :: (commentBody source block bs ++ ['*', '/'])) = none := by
  have hfirst : blockIn? ('/' :: '*' :: stars) = none := by decide
  have hopening : blockIn? Block.opening = none := by decide
  have hlast : '\x7b' ∉ trailerLines source block bs ++ '\n' :: (stars ++ ['*', '/']) := by
    have hlines := (plain_trailerLines source block bs).not_mem (c := '\x7b') (by decide)
    have hstars : '\x7b' ∉ stars := by decide
    simp [hlines, hstars]
  have hbody : '/' :: '*' :: (commentBody source block bs ++ ['*', '/']) = '/' :: '*' :: stars ++ '\n' ::
      (Block.opening ++ '\n' :: (trailerLines source block bs ++ '\n' :: (stars ++ ['*', '/']))) := by
    simp [commentBody]
  rw [hbody, Header.blockIn?_line, hfirst, Header.blockIn?_line, hopening, Header.blockIn?_of_no_brace hlast]
  rfl

variable {r : Registry} {name source : Text} {ops : List Op}

/-- A source whose program can be read reads the same with a trailer behind it. -/
theorem readsAlike_assemble (g : Engine) (bs : Bytes) (hends : ¬ EndsInLaunchLine source)
    (hops : Op.parse (behindLaunchLines source) = .ok ops) :
    ReadsAlike source (assemble g source (Block.encode bs)) := by
  rw [assemble_comment]
  have hbehind := Header.behindLaunchLines_line hends
    ('/' :: '*' :: (commentBody source (Block.encode bs) bs ++ ['*', '/']))
  refine ⟨?_, ?_, ?_⟩
  · rw [marker?, marker?, hbehind]
    exact Header.markerFrom_line _ (sign_not_mem_comment _ _ _) false
  · rw [hbehind, Header.blockIn?_line, blockIn?_comment, Option.or_none]
  · rw [hbehind, hops]
    exact Op.parse_comment hops (not_end_in_commentBody _ _ _)

theorem parse_of_compile {compiled : Executable} (h : r.compile name source = .ok compiled) :
    ∃ ops, Op.parse (behindLaunchLines source) = .ok ops := by
  obtain ⟨g, -, hcompile⟩ := Registry.compile_spec h
  obtain ⟨info, program, shape, hreads, -⟩ := Engine.compile_eq_ok.mp hcompile
  obtain ⟨ops, hops, -⟩ := bind_eq_ok.mp hreads.compiled
  exact ⟨ops, mapError_eq_ok.mp hops⟩

/-- **The trailer is invisible to the compiler.** If a padded source compiles, then so does the artifact of it and any
executable that can be stored, trailer and all: with the same engine, to the same kind, signature, parameter names and
program. -/
theorem compile_merge {compiled e : Executable} (hpadded : pad source = source)
    (hcompile : r.compile name source = .ok compiled) (hserializable : e.engine.isSerializable = true) :
    ∃ artifact e', merge source e = .ok artifact ∧ r.compile name artifact = .ok e' ∧ e'.engine = compiled.engine ∧
      e'.kind = compiled.kind ∧ e'.signature? = compiled.signature? ∧ e'.paramNames = compiled.paramNames ∧
      e'.image = compiled.image := by
  obtain ⟨ops, hops⟩ := parse_of_compile hcompile
  have hmerge : merge source e = .ok (assemble e.engine source (storedBlock e source)) := by
    rw [merge_eq hserializable, hpadded, assemble_eq]
  have hends : ¬ EndsInLaunchLine source := by
    have h := not_endsInLaunchLine_pad source
    rwa [hpadded] at h
  have halike := r.compileAgainst_alike name none (readsAlike_assemble e.engine (envelopeOf e source).encode hends hops)
  rw [show r.compileAgainst name source none = .ok compiled from hcompile] at halike
  exact ⟨_, _, hmerge, halike, rfl, rfl, rfl, rfl, rfl⟩

/-- A source that ends in a line comment, and an executable of another source. -/
def remark : Text := "#!/bin/run @Fake: ##\n// @RPN:\n// \x7b function (a:Integer):Integer \x7d\na 2 * // twice\n\n\n"

theorem compile_merge_remark :
    ∃ artifact e', merge remark capturing = .ok artifact ∧ Registry.builtins.compile "t.rpn" artifact = .ok e' ∧
      e'.engine = .compiling ∧ e'.kind = .function ∧ e'.paramNames = ["a".toList] ∧
      e'.image = (Program.image ⟨[.load "a", .push (.int 2), .arith .mul], false⟩) := by
  have hcompile : Registry.builtins.compile "t.rpn" remark = .ok _ := rfl
  obtain ⟨artifact, e', hmerge, hcompile', hengine, hkind, -, hnames, himage⟩ :=
    compile_merge (e := capturing) (by decide) hcompile rfl
  exact ⟨artifact, e', hmerge, hcompile', hengine, hkind, hnames, himage⟩

end Artifact
end SealedScript
