import SealedScript.Proofs.Artifact.Overflow
import SealedScript.Proofs.Artifact.Recompile

/-!
Text added between an artifact's source and its comment.

The recorded lengths count the source from the front and the block from the back, and nothing looks at what
stands between them but the search for a source that is already known to be changed. So an artifact that
can be read stays fresh when text is added there, and compiling it anew drops that text
(`noticed_iff_refused`).
-/

namespace SealedScript.Artifact
set_option autoImplicit false

/-- Text added behind the source of an artifact is noticed, and compiling anew keeps it. -/
def Noticed (source added comment : Text) : Prop :=
  (extract .builtins (source ++ added ++ '\n' :: comment)).validation ≠ .fresh ∧
    ∀ name e m, recompile .builtins name (source ++ added ++ '\n' :: comment) = .ok (e, m) →
      e.code = pad (source ++ added) ∧ source ++ added <+: m

variable {name text c : Text} {e : Executable}

theorem engine_of_comment (h : recompile .builtins name text = .ok (e, e.code ++ '\n' :: c)) :
    e.engine = .compiling ∧ c = comment e.code (storedBlock e e.code) := by
  cases hserializable : e.engine.isSerializable with
  | true =>
    have hm := recompile_comment h hserializable
    rw [List.append_cancel_left_eq] at hm
    exact ⟨Engine.eq_compiling hserializable, (List.cons.inj hm).2⟩
  | false =>
    have hm := congrArg List.length (recompile_source h hserializable)
    rw [List.length_append, List.length_cons] at hm
    omega

/-- **Added text is not looked at** when the lengths fit their fields. -/
theorem extract_grown (h : recompile .builtins name text = .ok (e, e.code ++ '\n' :: c))
    (hfits : Fits e.code (storedBlock e e.code)) (added : Text) :
    extract .builtins (e.code ++ added ++ '\n' :: c) = ⟨.fresh, e.code, some (e.stored .compiling)⟩ := by
  obtain ⟨hengine, rfl⟩ := engine_of_comment h
  obtain ⟨program, hcompiled⟩ := recompile_compiled h
  have hresolve : Registry.builtins.resolve e.engine.name e.engine.parameter = .ok .compiling := by
    rw [hengine]
    rfl
  rw [append_comment]
  exact extract_sealed hcompiled hresolve _ hfits

theorem recompile_grown (h : recompile .builtins name text = .ok (e, e.code ++ '\n' :: c))
    (hfits : Fits e.code (storedBlock e e.code)) (added : Text) :
    recompile .builtins name (e.code ++ added ++ '\n' :: c) = .ok (e, e.code ++ '\n' :: c) := by
  obtain ⟨-, hpad, -, -⟩ := recompile_spec h
  exact recompile_eq h (by rw [extract_grown h hfits added, hpad])

theorem not_noticed (h : recompile .builtins name text = .ok (e, e.code ++ '\n' :: c))
    (hfits : Fits e.code (storedBlock e e.code)) (added : Text) : ¬ Noticed e.code added c :=
  fun hnoticed => hnoticed.1 (by rw [extract_grown h hfits added])

/-- **When added text is noticed.** Text added behind the source of an artifact leaves it fresh and is
dropped by compiling anew, as long as the lengths of source and block fit their fields. It is noticed and
kept exactly if nothing is made of the trailer at all. -/
theorem noticed_iff_refused (h : recompile .builtins name text = .ok (e, e.code ++ '\n' :: c)) {added : Text}
    (hadded : added ≠ []) :
    ∃ block, blockOf e e.code = .ok block ∧
      (Fits e.code block →
        (∃ e', extract .builtins (e.code ++ added ++ '\n' :: c) = ⟨.fresh, e.code, some e'⟩) ∧
        recompile .builtins name (e.code ++ added ++ '\n' :: c) = .ok (e, e.code ++ '\n' :: c)) ∧
      (Noticed e.code added c ↔ TrailerRefused (e.code ++ added ++ '\n' :: c)) := by
  obtain ⟨hengine, hc⟩ := engine_of_comment h
  have hserializable : e.engine.isSerializable = true := by rw [hengine]; rfl
  have hsealed : e.code ++ added ++ '\n' :: c =
      sealedText e.code (added ++ commentStart) (storedBlock e e.code) := by rw [hc, append_comment]
  refine ⟨storedBlock e e.code, blockOf_eq hserializable e.code, fun hfits => ?_, ?_⟩
  · exact ⟨⟨_, extract_grown h hfits added⟩, recompile_grown h hfits added⟩
  by_cases hfits : Fits e.code (storedBlock e e.code)
  · have hread : ¬ TrailerRefused (e.code ++ added ++ '\n' :: c) := by
      rw [hsealed]
      exact not_trailerRefused hfits
    exact iff_of_false (not_noticed h hfits added) hread
  · obtain ⟨hstale, -, hkept, hlost⟩ := extract_overflow .builtins added hfits
    rw [storedBlock] at hsealed
    rw [← hsealed] at hstale hkept hlost
    constructor
    · intro hnoticed
      -- Otherwise the source comes out alone, and compiling it succeeds as it did before.
      refine Classical.byContradiction fun hread => ?_
      obtain ⟨-, hpad, -, -⟩ := recompile_spec h
      have hsame : recompile .builtins name (e.code ++ added ++ '\n' :: c) = .ok (e, e.code ++ '\n' :: c) :=
        recompile_eq h (by rw [hlost hread, hpad])
      have hcode := congrArg List.length (hnoticed.2 _ _ _ hsame).1
      have hlength := (prefix_pad (e.code ++ added)).length_le
      have hpos := List.length_pos_iff.mpr hadded
      rw [List.length_append] at hlength
      omega
    · intro hrefused
      refine ⟨hstale, fun name' e' m' h' => ?_⟩
      obtain ⟨hcode, -, -, -⟩ := recompile_spec h'
      rw [hkept hrefused] at hcode
      exact ⟨hcode, (hcode ▸ prefix_pad (e.code ++ added)).trans (code_prefix_recompile h')⟩

def sampleComment : Text :=
  comment (compiledSample "RPN").code (storedBlock (compiledSample "RPN") (compiledSample "RPN").code)

theorem recompile_sample : recompile .builtins "t.rpn" (sample "RPN") =
    .ok (compiledSample "RPN", (compiledSample "RPN").code ++ '\n' :: sampleComment) :=
  recompile_of_compile (by decide +kernel) rfl rfl

theorem noticed_iff_refused_sample :
    ∃ block, blockOf (compiledSample "RPN") (compiledSample "RPN").code = .ok block ∧
      (Fits (compiledSample "RPN").code block →
        (∃ e', extract .builtins ((compiledSample "RPN").code ++ ['2', '\n'] ++ '\n' :: sampleComment) =
          ⟨.fresh, (compiledSample "RPN").code, some e'⟩) ∧
        recompile .builtins "t.rpn" ((compiledSample "RPN").code ++ ['2', '\n'] ++ '\n' :: sampleComment) =
          .ok (compiledSample "RPN", (compiledSample "RPN").code ++ '\n' :: sampleComment)) ∧
      (Noticed (compiledSample "RPN").code ['2', '\n'] sampleComment ↔
        TrailerRefused ((compiledSample "RPN").code ++ ['2', '\n'] ++ '\n' :: sampleComment)) :=
  noticed_iff_refused recompile_sample (by decide)

/-- A line added behind the source of the script is neither noticed nor kept. -/
theorem added_line_lost :
    recompile .builtins "t.rpn" (sample "RPN") =
        .ok (compiledSample "RPN", (compiledSample "RPN").code ++ '\n' :: sampleComment) ∧
      ¬ Noticed (compiledSample "RPN").code ['2', '\n'] sampleComment :=
  ⟨recompile_sample, not_noticed recompile_sample (by decide +kernel) ['2', '\n']⟩

end SealedScript.Artifact
