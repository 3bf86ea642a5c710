import SealedScript.Proofs.Artifact.Recompile
import SealedScript.Proofs.Header.Line
import SealedScript.Proofs.Program.Parse

/-!
Padding and what is compiled.

A compiler reads three things in a text: the engine marker, the info block and the program, all behind the launch
lines. Texts that agree in them compile to the same (`compileAgainst_alike`). The line feeds that padding adds leave
them as they are, except that they end a last line that would be a launch line if it were ended; then that line is
skipped and there is nothing left to compile (`compileAgainst_pad`).
-/

namespace SealedScript
set_option autoImplicit false

open Header (marker? blockIn? behindLaunchLines EndsInLaunchLine)

/-! ## Texts that read alike -/

/-- The second text has the engine marker, the info block and the program of the first one. -/
structure ReadsAlike (code code' : Text) : Prop where
  marker : marker? code' = marker? code
  block : blockIn? (behindLaunchLines code') = blockIn? (behindLaunchLines code)
  ops : Op.parse (behindLaunchLines code') = Op.parse (behindLaunchLines code)

variable {code code' : Text}

theorem Engine.compile_alike (g : Engine) (fileName : Option Text) (scope : Option Scope) (h : ReadsAlike code code') :
    g.compile fileName code' scope = (g.compile fileName code scope).map fun e => { e with code := code' } := by
  have hinfo : Header.Info.ofCode? fileName code' = Header.Info.ofCode? fileName code := by
    rw [Header.Info.ofCode?, Header.Info.ofCode?, h.block]
  have hprogram : ∀ info, g.compileProgram info code' = g.compileProgram info code := by
    intro info
    rw [compileProgram, compileProgram, h.ops]
  rw [compile, compile, hinfo]
  cases Header.Info.ofCode? fileName code with
  | error err => rfl
  | ok declared =>
    simp only [hprogram, bind, Except.bind]
    cases g.compileProgram (declared.getD (g.defaultInfo fileName)) code with
    | error err => rfl
    | ok program =>
      dsimp only
      cases shapeOf (declared.getD (g.defaultInfo fileName)) with
      | error err => rfl
      | ok shape => rfl

/-- **Texts that read alike compile alike**, to executables that differ in the text they record. -/
theorem Registry.compileAgainst_alike (r : Registry) (name : Text) (scope : Option Scope) (h : ReadsAlike code code') :
    r.compileAgainst name code' scope = (r.compileAgainst name code scope).map fun e => { e with code := code' } := by
  have hengine : r.engineFor code' = r.engineFor code := by rw [engineFor, engineFor, h.marker]
  rw [compileAgainst, compileAgainst, hengine]
  cases r.engineFor code with
  | error err => rfl
  | ok g => exact g.compile_alike (some name) scope h

/-! ## Line feeds at the end -/

theorem not_mem_lines {c : Char} (hc : c ≠ '\n') (n : Nat) : c ∉ List.replicate n '\n' :=
  fun hmem => hc (List.eq_of_mem_replicate hmem)

theorem behindLaunchLines_lines (n : Nat) : behindLaunchLines (List.replicate n '\n') = List.replicate n '\n' := by
  cases n with
  | zero => rfl
  | succ n => rfl

/-- A text whose last line is no launch line reads the same with line feeds behind it. -/
theorem readsAlike_lines (h : ¬ EndsInLaunchLine code) (n : Nat) :
    ReadsAlike code (code ++ List.replicate n '\n') := by
  cases n with
  | zero =>
    rw [List.replicate_zero, List.append_nil]
    exact ⟨rfl, rfl, rfl⟩
  | succ n =>
    have hbehind := Header.behindLaunchLines_line h (List.replicate n '\n')
    rw [← List.replicate_succ] at hbehind
    refine ⟨?_, ?_, ?_⟩
    · rw [marker?, marker?, hbehind]
      exact Header.markerFrom_line _ (not_mem_lines (by decide) n) false
    · rw [hbehind, List.replicate_succ, Header.blockIn?_line,
        Header.blockIn?_of_no_brace (not_mem_lines (by decide) n), Option.or_none]
    · rw [hbehind, Op.parse_lines]

/-- A launch line that is ended at the end of a text leaves nothing to compile. -/
theorem readsAlike_ended (h : EndsInLaunchLine code) (n : Nat) :
    ReadsAlike [] (code ++ List.replicate (n + 1) '\n') := by
  have hbehind := Header.behindLaunchLines_ended h (List.replicate n '\n')
  rw [← List.replicate_succ, behindLaunchLines_lines] at hbehind
  refine ⟨?_, ?_, ?_⟩
  · rw [marker?, hbehind, Header.markerFrom_of_no_sign (not_mem_lines (by decide) n)]
    rfl
  · rw [hbehind, Header.blockIn?_of_no_brace (not_mem_lines (by decide) n)]
    rfl
  · have hlines := Op.parse_lines [] n
    rw [List.nil_append] at hlines
    rw [hbehind, hlines]
    rfl

namespace Artifact

theorem not_endsInLaunchLine_pad (t : Text) : ¬ EndsInLaunchLine (pad t) := by
  obtain ⟨front, hfront⟩ := three_suffix_pad t
  have hline : front ++ List.replicate 3 '\n' = front ++ List.replicate 2 '\n' ++ ['\n'] := by
    rw [List.append_assoc]
    rfl
  rw [← hfront, hline]
  exact Header.not_endsInLaunchLine_line _

/-- What padding leaves to compile. -/
theorem readsAlike_pad (code : Text) : ReadsAlike (if EndsInLaunchLine code then [] else code) (pad code) := by
  split
  case isFalse h => exact readsAlike_lines h _
  case isTrue h =>
    cases hadded : 3 - lineFeeds code with
    | zero =>
      -- Such a text has its last line feed.
      have hsame : pad code = code := by rw [pad_eq, hadded, List.replicate_zero, List.append_nil]
      exact absurd h (hsame ▸ not_endsInLaunchLine_pad code)
    | succ n =>
      rw [pad_eq, hadded]
      exact readsAlike_ended h n

/-- **Padding and compiling.** A padded text compiles as the text does that was padded, against any scope and with any
engines, to the same failure or to an executable that differs in the text it records. Only a text of launch lines that
lacks its last line feed is different: padding ends that line, and what is compiled is the empty text. -/
theorem compileAgainst_pad (r : Registry) (name code : Text) (scope : Option Scope) :
    r.compileAgainst name (pad code) scope =
      (r.compileAgainst name (if EndsInLaunchLine code then [] else code) scope).map
        fun e => { e with code := pad code } :=
  r.compileAgainst_alike name scope (readsAlike_pad code)

/-- A marker in a line that padding makes a launch line is not found any more. -/
theorem padded_marker_lost :
    (∃ e, Registry.builtins.compileAgainst "t.rpn" "// @RPN: ##" none = .ok e ∧ e.engine = .compiling) ∧
      Registry.builtins.compileAgainst "t.rpn" (pad "// @RPN: ##") none = .error .noEngineMarker :=
  ⟨⟨_, rfl, rfl⟩, rfl⟩

end Artifact
end SealedScript
