import SealedScript.CommandLine
import SealedScript.Proofs.Executable.Capture
import SealedScript.Proofs.Header.Line
import SealedScript.Proofs.Program.Compose
import SealedScript.Proofs.Signature.Adjust

/-!
Evaluating a text that declares nothing.

Such a text is compiled behind a line that declares a script, which reads as a comment. So the text reads as it does
alone, with its faults as many bytes further on as that line takes, and runs in a scope that holds the arguments and
nothing else. But the line stands in front of any launch lines, and behind it there are none to skip: the launch lines
of the text are read as program text (`evaluate_undeclared`).
-/

namespace SealedScript.Command
set_option autoImplicit false

open Header (behindLaunchLines)

/-- The scope in which a text is evaluated: one constant that holds the arguments. -/
def argumentsScope (args : List Text) : Scope :=
  ⟨[⟨argumentsName, .array .text, .array .text (args.map fun arg => .text (String.ofList arg)), true⟩]⟩

/-- What a script answers that runs `before` and then the program in a text which stands `k` bytes behind the start of
what is compiled. -/
def answerOf (g : Engine) (before : List Op) (k : Nat) (t : Text) (scope : Scope) : Outcome Value := do
  let ops ← (Op.parse t).mapError fun fault => g.failure (fault.later k)
  (Program.run g.name ⟨before ++ ops, false⟩ ⟨[], [], []⟩ (some scope)).1

variable {g : Engine} {r : Registry} {code engine t : Text}

/-! ## The arguments -/

theorem evalScope_eq (args : List Text) : evalScope args = .ok (argumentsScope args) := by
  have hfit : (Ty.array .text).accepts (.array .text (args.map fun arg => .text (String.ofList arg))) = true := rfl
  exact mapError_eq_ok.mpr (Scope.declare_eq_ok.mpr ⟨List.cons_ne_nil _ _, rfl, hfit, rfl⟩)

/-! ## Behind the header -/

theorem parse_header (t : Text) :
    Op.parse (scriptHeader ++ t) = (Op.parse t).mapError (.later (Text.byteLength scriptHeader)) := by
  have hline : Op.parse "// \x7b script \x7d" = .ok [] := rfl
  have hcompose := Op.parse_append_line hline t
  have hwidth : Text.byteLength "// \x7b script \x7d" + 1 = Text.byteLength scriptHeader := rfl
  rw [hwidth] at hcompose
  refine hcompose.trans ?_
  cases Op.parse t <;> rfl

theorem behindLaunchLines_header (t : Text) : behindLaunchLines (scriptHeader ++ t) = scriptHeader ++ t := rfl

theorem ofCode?_header (name : Option Text) (t : Text) :
    Header.Info.ofCode? name (scriptHeader ++ t) = .ok (some (.bare name .script)) := by
  have hblock : Header.blockIn? (scriptHeader ++ t) = some ⟨"script", []⟩ :=
    Header.blockIn?_line "// \x7b script \x7d" t
  rw [Header.Info.ofCode?, behindLaunchLines_header, hblock]
  rfl

theorem compile_header (g : Engine) (name : Option Text) (t : Text) (scope : Option Scope) :
    g.compile name (scriptHeader ++ t) scope =
      ((Op.parse t).mapError fun fault => g.failure (fault.later (Text.byteLength scriptHeader))).map fun ops =>
        g.executableOf (.bare name .script) (scriptHeader ++ t) ⟨ops, false⟩ .script scope := by
  rw [Engine.compile, ofCode?_header]
  show (Engine.compileProgram g (.bare name .script) (scriptHeader ++ t) >>= _) = _
  rw [Engine.compileProgram, behindLaunchLines_header, parse_header]
  cases Op.parse t <;> rfl

/-- A script runs its program in the scope that it was compiled against, and captures nothing that is not there. -/
theorem callIn_script (g : Engine) (name : Option Text) (code : Text) (ops : List Op) (scope : Scope) :
    ((g.executableOf (.bare name .script) code ⟨ops, false⟩ .script (some scope)).callIn scope []).result =
      (Program.run g.name ⟨ops, false⟩ ⟨[], [], []⟩ (some scope)).1 := by
  have huncaptured : ((g.executableOf (.bare name .script) code ⟨ops, false⟩ .script none).callIn scope []).result =
      ((g.executableOf (.bare name .script) code ⟨ops, false⟩ .script (some scope)).callIn scope []).result :=
    (Engine.callIn_uncaptured rfl []).1
  rw [← huncaptured]
  show (Program.run g.name ⟨ops, false⟩ ⟨[], [], []⟩ (some scope)).1.bind Except.ok = _
  cases (Program.run g.name ⟨ops, false⟩ ⟨[], [], []⟩ (some scope)).1 <;> rfl

theorem compileText_undeclared (hdeclared : Header.Info.ofCode? none code = .ok none)
    (hset : Registry.builtins.setDefault (some engine) = .ok r) (hengine : r.engineFor code = .ok g)
    (args : List Text) :
    compileText code engine args =
      ((Op.parse code).mapError fun fault => g.failure (fault.later (Text.byteLength scriptHeader))).map fun ops =>
        (g.executableOf (.bare (some evalName) .script) (scriptHeader ++ code) ⟨ops, false⟩ .script
          (some (argumentsScope args)), argumentsScope args) := by
  have hchosen : compileText code engine args = do
      let scope ← evalScope args
      let e ← g.compile (some evalName) (scriptHeader ++ code) (some scope)
      return (e, scope) := by
    rw [compileText, hset]
    show (r.engineFor code >>= _) = _
    rw [hengine]
    show (Header.Info.ofCode? none code >>= _) = _
    rw [hdeclared]
    rfl
  rw [hchosen, evalScope_eq]
  show (g.compile (some evalName) (scriptHeader ++ code) (some (argumentsScope args)) >>= _) = _
  rw [compile_header]
  cases Op.parse code <;> rfl

/-- The whole text is the program. -/
theorem evaluate_eq_answerOf (hdeclared : Header.Info.ofCode? none code = .ok none)
    (hset : Registry.builtins.setDefault (some engine) = .ok r) (hengine : r.engineFor code = .ok g)
    (args : List Text) :
    evaluate code engine args =
      (answerOf g [] (Text.byteLength scriptHeader) code (argumentsScope args)).mapError .script := by
  rw [evaluate, compileText_undeclared hdeclared hset hengine, answerOf]
  cases Op.parse code with
  | error fault => rfl
  | ok ops => exact congrArg (Except.mapError CommandFault.script) (callIn_script g (some evalName) _ ops _)

/-! ## Behind the launch lines -/

/-- Lines that read by themselves are a program of their own in front of the rest. -/
theorem answerOf_line {lines : Text} {before : List Op} (hlines : Op.parse lines = .ok before) (k : Nat) (t : Text)
    (scope : Scope) : answerOf g [] k (lines ++ '\n' :: t) scope =
      answerOf g before (k + (Text.byteLength lines + 1)) t scope := by
  rw [answerOf, answerOf, Op.parse_append_line hlines]
  cases Op.parse t with
  | error fault =>
    have hlater : (fault.later (Text.byteLength lines + 1)).later k =
        fault.later (k + (Text.byteLength lines + 1)) := fault.later_later k _
    exact congrArg (fun fault => Except.error (g.failure fault)) hlater
  | ok ops => rfl

/-- **Launch lines of an evaluated text are program text.** A text that declares nothing runs, with all its launch
lines, as a script in a scope that holds the arguments alone, and faults are counted from the start of the line in
front of it. Where its launch lines read by themselves, their operations run in front of the program behind them; where
they hold a word that is no token, that is the failure. -/
theorem evaluate_undeclared (hdeclared : Header.Info.ofCode? none code = .ok none)
    (hset : Registry.builtins.setDefault (some engine) = .ok r) (hengine : r.engineFor code = .ok g)
    (args : List Text) :
    evaluate code engine args =
        (answerOf g [] (Text.byteLength scriptHeader) code (argumentsScope args)).mapError .script ∧
      ∀ lines, code = lines ++ '\n' :: behindLaunchLines code →
        (∀ before, Op.parse lines = .ok before →
          evaluate code engine args =
            (answerOf g before (Text.byteLength scriptHeader + (Text.byteLength lines + 1)) (behindLaunchLines code)
              (argumentsScope args)).mapError .script) ∧
        ∀ word offset, Op.parse lines = .error (.unexpectedToken word offset) →
          evaluate code engine args =
            .error (.script (g.failure (.unexpectedToken word (Text.byteLength scriptHeader + offset)))) := by
  have hwhole := evaluate_eq_answerOf hdeclared hset hengine args
  refine ⟨hwhole, fun lines hcode => ⟨fun before hlines => ?_, fun word offset hlines => ?_⟩⟩
  · rw [hwhole, ← answerOf_line hlines, ← hcode]
  · have hcodeFault : Op.parse code = .error (.unexpectedToken word offset) := by
      rw [hcode]
      exact Op.parse_append_line_unexpected hlines _
    rw [hwhole, answerOf, hcodeFault]
    rfl

/-- A launch line that is a comment, and one that is none. -/
theorem evaluate_undeclared_launched :
    evaluate "#!rpn eval ##\n$MainArgs len" "RPN" ["a", "b"] =
        .error (.script (Engine.compiling.failure (.unexpectedToken "#!rpn" 14))) ∧
      evaluate "// rpn eval ##\n$MainArgs len" "rpn" ["a", "b"] = .ok (.int 2) := by
  have hbare : Header.Info.ofCode? none "#!rpn eval ##\n$MainArgs len" = .ok none := rfl
  have hcomment : Header.Info.ofCode? none "// rpn eval ##\n$MainArgs len" = .ok none := rfl
  have hlong : Registry.builtins.setDefault (some "RPN") = .ok { Registry.builtins with default? := some "RPN" } := rfl
  have hshort : Registry.builtins.setDefault (some "rpn") = .ok { Registry.builtins with default? := some "rpn" } := rfl
  refine ⟨((evaluate_undeclared hbare hlong rfl ["a", "b"]).2 "#!rpn eval ##" rfl).2 "#!rpn" 0 rfl, ?_⟩
  exact (((evaluate_undeclared hcomment hshort rfl ["a", "b"]).2 "// rpn eval ##" rfl).1 [] rfl).trans rfl

/-- Launch lines are not skipped: behind that of this text stands a two, and evaluating it fails at the number signs. -/
theorem launch_lines_evaluated : ¬ ∀ (code engine : Text) (args : List Text) (r : Registry) (g : Engine),
    Header.Info.ofCode? none code = .ok none → Registry.builtins.setDefault (some engine) = .ok r →
      r.engineFor code = .ok g → ∃ k, evaluate code engine args =
        (answerOf g [] k (behindLaunchLines code) (argumentsScope args)).mapError .script := by
  intro h
  obtain ⟨k, hk⟩ := h "1 ##\n2" "RPN" [] { Registry.builtins with default? := some "RPN" } .compiling rfl rfl rfl
  have hfails : evaluate "1 ##\n2" "RPN" [] =
      .error (.script (Engine.compiling.failure (.unexpectedToken "##" 16))) := rfl
  have hskipped : answerOf .compiling [] k (behindLaunchLines "1 ##\n2") (argumentsScope []) = .ok (.int 2) := rfl
  rw [hfails, hskipped] at hk
  cases hk

end SealedScript.Command
