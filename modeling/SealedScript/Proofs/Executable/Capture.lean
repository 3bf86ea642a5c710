import SealedScript.Proofs.Executable.Compile
import SealedScript.Proofs.Program.Run
import SealedScript.Proofs.Registry

/-!
Captured values against a scope that has not changed.

A program never stores a name that was captured for it, so the scope that the values were captured from still has them
at every later step of a run. A script or macro that was compiled against a scope therefore answers in that scope
as it does when it is compiled against none (`compile_uncaptured`). A function sees no scope, so for it the captured
values are all there is.
-/

namespace SealedScript
set_option autoImplicit false

namespace Executable

/-- Two executables with one program answer alike when the program runs alike under what they captured. -/
theorem callIn_alike (e e' : Executable) {program : Program} {scope : Scope} (hengine : e'.engine = e.engine)
    (hshape : e'.shape = e.shape) (hprogram : e.program = .ok program) (hprogram' : e'.program = .ok program)
    (hrun : ∀ adjusted,
      program.run e.engine.name ⟨e.paramNames, adjusted, e'.captured⟩ (if e.shape.seesScope then some scope else none) =
        program.run e.engine.name ⟨e.paramNames, adjusted, e.captured⟩
          (if e.shape.seesScope then some scope else none)) (args : List Value) :
    (e'.callIn scope args).result = (e.callIn scope args).result ∧
      (e'.callIn scope args).scope = (e.callIn scope args).scope := by
  have hnames : e'.paramNames = e.paramNames := by rw [paramNames, paramNames, hshape]
  rw [callIn, callIn, hprogram, hprogram', hshape, hengine, hnames]
  cases e.shape.admitArgs args with
  | error err => exact ⟨rfl, rfl⟩
  | ok adjusted =>
    simp only [hrun adjusted, and_self]

end Executable

namespace Engine

variable {g : Engine} {code : Text} {info : Header.Info} {program : Program} {shape : Shape} {s : Scope}

/-- What is captured from a scope under a name is read freely, and is the value that the scope has. -/
theorem lookup_captured {n : Text} {v : Value}
    (h : (g.executableOf info code program shape (some s)).captured.lookup n = some v) :
    n ∈ Op.freeNames (paramNamesOf info) program.ops ∧ s.value? n = some v := by
  have hfrozen : n ∈ (g.executableOf info code program shape (some s)).frozen.names ∧ v = (s.value? n).getD .null :=
    Frozen.lookup_valuesIn h
  obtain ⟨hmem, rfl⟩ := hfrozen
  obtain ⟨hfree, s, hscope, hdeclares⟩ := mem_frozen_names hmem
  cases hscope
  obtain ⟨v, hvalue⟩ := Scope.value?_of_declares hdeclares
  exact ⟨hfree, by rw [hvalue, Option.getD_some]⟩

/-- In the scope that they were captured from, the captured values make no difference. -/
theorem callIn_uncaptured (hsees : shape.seesScope = true) (args : List Value) :
    ((g.executableOf info code program shape none).callIn s args).result =
        ((g.executableOf info code program shape (some s)).callIn s args).result ∧
      ((g.executableOf info code program shape none).callIn s args).scope =
        ((g.executableOf info code program shape (some s)).callIn s args).scope := by
  have hkeeps : Machine.Keeps (some s) (g.executableOf info code program shape (some s)).captured :=
    fun n v hn => ⟨s, rfl, (lookup_captured hn).2⟩
  have hstored : ∀ name, .store name ∈ program.ops →
      (g.executableOf info code program shape (some s)).captured.lookup name = none := by
    intro name hname
    cases hsome : (g.executableOf info code program shape (some s)).captured.lookup name with
    | none => rfl
    | some v => exact absurd hname (mem_freeNames.mp (lookup_captured hsome).1).2.2
  have hprogram : ∀ scope, (g.executableOf info code program shape scope).program = .ok program := fun _ => rfl
  refine Executable.callIn_alike (g.executableOf info code program shape (some s))
    (g.executableOf info code program shape none) rfl rfl (hprogram _) (hprogram _) (fun adjusted => ?_) args
  rw [show (g.executableOf info code program shape (some s)).shape.seesScope = true from hsees, if_pos rfl]
  exact (Program.run_uncaptured g.name program ⟨shape.paramNames, adjusted, _⟩ hkeeps hstored).symm

end Engine

theorem Shape.seesScope_of_kind {shape : Shape} (h : shape.kind ≠ .function) : shape.seesScope = true := by
  cases shape with
  | function call => exact absurd rfl h
  | script | macroRoutine call => rfl

/-- **Capturing is transparent.** A script or macro that compiles against a scope compiles against none, and called in
that scope both give the same value or error and leave the same scope. -/
theorem Registry.compile_uncaptured {r : Registry} {name code : Text} {info : Header.Info} {scope : Scope}
    {e : Executable} (hdeclared : Header.Info.ofCode? (some name) code = .ok (some info))
    (hkind : info.kind = .script ∨ info.kind = .macroRoutine)
    (hcompile : r.compileAgainst name code (some scope) = .ok e) :
    ∃ e', r.compile name code = .ok e' ∧ ∀ args,
      (e'.callIn scope args).result = (e.callIn scope args).result ∧
        (e'.callIn scope args).scope = (e.callIn scope args).scope := by
  obtain ⟨g, hengine, hcompile⟩ := bind_eq_ok.mp hcompile
  obtain ⟨info', program, shape, hreads, rfl⟩ := Engine.compile_eq_ok.mp hcompile
  have hsees : shape.seesScope = true := by
    obtain ⟨declared, hdeclared', rfl⟩ := hreads.declared
    rw [hdeclared, Except.ok.injEq] at hdeclared'
    subst hdeclared'
    refine Shape.seesScope_of_kind ?_
    rw [Engine.kind_of_shapeOf hreads.shaped, Option.getD_some]
    rcases hkind with hkind | hkind <;> rw [hkind] <;> decide
  have hplain : g.compile (some name) code none = .ok (g.executableOf info' code program shape none) :=
    Engine.compile_eq_ok.mpr ⟨info', program, shape, hreads, rfl⟩
  exact ⟨_, bind_eq_ok.mpr ⟨g, hengine, hplain⟩, fun args => Engine.callIn_uncaptured hsees args⟩

/-- A macro that reads what it captured, stores another name and then fails. -/
def failingMacro : Text := "// @RPN:\n// \x7b macro \x7d\nx Param0 len + =y\ny 0 /\n"

def limits : Scope := ⟨[⟨"x", .integer, .int 7, true⟩, ⟨"y", .number, .null, false⟩]⟩

theorem Registry.compile_uncaptured_failingMacro :
    ∃ e e', builtins.compileAgainst "t.rpn" failingMacro (some limits) = .ok e ∧ e.captured = [("x".toList, Value.int 7)] ∧
      builtins.compile "t.rpn" failingMacro = .ok e' ∧ ∀ args,
        (e'.callIn limits args).result = (e.callIn limits args).result ∧
          (e'.callIn limits args).scope = (e.callIn limits args).scope := by
  have hdeclared : Header.Info.ofCode? (some "t.rpn") failingMacro =
      .ok (some (.bare (some "t.rpn") .macroRoutine)) := rfl
  have hcompile : builtins.compileAgainst "t.rpn" failingMacro (some limits) = .ok _ := rfl
  obtain ⟨e', hplain, halike⟩ := compile_uncaptured hdeclared (Or.inr rfl) hcompile
  exact ⟨_, e', hcompile, rfl, hplain, halike⟩

end SealedScript
