import SealedScript.Proofs.Executable.Capture
import SealedScript.Proofs.Executable.Origin

/-!
Binding anew against compiling anew.

A binding replaces the captured values and keeps the frozen types, so the last of several bindings is the one that
counts (`rebind_rebind`). Compiling again freezes the types of the new scope, and nothing else tells the two apart
(`rebind_recompiled`).
-/

namespace SealedScript
set_option autoImplicit false

namespace Executable

/-- The names that the program reads freely. -/
def freeNames (e : Executable) : Outcome (List Text) :=
  e.program.map fun program => Op.freeNames e.paramNames program.ops

/-- The frozen types have no part in a call. -/
theorem callIn_frozen (e : Executable) (frozen : Frozen) (scope : Scope) (args : List Value) :
    ({ e with frozen }.callIn scope args).result = (e.callIn scope args).result ∧
      ({ e with frozen }.callIn scope args).scope = (e.callIn scope args).scope := by
  have hprogram : { e with frozen }.program = e.program := rfl
  rw [callIn, callIn, hprogram]
  cases e.shape.admitArgs args with
  | error err => exact ⟨rfl, rfl⟩
  | ok adjusted => cases e.program <;> exact ⟨rfl, rfl⟩

theorem rebind_rebind {e e₀ e₂ : Executable} {s₀ s₂ : Scope} (h₀ : e.rebind s₀ = .ok e₀)
    (h₂ : e.rebind s₂ = .ok e₂) : e₀.rebind s₂ = .ok e₂ := by
  obtain ⟨-, rfl⟩ := rebind_eq_ok.mp h₀
  obtain ⟨hcheck, rfl⟩ := rebind_eq_ok.mp h₂
  exact rebind_eq_ok.mpr ⟨hcheck, rfl⟩

end Executable

namespace Engine

variable {g : Engine} {code : Text} {info : Header.Info} {program : Program} {shape : Shape} {s₁ s₂ : Scope}

theorem freeNames_executableOf (hshaped : shapeOf info = .ok shape) (scope : Option Scope) :
    (g.executableOf info code program shape scope).freeNames =
      .ok (Op.freeNames (paramNamesOf info) program.ops) := by
  rw [← paramNames_of_shapeOf hshaped]
  rfl

theorem capturedNames_congr
    (h : ∀ n ∈ Op.freeNames (paramNamesOf info) program.ops, s₁.declares n = s₂.declares n) :
    capturedNames info program (some s₁) = capturedNames info program (some s₂) :=
  List.filter_congr h

/-- Scopes that declare the same free names have them frozen under the same names. -/
theorem names_frozen_congr (g : Engine) (code : Text) (shape : Shape)
    (h : ∀ n ∈ Op.freeNames (paramNamesOf info) program.ops, s₁.declares n = s₂.declares n) :
    (g.executableOf info code program shape (some s₁)).frozen.names =
      (g.executableOf info code program shape (some s₂)).frozen.names := by
  show (Frozen.capture (capturedNames info program (some s₁)) (some s₁)).names =
    (Frozen.capture (capturedNames info program (some s₂)) (some s₂)).names
  rw [Frozen.names_capture, Frozen.names_capture, capturedNames_congr h]

theorem frozen_congr (g : Engine) (code : Text) (shape : Shape)
    (hdeclares : ∀ n ∈ Op.freeNames (paramNamesOf info) program.ops, s₁.declares n = s₂.declares n)
    (hty : ∀ n ∈ Op.freeNames (paramNamesOf info) program.ops, s₁.ty? n = s₂.ty? n) :
    (g.executableOf info code program shape (some s₁)).frozen =
      (g.executableOf info code program shape (some s₂)).frozen := by
  show Frozen.capture (capturedNames info program (some s₁)) (some s₁) =
    Frozen.capture (capturedNames info program (some s₂)) (some s₂)
  rw [capturedNames_congr hdeclares]
  exact Frozen.capture_congr fun n hn => hty n (mem_capturedNames.mp hn).1

end Engine

/-- **Binding anew is compiling anew.** Against a scope that declares the same free names, the text compiles to an
executable that captured what the one that was bound anew has, and both answer every call alike, with the same scope
afterwards. If the types are the same as well, the two are the same executable, records included. What was bound to
another scope in between makes no difference. -/
theorem Registry.rebind_recompiled {r : Registry} {name code : Text} {s₁ s₂ : Scope} {e₁ e₂ : Executable}
    {names : List Text} (hcompile : r.compileAgainst name code (some s₁) = .ok e₁)
    (hnames : e₁.freeNames = .ok names) (hsame : ∀ n ∈ names, s₁.declares n = s₂.declares n)
    (hrebind : e₁.rebind s₂ = .ok e₂) :
    ∃ e, r.compileAgainst name code (some s₂) = .ok e ∧ e.captured = e₂.captured ∧
      (∀ scope args, (e.callIn scope args).result = (e₂.callIn scope args).result ∧
        (e.callIn scope args).scope = (e₂.callIn scope args).scope) ∧
      ((∀ n ∈ names, s₁.ty? n = s₂.ty? n) → e = e₂) ∧
      ∀ s₀ e₀, e₁.rebind s₀ = .ok e₀ → e₀.rebind s₂ = .ok e₂ := by
  obtain ⟨g, hengine, hcompile⟩ := bind_eq_ok.mp hcompile
  obtain ⟨info, program, shape, hreads, rfl⟩ := Engine.compile_eq_ok.mp hcompile
  rw [Engine.freeNames_executableOf hreads.shaped, Except.ok.injEq] at hnames
  subst hnames
  have hlast : ∀ s₀ e₀, (g.executableOf info code program shape (some s₁)).rebind s₀ = .ok e₀ → e₀.rebind s₂ = .ok e₂ :=
    fun s₀ e₀ h₀ => Executable.rebind_rebind h₀ hrebind
  obtain ⟨-, rfl⟩ := Executable.rebind_eq_ok.mp hrebind
  have hanew : g.compile (some name) code (some s₂) = .ok (g.executableOf info code program shape (some s₂)) :=
    Engine.compile_eq_ok.mpr ⟨info, program, shape, hreads, rfl⟩
  have hnames := Engine.names_frozen_congr g code shape hsame
  have hbound : { g.executableOf info code program shape (some s₁) with
        captured := (g.executableOf info code program shape (some s₁)).frozen.valuesIn s₂ } =
      { g.executableOf info code program shape (some s₂) with
        frozen := (g.executableOf info code program shape (some s₁)).frozen } := by
    rw [Frozen.valuesIn_congr hnames]
    rfl
  rw [hbound]
  refine ⟨_, bind_eq_ok.mpr ⟨g, hengine, hanew⟩, rfl, fun scope args => ?_, fun hty => ?_, ?_⟩
  · have halike := Executable.callIn_frozen (g.executableOf info code program shape (some s₂))
      (g.executableOf info code program shape (some s₁)).frozen scope args
    exact ⟨halike.1.symm, halike.2.symm⟩
  · rw [Engine.frozen_congr g code shape hsame hty]
  · rw [← hbound]
    exact hlast

def counting (x : Value) : Scope := ⟨[⟨"z", .text, .text "z", true⟩, ⟨"x", .number, x, false⟩]⟩

/-- A macro that reads two names freely, compiled against a scope that declares the first. -/
def freeReader (x : Value) : Executable where
  engine := .compiling
  code := "// @RPN:\n// \x7b macro \x7d\nx Param0 len + y *\n"
  frozen := ⟨[("x", .number)]⟩
  captured := [("x", x)]
  shape := .macroRoutine .free
  body := .attached ⟨[.load "x", .load "Param0", .len, .arith .add, .load "y", .arith .mul], false⟩

theorem Registry.rebind_recompiled_freeReader :
    (freeReader (.int 5)).rebind (counting (.long 7)) = .ok (freeReader (.long 7)) ∧
      ∃ e, builtins.compileAgainst "t.rpn" (freeReader (.int 5)).code (some (counting (.long 7))) = .ok e ∧
        e.captured = [("x".toList, .long 7)] ∧
        (∀ scope args, (e.callIn scope args).result = ((freeReader (.long 7)).callIn scope args).result ∧
          (e.callIn scope args).scope = ((freeReader (.long 7)).callIn scope args).scope) ∧
        e = freeReader (.long 7) ∧
        ∀ s₀ e₀, (freeReader (.int 5)).rebind s₀ = .ok e₀ →
          e₀.rebind (counting (.long 7)) = .ok (freeReader (.long 7)) := by
  have hcompile : builtins.compileAgainst "t.rpn" (freeReader (.int 5)).code (some (counting (.int 5))) =
      .ok (freeReader (.int 5)) := rfl
  have hnames : (freeReader (.int 5)).freeNames = .ok ["x".toList, "y".toList] := rfl
  have hsame : ∀ n ∈ ["x".toList, "y".toList], (counting (.int 5)).declares n = (counting (.long 7)).declares n := by
    decide
  have hrebind : (freeReader (.int 5)).rebind (counting (.long 7)) = .ok (freeReader (.long 7)) := rfl
  obtain ⟨e, hanew, hcaptured, halike, hequal, hlast⟩ := rebind_recompiled hcompile hnames hsame hrebind
  exact ⟨hrebind, e, hanew, hcaptured, halike, hequal (by decide), hlast⟩

end SealedScript
