import SealedScript.Executable.Call
import SealedScript.Executable.Compile
import SealedScript.Executable.Storage
import SealedScript.Proofs.Outcome
import SealedScript.Proofs.Wire.Data

/-!
Compiled executables and their stored twins.

`Executable.stored` is what a compiled executable becomes when it is written and read again: the same
executable with its image in the place of its program. Reading its record gives it (`ofRecord_form`), and
under the compiling engine it answers every call as the compiled one does (`callIn_stored`).
-/

namespace SealedScript
set_option autoImplicit false

/-! ## Shapes -/

namespace Shape

/-- A routine names each of its parameters, and no name is empty. -/
def Sound (s : Shape) : Prop :=
  ∀ call, s.call? = some call →
    call.paramNames.length = call.signature.params.length ∧ ∀ n ∈ call.paramNames, n ≠ []

theorem any_isEmpty_eq_false {names : List Text} :
    names.any List.isEmpty = false ↔ ∀ n ∈ names, n ≠ [] := by
  rw [List.any_eq_false]
  refine forall_congr' fun n => imp_congr_right fun _ => ?_
  rw [Bool.not_eq_true, List.isEmpty_eq_false_iff]

theorem ofCall_eq_ok {make : CallShape → Shape} {call : CallShape} {s : Shape} :
    ofCall make call = .ok s ↔ s = make call ∧
      call.paramNames.length = call.signature.params.length ∧ ∀ n ∈ call.paramNames, n ≠ [] := by
  rw [ofCall, ← any_isEmpty_eq_false]
  by_cases hlength : call.paramNames.length = call.signature.params.length
  · rw [if_neg (not_not_intro hlength)]
    cases hempty : call.paramNames.any List.isEmpty with
    | true => simp
    | false =>
      rw [if_neg Bool.false_ne_true, Except.ok.injEq]
      exact ⟨fun h => ⟨h.symm, hlength, rfl⟩, fun h => h.1.symm⟩
  · rw [if_pos hlength]
    exact ⟨fun h => (nomatch h), fun h => absurd h.2.1 hlength⟩

end Shape

namespace Engine

theorem eq_compiling {g : Engine} (h : g.isSerializable = true) : g = .compiling := by
  cases g with
  | compiling => rfl
  | interpreting => cases h

theorem shapeOf_sound {info : Header.Info} {s : Shape} (h : shapeOf info = .ok s) : s.Sound := by
  unfold shapeOf at h
  intro call hcall
  cases hkind : info.kind.toKind with
  | script =>
    rw [hkind, Except.ok.injEq] at h
    subst h
    cases hcall
  | function =>
    rw [hkind] at h
    obtain ⟨rfl, hsound⟩ := Shape.ofCall_eq_ok.mp h
    cases hcall
    exact hsound
  | macroRoutine =>
    rw [hkind] at h
    obtain ⟨rfl, hsound⟩ := Shape.ofCall_eq_ok.mp h
    cases hcall
    exact hsound

end Engine

/-! ## Compiled executables -/

namespace Executable

/-- What a compiler leaves: a program that is attached, and a sound shape. -/
structure Compiled (e : Executable) (program : Program) : Prop where
  attached : e.body = .attached program
  sound : e.shape.Sound

end Executable

/-- **What compiling gives.** -/
theorem Engine.compile_spec {g : Engine} {fileName : Option Text} {code : Text} {scope : Option Scope}
    {e : Executable} (h : g.compile fileName code scope = .ok e) :
    e.engine = g ∧ e.code = code ∧ ∃ program, e.Compiled program := by
  unfold Engine.compile at h
  obtain ⟨declared, -, h⟩ := bind_eq_ok.mp h
  obtain ⟨program, -, h⟩ := bind_eq_ok.mp h
  obtain ⟨shape, hshape, h⟩ := bind_eq_ok.mp h
  cases h
  exact ⟨rfl, rfl, program, rfl, Engine.shapeOf_sound hshape⟩

/-! ## Storage -/

namespace Executable

/-- The stored form of an executable, whatever its engine. -/
def form (e : Executable) : Record where
  kind := e.kind
  code := e.code
  frozen := e.frozen
  captured := e.captured
  signature := e.signature?
  paramNames := e.paramNames
  image := e.image

theorem toRecord_eq {e : Executable} (h : e.engine.isSerializable = true) : e.toRecord = .ok e.form := by
  rw [toRecord, if_pos h]
  rfl

/-- The executable under an engine, with its image in the place of its program. -/
def stored (e : Executable) (g : Engine) : Executable := { e with engine := g, body := .stored e.image }

@[simp] theorem stored_engine (e : Executable) (g : Engine) : (e.stored g).engine = g := rfl

@[simp] theorem stored_form (e : Executable) (g : Engine) : (e.stored g).form = e.form := rfl

theorem shapeOfRecord_form {e : Executable} (h : e.shape.Sound) : shapeOfRecord e.form = .ok e.shape := by
  unfold form kind signature? paramNames
  cases hshape : e.shape with
  | script => rfl
  | function call =>
    obtain ⟨hlength, hnames⟩ := h call (by rw [hshape]; rfl)
    exact Shape.ofCall_eq_ok.mpr ⟨rfl, hlength, hnames⟩
  | macroRoutine call =>
    obtain ⟨hlength, hnames⟩ := h call (by rw [hshape]; rfl)
    exact Shape.ofCall_eq_ok.mpr ⟨rfl, hlength, hnames⟩

/-- **A record gives back the executable it was made of**, under the engine that reads it. -/
theorem ofRecord_form {e : Executable} (h : e.shape.Sound) (g : Engine) :
    ofRecord e.form g = .ok (e.stored g) := by
  rw [ofRecord, shapeOfRecord_form h]
  rfl

/-! ## Calls -/

section Calls
variable {e : Executable} {program : Program}

theorem image_eq (h : e.Compiled program) : e.image = program.image := by
  rw [image, h.attached]

theorem program_stored (h : e.Compiled program) (hsize : e.image.length < Nat.pow 2 64) :
    (e.stored .compiling).program = e.program := by
  rw [image_eq h] at hsize
  rw [Executable.program, Executable.program, h.attached]
  show (Program.ofImage e.image).mapError Failure.codec = .ok program
  rw [image_eq h, Program.ofImage_image program hsize]
  rfl

/-- **A stored executable answers calls as the compiled one does.** -/
theorem callIn_stored (h : e.Compiled program) (hengine : e.engine = .compiling)
    (hsize : e.image.length < Nat.pow 2 64) (scope : Scope) (args : List Value) :
    ((e.stored .compiling).callIn scope args).result = (e.callIn scope args).result ∧
      ((e.stored .compiling).callIn scope args).scope = (e.callIn scope args).scope := by
  have hprogram : e.program = .ok program := by rw [Executable.program, h.attached]
  have hshape : (e.stored .compiling).shape = e.shape := rfl
  have hnames : (e.stored .compiling).paramNames = e.paramNames := rfl
  have hcaptured : (e.stored .compiling).captured = e.captured := rfl
  rw [callIn, callIn, program_stored h hsize, hprogram, hshape, hnames, hcaptured, stored_engine, hengine]
  cases e.shape.admitArgs args with
  | error err => exact ⟨rfl, rfl⟩
  | ok adjusted => exact ⟨rfl, rfl⟩

/-- Under an engine that stores nothing the image cannot be used, so every call whose arguments fit
fails and leaves the scope as it was. -/
theorem callIn_stored_interpreting (e : Executable) (scope : Scope) {args adjusted : List Value}
    (hargs : e.shape.admitArgs args = .ok adjusted) :
    ((e.stored .interpreting).callIn scope args).result =
        .error (Engine.interpreting.failure .noImage) ∧
      ((e.stored .interpreting).callIn scope args).scope = scope := by
  have hshape : (e.stored .interpreting).shape = e.shape := rfl
  rw [callIn, hshape, hargs]
  exact ⟨rfl, rfl⟩

end Calls
end Executable
end SealedScript
