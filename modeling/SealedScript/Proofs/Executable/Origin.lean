import SealedScript.Proofs.Executable

/-!
Where executables come from.

An executable is compiled or read from a record, and then it may be bound anew and called. However it came
about, its shape is sound (`Made.sound`). As long as it comes from source and is only bound anew, its program
stays attached (`FromSource.compiled_program`).
-/

namespace SealedScript
set_option autoImplicit false

namespace Executable

/-! ## Single steps -/

theorem shapeOfRecord_sound {record : Record} {s : Shape} (h : shapeOfRecord record = .ok s) : s.Sound := by
  unfold shapeOfRecord at h
  intro call hcall
  split at h
  · cases h
    cases hcall
  · obtain ⟨rfl, hsound⟩ := Shape.ofCall_eq_ok.mp h
    cases hcall
    exact hsound
  · obtain ⟨rfl, hsound⟩ := Shape.ofCall_eq_ok.mp h
    cases hcall
    exact hsound
  · cases h

theorem rebind_eq_ok {e e' : Executable} {scope : Scope} :
    e.rebind scope = .ok e' ↔
      e.frozen.checkRebind scope = .ok () ∧ e' = { e with captured := e.frozen.valuesIn scope } := by
  rw [rebind, bind_eq_ok]
  constructor
  · rintro ⟨⟨⟩, hcheck, h⟩
    cases h
    exact ⟨hcheck, rfl⟩
  · rintro ⟨hcheck, rfl⟩
    exact ⟨(), hcheck, rfl⟩

theorem callIn_shape (e : Executable) (scope : Scope) (args : List Value) :
    (e.callIn scope args).executable.shape = e.shape := by
  unfold callIn
  split
  · rfl
  · split
    · rfl
    · rfl

/-! ## Origins -/

/-- The executables that can be had at all. -/
inductive Made : Executable → Prop
  | compiled {g : Engine} {fileName : Option Text} {code : Text} {scope : Option Scope} {e : Executable} :
      g.compile fileName code scope = .ok e → Made e
  | read {record : Record} {g : Engine} {e : Executable} : ofRecord record g = .ok e → Made e
  | rebound {e e' : Executable} {scope : Scope} : Made e → e.rebind scope = .ok e' → Made e'
  | called {e : Executable} (scope : Scope) (args : List Value) : Made e → Made (e.callIn scope args).executable

theorem Made.sound {e : Executable} (h : e.Made) : e.shape.Sound := by
  induction h with
  | compiled hcompile =>
    obtain ⟨-, -, program, hcompiled⟩ := Engine.compile_spec hcompile
    exact hcompiled.sound
  | read hread =>
    obtain ⟨s, hshape, hread⟩ := bind_eq_ok.mp hread
    cases hread
    exact shapeOfRecord_sound hshape
  | rebound _ hrebind ih =>
    obtain ⟨-, rfl⟩ := rebind_eq_ok.mp hrebind
    exact ih
  | called scope args _ ih => rwa [callIn_shape]

/-- The executables that the compiling engine makes of source text, bound anew any number of times. -/
inductive FromSource : Executable → Prop
  | compiled {fileName : Option Text} {code : Text} {scope : Option Scope} {e : Executable} :
      Engine.compiling.compile fileName code scope = .ok e → FromSource e
  | rebound {e e' : Executable} {scope : Scope} : FromSource e → e.rebind scope = .ok e' → FromSource e'

theorem FromSource.compiled_program {e : Executable} (h : e.FromSource) :
    e.engine = .compiling ∧ ∃ program, e.Compiled program := by
  induction h with
  | compiled hcompile =>
    obtain ⟨hengine, -, hcompiled⟩ := Engine.compile_spec hcompile
    exact ⟨hengine, hcompiled⟩
  | rebound _ hrebind ih =>
    obtain ⟨hengine, program, hcompiled⟩ := ih
    obtain ⟨-, rfl⟩ := rebind_eq_ok.mp hrebind
    exact ⟨hengine, program, hcompiled.attached, hcompiled.sound⟩

end Executable
end SealedScript
