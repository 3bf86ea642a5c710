import SealedScript.Proofs.Executable
import SealedScript.Proofs.Frozen

/-!
What compiling gives, in full.

The info block and the program decide about everything but what is captured, so the same text compiles against one
scope exactly when it compiles against another (`compile_eq_ok`).
-/

namespace SealedScript
set_option autoImplicit false

namespace Engine

/-- The executable of a program that is read under an info, with what it captures from a scope. -/
def executableOf (g : Engine) (info : Header.Info) (code : Text) (program : Program) (shape : Shape)
    (scope : Option Scope) : Executable :=
  let frozen := Frozen.capture (capturedNames info program scope) scope
  { engine := g, code, frozen, shape, captured := scope.elim [] frozen.valuesIn, body := .attached program }

variable {g : Engine} {fileName : Option Text} {code : Text} {scope : Option Scope} {e : Executable}
  {info : Header.Info} {program : Program} {shape : Shape}

/-- The parts that a text is read into, whatever it is compiled against. -/
structure Reads (g : Engine) (fileName : Option Text) (code : Text) (info : Header.Info) (program : Program)
    (shape : Shape) : Prop where
  declared : ∃ declared, Header.Info.ofCode? fileName code = .ok declared ∧
    info = declared.getD (g.defaultInfo fileName)
  compiled : g.compileProgram info code = .ok program
  shaped : shapeOf info = .ok shape

theorem compile_eq_ok : g.compile fileName code scope = .ok e ↔
    ∃ info program shape, g.Reads fileName code info program shape ∧
      e = g.executableOf info code program shape scope := by
  rw [compile]
  constructor
  · intro h
    obtain ⟨declared, hdeclared, h⟩ := bind_eq_ok.mp h
    obtain ⟨program, hprogram, h⟩ := bind_eq_ok.mp h
    obtain ⟨shape, hshape, h⟩ := bind_eq_ok.mp h
    cases h
    exact ⟨_, program, shape, ⟨⟨declared, hdeclared, rfl⟩, hprogram, hshape⟩, rfl⟩
  · rintro ⟨info, program, shape, ⟨⟨declared, hdeclared, rfl⟩, hprogram, hshape⟩, rfl⟩
    exact bind_eq_ok.mpr ⟨declared, hdeclared, bind_eq_ok.mpr ⟨program, hprogram, bind_eq_ok.mpr ⟨shape, hshape, rfl⟩⟩⟩

theorem shapeOf_cases (h : shapeOf info = .ok shape) :
    info.kind.toKind = .script ∧ shape = .script ∨ info.kind.toKind = .function ∧ shape = .function info.call ∨
      info.kind.toKind = .macroRoutine ∧ shape = .macroRoutine info.call := by
  rw [shapeOf] at h
  cases hkind : info.kind.toKind with
  | script =>
    rw [hkind] at h
    exact Or.inl ⟨rfl, (Except.ok.inj h).symm⟩
  | function =>
    rw [hkind] at h
    exact Or.inr (Or.inl ⟨rfl, (Shape.ofCall_eq_ok.mp h).1⟩)
  | macroRoutine =>
    rw [hkind] at h
    exact Or.inr (Or.inr ⟨rfl, (Shape.ofCall_eq_ok.mp h).1⟩)

theorem paramNames_of_shapeOf (h : shapeOf info = .ok shape) : shape.paramNames = paramNamesOf info := by
  rw [paramNamesOf]
  rcases shapeOf_cases h with ⟨hkind, rfl⟩ | ⟨hkind, rfl⟩ | ⟨hkind, rfl⟩ <;> rw [hkind] <;> rfl

theorem kind_of_shapeOf (h : shapeOf info = .ok shape) : shape.kind = info.kind.toKind := by
  rcases shapeOf_cases h with ⟨hkind, rfl⟩ | ⟨hkind, rfl⟩ | ⟨hkind, rfl⟩ <;> rw [hkind] <;> rfl

/-! ## Names -/

theorem mem_freeNames {names : List Text} {ops : List Op} {n : Text} :
    n ∈ Op.freeNames names ops ↔ Op.load n ∈ ops ∧ n ∉ names ∧ Op.store n ∉ ops := by
  have hloaded : n ∈ ops.filterMap Op.loaded? ↔ Op.load n ∈ ops := by
    rw [List.mem_filterMap]
    constructor
    · rintro ⟨op, hop, h⟩
      cases op <;> cases h
      exact hop
    · exact fun h => ⟨_, h, rfl⟩
  have hstored : n ∈ ops.filterMap Op.stored? ↔ Op.store n ∈ ops := by
    rw [List.mem_filterMap]
    constructor
    · rintro ⟨op, hop, h⟩
      cases op <;> cases h
      exact hop
    · exact fun h => ⟨_, h, rfl⟩
  simp only [Op.freeNames, List.mem_filter, List.mem_eraseDups, hloaded, Bool.and_eq_true, Bool.not_eq_true',
    List.contains_eq_mem, decide_eq_false_iff_not, hstored]

theorem mem_capturedNames {s : Scope} {n : Text} : n ∈ capturedNames info program (some s) ↔
    n ∈ Op.freeNames (paramNamesOf info) program.ops ∧ s.declares n = true := by
  simp [capturedNames]

/-- What is frozen is read freely by the program and declared by the scope. -/
theorem mem_frozen_names {n : Text} (h : n ∈ (g.executableOf info code program shape scope).frozen.names) :
    n ∈ Op.freeNames (paramNamesOf info) program.ops ∧ ∃ s, scope = some s ∧ s.declares n = true := by
  cases scope with
  | none => cases h
  | some s =>
    obtain ⟨hfree, hdeclares⟩ := mem_capturedNames.mp (Frozen.mem_names_capture h)
    exact ⟨hfree, s, rfl, hdeclares⟩

end Engine
end SealedScript
