import SealedScript.Proofs.Artifact.Overflow
import SealedScript.Proofs.Artifact.Recompile

/-!
Artifacts put to use under the registry that they were compiled with.

A block names its engine by name and option, and the compiling engine has no option. A registry whose only
engine is the interpreting one still compiles a script that asks for compiling, but takes the artifact for
one of its own engine, which cannot load the program. So an artifact stands in for what was compiled
exactly if the compiling engine is the registered one and the lengths fit their fields
(`resolve_agrees_iff`).
-/

namespace SealedScript.Artifact
set_option autoImplicit false

/-- Using the artifact without leave to force a rebuild gives, without one, an executable that has the
option of `e` and answers every call as `e` does, with the same scope afterwards. -/
def Agrees (r : Registry) (name artifact : Text) (e : Executable) (recompile : Bool) : Prop :=
  ∃ x e', resolve r name artifact ⟨recompile, false⟩ = .ok x ∧ x.rebuilt = false ∧ x.executable = some e' ∧
    e'.engine.parameter = e.engine.parameter ∧
    ∀ scope args, (e'.callIn scope args).result = (e.callIn scope args).result ∧
      (e'.callIn scope args).scope = (e.callIn scope args).scope

variable {r : Registry} {g : Engine} {name text m : Text} {e : Executable}

/-- An artifact whose lengths fit is used as it is, under the only engine of the registry. -/
theorem resolve_fits (hr : r.engines = [g]) (h : recompile r name text = .ok (e, m))
    (hserializable : e.engine.isSerializable = true) (hfits : Fits e.code (storedBlock e e.code))
    (leave : Bool) :
    resolve r name m ⟨leave, false⟩ = .ok ⟨some (e.stored g), e.code, .fresh, false⟩ := by
  rw [resolve, extract_recompile hr h hserializable hfits]
  rfl

/-- An artifact whose lengths do not fit is never used as it is. -/
theorem resolve_overflow (h : recompile r name text = .ok (e, m))
    (hserializable : e.engine.isSerializable = true) (hover : ¬ Fits e.code (storedBlock e e.code))
    {leave : Bool} {x : Resolved} (hx : resolve r name m ⟨leave, false⟩ = .ok x) :
    x.rebuilt = true ∨ x.executable = none := by
  obtain ⟨-, hnone, -, -⟩ := extract_overflow r [] hover
  rw [List.nil_append, ← storedBlock, ← recompile_sealed h hserializable] at hnone
  unfold resolve at hx
  simp only [hnone, Option.isSome_none, Bool.false_and, Bool.false_eq_true, if_false, Bool.false_or] at hx
  cases leave with
  | true =>
    rw [if_pos rfl] at hx
    obtain ⟨e', -, hx⟩ := bind_eq_ok.mp hx
    cases hx
    exact Or.inl rfl
  | false =>
    rw [if_neg Bool.false_ne_true] at hx
    split at hx
    · cases hx
    · cases hx
      exact Or.inr rfl

theorem agrees_of_compiling (hr : r.engines = [.compiling]) (h : recompile r name text = .ok (e, m))
    (hserializable : e.engine.isSerializable = true) (hfits : Fits e.code (storedBlock e e.code))
    (leave : Bool) : Agrees r name m e leave := by
  obtain ⟨program, hcompiled⟩ := recompile_compiled h
  have hengine := Engine.eq_compiling hserializable
  have hblock : Text.unitLength (storedBlock e e.code) < Nat.pow 2 32 := by
    have := hfits.2
    omega
  refine ⟨_, _, resolve_fits hr h hserializable hfits leave, rfl, rfl, ?_, fun scope args => ?_⟩
  · rw [Executable.stored_engine, hengine]
  · exact Executable.callIn_stored hcompiled hengine (length_image_lt hblock) scope args

theorem not_agrees_of_interpreting (hr : r.engines = [.interpreting]) (h : recompile r name text = .ok (e, m))
    (hserializable : e.engine.isSerializable = true) (hfits : Fits e.code (storedBlock e e.code))
    (leave : Bool) : ¬ Agrees r name m e leave := by
  rintro ⟨x, e', hx, -, hexecutable, hparameter, -⟩
  rw [resolve_fits hr h hserializable hfits leave, Except.ok.injEq] at hx
  rw [← hx, Option.some.injEq] at hexecutable
  rw [← hexecutable, Executable.stored_engine, Engine.eq_compiling hserializable] at hparameter
  cases hparameter

theorem not_agrees_of_overflow (h : recompile r name text = .ok (e, m))
    (hserializable : e.engine.isSerializable = true) (hover : ¬ Fits e.code (storedBlock e e.code))
    (leave : Bool) : ¬ Agrees r name m e leave := by
  rintro ⟨x, e', hx, hrebuilt, hexecutable, -⟩
  rcases resolve_overflow h hserializable hover hx with hanew | hnone
  · rw [hrebuilt] at hanew
    cases hanew
  · rw [hexecutable] at hnone
    cases hnone

/-- **When an artifact agrees with what was compiled.** Under a registry of the compiling engine it does as
long as its lengths fit. Under one of the interpreting engine it is taken for fresh all the same, and every
call whose arguments fit fails. -/
theorem resolve_agrees_iff (hr : r.Reachable) (h : recompile r name text = .ok (e, m))
    (hserializable : e.engine.isSerializable = true) (leave : Bool) :
    ∃ block, blockOf e e.code = .ok block ∧
      (Agrees r name m e leave ↔ r.engines = [.compiling] ∧ Fits e.code block) ∧
      (r.engines = [.interpreting] → Fits e.code block →
        ∃ e', resolve r name m ⟨leave, false⟩ = .ok ⟨some e', e.code, .fresh, false⟩ ∧
          ∀ scope args adjusted, e.shape.admitArgs args = .ok adjusted →
            (e'.callIn scope args).result = .error (Engine.interpreting.failure .noImage)) := by
  refine ⟨storedBlock e e.code, blockOf_eq hserializable e.code, ⟨fun hagrees => ?_, fun hboth => ?_⟩, ?_⟩
  · have hfits := Classical.byContradiction fun hover =>
      not_agrees_of_overflow h hserializable hover leave hagrees
    refine ⟨?_, hfits⟩
    obtain ⟨-, -, hcompile, -⟩ := recompile_spec h
    obtain ⟨g', hfound, -⟩ := Registry.compile_spec hcompile
    rcases hr.engines with hempty | ⟨g, hg⟩
    · exact absurd hfound (Registry.engineFor_ne_ok hempty _ _)
    · cases g with
      | compiling => exact hg
      | interpreting => exact absurd hagrees (not_agrees_of_interpreting hg h hserializable hfits leave)
  · exact agrees_of_compiling hboth.1 h hserializable hboth.2 leave
  · intro hg hfits
    exact ⟨_, resolve_fits hg h hserializable hfits leave,
      fun scope args adjusted hargs => (e.callIn_stored_interpreting scope hargs).1⟩

theorem resolve_agrees_iff_sample :
    ∃ m, recompile .builtins "t.rpn" (sample "RPN(compile)") = .ok (compiledSample "RPN(compile)", m) ∧
      ∃ block, blockOf (compiledSample "RPN(compile)") (compiledSample "RPN(compile)").code = .ok block ∧
        (Agrees .builtins "t.rpn" m (compiledSample "RPN(compile)") true ↔
          Registry.builtins.engines = [.compiling] ∧ Fits (compiledSample "RPN(compile)").code block) ∧
        (Registry.builtins.engines = [.interpreting] → Fits (compiledSample "RPN(compile)").code block →
          ∃ e', resolve .builtins "t.rpn" m ⟨true, false⟩ =
              .ok ⟨some e', (compiledSample "RPN(compile)").code, .fresh, false⟩ ∧
            ∀ scope args adjusted, (compiledSample "RPN(compile)").shape.admitArgs args = .ok adjusted →
              (e'.callIn scope args).result = .error (Engine.interpreting.failure .noImage)) :=
  have h : recompile .builtins "t.rpn" (sample "RPN(compile)") = .ok (compiledSample "RPN(compile)", _) :=
    recompile_of_compile (by decide +kernel) rfl rfl
  ⟨_, h, resolve_agrees_iff Registry.builtins_reachable h rfl true⟩

/-- Under a registry of the interpreting engine the artifact of a script that asks for compiling is taken for
one of that engine. -/
theorem interpreting_registry_disagrees :
    ∃ r m, r.Reachable ∧
      recompile r "t.rpn" (sample "RPN(compile)") = .ok (compiledSample "RPN(compile)", m) ∧
      (compiledSample "RPN(compile)").engine.isSerializable = true ∧
      ¬ Agrees r "t.rpn" m (compiledSample "RPN(compile)") true := by
  have h : recompile (Registry.empty.register .interpreting) "t.rpn" (sample "RPN(compile)") =
      .ok (compiledSample "RPN(compile)", _) := recompile_of_compile (by decide +kernel) rfl rfl
  have hfits : Fits (compiledSample "RPN(compile)").code
      (storedBlock (compiledSample "RPN(compile)") (compiledSample "RPN(compile)").code) := by decide +kernel
  exact ⟨_, _, .register .interpreting .empty, h, rfl, not_agrees_of_interpreting rfl h rfl hfits true⟩

end SealedScript.Artifact
