import SealedScript.Executable.Compile
import SealedScript.Proofs.Outcome

/-!
What a registry can find.

The engines share their names, so registering one takes the place of whatever was registered before. A
registry that is reached by registering engines and choosing a default therefore knows one engine at most
(`Reachable.engines`), and every name it knows leads to that engine. An option, however, leads to the engine
that the option asks for, registered or not.
-/

namespace SealedScript
set_option autoImplicit false

namespace Registry

/-- The registries that are reached by registering engines and choosing a default. -/
inductive Reachable : Registry → Prop
  | empty : Reachable empty
  | register {r : Registry} (e : Engine) : Reachable r → Reachable (r.register e)
  | setDefault {r r' : Registry} (name : Option Text) :
      Reachable r → r.setDefault name = .ok r' → Reachable r'

theorem setDefault_engines {r r' : Registry} {name : Option Text} (h : r.setDefault name = .ok r') :
    r'.engines = r.engines := by
  unfold setDefault at h
  split at h
  · split at h
    · cases h
      rfl
    · cases h
  · cases h
    rfl

theorem place_singleton (e g : Engine) : place e [g] = [e] := by
  rw [place, if_pos (by cases e <;> cases g <;> rfl)]

/-- **One engine at most**, the one that was registered last. -/
theorem Reachable.engines {r : Registry} (h : r.Reachable) : r.engines = [] ∨ ∃ g, r.engines = [g] := by
  induction h with
  | empty => exact Or.inl rfl
  | @register r e _ ih =>
    refine Or.inr ⟨e, ?_⟩
    show place e r.engines = [e]
    rcases ih with h | ⟨g, h⟩
    · rw [h, place]
    · rw [h, place_singleton]
  | setDefault name _ hset ih => rwa [setDefault_engines hset]

theorem builtins_reachable : builtins.Reachable := .register .compiling .empty

/-! ## Resolution -/

variable {r : Registry} {g : Engine}

theorem resolve_name (h : r.engines = [g]) (e : Engine) : r.resolve e.name none = .ok g := by
  have hfind : r.find? e.name = some g := by
    rw [find?, h, List.find?_cons_of_pos (by cases e <;> cases g <;> rfl)]
  rw [resolve, hfind]

theorem engineFor_ne_ok (h : r.engines = []) (code : Text) (e : Engine) : r.engineFor code ≠ .ok e := by
  have hresolve : ∀ name option, r.resolve name option ≠ .ok e := by
    intro name option hok
    rw [resolve, find?, h] at hok
    cases hok
  unfold engineFor
  split
  · exact hresolve _ _
  · split
    · exact hresolve _ _
    · nofun

end Registry

/-- **What compiling a file gives.** -/
theorem Registry.compile_spec {r : Registry} {name code : Text} {e : Executable}
    (h : r.compile name code = .ok e) :
    ∃ g, r.engineFor code = .ok g ∧ g.compile (some name) code none = .ok e := bind_eq_ok.mp h

end SealedScript
