import SealedScript.Program.Run
import SealedScript.Proofs.Scope

/-!
What a step of a program reads and writes.

A step reads names through its frame only when it loads one, and writes to the scope only when it stores one
(`step_scope`). So a frame may leave out what it captured as long as the scope still has those values, and the scope
keeps them as long as the program stores none of the names (`run_uncaptured`).
-/

namespace SealedScript
set_option autoImplicit false

namespace Machine

variable {engine : Text} {f f' : Frame} {m m' : Machine} {op : Op} {ops : List Op}

/-! ## One step -/

theorem onTop_scope {make : Value → Except EngineFault (List Value)} (h : m.onTop make = .ok m') :
    m'.scope = m.scope := by
  unfold onTop at h
  split at h
  case h_1 =>
    obtain ⟨vs, -, rfl⟩ := map_eq_ok.mp h
    rfl
  case h_2 => cases h

theorem onTopTwo_scope {make : Value → Value → Except EngineFault (List Value)} (h : m.onTopTwo make = .ok m') :
    m'.scope = m.scope := by
  unfold onTopTwo at h
  split at h
  case h_1 =>
    obtain ⟨vs, -, rfl⟩ := map_eq_ok.mp h
    rfl
  case h_2 => cases h

theorem stackStep_scope (h : stackStep f m op = .ok m') : m'.scope = m.scope := by
  cases op with
  | push v =>
    cases h
    rfl
  | load name =>
    rw [stackStep] at h
    split at h
    · cases h
      rfl
    · cases h
  | arith op | swap => exact onTopTwo_scope h
  | _ => exact onTop_scope h

theorem step_of_ne_store (h : ∀ name, op ≠ .store name) :
    step engine f m op = (stackStep f m op).mapError (.engine engine) := by
  cases op with
  | store name => exact absurd rfl (h name)
  | _ => rfl

theorem step_store_spec {name : Text} (h : step engine f m (.store name) = .ok m') :
    ∃ v s s', m.stack = v :: m'.stack ∧ m.scope = some s ∧ s.store name v = .ok s' ∧ m'.scope = some s' := by
  obtain ⟨stack, scope⟩ := m
  cases stack with
  | nil => cases h
  | cons v stack =>
    cases scope with
    | none => cases h
    | some s =>
      obtain ⟨s', hstore, rfl⟩ := map_eq_ok.mp (mapError_eq_ok.mp h)
      exact ⟨v, s, s', rfl, rfl, hstore, rfl⟩

/-- **What a step may do to the scope.** -/
theorem step_scope (h : step engine f m op = .ok m') :
    (∀ name, op ≠ .store name) ∧ m'.scope = m.scope ∨
      ∃ name v s s', op = .store name ∧ m.stack = v :: m'.stack ∧ m.scope = some s ∧ s.store name v = .ok s' ∧
        m'.scope = some s' := by
  by_cases hop : ∃ name, op = .store name
  · obtain ⟨name, rfl⟩ := hop
    obtain ⟨v, s, s', hstack, hscope, hstore, hafter⟩ := step_store_spec h
    exact Or.inr ⟨name, v, s, s', rfl, hstack, hscope, hstore, hafter⟩
  · have hne : ∀ name, op ≠ .store name := fun name heq => hop ⟨name, heq⟩
    rw [step_of_ne_store hne] at h
    exact Or.inl ⟨hne, stackStep_scope (mapError_eq_ok.mp h)⟩

theorem step_congr (h : ∀ name, op = .load name → f.lookup m.scope name = f'.lookup m.scope name) :
    step engine f m op = step engine f' m op := by
  cases op with
  | load name =>
    have hname := h name rfl
    rw [step, step, stackStep, stackStep, hname]
    all_goals nofun
  | _ => rfl

/-! ## Captured values -/

/-- The scope has the captured values under their names. -/
def Keeps (scope : Option Scope) (captured : List (Text × Value)) : Prop :=
  ∀ n v, captured.lookup n = some v → ∃ s, scope = some s ∧ s.value? n = some v

theorem lookup_of_keeps (h : Keeps m.scope f.captured) (name : Text) :
    f.lookup m.scope name = Frame.lookup { f with captured := [] } m.scope name := by
  unfold Frame.lookup
  cases f.paramNames.idxOf? name with
  | some i => rfl
  | none =>
    cases hcaptured : f.captured.lookup name with
    | none => rfl
    | some v =>
      obtain ⟨s, hscope, hvalue⟩ := h name v hcaptured
      rw [hscope]
      exact hvalue.symm

theorem Keeps.step {captured : List (Text × Value)} (h : Keeps m.scope captured)
    (hstored : ∀ name, op = .store name → captured.lookup name = none) (hstep : step engine f m op = .ok m') :
    Keeps m'.scope captured := by
  intro n v hn
  obtain ⟨s, hscope, hvalue⟩ := h n v hn
  rcases step_scope hstep with ⟨-, hsame⟩ | ⟨name, w, s₀, s', hop, -, hbefore, hstore, hafter⟩
  · exact ⟨s, hsame.trans hscope, hvalue⟩
  · have hne : n ≠ name := by
      rintro rfl
      rw [hstored n hop] at hn
      cases hn
    rw [hscope, Option.some.injEq] at hbefore
    subst hbefore
    exact ⟨s', hafter, (Scope.value?_store_of_ne hstore hne).trans hvalue⟩

/-- **Captured values can be read from the scope** by a program that stores none of their names. -/
theorem run_uncaptured (h : Keeps m.scope f.captured)
    (hstored : ∀ name, .store name ∈ ops → f.captured.lookup name = none) :
    run engine f m ops = run engine { f with captured := [] } m ops := by
  -- Over the program; `Keeps` is what every step hands on to the next.
  induction ops generalizing m with
  | nil => rfl
  | cons op ops ih =>
    have hsame : step engine f m op = step engine { f with captured := [] } m op :=
      step_congr fun name _ => lookup_of_keeps h name
    rw [run, run, ← hsame]
    cases hstep : step engine f m op with
    | error err => rfl
    | ok m' =>
      have hkeeps := h.step (fun name hop => hstored name (hop ▸ List.mem_cons_self ..)) hstep
      exact ih hkeeps fun name hname => hstored name (List.mem_cons_of_mem op hname)

end Machine

theorem Program.run_uncaptured (engine : Text) (p : Program) (f : Frame) {scope : Option Scope}
    (h : Machine.Keeps scope f.captured) (hstored : ∀ name, .store name ∈ p.ops → f.captured.lookup name = none) :
    p.run engine f scope = p.run engine { f with captured := [] } scope := by
  have hmachine : Machine.run engine f ⟨[], scope⟩ p.ops =
      Machine.run engine { f with captured := [] } ⟨[], scope⟩ p.ops := Machine.run_uncaptured h hstored
  rw [Program.run, Program.run, hmachine]

end SealedScript
