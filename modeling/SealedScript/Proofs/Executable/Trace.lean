import SealedScript.Executable.Call
import SealedScript.Proofs.Program.Run

/-!
The steps that a call takes.

A trace lists the transitions of a run one by one; only the last of them may have failed. What every successful store
keeps holds of the scope that a call leaves, wherever the run stops (`callIn_preserves`).
-/

namespace SealedScript
set_option autoImplicit false

namespace Machine

/-- An operation, the machine it finds and what it makes of it. -/
structure Transition where
  before : Machine
  op : Op
  after : Outcome Machine

/-- The name that is stored under, unless the store fails. -/
def Transition.stored? (t : Transition) : Option Text :=
  match t.after with
  | .ok _ => t.op.stored?
  | .error _ => none

/-- The transitions of a run, up to the first that fails. -/
def trace (engine : Text) (f : Frame) (m : Machine) : List Op → List Transition
  | [] => []
  | op :: ops =>
    ⟨m, op, step engine f m op⟩ ::
      match step engine f m op with
      | .ok m' => trace engine f m' ops
      | .error _ => []

variable {engine : Text} {f : Frame} {m m' : Machine} {op : Op} {ops : List Op} {t : Transition}
  {front behind : List Transition}

theorem trace_of_ok (h : step engine f m op = .ok m') (ops : List Op) :
    trace engine f m (op :: ops) = ⟨m, op, .ok m'⟩ :: trace engine f m' ops := by
  rw [trace, h]

theorem trace_of_error {err : Failure} (h : step engine f m op = .error err) (ops : List Op) :
    trace engine f m (op :: ops) = [⟨m, op, .error err⟩] := by
  rw [trace, h]

/-- A run ends with the machine and the outcome that its trace ends with. -/
theorem run_eq_trace (engine : Text) (f : Frame) (m : Machine) (ops : List Op) : run engine f m ops =
    ((trace engine f m ops).foldl (fun m t => t.after.toOption.getD m) m,
      (trace engine f m ops).foldl (fun _ t => t.after.map fun _ => ()) (.ok ())) := by
  induction ops generalizing m with
  | nil => rfl
  | cons op ops ih =>
    rw [run]
    cases hstep : step engine f m op with
    | error err => simp [trace_of_error hstep, Except.toOption, Except.map]
    | ok m' => simp [trace_of_ok hstep, ih, Except.toOption, Except.map]

theorem trace_head (h : trace engine f m ops = t :: behind) :
    ∃ later, ops = t.op :: later ∧ t.before = m ∧ t.after = step engine f m t.op := by
  cases ops with
  | nil => cases h
  | cons op ops =>
    obtain rfl := (List.cons.inj h).1
    exact ⟨ops, rfl, rfl, rfl⟩

/-- A transition that another one follows has succeeded. -/
theorem trace_next (h : trace engine f m ops = t :: behind) (hmore : behind ≠ []) :
    ∃ m' later, ops = t.op :: later ∧ step engine f m t.op = .ok m' ∧ trace engine f m' later = behind := by
  cases ops with
  | nil => cases h
  | cons op ops =>
    cases hstep : step engine f m op with
    | error err =>
      rw [trace_of_error hstep] at h
      exact absurd (List.cons.inj h).2.symm hmore
    | ok m' =>
      rw [trace_of_ok hstep] at h
      obtain ⟨rfl, hbehind⟩ := List.cons.inj h
      exact ⟨m', ops, rfl, hstep, hbehind⟩

/-- A trace from one of its transitions on is a trace. -/
theorem trace_split (h : trace engine f m ops = front ++ t :: behind) : ∃ later, t.op ∈ ops ∧
    t.after = step engine f t.before t.op ∧ trace engine f t.before (t.op :: later) = t :: behind := by
  induction front generalizing m ops with
  | nil =>
    obtain ⟨later, rfl, rfl, hafter⟩ := trace_head h
    exact ⟨later, List.mem_cons_self .., hafter, h⟩
  | cons first front ih =>
    obtain ⟨m', later, rfl, -, hrest⟩ := trace_next h (by simp)
    obtain ⟨last, hmem, hlast⟩ := ih hrest
    exact ⟨last, List.mem_cons_of_mem _ hmem, hlast⟩

theorem stored?_of_mem_trace (ht : t ∈ trace engine f m ops) {n : Text} (h : t.stored? = some n) : Op.store n ∈ ops := by
  obtain ⟨front, behind, hsplit⟩ := List.append_of_mem ht
  obtain ⟨-, hop, -⟩ := trace_split hsplit
  have hstored : t.op.stored? = some n := by
    rw [Transition.stored?] at h
    split at h
    · exact h
    · cases h
  cases hcase : t.op <;> rw [hcase] at hstored <;> cases hstored
  rwa [hcase] at hop

theorem run_preserves {P : List Text → Scope → Prop}
    (hstore : ∀ names n v s s', P names s → s.store n v = .ok s' → P (names ++ [n]) s') (fallback : Scope)
    (names : List Text) (h : P names (m.scope.getD fallback)) :
    P (names ++ (trace engine f m ops).filterMap Transition.stored?)
      ((run engine f m ops).1.scope.getD fallback) := by
  -- Over the program, with the names that were stored under on the way.
  induction ops generalizing m names with
  | nil => simpa [trace, run] using h
  | cons op ops ih =>
    cases hstep : step engine f m op with
    | error err =>
      have hnone : Transition.stored? ⟨m, op, .error err⟩ = none := rfl
      rw [trace_of_error hstep, run, hstep, List.filterMap_cons_none hnone, List.filterMap_nil, List.append_nil]
      exact h
    | ok m' =>
      rw [trace_of_ok hstep, run, hstep]
      rcases step_scope hstep with ⟨hne, hsame⟩ | ⟨name, v, s, s', rfl, -, hbefore, hstored, hafter⟩
      · have hnone : Transition.stored? ⟨m, op, .ok m'⟩ = none := by
          cases op with
          | store name => exact absurd rfl (hne name)
          | _ => rfl
        rw [List.filterMap_cons_none hnone]
        exact ih names (by rwa [hsame])
      · have hsome : Transition.stored? ⟨m, .store name, .ok m'⟩ = some name := rfl
        rw [List.filterMap_cons_some hsome, List.append_cons]
        rw [hbefore] at h
        exact ih (names ++ [name]) (by rw [hafter]; exact hstore names name v s s' h hstored)

end Machine

namespace Executable

/-- The transitions of a call. A call that fails before it runs the program has none. -/
def trace (e : Executable) (scope : Scope) (args : List Value) : List Machine.Transition :=
  match e.shape.admitArgs args, e.program with
  | .ok adjusted, .ok program =>
    Machine.trace e.engine.name ⟨e.paramNames, adjusted, e.captured⟩
      ⟨[], if e.shape.seesScope then some scope else none⟩ program.ops
  | _, _ => []

/-- The names that a call stores under, one by one. -/
def storedNames (e : Executable) (scope : Scope) (args : List Value) : List Text :=
  (e.trace scope args).filterMap Machine.Transition.stored?

variable {e : Executable} {scope : Scope} {args : List Value}

theorem store_mem_of_storedNames {n : Text} (h : n ∈ e.storedNames scope args) :
    ∃ program, e.program = .ok program ∧ Op.store n ∈ program.ops := by
  obtain ⟨t, ht, hn⟩ := List.mem_filterMap.mp h
  rw [trace] at ht
  split at ht
  case h_1 adjusted program _ hprogram => exact ⟨program, hprogram, Machine.stored?_of_mem_trace ht hn⟩
  case h_2 => cases ht

/-- **What every successful store keeps holds of the scope that a call leaves**, also when the call fails. -/
theorem callIn_preserves {P : List Text → Scope → Prop}
    (hstore : ∀ names n v s s', P names s → s.store n v = .ok s' → P (names ++ [n]) s') (h : P [] scope) :
    P (e.storedNames scope args) (e.callIn scope args).scope := by
  rw [storedNames, trace, callIn]
  cases e.shape.admitArgs args with
  | error err => exact h
  | ok adjusted =>
    cases e.program with
    | error err => exact h
    | ok program =>
      have hstart : (if e.shape.seesScope then some scope else none).getD scope = scope := by
        split <;> rfl
      exact Machine.run_preserves hstore scope [] (by rwa [hstart])

end Executable
end SealedScript
