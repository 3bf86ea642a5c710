import SealedScript.Proofs.Outcome
import SealedScript.Proofs.Program.Word

/-!
Programs on a stack that grows at its end.

The stack is an array here. Values are taken off its end, and the two topmost ones are exchanged by their places, which
are found by subtraction from its size. No program, compiled or not, gets below the bottom of it: every step does what
the step on lists does (`step_of`), and so does every run (`run_of`).
-/

namespace SealedScript
set_option autoImplicit false

/-- A machine whose stack has its top at the end. -/
structure StackMachine where
  stack : Array Value
  scope : Option Scope

namespace StackMachine

/-- The machine whose stack is the list turned round. -/
def of (m : Machine) : StackMachine := ⟨m.stack.reverse.toArray, m.scope⟩

def push (m : StackMachine) (v : Value) : StackMachine := { m with stack := m.stack.push v }

def pop (m : StackMachine) : Except EngineFault (Value × StackMachine) :=
  match m.stack.back? with
  | some v => .ok (v, { m with stack := m.stack.pop })
  | none => .error .stackUnderflow

/-- Exchanges the two topmost values. -/
def swapTop (m : StackMachine) : Guarded EngineFault StackMachine :=
  if m.stack.size < 2 then throw .stackUnderflow
  else do
    let top ← minus? m.stack.size 1
    let below ← minus? m.stack.size 2
    let stack ← swap? m.stack top below
    return { m with stack }

def sumAt : Value → Guarded EngineFault Value
  | .array _ items => (items.filter fun v => !v.isNull).foldlM ArithOp.add.applyAt (.int 0)
  | v => throw (.sumOf v)

def stackStep (f : Frame) (m : StackMachine) : Op → Guarded EngineFault StackMachine
  | .push v => return m.push v
  | .load name =>
    match f.lookup m.scope name with
    | some v => return m.push v
    | none => throw (.undefinedName name)
  | .arith op => do
    let (b, m) ← within m.pop
    let (a, m) ← within m.pop
    let result ← op.applyAt a b
    return m.push result
  | .sum => do
    let (v, m) ← within m.pop
    let total ← sumAt v
    return m.push total
  | .len => do
    let (v, m) ← within m.pop
    let count ← within (Machine.lengthOf v)
    return m.push count
  | .neg => do
    let (v, m) ← within m.pop
    let result ← ArithOp.sub.applyAt (.int 0) v
    return m.push result
  | .dup =>
    match m.stack.back? with
    | some v => return m.push v
    | none => throw .stackUnderflow
  | .swap => m.swapTop
  | .drop | .store _ => do
    let (_, m) ← within m.pop
    return m

def step (engine : Text) (f : Frame) (m : StackMachine) : Op → Guarded Failure StackMachine
  | .store name => do
    let (v, m) ← within (m.pop.mapError (.engine engine))
    match m.scope with
    | none => throw (.scope (.noScope name))
    | some s => do
      let s ← within ((s.store name v).mapError .scope)
      return { m with scope := some s }
  | op => (stackStep f m op).mapFault (.engine engine)

def run (engine : Text) (f : Frame) (m : StackMachine) : List Op → Option (StackMachine × Outcome Unit)
  | [] => some (m, .ok ())
  | op :: ops => do
    match ← (step engine f m op).run with
    | .ok m => run engine f m ops
    | .error e => return (m, .error e)

variable {m : Machine} {v a b : Value} {stack : List Value} {scope : Option Scope}

/-! ## The top of the stack -/

theorem push_of (m : Machine) (v : Value) : (of m).push v = of (m.push v) := by
  simp [of, push, Machine.push]

theorem back?_of (stack : List Value) (scope : Option Scope) : (of ⟨stack, scope⟩).stack.back? = stack.head? := by
  simp [of]

theorem pop_of_cons (v : Value) (stack : List Value) (scope : Option Scope) :
    (of ⟨v :: stack, scope⟩).pop = .ok (v, of ⟨stack, scope⟩) := by
  simp [pop, of]

theorem swapTop_of (m : Machine) : (of m).swapTop = within ((m.onTopTwo fun a b => .ok [a, b]).map of) := by
  obtain ⟨stack, scope⟩ := m
  match stack with
  | [] => rfl
  | [_] => rfl
  | b :: a :: rest =>
    have hstack : (of ⟨b :: a :: rest, scope⟩).stack = (rest.reverse.toArray.push a).push b := by simp [of]
    have hswapped : (of ⟨a :: b :: rest, scope⟩).stack = (rest.reverse.toArray.push b).push a := by simp [of]
    have hsize : (of ⟨b :: a :: rest, scope⟩).stack.size = rest.reverse.toArray.size + 2 := by rw [hstack]; simp
    rw [swapTop, hsize, if_neg (by omega), minus?_of_le (by omega), minus?_of_le (by omega), lift_some_bind,
      lift_some_bind, hstack]
    show (liftM (swap? _ (rest.reverse.toArray.size + 1) rest.reverse.toArray.size) >>= _) = _
    rw [swap?_push, lift_some_bind, ← hswapped]
    rfl

theorem sumAt_eq (v : Value) : sumAt v = within (Machine.sumOf v) := by
  cases v with
  | array element items => exact ArithOp.foldlM_applyAt _ _
  | _ => rfl

/-! ## Steps -/

theorem mapError_map {ε ε' α β : Type} {f : ε → ε'} {g : α → β} (x : Except ε α) :
    (x.map g).mapError f = (x.mapError f).map g := by
  cases x <;> rfl

/-- A step that takes the top and pushes one value. -/
theorem pop_push_of {f : Value → Except EngineFault Value} (m : Machine) :
    (within (of m).pop >>= fun p => within (f p.1) >>= fun w => pure (p.2.push w)) =
      within ((m.onTop fun v => (f v).map ([·])).map of) := by
  obtain ⟨stack, scope⟩ := m
  cases stack with
  | nil => rfl
  | cons v stack =>
    simp only [pop_of_cons, within_ok_bind, Machine.onTop]
    cases f v with
    | error e => rfl
    | ok w => exact congrArg (fun m => within (.ok m)) (push_of ⟨stack, scope⟩ w)

theorem stackStep_of (f : Frame) (m : Machine) (op : Op) :
    (of m).stackStep f op = within ((m.stackStep f op).map of) := by
  cases op with
  | push v => exact congrArg (fun m => within (.ok m)) (push_of m v)
  | load name =>
    have hscope : (of m).scope = m.scope := rfl
    simp only [stackStep, Machine.stackStep, hscope]
    cases f.lookup m.scope name with
    | none => rfl
    | some v => exact congrArg (fun m => within (.ok m)) (push_of m v)
  | arith op =>
    obtain ⟨_ | ⟨b, _ | ⟨a, rest⟩⟩, scope⟩ := m
    · rfl
    · rfl
    · simp only [stackStep, Machine.stackStep, pop_of_cons, within_ok_bind, ArithOp.applyAt_eq, Machine.onTopTwo]
      cases op.apply a b with
      | error e => rfl
      | ok v => exact congrArg (fun m => within (.ok m)) (push_of ⟨rest, scope⟩ v)
  | sum =>
    simp only [stackStep, sumAt_eq]
    exact pop_push_of m
  | len => exact pop_push_of m
  | neg =>
    simp only [stackStep, ArithOp.applyAt_eq]
    exact pop_push_of m
  | dup =>
    obtain ⟨stack, scope⟩ := m
    simp only [stackStep, back?_of]
    cases stack with
    | nil => rfl
    | cons v stack => exact congrArg (fun m => within (.ok m)) (push_of ⟨v :: stack, scope⟩ v)
  | swap => exact swapTop_of m
  | drop | store _ =>
    obtain ⟨stack, scope⟩ := m
    cases stack with
    | nil => rfl
    | cons v stack =>
      simp only [stackStep, pop_of_cons, within_ok_bind]
      rfl

/-- **A step stays within the stack** and does what it does on lists. -/
theorem step_of (engine : Text) (f : Frame) (m : Machine) (op : Op) :
    (of m).step engine f op = within ((m.step engine f op).map of) := by
  cases op with
  | store name =>
    -- The value is off the stack before the scope is asked to take it.
    obtain ⟨stack, scope⟩ := m
    cases stack with
    | nil => rfl
    | cons v stack =>
      simp only [step, pop_of_cons, mapError_ok, within_ok_bind]
      cases scope with
      | none => rfl
      | some s =>
        simp only [of, Machine.step, Machine.assign]
        cases s.store name v <;> rfl
  | _ =>
    simp only [step, stackStep_of, mapFault_within, Machine.step]
    exact congrArg within (mapError_map _)

/-- **So does a run**, however long it is. -/
theorem run_of (engine : Text) (f : Frame) (m : Machine) (ops : List Op) :
    (of m).run engine f ops = some ((m.run engine f ops).map of id) := by
  induction ops generalizing m with
  | nil => rfl
  | cons op ops ih =>
    rw [run, step_of, Machine.run]
    cases m.step engine f op with
    | error e => rfl
    | ok m' => exact ih m'

end StackMachine

/-- Runs a program on an empty stack that grows at its end. -/
def Program.runAt (engine : Text) (p : Program) (f : Frame) (scope : Option Scope) :
    Option (Outcome Value × Option Scope) := do
  let (m, outcome) ← StackMachine.run engine f ⟨#[], scope⟩ p.ops
  return (outcome.map fun _ => if p.void then .null else m.stack.back?.getD .null, m.scope)

theorem Program.runAt_eq (engine : Text) (p : Program) (f : Frame) (scope : Option Scope) :
    p.runAt engine f scope = some (p.run engine f scope) := by
  have hrun := StackMachine.run_of engine f ⟨[], scope⟩ p.ops
  have hempty : StackMachine.of ⟨[], scope⟩ = ⟨#[], scope⟩ := rfl
  rw [hempty] at hrun
  rw [runAt, run, hrun]
  obtain ⟨⟨stack, after⟩, outcome⟩ := Machine.run engine f ⟨[], scope⟩ p.ops
  simp [StackMachine.of]

end SealedScript
