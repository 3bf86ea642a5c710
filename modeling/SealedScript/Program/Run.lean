import SealedScript.Program
import SealedScript.Scope

/-!
Running programs.

A `Frame` holds what a call fixes: arguments under their names and captured values. A `Machine` holds
what changes: the stack and the scope. A step that fails changes neither, so the machine that a failed
run ends with is the one in front of the failing step.
-/

namespace SealedScript
set_option autoImplicit false

open Floating (Double)

/-! ## Arithmetic -/

namespace ArithOp

def onDoubles : ArithOp → Double → Double → Double
  | .add => Double.add
  | .sub => Double.sub
  | .mul => Double.mul
  | .div => Double.div

/-- The exact result on integers; division truncates toward zero and has none by zero. -/
def onInts? : ArithOp → Int → Int → Option Int
  | .add, x, y => some (x + y)
  | .sub, x, y => some (x - y)
  | .mul, x, y => some (x * y)
  | .div, x, y => if y = 0 then none else some (x.tdiv y)

/-- Does the integer fit a signed word of `bits` bits? -/
def fits (bits : Nat) (n : Int) : Bool :=
  decide ((Value.wordRange bits).1 ≤ n) && decide (n ≤ (Value.wordRange bits).2)

/-- An integral result: short when it fits and no operand was long. -/
def integral (wide : Bool) (n : Int) : Value :=
  if !wide && fits 32 n then .int (Int32.ofInt n) else .long (Int64.ofInt n)

def isLong : Value → Bool
  | .long _ => true
  | _ => false

def isText : Value → Bool
  | .text _ => true
  | _ => false

def applyInts (op : ArithOp) (wide : Bool) (x y : Int) : Except EngineFault Value :=
  match op.onInts? x y with
  | none => .error .divisionByZero
  | some n => if fits 64 n then .ok (integral wide n) else .error .overflow

/-- The operation on numbers; a real operand makes the result a double. -/
def applyNumbers (op : ArithOp) (wide : Bool) :
    Value.Numeric → Value.Numeric → Except EngineFault Value
  | .integral x, .integral y => op.applyInts wide x y
  | .integral x, .real y => .ok (.double (op.onDoubles (.ofInt x) y))
  | .real x, .integral y => .ok (.double (op.onDoubles x (.ofInt y)))
  | .real x, .real y => .ok (.double (op.onDoubles x y))

/-- The operation on values. A text is added to anything by joining their texts. -/
def apply (op : ArithOp) (a b : Value) : Except EngineFault Value :=
  if op = .add ∧ (isText a || isText b) = true then .ok (.text (a.packed ++ b.packed))
  else
    match a.numeric?, b.numeric? with
    | some x, some y => op.applyNumbers (isLong a || isLong b) x y
    | _, _ => .error (.mismatch op.symbol a b)

end ArithOp

/-- The sum of the items that are not null, starting from zero. -/
def sumItems (items : List Value) : Except EngineFault Value :=
  (items.filter fun v => !v.isNull).foldlM ArithOp.add.apply (.int 0)

/-! ## Calls -/

/-- What a call fixes for the program it runs. -/
structure Frame where
  paramNames : List Text
  args : List Value
  captured : List (Text × Value)

/-- What running a program changes. -/
structure Machine where
  stack : List Value
  scope : Option Scope

/-- The value of a name: a parameter before a captured variable before a variable of the scope. -/
def Frame.lookup (f : Frame) (scope : Option Scope) (name : Text) : Option Value :=
  match f.paramNames.idxOf? name with
  | some i => f.args[i]?
  | none =>
    match f.captured.lookup name with
    | some v => some v
    | none => scope.bind fun s => s.value? name

namespace Machine

def assign (m : Machine) (name : Text) (v : Value) : Except ScopeFault Machine :=
  match m.scope with
  | none => .error (.noScope name)
  | some s => (s.store name v).map fun s => { m with scope := some s }

def push (m : Machine) (v : Value) : Machine := { m with stack := v :: m.stack }

/-- Replaces the top of the stack by values made from it. -/
def onTop (m : Machine) (f : Value → Except EngineFault (List Value)) : Except EngineFault Machine :=
  match m.stack with
  | v :: rest => (f v).map fun vs => { m with stack := vs ++ rest }
  | [] => .error .stackUnderflow

/-- Replaces the two topmost values, the lower one given first, by values made from them. -/
def onTopTwo (m : Machine) (f : Value → Value → Except EngineFault (List Value)) :
    Except EngineFault Machine :=
  match m.stack with
  | b :: a :: rest => (f a b).map fun vs => { m with stack := vs ++ rest }
  | _ => .error .stackUnderflow

def sumOf : Value → Except EngineFault Value
  | .array _ items => sumItems items
  | v => .error (.sumOf v)

def countValue (n : Nat) : Except EngineFault Value :=
  if ArithOp.fits 32 n then .ok (.int (Int32.ofInt n)) else .error .lengthTooLarge

/-- The number of items of an array or of characters of a text. -/
def lengthOf : Value → Except EngineFault Value
  | .array _ items => countValue items.length
  | .text t => countValue t.length
  | v => .error (.lengthOf v)

/-- A step that touches the stack alone; names are looked up and nothing is stored. -/
def stackStep (f : Frame) (m : Machine) : Op → Except EngineFault Machine
  | .push v => .ok (m.push v)
  | .load name =>
    match f.lookup m.scope name with
    | some v => .ok (m.push v)
    | none => .error (.undefinedName name)
  | .arith op => m.onTopTwo fun a b => (op.apply a b).map ([·])
  | .sum => m.onTop fun v => (sumOf v).map ([·])
  | .len => m.onTop fun v => (lengthOf v).map ([·])
  | .neg => m.onTop fun v => (ArithOp.sub.apply (.int 0) v).map ([·])
  | .dup => m.onTop fun v => .ok [v, v]
  | .swap => m.onTopTwo fun a b => .ok [a, b]
  | .drop | .store _ => m.onTop fun _ => .ok []

/-- One step of a program, whose engine goes by the name `engine`. A store takes the top of the stack
into the scope. -/
def step (engine : Text) (f : Frame) (m : Machine) : Op → Outcome Machine
  | .store name =>
    match m with
    | ⟨v :: stack, scope⟩ => (Machine.assign ⟨stack, scope⟩ name v).mapError .scope
    | ⟨[], _⟩ => .error (.engine engine .stackUnderflow)
  | op => (stackStep f m op).mapError (.engine engine)

def run (engine : Text) (f : Frame) (m : Machine) : List Op → Machine × Outcome Unit
  | [] => (m, .ok ())
  | op :: ops =>
    match step engine f m op with
    | .ok m => run engine f m ops
    | .error e => (m, .error e)

end Machine

/-- Runs a program: the top of the final stack or null, and the scope it leaves, also when it fails. -/
def Program.run (engine : Text) (p : Program) (f : Frame) (scope : Option Scope) :
    Outcome Value × Option Scope :=
  let (m, outcome) := Machine.run engine f ⟨[], scope⟩ p.ops
  (outcome.map fun _ => if p.void then .null else m.stack.headD .null, m.scope)

end SealedScript
