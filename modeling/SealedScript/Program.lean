import SealedScript.Value

/-!
Compiled programs: postfix operations on a stack of values, and whether the result is discarded.
-/

namespace SealedScript
set_option autoImplicit false

/-- The four arithmetic operations. -/
inductive ArithOp
  | add
  | sub
  | mul
  | div
deriving DecidableEq, Repr

/-- The sign that an arithmetic operation is written with. -/
def ArithOp.symbol : ArithOp → Char
  | .add => '+'
  | .sub => '-'
  | .mul => '*'
  | .div => '/'

/-- One step of a program. -/
inductive Op
  /-- Puts a constant on the stack. -/
  | push (v : Value)
  /-- Puts the value of a name on the stack. -/
  | load (name : Text)
  /-- Takes a value off the stack into a variable. -/
  | store (name : Text)
  | arith (op : ArithOp)
  | sum
  | len
  | neg
  | dup
  | swap
  | drop

/-- A compiled program; a `void` one answers null whatever the stack holds. -/
structure Program where
  ops : List Op
  void : Bool

namespace Op

def loaded? : Op → Option Text
  | .load name => some name
  | _ => none

def stored? : Op → Option Text
  | .store name => some name
  | _ => none

/-- The names that a program reads without ever assigning them and that are no parameters, in the order
of their first use. -/
def freeNames (paramNames : List Text) (ops : List Op) : List Text :=
  let assigned := (ops.filterMap stored?).eraseDups
  (ops.filterMap loaded?).eraseDups.filter fun n => !paramNames.contains n && !assigned.contains n

end Op
end SealedScript
