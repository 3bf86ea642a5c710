import SealedScript.Error

/-!
Variable scopes: named slots in the order of their declaration.

A declaration appends a slot, an assignment replaces the value of one, and nothing removes or reorders
slots. A constant keeps its value, and a slot only ever takes values that its type accepts.
-/

namespace SealedScript
set_option autoImplicit false

/-- A declared variable. -/
structure Slot where
  name : Text
  ty : Ty
  value : Value
  constant : Bool

/-- The variables that a script or macro can see. -/
structure Scope where
  slots : List Slot

namespace Scope

def empty : Scope := ⟨[]⟩

instance : Inhabited Scope := ⟨empty⟩

/-! ## Reading -/

def find? (s : Scope) (name : Text) : Option Slot := s.slots.find? fun slot => slot.name == name

def declares (s : Scope) (name : Text) : Bool := (s.find? name).isSome

def ty? (s : Scope) (name : Text) : Option Ty := (s.find? name).map Slot.ty

def value? (s : Scope) (name : Text) : Option Value := (s.find? name).map Slot.value

def isConstant (s : Scope) (name : Text) : Bool := (s.find? name).any Slot.constant

/-! ## Writing -/

/-- Refuses a value that the type of the variable does not accept. -/
def requireFit (name : Text) (ty : Ty) (value : Value) : Except ScopeFault Unit :=
  if ty.accepts value then .ok () else .error (.mistyped value name ty)

def declare (s : Scope) (name : Text) (ty : Ty) (value : Value) (constant : Bool) :
    Except ScopeFault Scope :=
  if name.isEmpty then .error .emptyName
  else if s.declares name then .error (.exists name)
  else do
    requireFit name ty value
    return ⟨s.slots ++ [⟨name, ty, value, constant⟩]⟩

/-- Gives the first slot with the name a new value. -/
def replace (name : Text) (value : Value) : List Slot → List Slot
  | [] => []
  | slot :: rest =>
    if slot.name == name then { slot with value } :: rest else slot :: replace name value rest

def set (s : Scope) (name : Text) (value : Value) : Except ScopeFault Scope :=
  match s.find? name with
  | none => .error (.missing name)
  | some slot =>
    if slot.constant then .error (.constant name)
    else do
      requireFit name slot.ty value
      return ⟨replace name value s.slots⟩

/-- Assigns a variable, which is declared as an `Object` if it is new. -/
def store (s : Scope) (name : Text) (value : Value) : Except ScopeFault Scope :=
  if s.declares name then s.set name value else s.declare name .object value false

end Scope
end SealedScript
