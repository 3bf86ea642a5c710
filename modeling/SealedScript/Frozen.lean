import SealedScript.Scope

/-!
Captured variables.

Compiling against a scope freezes the names a program reads freely, each with the type the scope
declares. An executable may be bound anew to another scope as long as that scope declares no frozen
name with a type that does not fit the frozen one.
-/

namespace SealedScript
set_option autoImplicit false

/-- Captured names with their types, in the order of capture. -/
structure Frozen where
  entries : List (Text × Ty)
deriving DecidableEq

namespace Frozen

def empty : Frozen := ⟨[]⟩

instance : Inhabited Frozen := ⟨empty⟩

def names (f : Frozen) : List Text := f.entries.map Prod.fst

def ty? (f : Frozen) (name : Text) : Option Ty := f.entries.lookup name

/-- Freezes names against a scope; without a scope nothing is captured. A repeated name keeps its first
place, and one that the scope does not declare is frozen as an `Object`. -/
def capture (names : List Text) : Option Scope → Frozen
  | none => empty
  | some scope =>
    ⟨(names.filter fun n => !n.isEmpty).eraseDups.map fun n => (n, (scope.ty? n).getD .object)⟩

/-- The first frozen name that the scope declares with a type that does not fit. -/
def conflict? (f : Frozen) (scope : Scope) : Option (Text × Ty × Ty) :=
  f.entries.findSome? fun (name, required) =>
    match scope.ty? name with
    | some found => if required.covers found then none else some (name, required, found)
    | none => none

/-- Fails when the scope declares a frozen name with a type that does not fit. -/
def checkRebind (f : Frozen) (scope : Scope) : Outcome Unit :=
  match f.conflict? scope with
  | some (name, required, found) => .error (.incompatibleCapture name required found)
  | none => .ok ()

/-- Can an executable with these frozen names be bound to the scope? -/
def canRebind (f : Frozen) (scope : Scope) : Bool := (f.conflict? scope).isNone

/-- The value of each frozen name, null for one that the scope does not declare. -/
def valuesIn (f : Frozen) (scope : Scope) : List (Text × Value) :=
  f.names.map fun n => (n, (scope.value? n).getD .null)

end Frozen
end SealedScript
