import SealedScript.Ty

/-!
Call signatures.

A signature is valid by construction: no primitive types, no empty name, and a variable arity only with
a last parameter to carry it, whose type is then the element type of the trailing array. Two signatures
are the same contract when they differ at most in their name.
-/

namespace SealedScript
set_option autoImplicit false

/-- The declared call contract of a function or macro. -/
structure Signature where
  name : Option Text
  params : List Ty
  variadic : Bool
  returns : Ty
  name_ne_empty : name ≠ some []
  params_of_variadic : variadic = true → params ≠ []
  returns_boxed : returns.isPrimitive = false
  params_boxed : ∀ p ∈ params, p.isPrimitive = false
deriving DecidableEq

namespace Signature

def usableName (name : Option Text) : Option Text := name.filter fun n => !n.isEmpty

theorem usableName_ne_empty (name : Option Text) : usableName name ≠ some [] := by
  simp [usableName, Option.filter_eq_some_iff]

/-! ## Predefined signatures -/

def free : Signature where
  name := none
  params := [.object]
  variadic := true
  returns := .object
  name_ne_empty := by decide
  params_of_variadic := by decide
  returns_boxed := rfl
  params_boxed := by decide

def procedure : Signature where
  name := none
  params := []
  variadic := false
  returns := .object
  name_ne_empty := by decide
  params_of_variadic := by decide
  returns_boxed := rfl
  params_boxed := by decide

/-- Takes the texts of a command line and returns nothing. -/
def main : Signature where
  name := some "main"
  params := [.text]
  variadic := true
  returns := .void
  name_ne_empty := by decide
  params_of_variadic := by decide
  returns_boxed := rfl
  params_boxed := by decide

/-- The same contract under another name. -/
def renamed (s : Signature) (name : Option Text) : Signature :=
  { s with name := usableName name, name_ne_empty := usableName_ne_empty name }

/-! ## Text and comparison -/

/-- The parameter list as text; the last type of a variable arity carries an ellipsis. -/
def displayParams (s : Signature) : Text :=
  Text.join [',', ' '] (s.params.map Ty.display) ++ (if s.variadic then " ...".toList else [])

def display (s : Signature) : Text :=
  "function (" ++ s.displayParams ++ ")" ++ ':' :: s.returns.display

/-- Do the signatures differ at most in their name? -/
def sameContract (s t : Signature) : Bool :=
  s.params == t.params && s.variadic == t.variadic && s.returns == t.returns

end Signature
end SealedScript
