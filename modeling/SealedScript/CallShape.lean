import SealedScript.Signature
import SealedScript.Numeral

/-!
What a routine is called with: a signature and a name for each of its parameters.
-/

namespace SealedScript
set_option autoImplicit false

/-- A signature with names for its parameters. -/
structure CallShape where
  signature : Signature
  paramNames : List Text
deriving DecidableEq

namespace CallShape

/-- The name of a parameter that is declared by its type alone. -/
def positionalName (index : Nat) : Text := "Param" ++ Numeral.decimal index

/-- Takes the texts of a command line under one name. -/
def main : CallShape := ⟨.main, ["$Args"]⟩

/-- Takes anything. -/
def free : CallShape :=
  ⟨.free, (List.range Signature.free.params.length).map positionalName⟩

end CallShape
end SealedScript
