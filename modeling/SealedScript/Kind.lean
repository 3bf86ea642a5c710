import SealedScript.Text.Basic

/-!
The three kinds of executables: scripts run in the caller's scope and take no arguments, functions see
only their arguments, macros take arguments and run in the caller's scope.
-/

namespace SealedScript
set_option autoImplicit false

/-- What an executable is called as. -/
inductive Kind
  | script
  | function
  | macroRoutine
deriving DecidableEq, Repr

def Kind.display : Kind → Text
  | .script => "script"
  | .function => "function"
  | .macroRoutine => "macro"

end SealedScript
