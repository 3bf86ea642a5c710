import SealedScript.CommandLine.Basic
import SealedScript.Executable.Call
import SealedScript.Value.Read

/-!
The texts of a command line as the arguments of a call.

Each text is read as the type of its parameter. Surplus texts are read as the last parameter's type
when the arity is variable, and as objects otherwise; the call then refuses them.
-/

namespace SealedScript
set_option autoImplicit false

namespace Signature

def argumentType (s : Signature) (index : Nat) : Ty :=
  let declared := if s.variadic then min index (s.params.length - 1) else index
  s.params[declared]?.getD .object

/-- Reads the texts as arguments, the first of them at an index. -/
def readFrom (s : Signature) (index : Nat) : List Text → Outcome (List Value)
  | [] => .ok []
  | t :: ts => do
    let v ← Value.ofText t (s.argumentType index)
    return v :: (← s.readFrom (index + 1) ts)

end Signature

namespace Executable

def readArguments (e : Executable) (texts : List Text) : Except CommandFault (List Value) :=
  match e.signature? with
  | some s => (s.readFrom 0 texts).mapError .script
  | none => if texts.isEmpty then .ok [] else .error .scriptArguments

/-- Calls the executable with the texts of a command line. -/
def callWith (e : Executable) (texts : List Text) : Except CommandFault Value := do
  let args ← e.readArguments texts
  (e.call args).result.mapError .script

end Executable
end SealedScript
