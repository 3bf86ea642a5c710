import SealedScript.Executable
import SealedScript.Program.Run
import SealedScript.Signature.Adjust

/-!
Calling executables.

A call brings the arguments into shape, attaches the program if need be, runs it and checks the result.
Scripts and macros run in the caller's scope, functions in none. The answer holds the scope as the call
leaves it, also when it fails, and the executable, whose program stays attached once it is loaded.
-/

namespace SealedScript
set_option autoImplicit false

/-- What a call leaves behind. -/
structure Call where
  result : Outcome Value
  scope : Scope
  executable : Executable

namespace Shape

/-- The arguments as the parameters take them. A script takes none. -/
def admitArgs (s : Shape) (args : List Value) : Outcome (List Value) :=
  match s.call? with
  | some call => call.signature.adjust args
  | none => if args.isEmpty then .ok [] else .error (.incompatibleArguments args none)

/-- The result as the signature promises it. -/
def release (s : Shape) (v : Value) : Outcome Value :=
  match s.call? with
  | some call => call.signature.ensureReturn v
  | none => .ok v

/-- Does the program see the caller's scope? -/
def seesScope : Shape → Bool
  | .function _ => false
  | .script | .macroRoutine _ => true

end Shape

namespace Executable

def callIn (e : Executable) (scope : Scope) (args : List Value) : Call :=
  match e.shape.admitArgs args with
  | .error err => ⟨.error err, scope, e⟩
  | .ok adjusted =>
    match e.program with
    | .error err => ⟨.error err, scope, e⟩
    | .ok program =>
      let frame : Frame := ⟨e.paramNames, adjusted, e.captured⟩
      let (result, after) :=
        program.run e.engine.name frame (if e.shape.seesScope then some scope else none)
      ⟨result.bind e.shape.release, after.getD scope, { e with body := .attached program }⟩

def call (e : Executable) (args : List Value) : Call := e.callIn .empty args

end Executable
end SealedScript
