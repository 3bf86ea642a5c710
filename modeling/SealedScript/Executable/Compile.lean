import SealedScript.Executable
import SealedScript.Header.Info
import SealedScript.Program.Parse
import SealedScript.Registry

/-!
Compiling source text.

The info block decides what the text compiles to; without one it is a program called with the texts of
a command line. The program is read from behind the launch lines. Names that it reads freely and that
the scope declares are captured with their values.
-/

namespace SealedScript
set_option autoImplicit false

namespace Engine

/-- The info of a script that declares none. -/
def defaultInfo (_ : Engine) (fileName : Option Text) : Header.Info := .main fileName

def shapeOf (info : Header.Info) : Outcome Shape :=
  match info.kind.toKind with
  | .script => .ok .script
  | .function => Shape.ofCall .function info.call
  | .macroRoutine => Shape.ofCall .macroRoutine info.call

def paramNamesOf (info : Header.Info) : List Text :=
  if info.kind.toKind = .script then [] else info.call.paramNames

/-- Does the program discard its result? -/
def isVoid (info : Header.Info) : Bool :=
  info.kind.toKind != .script && info.call.signature.returns == .void

def compileProgram (e : Engine) (info : Header.Info) (code : Text) : Outcome Program := do
  let ops ← (Op.parse (Header.behindLaunchLines code)).mapError e.failure
  return ⟨ops, isVoid info⟩

/-- The names that are captured: those read freely that the scope declares. -/
def capturedNames (info : Header.Info) (program : Program) (scope : Option Scope) : List Text :=
  (Op.freeNames (paramNamesOf info) program.ops).filter fun n => scope.any fun s => s.declares n

def compile (e : Engine) (fileName : Option Text) (code : Text) (scope : Option Scope) :
    Outcome Executable := do
  let declared ← Header.Info.ofCode? fileName code
  let info := declared.getD (e.defaultInfo fileName)
  let program ← e.compileProgram info code
  let frozen := Frozen.capture (capturedNames info program scope) scope
  let shape ← shapeOf info
  return {
    engine := e, code, frozen, shape
    captured := scope.elim [] frozen.valuesIn
    body := .attached program }

end Engine

namespace Registry

/-- Compiles a file with the engine that its text asks for, capturing from a scope. -/
def compileAgainst (r : Registry) (fileName code : Text) (scope : Option Scope) :
    Outcome Executable := do
  let e ← r.engineFor code
  e.compile (some fileName) code scope

/-- Compiles a file with the engine that its text asks for. -/
def compile (r : Registry) (fileName code : Text) : Outcome Executable :=
  r.compileAgainst fileName code none

end Registry
end SealedScript
