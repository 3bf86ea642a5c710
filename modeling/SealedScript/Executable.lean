import SealedScript.CallShape
import SealedScript.Engine
import SealedScript.Frozen

/-!
Executables: scripts, functions and macros that can be called.

An executable knows its engine, its source, the names it captured with their types and values, and what
it is called with. Its program is attached when it comes from the compiler; when it comes from storage
only the image is held until the first call needs the program.
-/

namespace SealedScript
set_option autoImplicit false

/-- What an executable is and what it is called with. -/
inductive Shape
  | script
  | function (call : CallShape)
  | macroRoutine (call : CallShape)
deriving DecidableEq

namespace Shape

def kind : Shape → Kind
  | .script => .script
  | .function _ => .function
  | .macroRoutine _ => .macroRoutine

def call? : Shape → Option CallShape
  | .script => none
  | .function call | .macroRoutine call => some call

def signature? (s : Shape) : Option Signature := s.call?.map CallShape.signature

def paramNames (s : Shape) : List Text := s.call?.elim [] CallShape.paramNames

/-- The shape of a routine: as many parameter names as parameters, and none of them empty. -/
def ofCall (make : CallShape → Shape) (call : CallShape) : Outcome Shape :=
  if call.paramNames.length ≠ call.signature.params.length then
    .error (.invalidSignature (.paramNameCount call.paramNames.length call.signature))
  else if call.paramNames.any List.isEmpty then .error (.invalidSignature .emptyParamName)
  else .ok (make call)

end Shape

/-- The program of an executable: attached, or stored as an image. -/
inductive Body
  | attached (program : Program)
  | stored (image : Bytes)

/-- Something that can be called. -/
structure Executable where
  engine : Engine
  code : Text
  frozen : Frozen
  captured : List (Text × Value)
  shape : Shape
  body : Body

namespace Executable

def kind (e : Executable) : Kind := e.shape.kind

/-- The signature; a script has none. -/
def signature? (e : Executable) : Option Signature := e.shape.signature?

/-- The parameter names; a script has none. -/
def paramNames (e : Executable) : List Text := e.shape.paramNames

def hasProgram (e : Executable) : Bool :=
  match e.body with
  | .attached _ => true
  | .stored _ => false

/-- The program, loaded from its image if it is not attached. -/
def program (e : Executable) : Outcome Program :=
  match e.body with
  | .attached program => .ok program
  | .stored image => e.engine.load image

def image (e : Executable) : Bytes :=
  match e.body with
  | .attached program => program.image
  | .stored image => image

/-- The executable with its captured names bound to the values of another scope. -/
def rebind (e : Executable) (scope : Scope) : Outcome Executable := do
  e.frozen.checkRebind scope
  return { e with captured := e.frozen.valuesIn scope }

/-- Do two signatures, or two missing ones, agree up to their names? -/
def sameSignature : Option Signature → Option Signature → Bool
  | some s, some t => s.sameContract t
  | none, none => true
  | _, _ => false

/-- Are the captured names and values the same? -/
def sameCaptured : List (Text × Value) → List (Text × Value) → Bool
  | [], [] => true
  | (m, v) :: as, (n, w) :: bs => m == n && v.equals w && sameCaptured as bs
  | _, _ => false

/-- Do two executables agree in everything but their programs? -/
def equals (a b : Executable) : Bool :=
  a.kind == b.kind && a.engine == b.engine && a.code == b.code && a.frozen == b.frozen
    && sameCaptured a.captured b.captured && sameSignature a.signature? b.signature?
    && a.paramNames == b.paramNames

end Executable
end SealedScript
