import SealedScript.Executable
import SealedScript.Record

/-!
Executables as records and back.

Only a serializable engine gives out records. An executable made from a record holds the stored image;
its signature and parameter names are checked like those of a compiled one.
-/

namespace SealedScript
set_option autoImplicit false

namespace Executable

def toRecord (e : Executable) : Outcome Record :=
  if e.engine.isSerializable then
    .ok
      { kind := e.kind
        code := e.code
        frozen := e.frozen
        captured := e.captured
        signature := e.signature?
        paramNames := e.paramNames
        image := e.image }
  else .error (.codec (.notSerializable e.engine.name))

/-- The shape that a record describes. What it says about a script's call does not matter. -/
def shapeOfRecord (r : Record) : Outcome Shape :=
  match r.kind, r.signature with
  | .script, _ => .ok .script
  | .function, some s => Shape.ofCall .function ⟨s, r.paramNames⟩
  | .macroRoutine, some s => Shape.ofCall .macroRoutine ⟨s, r.paramNames⟩
  | kind, none => .error (.codec (.noSignature kind))

/-- The executable that a record describes, under an engine. -/
def ofRecord (r : Record) (engine : Engine) : Outcome Executable := do
  let shape ← shapeOfRecord r
  return {
    engine, shape
    code := r.code
    frozen := r.frozen
    captured := r.captured
    body := .stored r.image }

end Executable
end SealedScript
