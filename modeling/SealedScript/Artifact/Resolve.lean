import SealedScript.Artifact.Extract
import SealedScript.Executable.Compile

/-!
Using artifacts: what is fresh is taken as it is, and what is not is compiled anew if that is allowed.
-/

namespace SealedScript.Artifact
set_option autoImplicit false

/-- What may be done about an artifact: compile it when it is not fresh, or even when it is. -/
structure Permission where
  recompile : Bool
  force : Bool
deriving DecidableEq, Repr

/-- An artifact put to use; there is no executable when only its source is left to serve. -/
structure Resolved where
  executable : Option Executable
  code : Text
  validation : Validation
  rebuilt : Bool

/-- Takes the stored executable or compiles the source. Without leave to compile, an artifact with an
unreadable trailer is an error and any other one is served as source. -/
def resolve (r : Registry) (name text : Text) (options : Permission) : Outcome Resolved :=
  let x := extract r text
  if x.executable.isSome && !options.force then
    .ok ⟨x.executable, x.code, x.validation, false⟩
  else if options.force || options.recompile then do
    let code := pad x.code
    let e ← r.compile name code
    return ⟨some e, code, x.validation, true⟩
  else
    match x.validation with
    | .malformed fault => .error (.malformedTrailer name fault)
    | _ => .ok ⟨none, x.code, x.validation, false⟩

/-- Compiles the source of an artifact and writes the artifact anew. -/
def recompile (r : Registry) (name text : Text) : Outcome (Executable × Text) := do
  let code := pad (extract r text).code
  let e ← r.compile name code
  let merged ← merge code e
  return (e, merged)

end SealedScript.Artifact
