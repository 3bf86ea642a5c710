import SealedScript.Artifact.Extract
import SealedScript.Fingerprint
import SealedScript.Json
import SealedScript.Loader

/-!
What the commands tell about artifacts, executables and results.
-/

namespace SealedScript.Report
set_option autoImplicit false

def lines (ts : List Text) : Text := ts.flatMap fun t => t ++ ['\n']

/-- A result; nothing is said about null. -/
def value (v : Value) : Text := if v.isNull then [] else lines [v.display]

/-! ## Checking -/

def kindAndEngine (e : Executable) : Text := e.kind.display ++ " via " ++ e.engine.name

def stored (e : Executable) : List Text :=
  ("  " ++ kindAndEngine e) :: e.signature?.elim [] fun s => ["  signature: " ++ s.display]

def check (file text : Text) (x : Artifact.Contents) : Text :=
  lines ((file ++ ": " ++ x.validation.display)
    :: (x.executable.elim [] stored ++ ["  " ++ fingerprint text]))

/-- The same as an object, its members in alphabetical order. -/
def checkJson (file text : Text) (x : Artifact.Contents) : Text :=
  let known (f : Executable → Text) : JsonScalar := x.executable.elim .null fun e => .text (f e)
  lines [JsonScalar.writeObject
    [("engine", known fun e => e.engine.name),
      ("file", .text file),
      ("fingerprint", .text (fingerprint text)),
      ("fresh", .bool x.validation.isFresh),
      ("kind", known fun e => e.kind.display),
      ("validation", .text x.validation.display)]]

/-! ## Compiling and loading -/

/-- The lines about a compiled artifact that was written. -/
def compiled (file : Text) (e : Executable) : Text :=
  lines (("Compiled " ++ file ++ " (" ++ kindAndEngine e ++ ")")
    :: (if e.engine.isSerializable then []
      else ["  " ++ e.engine.name ++ " does not store compiled code; source only"]))

/-- The line about a compiled artifact that the file holds already. -/
def upToDate (file : Text) : Text := lines ["Up to date: " ++ file]

/-- The notes about a load; there are none when nothing was rebuilt. -/
def loaded (file : Text) (r : Loaded) : Text :=
  let rebuilt : List Text :=
    match r.outcome with
    | .rebuilt found =>
      [file ++ ": " ++ found.display ++ " -> recompiled, "
        ++ (if r.persisted then "refreshed".toList else "not written back".toList)]
    | .fresh | .memoized => []
  lines (rebuilt ++ r.persistError?.elim [] fun e => ["  warning: " ++ e.message])

/-! ## Policies -/

def truth (b : Bool) : Text := if b then "true" else "false"

def policy (file : Text) (p : Policy) : Text :=
  lines ["OK: " ++ file ++ " (recompile: " ++ truth p.recompile ++ ", write_back: " ++ truth p.writeBack
    ++ ", force_recompile: " ++ truth p.forceRecompile ++ ")"]

def defects (ds : List PolicyDefect) : Text := lines (ds.map fun d => "  ERROR: " ++ d.message)

end SealedScript.Report
