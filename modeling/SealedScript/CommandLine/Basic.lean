import SealedScript.FileTree
import SealedScript.Policy

/-!
Commands, how they can fail, and what executing one leaves behind.
-/

namespace SealedScript
set_option autoImplicit false

/-- What a user can ask for. -/
inductive Command
  /-- Compile a script and store the compiled form in its file. -/
  | compile (file config : Text)
  /-- Tell whether the compiled form in a file is fresh; `strict` makes it a failure if not. -/
  | check (file : Text) (json strict : Bool)
  /-- Load a script, compiling it anew if needed, and call it. -/
  | run (file : Text) (args : List Text) (config : Text) (noWrite : Bool)
  /-- Call the script that a text writes. -/
  | eval (code engine : Text) (args : List Text)
  /-- Check a file with a load policy. -/
  | validate (file : Text)
deriving DecidableEq, Repr

namespace Command

/-- The engine that evaluates texts without a marker, unless another one is asked for. -/
def standardEngine : Text := "RPN"

end Command

/-- Why a command failed. -/
inductive CommandFault
  | script (error : Failure)
  | unreadable (file : Text) (fault : FileFault)
  | scriptArguments
  | notFresh (file : Text) (found : Validation)
  | defects (count : Nat)

def CommandFault.message : CommandFault → Text
  | .script error => error.message
  | .unreadable file fault => "cannot read " ++ file ++ ": " ++ fault.message
  | .scriptArguments => "scripts take no arguments"
  | .notFresh file found => file ++ " is " ++ found.display
  | .defects count => Numeral.decimal count ++ " validation error(s)"

/-- What a command prints, how it ends, and the files it leaves. -/
structure Execution where
  result : Except CommandFault Unit
  stdout : Text
  stderr : Text
  disk : FileTree

namespace Execution

def failed (fault : CommandFault) (disk : FileTree) : Execution := ⟨.error fault, [], [], disk⟩

def printed (out : Text) (disk : FileTree) : Execution := ⟨.ok (), out, [], disk⟩

end Execution
end SealedScript
