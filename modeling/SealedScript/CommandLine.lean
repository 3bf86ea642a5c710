import SealedScript.CommandLine.Arguments
import SealedScript.CommandLine.Report
import SealedScript.Executable.Compile

/-!
Executing commands on a tree of files.
-/

namespace SealedScript.Command
set_option autoImplicit false

/-! ## What commands work with -/

def scriptText (disk : FileTree) (file : Text) : Except CommandFault Text :=
  (disk.read file).mapError (.unreadable file)

/-- The registry with the default engine of the policy in a file. -/
def registryOf (disk : FileTree) (config : Text) : Outcome Registry := do
  let policy ← Policy.load disk config
  Registry.builtins.setDefault policy.defaultEngine

/-- A loader for the policy in a file; `noWrite` takes away the leave to write. -/
def loaderOf (disk : FileTree) (config : Text) (noWrite : Bool) : Outcome Loader := do
  let policy ← Policy.load disk config
  Loader.make .builtins { policy with writeBack := policy.writeBack && !noWrite }

/-- The output and the end of a command that calls something. -/
def afterCall (result : Except CommandFault Value) (notes : Text) (disk : FileTree) : Execution :=
  match result with
  | .ok v => ⟨.ok (), Report.value v, notes, disk⟩
  | .error fault => ⟨.error fault, [], notes, disk⟩

/-! ## Commands on files -/

/-- A script, its executable and the artifact that holds both. -/
def rebuild (disk : FileTree) (file config : Text) :
    Except CommandFault (Text × Executable × Text) := do
  let registry ← (registryOf disk config).mapError .script
  let text ← scriptText disk file
  let (e, merged) ← (Artifact.recompile registry file text).mapError .script
  return (text, e, merged)

/-- Compiles a script and writes its file, unless that holds the same text already. -/
def executeCompile (disk : FileTree) (file config : Text) : Execution :=
  match rebuild disk file config with
  | .error fault => .failed fault disk
  | .ok (text, e, merged) =>
    if merged = text then .printed (Report.upToDate file) disk
    else
      match disk.replace file merged with
      | (.ok _, disk) => .printed (Report.compiled file e) disk
      | (.error error, disk) => .failed (.script error) disk

/-- Reports on an artifact; a strict check fails when it is not fresh. -/
def executeCheck (disk : FileTree) (file : Text) (json strict : Bool) : Execution :=
  match scriptText disk file with
  | .error fault => .failed fault disk
  | .ok text =>
    let x := Artifact.extract .builtins text
    { result := if strict && !x.validation.isFresh then .error (.notFresh file x.validation) else .ok ()
      stdout := if json then Report.checkJson file text x else Report.check file text x
      stderr := []
      disk }

def executeRun (disk : FileTree) (file : Text) (args : List Text) (config : Text) (noWrite : Bool) :
    Execution :=
  match loaderOf disk config noWrite with
  | .error error => .failed (.script error) disk
  | .ok loader =>
    let loading := loader.load (.file file true) disk
    match loading.result with
    | .error error => .failed (.script error) loading.disk
    | .ok report =>
      afterCall (report.executable.callWith args) (Report.loaded file report) loading.disk

def executeValidate (disk : FileTree) (file : Text) : Execution :=
  match Policy.ofFile disk file with
  | .error error => .failed (.script error) disk
  | .ok policy =>
    match policy.defects .builtins with
    | [] => .printed (Report.policy file policy) disk
    | ds => ⟨.error (.defects ds.length), [], Report.defects ds, disk⟩

/-! ## Evaluating a text -/

def evalName : Text := "<eval>"

/-- The constant that holds the arguments of an evaluated text. -/
def argumentsName : Text := "$MainArgs"

/-- What stands in front of an evaluated text that declares no kind. -/
def scriptHeader : Text := "// \x7b script \x7d\n"

def evalScope (args : List Text) : Outcome Scope :=
  (Scope.empty.declare argumentsName (.array .text) (.array .text (args.map fun arg => .text (String.ofList arg))) true).mapError .scope

/-- The executable of an evaluated text and the scope to call it in. -/
def compileText (code engine : Text) (args : List Text) : Outcome (Executable × Scope) := do
  let registry ← Registry.builtins.setDefault (some engine)
  let chosen ← registry.engineFor code
  let declared ← Header.Info.ofCode? none code
  let scope ← evalScope args
  let e ← chosen.compile (some evalName) (if declared.isSome then code else scriptHeader ++ code) scope
  return (e, scope)

/-- Calls the script that a text writes. A routine gets the arguments as its own; a script finds them in
its scope. -/
def evaluate (code engine : Text) (args : List Text) : Except CommandFault Value := do
  let (e, scope) ← (compileText code engine args).mapError .script
  let values ← if e.kind = .script then .ok [] else e.readArguments args
  (e.callIn scope values).result.mapError .script

/-! ## All commands -/

def execute (command : Command) (disk : FileTree) : Execution :=
  match command with
  | .compile file config => executeCompile disk file config
  | .check file json strict => executeCheck disk file json strict
  | .run file args config noWrite => executeRun disk file args config noWrite
  | .eval code engine args => afterCall (evaluate code engine args) [] disk
  | .validate file => executeValidate disk file

end SealedScript.Command
