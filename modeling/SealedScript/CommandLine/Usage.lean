import SealedScript.CommandLine.Basic

/-!
Reading the words of a command line as a command.

Options may stand anywhere behind the command's name; behind two hyphens every word is an operand.
-/

namespace SealedScript
set_option autoImplicit false

/-- The words behind the name of a command, sorted. -/
structure CommandWords where
  operands : List Text
  switches : List Text
  settings : List (Text × Text)

namespace CommandWords

/-- Sorts words; the words in `switches` stand alone and each in `settings` takes the next one as its
value. Any other word that starts with a hyphen is refused. -/
def sort? (switches settings : List Text) : List Text → Option CommandWords
  | [] => some ⟨[], [], []⟩
  | word :: rest =>
    if word = "--".toList then some ⟨rest, [], []⟩
    else if switches.contains word then
      (sort? switches settings rest).map fun w => { w with switches := word :: w.switches }
    else if settings.contains word then
      match rest with
      | v :: rest =>
        (sort? switches settings rest).map fun w => { w with settings := (word, v) :: w.settings }
      | [] => none
    else if word.head? = some '-' ∧ word.length ≠ 1 then none
    else (sort? switches settings rest).map fun w => { w with operands := word :: w.operands }

def has (w : CommandWords) (switch : Text) : Bool := w.switches.contains switch

/-- The value of a setting under either of its names. -/
def setting? (w : CommandWords) (short long : Text) : Option Text :=
  (w.settings.find? fun s => s.1 == short || s.1 == long).map Prod.snd

end CommandWords

namespace Command

def usage : Text :=
  "usage: compile FILE [-c CONFIG]\n"
    ++ "       check FILE [--json] [--strict]\n"
    ++ "       run FILE [ARGS] [-c CONFIG] [--no-write]\n"
    ++ "       eval -c TEXT [-e ENGINE] [ARGS]\n"
    ++ "       validate [-f FILE]\n"

def configOf (w : CommandWords) : Text := (w.setting? "-c" "--config").getD Policy.fileName

def readCompile? (words : List Text) : Option Command := do
  let w ← CommandWords.sort? [] ["-c", "--config"] words
  match w.operands with
  | [file] => return .compile file (configOf w)
  | _ => none

def readCheck? (words : List Text) : Option Command := do
  let w ← CommandWords.sort? ["--json", "--strict"] [] words
  match w.operands with
  | [file] => return .check file (w.has "--json") (w.has "--strict")
  | _ => none

def readRun? (words : List Text) : Option Command := do
  let w ← CommandWords.sort? ["--no-write"] ["-c", "--config"] words
  match w.operands with
  | file :: args => return .run file args (configOf w) (w.has "--no-write")
  | [] => none

def readEval? (words : List Text) : Option Command := do
  let w ← CommandWords.sort? [] ["-c", "--command", "-e", "--engine"] words
  let code ← w.setting? "-c" "--command"
  return .eval code ((w.setting? "-e" "--engine").getD standardEngine) w.operands

def readValidate? (words : List Text) : Option Command := do
  let w ← CommandWords.sort? [] ["-f", "--file"] words
  if w.operands.isEmpty then return .validate ((w.setting? "-f" "--file").getD Policy.fileName)
  else none

def ofWords? : List Text → Option Command
  | [] => none
  | name :: words =>
    if name = "compile".toList then readCompile? words
    else if name = "check".toList then readCheck? words
    else if name = "run".toList then readRun? words
    else if name = "eval".toList then readEval? words
    else if name = "validate".toList then readValidate? words
    else none

/-- The paths of the files that a command may read or write. -/
def paths : Command → List Text
  | .compile file config | .run file _ config _ => [file, config]
  | .check file .. | .validate file => [file]
  | .eval .. => []

end Command
end SealedScript
