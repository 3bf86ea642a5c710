import SealedScript.CommandLine
import SealedScript.CommandLine.Usage

/-!
The program: reads the files of a command, executes it and writes back what it changed.
-/

namespace SealedScript
set_option autoImplicit false

/-- A tree with one more file in it and the directories that lead to it. -/
def FileTree.withFile (tree : FileTree) (path text : Text) : FileTree :=
  ((tree.makeDirectories (Path.ancestors path)).2.write path text).2

/-- A tree with one more directory in it and those that lead to it. -/
def FileTree.withDirectory (tree : FileTree) (path : Text) : FileTree :=
  (tree.makeDirectories (path :: Path.ancestors path)).2

def directoryFault : UInt32 := 21

/-- Adds a file or a directory from the disk to a tree, if it is there. -/
def readInto (tree : FileTree) (path : Text) : IO FileTree := do
  try
    let text ← IO.FS.readFile (String.ofList path)
    return tree.withFile path text.toList
  catch
    | .noFileOrDirectory .. => return tree
    | .inappropriateType file code details =>
      if code = directoryFault then return tree.withDirectory path
      else throw (.inappropriateType file code details)
    | error => throw error

/-- Writes a file of a tree to the disk, if its text is another one than before. -/
def writeChanged (before after : FileTree) (path : Text) : IO Unit := do
  match before.read path, after.read path with
  | .ok old, .ok new =>
    if old ≠ new then
      let temporary := String.ofList (FileTree.temporary path)
      IO.FS.writeFile temporary (String.ofList new)
      IO.FS.rename temporary (String.ofList path)
  | _, _ => return ()

/-- Executes a command on the disk; the answer is the exit code. -/
def perform (command : Command) : IO UInt32 := do
  let before ← command.paths.foldlM readInto FileTree.empty
  let execution := command.execute before
  for path in command.paths do
    writeChanged before execution.disk path
  IO.print (String.ofList execution.stdout)
  IO.eprint (String.ofList execution.stderr)
  match execution.result with
  | .ok _ => return 0
  | .error fault =>
    IO.eprintln (String.ofList ("error: " ++ fault.message))
    return 1

end SealedScript

/-- Reads the command from the words behind the program's name. -/
def main (args : List String) : IO UInt32 :=
  match SealedScript.Command.ofWords? (args.map String.toList) with
  | some command => SealedScript.perform command
  | none => do
    IO.eprint (String.ofList SealedScript.Command.usage)
    return 2
