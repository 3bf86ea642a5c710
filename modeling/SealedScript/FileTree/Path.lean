import SealedScript.Error
import SealedScript.Text.Measure

/-!
Paths: the steps that their text writes, and the texts of the directories in front of them.

A text is cut at its slashes. Empty components count for nothing, but that a path which ends with a slash
can only name a directory; `.` stays where it is and `..` goes up.
-/

namespace SealedScript
set_option autoImplicit false

/-- One step on the way to a file or a directory. -/
inductive Step
  | stay
  | up
  | into (name : Text)
deriving DecidableEq, Repr

/-- A way through a tree: from the root or from the working directory, step by step. -/
structure Path where
  absolute : Bool
  steps : List Step
  /-- Does the path end with a slash? -/
  slashed : Bool
deriving DecidableEq, Repr

namespace Path

/-- The step that a component stands for, if it counts. -/
def stepOf? (component : Text) : Option Step :=
  if component.isEmpty then none
  else if component == ['.'] then some .stay
  else if component == ['.', '.'] then some .up
  else some (.into component)

/-- The least length in bytes that a path must not have. -/
def lengthLimit : Nat := 4096

/-- The greatest length in bytes of a name. -/
def longestName : Nat := 255

/-- Is a name longer than any file or directory may have? -/
def isLongName (name : Text) : Bool := longestName < Text.byteLength name

def ofText (t : Text) : Except FileFault Path :=
  if t.contains '\x00' then .error .nulInPath
  else if t.isEmpty then .error .missing
  else if lengthLimit ≤ Text.byteLength t then .error .nameTooLong
  else .ok ⟨t.head? == some '/', (Text.split '/' t).filterMap stepOf?, t.getLast? == some '/'⟩

/-- The steps to the directory in which the last one is taken. -/
def front (p : Path) : List Step := p.steps.dropLast

/-- The name of the entry that the path leads to, when its last step goes into one. -/
def name? (p : Path) : Option Text :=
  match p.steps.getLast? with
  | some (.into name) => some name
  | _ => none

/-! ## The directories in front of a path -/

/-- Does a component name nothing by itself? -/
def isTrivial (component : Text) : Bool := component.isEmpty || component == ['.']

/-- The paths that end with one of the components, which come in reverse, the longest path first. -/
def endings : List Text → List Text
  | [] => []
  | component :: before =>
    if isTrivial component then endings before
    else Text.join ['/'] (component :: before).reverse :: endings before

/-- The texts of the directories in front of a path, the nearest first. -/
def ancestors (t : Text) : List Text := (endings (Text.split '/' t).reverse).drop 1

end Path
end SealedScript
