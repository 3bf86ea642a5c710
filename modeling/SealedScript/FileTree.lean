import SealedScript.FileTree.Node
import SealedScript.FileTree.Path

/-!
A tree of directories and files, and the file operations that stores and commands need.

A path is followed step by step, and every step is taken in a directory: a file on the way is a fault also
in front of `.` and `..`. What the tree allows may still fail on the device below it, for want of space or of a
permission. A file whose writing fails may be left with any text. `replace` writes beside the file first and
then renames, so that the file itself always holds the old or the new text.
-/

namespace SealedScript
set_option autoImplicit false

/-! ## Below a tree -/

/-- What comes of writing a file that may be written. -/
inductive Writing
  | whole
  /-- The file cannot be opened; nothing has changed. -/
  | refused (message : Text)
  /-- The file is emptied or created, and then not all of the text can be written. -/
  | broken (kept message : Text)

/-- What the device below a tree makes of the changes that the tree allows: for a directory and for a renaming the
message if it fails. -/
structure Device where
  makeDirectory : Text → Option Text
  write : Text → Text → Writing
  rename : Text → Text → Option Text

/-- The device on which nothing fails. -/
def Device.sound : Device where
  makeDirectory := fun _ => none
  write := fun _ _ => .whole
  rename := fun _ _ => none

/-- Directories and files, the working directory, from which relative paths start, and what they are stored on. -/
structure FileTree where
  root : Node
  home : List Text
  device : Device

namespace FileTree

/-- The names that lead to the working directory of a new tree. -/
def newHome : List Text := ["tmp", "work"]

/-- The tree without files: the working directory and those above it. -/
def empty : FileTree :=
  ⟨newHome.foldr (fun name below => .directory [(name, below)]) (.directory []), newHome, .sound⟩

/-- The files below the working directory, under their paths. -/
def files (tree : FileTree) : List (Text × Text) :=
  ((tree.root.get? tree.home).elim [] Node.files).map fun f => (Text.join ['/'] f.1, f.2)

/-! ## Following paths -/

/-- A place in a tree: the names that lead to it, the last one first, and the node there. -/
structure Spot where
  names : List Text
  node : Node

/-- The place that names, the last one first, lead to. -/
def spotAt (tree : FileTree) (names : List Text) : Except FileFault Spot :=
  match tree.root.get? names.reverse with
  | some node => .ok ⟨names, node⟩
  | none => .error .missing

def take (tree : FileTree) (spot : Spot) (step : Step) : Except FileFault Spot := do
  let entries ← spot.node.entries
  match step with
  | .stay => return spot
  | .up => tree.spotAt (spot.names.drop 1)
  | .into name =>
    if Path.isLongName name then throw .nameTooLong
    else
      match entries.lookup name with
      | some node => return ⟨name :: spot.names, node⟩
      | none => throw .missing

def follow (tree : FileTree) (p : Path) (steps : List Step) : Except FileFault Spot := do
  steps.foldlM tree.take (← tree.spotAt (if p.absolute then [] else tree.home.reverse))

def find (tree : FileTree) (path : Text) : Except FileFault Node := do
  let p ← Path.ofText path
  match (← tree.follow p p.steps).node with
  | .file text => if p.slashed then throw .notDirectory else return .file text
  | node => return node

def holds (tree : FileTree) (path : Text) : Bool := (tree.find path).toOption.isSome

def holdsDirectory (tree : FileTree) (path : Text) : Bool :=
  match tree.find path with
  | .ok (.directory _) => true
  | _ => false

def read (tree : FileTree) (path : Text) : Except FileFault Text := do
  match ← tree.find path with
  | .file text => return text
  | .directory _ => throw .isDirectory

/-! ## Changing entries -/

/-- The end of a path whose last entry need not be there: the directory it is in, by the names that lead to
it, the last one first, what that holds, and the name, when the last step goes into one. -/
structure End where
  directory : List Text
  entries : List (Text × Node)
  name? : Option Text

def endOf (tree : FileTree) (p : Path) : Except FileFault End := do
  let spot ← tree.follow p p.front
  return ⟨spot.names, ← spot.node.entries, p.name?⟩

def put (tree : FileTree) (directory : List Text) (name : Text) (node : Node) : FileTree :=
  { tree with root := Node.insert node (name :: directory).reverse tree.root }

/-- The file that can be written under a path: the directory it is in, by the names that lead to it, the last one
first, and its name. -/
def target (tree : FileTree) (path : Text) : Except FileFault (List Text × Text) := do
  let p ← Path.ofText path
  let e ← tree.endOf p
  match e.name? with
  | none => throw .isDirectory
  | some name =>
    if p.slashed then throw .isDirectory
    else if Path.isLongName name then throw .nameTooLong
    else
      match e.entries.lookup name with
      | some (.directory _) => throw .isDirectory
      | _ => return (e.directory, name)

/-- Writes a file. The answer is the tree as it is afterwards, also after a failure. -/
def write (tree : FileTree) (path text : Text) : Except FileFault Unit × FileTree :=
  match tree.target path with
  | .error fault => (.error fault, tree)
  | .ok (directory, name) =>
    match tree.device.write path text with
    | .whole => (.ok (), tree.put directory name (.file text))
    | .refused message => (.error (.device message), tree)
    | .broken kept message => (.error (.device message), tree.put directory name (.file kept))

def makeDirectory (tree : FileTree) (path : Text) : Except FileFault FileTree := do
  let e ← tree.endOf (← Path.ofText path)
  match e.name? with
  | none => throw .exists
  | some name =>
    if Path.isLongName name then throw .nameTooLong
    else if (e.entries.lookup name).isSome then throw .exists
    else
      match tree.device.makeDirectory path with
      | some message => throw (.device message)
      | none => return tree.put e.directory name (.directory [])

/-- What creating a directory comes to: it is no fault if there is one already. -/
def settle (tree : FileTree) (path : Text) :
    Except FileFault FileTree → Except FileFault Unit × FileTree
  | .ok made => (.ok (), made)
  | .error fault => (if tree.holdsDirectory path then .ok () else .error fault, tree)

/-- Creates the directory at the first path, and before it those at the other paths, which lead to it, as
far as it needs them. Directories that were created stay also after a failure. -/
def makeDirectories (tree : FileTree) : List Text → Except FileFault Unit × FileTree
  | [] => (.ok (), tree)
  | path :: inFront =>
    match tree.makeDirectory path with
    | .error .missing =>
      match tree.makeDirectories inFront with
      | (.ok (), prepared) => prepared.settle path (prepared.makeDirectory path)
      | failed => failed
    | made => tree.settle path made

/-- The tree in which a file has another path, in the place of a file that is there. -/
def renamed (tree : FileTree) (source target : Text) : Except FileFault FileTree := do
  let p ← Path.ofText source
  let q ← Path.ofText target
  let e ← tree.endOf p
  let f ← tree.endOf q
  match e.name?, f.name? with
  | some old, some new =>
    match e.entries.lookup old with
    | none => throw (if Path.isLongName old then .nameTooLong else .missing)
    | some (.directory _) => throw .isDirectory
    | some (.file text) =>
      if Path.isLongName new then throw .nameTooLong
      else if p.slashed || q.slashed then throw .notDirectory
      else if e.directory = f.directory ∧ old = new then return tree
      else
        match f.entries.lookup new with
        | some (.directory _) => throw .isDirectory
        | _ =>
          let moved := tree.put f.directory new (.file text)
          return { moved with root := moved.root.erase (old :: e.directory).reverse }
  | _, _ => throw .busy

/-- Gives a file another path. -/
def rename (tree : FileTree) (source target : Text) : Except FileFault FileTree := do
  let renamed ← tree.renamed source target
  match tree.device.rename source target with
  | some message => throw (.device message)
  | none => return renamed

/-! ## Replacing files -/

/-- Where a file is written before it takes its place. -/
def temporary (path : Text) : Text := path ++ ".tmp"

/-- Writes a file by way of a temporary one beside it, creating the directories that lead to it. The answer
is the tree as it is afterwards, also after a failure. -/
def replace (tree : FileTree) (path text : Text) : Outcome Unit × FileTree :=
  let inFront := Path.ancestors path
  match tree.makeDirectories inFront with
  | (.error fault, prepared) => (.error (.file (inFront.head?.getD []) fault), prepared)
  | (.ok (), prepared) =>
    match prepared.write (temporary path) text with
    | (.error fault, left) => (.error (.file (temporary path) fault), left)
    | (.ok (), written) =>
      match written.rename (temporary path) path with
      | .error fault => (.error (.file path fault), written)
      | .ok renamed => (.ok (), renamed)

end FileTree
end SealedScript
