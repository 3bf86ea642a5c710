import SealedScript.FileTree

/-!
Stores: where the text of one artifact lives.

A memory store holds its text itself and counts how often it was saved; a file store names a file of a
tree. Either may be read-only.
-/

namespace SealedScript
set_option autoImplicit false

/-- The place of one artifact. -/
inductive Store
  | memory (name : Text) (writable : Bool) (text : Text) (saves : Nat)
  | file (path : Text) (writable : Bool)

/-- What saving leaves behind. -/
structure Saving where
  result : Outcome Unit
  store : Store
  disk : FileTree

namespace Store

/-- The name under which the artifact is known, for a file its path. -/
def name : Store → Text
  | .memory name .. => name
  | .file path _ => path

def isWritable : Store → Bool
  | .memory _ writable .. => writable
  | .file _ writable => writable

/-- How often a memory store was saved. -/
def saves? : Store → Option Nat
  | .memory _ _ _ saves => some saves
  | .file .. => none

def load (s : Store) (disk : FileTree) : Outcome Text :=
  match s with
  | .memory _ _ text _ => .ok text
  | .file path _ => (disk.read path).mapError (.file path)

def save (s : Store) (disk : FileTree) (text : Text) : Saving :=
  if s.isWritable then
    match s with
    | .memory name writable _ saves => ⟨.ok (), .memory name writable text (saves + 1), disk⟩
    | .file path _ =>
      let (result, after) := disk.replace path text
      ⟨result, s, after⟩
  else ⟨.error (.readOnly s.name), s, disk⟩

end Store
end SealedScript
