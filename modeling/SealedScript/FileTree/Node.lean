import SealedScript.Error

/-!
Files and directories.

A place is the list of names that lead to a node from the one above them all. What stands at a place is
found by `get?`, and `insert` and `erase` change it. Main statements: a name is found under the node that
was put there last (`lookup_put`), and a name that was taken away is not found (`lookup_take`).
-/

namespace SealedScript
set_option autoImplicit false

/-- A file or a directory. -/
inductive Node
  | file (text : Text)
  | directory (entries : List (Text × Node))

instance : Inhabited Node := ⟨.directory []⟩

namespace Node

/-! ## Entries of one directory -/

/-- Puts a node under a name, in the place of one that is there. -/
def put (name : Text) (child : Node) : List (Text × Node) → List (Text × Node)
  | [] => [(name, child)]
  | (other, node) :: rest =>
    if name == other then (name, child) :: rest else (other, node) :: put name child rest

def take (name : Text) : List (Text × Node) → List (Text × Node)
  | [] => []
  | (other, node) :: rest => if name == other then take name rest else (other, node) :: take name rest

theorem lookup_put (name key : Text) (child : Node) (entries : List (Text × Node)) :
    (put name child entries).lookup key = if key = name then some child else entries.lookup key := by
  induction entries with
  | nil => rw [put, Text.lookup_cons]
  | cons entry rest ih =>
    obtain ⟨other, node⟩ := entry
    by_cases same : name = other
    · subst same
      by_cases h : key = name <;> simp [put, Text.lookup_cons, h]
    · by_cases h : key = other
      · have differs : ¬other = name := fun e => same e.symm
        simp [put, same, h, differs]
      · simp [put, Text.lookup_cons, same, h, ih]

theorem lookup_take (name key : Text) (entries : List (Text × Node)) :
    (take name entries).lookup key = if key = name then none else entries.lookup key := by
  induction entries with
  | nil => simp [take]
  | cons entry rest ih =>
    obtain ⟨other, node⟩ := entry
    by_cases same : name = other
    · subst same
      have skips : take name ((name, node) :: rest) = take name rest := by simp [take]
      rw [skips, ih, Text.lookup_cons]
      by_cases h : key = name <;> simp [h]
    · by_cases h : key = other
      · have differs : ¬other = name := fun e => same e.symm
        simp [take, same, h, differs]
      · simp [take, Text.lookup_cons, same, h, ih]

/-! ## Places -/

def get? : List Text → Node → Option Node
  | [], node => some node
  | _ :: _, .file _ => none
  | name :: rest, .directory entries => (entries.lookup name).bind (get? rest)

/-- Puts a node at a place in a directory that is there. -/
def insert (child : Node) : List Text → Node → Node
  | [], _ => child
  | _ :: _, .file text => .file text
  | name :: rest, .directory entries =>
    match entries.lookup name with
    | some below => .directory (put name (insert child rest below) entries)
    | none => .directory (if rest.isEmpty then put name child entries else entries)

def erase : List Text → Node → Node
  | [], node => node
  | _ :: _, .file text => .file text
  | name :: rest, .directory entries =>
    match entries.lookup name with
    | some below =>
      .directory (if rest.isEmpty then take name entries else put name (erase rest below) entries)
    | none => .directory entries

def entries : Node → Except FileFault (List (Text × Node))
  | .directory entries => .ok entries
  | .file _ => .error .notDirectory

@[simp] theorem get?_nil (node : Node) : node.get? [] = some node := by simp [get?]

theorem get?_append (place rest : List Text) (node : Node) :
    node.get? (place ++ rest) = (node.get? place).bind (get? rest) := by
  induction place generalizing node with
  | nil => simp
  | cons name place ih =>
    cases node with
    | file text => simp [get?]
    | directory entries =>
      cases h : entries.lookup name <;> simp [get?, h, ih]

/-! ## Files -/

mutual
/-- The files under a node with the names that lead to them. -/
def files : Node → List (List Text × Text)
  | .file text => [([], text)]
  | .directory entries => filesIn entries
def filesIn : List (Text × Node) → List (List Text × Text)
  | [] => []
  | (name, child) :: rest => (child.files.map fun f => (name :: f.1, f.2)) ++ filesIn rest
end

end Node
end SealedScript
