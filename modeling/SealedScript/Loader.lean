import SealedScript.Artifact.Resolve
import SealedScript.Executable.Call
import SealedScript.Fingerprint
import SealedScript.Policy
import SealedScript.Store

/-!
Loaders: artifacts that are resolved once and then remembered.

A loader has a registry and a policy and an entry for each artifact it has been asked for. A load takes
the executable from the entry when there is one; otherwise it reads the store, resolves the text and,
where the policy says so, writes a rebuilt artifact back. Each operation answers the loader, the store
and the disk as it leaves them.
-/

namespace SealedScript
set_option autoImplicit false

/-! ## Entries -/

/-- What a loader knows about an artifact. -/
inductive LoadEntry
  | unresolved
  | resolved (executable : Executable)
  /-- Dropped on request; the next load reads the store again. -/
  | invalidated

namespace LoadEntry

def executable? : LoadEntry → Option Executable
  | .resolved e => some e
  | .unresolved | .invalidated => none

/-- Puts an entry under a name, in the place of one that is there. -/
def put (name : Text) (entry : LoadEntry) : List (Text × LoadEntry) → List (Text × LoadEntry)
  | [] => [(name, entry)]
  | other :: rest =>
    if other.1 == name then (name, entry) :: rest else other :: put name entry rest

end LoadEntry

/-! ## Reports -/

/-- Where the executable of a load comes from. -/
inductive Provenance
  /-- The stored form was usable. -/
  | fresh
  /-- Compiled anew because of what checking the artifact found. -/
  | rebuilt (found : Validation)
  /-- Remembered by the loader; the store was not read. -/
  | memoized

def Provenance.display : Provenance → Text
  | .fresh => "fresh"
  | .rebuilt found => "rebuilt (" ++ found.display ++ ")"
  | .memoized => "memoized"

/-- What became of a rebuilt artifact. -/
inductive WriteBack
  /-- Nothing was rebuilt, the policy forbids it, or the store holds this very text. -/
  | unneeded
  | written (text : Text)
  | failed (error : Failure)

/-- What a load did. -/
structure Loaded where
  artifact : Text
  outcome : Provenance
  executable : Executable
  writeBack : WriteBack
  /-- Of the text last read or written; none when the store was not read. -/
  fingerprint : Option Text

namespace Loaded

def persisted (r : Loaded) : Bool :=
  match r.writeBack with
  | .written _ => true
  | _ => false

def persistError? (r : Loaded) : Option Failure :=
  match r.writeBack with
  | .failed e => some e
  | _ => none

end Loaded

/-! ## Loaders -/

/-- A registry and a policy to load with, and what has been loaded. -/
structure Loader where
  registry : Registry
  policy : Policy
  entries : List (Text × LoadEntry)
  policy_consistent : policy.isContradictory = false

/-- What loading an artifact leaves behind. -/
structure Loading (α : Type) where
  result : Outcome α
  loader : Loader
  store : Store
  disk : FileTree

namespace Loader

/-- A loader that has loaded nothing. The default engine of the policy becomes that of the registry. -/
def make (registry : Registry) (policy : Policy) : Outcome Loader :=
  if h : policy.isContradictory = true then .error (.policy .forceWithoutRecompile)
  else do
    let registry ←
      match policy.defaultEngine with
      | some name => registry.setDefault (some name)
      | none => .ok registry
    return ⟨registry, policy, [], by simpa using h⟩

def entry? (l : Loader) (name : Text) : Option LoadEntry := l.entries.lookup name

def withEntry (l : Loader) (name : Text) (entry : LoadEntry) : Loader :=
  { l with entries := LoadEntry.put name entry l.entries }

/-- Has the loader an entry for the artifact? -/
def tracks (l : Loader) (name : Text) : Bool := (l.entry? name).isSome

def memo? (l : Loader) (name : Text) : Option Executable := (l.entry? name).bind LoadEntry.executable?

/-- Does the loader remember an executable for the artifact? -/
def isResolved (l : Loader) (name : Text) : Bool := (l.memo? name).isSome

/-! ## Loading -/

/-- What the policy allows to be done about an artifact. -/
def options (l : Loader) : Artifact.Permission := ⟨l.policy.recompile, l.policy.forceRecompile⟩

/-- Writes a rebuilt artifact to its store, unless the store holds the same text already. -/
def writeBack (store : Store) (disk : FileTree) (current code : Text) (e : Executable) :
    WriteBack × Store × FileTree :=
  match Artifact.merge code e with
  | .error error => (.failed error, store, disk)
  | .ok merged =>
    if merged = current then (.unneeded, store, disk)
    else
      let saving := store.save disk merged
      match saving.result with
      | .ok _ => (.written merged, saving.store, saving.disk)
      | .error error => (.failed error, saving.store, saving.disk)

/-- The report about an artifact whose text was read and put to use. -/
def report (name text : Text) (resolved : Artifact.Resolved) (e : Executable) (back : WriteBack) :
    Loaded where
  artifact := name
  outcome := if resolved.rebuilt then .rebuilt resolved.validation else .fresh
  executable := e
  writeBack := back
  fingerprint :=
    match back with
    | .written merged => some (SealedScript.fingerprint merged)
    | _ => some (SealedScript.fingerprint text)

/-- The text of a store and the artifact in it put to use. -/
def readStore (l : Loader) (store : Store) (disk : FileTree) :
    Outcome (Text × Artifact.Resolved × Executable) := do
  let text ← store.load disk
  let resolved ← Artifact.resolve l.registry store.name text l.options
  match resolved.executable with
  | some e => return (text, resolved, e)
  | none => throw (.stale store.name resolved.validation)

/-- Loads from the store, whatever the loader remembers. -/
def loadStore (l : Loader) (store : Store) (disk : FileTree) : Loading Loaded :=
  match l.readStore store disk with
  | .error e => ⟨.error e, l.withEntry store.name ((l.entry? store.name).getD .unresolved), store, disk⟩
  | .ok (text, resolved, e) =>
    let (back, store', disk') :=
      if resolved.rebuilt && l.policy.writeBack then writeBack store disk text resolved.code e
      else (.unneeded, store, disk)
    ⟨.ok (report store.name text resolved e back), l.withEntry store.name (.resolved e), store', disk'⟩

def load (l : Loader) (store : Store) (disk : FileTree) : Loading Loaded :=
  match l.memo? store.name with
  | some e => ⟨.ok ⟨store.name, .memoized, e, .unneeded, none⟩, l, store, disk⟩
  | none => l.loadStore store disk

/-- Loads the artifact in a store and calls it. What the call attaches to the executable is
remembered. -/
def call (l : Loader) (store : Store) (disk : FileTree) (args : List Value) : Loading Value :=
  let loading := l.load store disk
  match loading.result with
  | .error e => ⟨.error e, loading.loader, loading.store, loading.disk⟩
  | .ok report =>
    let call := report.executable.call args
    ⟨call.result, loading.loader.withEntry store.name (.resolved call.executable), loading.store,
      loading.disk⟩

/-! ## Forgetting -/

/-- Drops the remembered executable of an artifact, so that the next load reads its store; the answer
tells whether there was one. An artifact without an entry gets none. -/
def invalidate (l : Loader) (name : Text) : Bool × Loader :=
  (l.isResolved name, if l.tracks name then l.withEntry name .invalidated else l)

/-- Takes the entry of an artifact away; the answer tells whether there was one. -/
def forget (l : Loader) (name : Text) : Bool × Loader :=
  (l.tracks name, { l with entries := l.entries.filter fun other => other.1 != name })

end Loader
end SealedScript
