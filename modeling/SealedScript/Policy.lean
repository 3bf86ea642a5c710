import SealedScript.FileTree
import SealedScript.Registry
import SealedScript.Yaml.Document

/-!
Load policies: what may be done about artifacts that are not fresh.

A policy is written as a mapping with up to four entries; entries that are left out have defaults, and
others are refused.
-/

namespace SealedScript
set_option autoImplicit false

/-- What a loader may do, and the engine for scripts without a marker. -/
structure Policy where
  recompile : Bool
  writeBack : Bool
  forceRecompile : Bool
  defaultEngine : Option Text
deriving DecidableEq, Repr

/-- What makes a policy unusable. -/
inductive PolicyDefect
  | forceWithoutRecompile
  | emptyEngine
  | unknownEngine (name : Text) (known : List Text)
deriving DecidableEq, Repr

def PolicyDefect.message : PolicyDefect → Text
  | .forceWithoutRecompile => PolicyFault.forceWithoutRecompile.message
  | .emptyEngine => "default_engine must not be empty"
  | .unknownEngine name known =>
    "default_engine '" ++ name ++ "' is not registered (known: " ++ Text.join ", " known ++ ")"

namespace Policy

def standard : Policy := ⟨true, true, false, none⟩

def fileName : Text := "scriptcache.yaml"

/-! ## Reading -/

def truthTag : Bytes := Utf8.encode "tag:yaml.org,2002:bool"

def nullTag : Bytes := Utf8.encode "tag:yaml.org,2002:null"

/-- The truth value that a scalar names: a plain one, or one in a literal block with the tag of truth
values. -/
def truth? (s : Yaml.Scalar) : Option Bool :=
  if s.style = .plain ∨ (s.style = .literal ∧ s.tag = some truthTag) then
    if ["true".toList, "True".toList, "TRUE".toList].contains s.text then some true
    else if ["false".toList, "False".toList, "FALSE".toList].contains s.text then some false
    else none
  else none

def isNull (word : Text) : Bool := ["~".toList, "null".toList, "Null".toList, "NULL".toList].contains word

/-- The text of a scalar, or that there is none. A tag makes any plain word a text, but for the tag of
null, which only a null may have. -/
def text? (s : Yaml.Scalar) : Option (Option Text) :=
  match s.style, s.tag with
  | .plain, none => some (if isNull s.text || s.text.isEmpty then none else some s.text)
  | .plain, some tag =>
    if tag ≠ nullTag then some (some s.text) else if isNull s.text then some none else none
  | _, _ => some (some s.text)

def withEntry? (p : Policy) (key : Text) (s : Yaml.Scalar) : Option Policy :=
  if key = "recompile".toList then (truth? s).map fun b => { p with recompile := b }
  else if key = "write_back".toList then (truth? s).map fun b => { p with writeBack := b }
  else if key = "force_recompile".toList then (truth? s).map fun b => { p with forceRecompile := b }
  else if key = "default_engine".toList then (text? s).map fun t => { p with defaultEngine := t }
  else none

/-- The policy that entries write; no key may come twice. -/
def ofEntries? (p : Policy) (seen : List Text) : List (Yaml.Scalar × Yaml.Scalar) → Option Policy
  | [] => some p
  | (key, s) :: rest =>
    if seen.contains key.text then none
    else (p.withEntry? key.text s).bind fun p => p.ofEntries? (key.text :: seen) rest

/-- The policy that a text writes; a blank one writes the standard policy. -/
def parse (t : Text) : Outcome Policy :=
  if (Text.trim t).isEmpty then .ok standard
  else
    match (Yaml.parse? t).bind (standard.ofEntries? []) with
    | some p => .ok p
    | none => .error (.policy .unreadable)

def ofFile (disk : FileTree) (path : Text) : Outcome Policy := do
  let text ← (disk.read path).mapError (.file path)
  (parse text).mapError fun _ => .policy (.unreadableFile path)

/-- The policy in a file if there is one, else the standard policy. -/
def load (disk : FileTree) (path : Text) : Outcome Policy :=
  if disk.holds path then ofFile disk path else .ok standard

/-! ## Checking -/

/-- Is recompilation forced where it is not allowed? -/
def isContradictory (p : Policy) : Bool := p.forceRecompile && !p.recompile

/-- What makes the policy unusable with the engines of a registry. -/
def defects (p : Policy) (r : Registry) : List PolicyDefect :=
  (if p.isContradictory then [.forceWithoutRecompile] else [])
    ++ match p.defaultEngine with
      | none => []
      | some name =>
        if (Text.trim name).isEmpty then [.emptyEngine]
        else if (r.find? name).isNone then [.unknownEngine name r.names]
        else []

end Policy
end SealedScript
