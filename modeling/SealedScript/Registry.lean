import SealedScript.Engine
import SealedScript.Header.Marker

/-!
Registries: the engines that can be found by name, and the engine for scripts without a marker.

An engine is found under its name and its short name. One that is registered later takes the place of
an engine of the same name.
-/

namespace SealedScript
set_option autoImplicit false

/-- Engines in the order of registration, and the name of the default engine. -/
structure Registry where
  engines : List Engine
  default? : Option Text
deriving DecidableEq, Repr

namespace Registry

def empty : Registry := ⟨[], none⟩

/-- Puts an engine in the place of the one with its name, or behind all others. -/
def place (e : Engine) : List Engine → List Engine
  | [] => [e]
  | other :: rest => if other.name == e.name then e :: rest else other :: place e rest

def register (r : Registry) (e : Engine) : Registry := { r with engines := place e r.engines }

def builtins : Registry := empty.register .compiling

def names (r : Registry) : List Text := r.engines.map Engine.name

/-- The engine with this name or short name. -/
def find? (r : Registry) (name : Text) : Option Engine :=
  r.engines.find? fun e => e.name == name || e.secondName == name

/-- Sets or clears the engine for scripts without a marker. -/
def setDefault (r : Registry) (name : Option Text) : Outcome Registry :=
  match name with
  | some n =>
    if (r.find? n).isSome then .ok { r with default? := some n } else .error (.unknownEngine n)
  | none => .ok { r with default? := none }

/-- The engine with this name, configured by an option when one is given. -/
def resolve (r : Registry) (name : Text) (option : Option Text) : Outcome Engine :=
  match r.find? name with
  | none => .error (.unknownEngine name)
  | some e =>
    match option with
    | some o => e.forOption o
    | none => .ok e

/-- The engine that a script is compiled with: the one its marker names, else the default. -/
def engineFor (r : Registry) (code : Text) : Outcome Engine :=
  match Header.marker? code with
  | some marker => r.resolve marker.engine marker.option
  | none =>
    match r.default? with
    | some name => r.resolve name none
    | none => .error .noEngineMarker

end Registry
end SealedScript
