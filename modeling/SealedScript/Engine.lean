import SealedScript.Error
import SealedScript.Text.Blank
import SealedScript.Wire.Data

/-!
Engines: how programs are compiled and kept.

There is one language, a postfix one, with two engines for it. The compiling engine gives programs an
image that can be stored; the interpreting engine runs the same programs but stores nothing. They share
a name and differ in the option they are asked for with.
-/

namespace SealedScript
set_option autoImplicit false

/-- An engine for postfix programs. -/
inductive Engine
  | compiling
  | interpreting
deriving DecidableEq, Repr

namespace Engine

def name : Engine → Text := fun _ => "RPN"

/-- A second name under which engines are found. -/
def secondName : Engine → Text := fun _ => "rpn"

/-- The option that the engine was asked for with. -/
def parameter : Engine → Option Text
  | .compiling => none
  | .interpreting => some "interpret"

/-- Does the engine compile at all? -/
def compiles : Engine → Bool := fun _ => true

/-- Can what the engine compiles be stored? -/
def isSerializable : Engine → Bool
  | .compiling => true
  | .interpreting => false

def failure (e : Engine) (fault : EngineFault) : Failure := .engine e.name fault

def forOption (e : Engine) (option : Text) : Outcome Engine :=
  let option := Text.trim option
  if option = [] ∨ option = "compile".toList then .ok .compiling
  else if option = "interpret".toList then .ok .interpreting
  else .error (e.failure (.unknownOption option))

/-- A text as a block comment whose first and last lines are `width` columns wide. -/
def longComment : Engine → Text → Nat → Text := fun _ text width =>
  let rule := List.replicate (width - 1) '*'
  '/' :: (rule ++ '\n' :: (text ++ '\n' :: (rule ++ ['/'])))

def load (e : Engine) (image : Bytes) : Outcome Program :=
  match e with
  | .compiling => (Program.ofImage image).mapError .codec
  | .interpreting => .error (e.failure .noImage)

end Engine
end SealedScript
