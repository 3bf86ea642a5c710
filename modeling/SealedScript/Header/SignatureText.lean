import SealedScript.CallShape
import SealedScript.Signature.Make
import SealedScript.Ty.Parse

/-!
Reading a written signature: a parameter list in parentheses, a colon, and a return type.

The list ends at the last closing parenthesis of its line that a colon and more text follow; that text is
the return type. A parameter is a type, or a name and a type around a colon; an ellipsis behind the last
type makes the arity variable.
-/

namespace SealedScript.Header
set_option autoImplicit false

/-- The text behind a closing parenthesis, white space and a colon. -/
def behindColon? (t : Text) : Option Text :=
  match Text.trimStart t with
  | ':' :: r => some (Text.trimStart r)
  | _ => none

/-- The parameter list and the text behind the last closing parenthesis of the line that a colon and more
text follow. `list` is what has been read of the line, in reverse, and `found` the last such place in
it, with its list in reverse. -/
def splitAtClosing? (found : Option (Text × Text)) (list : Text) : Text → Option (Text × Text)
  | [] => found
  | c :: t =>
    if c == '\n' then found
    else if c == ')' then
      match behindColon? t with
      | none | some [] => splitAtClosing? found (c :: list) t
      | some written => splitAtClosing? (some (list, written)) (c :: list) t
    else splitAtClosing? found (c :: list) t

/-- The parameter list and the return type of a written signature. The return type is one line of text. -/
def splitSignature? (t : Text) : Option (Text × Text) :=
  match Text.trim t with
  | '(' :: r =>
    match splitAtClosing? none [] r with
    | some (list, written) => if written.contains '\n' then none else some (list.reverse, written)
    | none => none
  | _ => none

/-- A parameter as written. -/
structure Param where
  name : Text
  ty : Ty
  variadic : Bool

/-- Reads the parameter with this index; `text` is the whole signature, for messages. -/
def readParam (text : Text) (index : Nat) (isLast : Bool) (piece : Text) : Outcome Param := do
  let (name, written) :=
    match Text.splitFirst? ':' piece with
    | some (before, after) => (Text.trim before, Text.trim after)
    | none => (CallShape.positionalName index, piece)
  let (written, variadic) ←
    match Text.dropTail? "..." written with
    | some element =>
      if isLast then .ok (Text.trim element, true)
      else .error (.invalidSignature (.variadicBeforeLast text))
    | none => .ok (written, false)
  if name.isEmpty then .error (.invalidSignature (.unnamedParam index text))
  else do
    let ty ← Ty.parse written
    return ⟨name, ty, variadic⟩

/-- Reads the parameters from this index on. -/
def readParams (text : Text) (index : Nat) : List Text → Outcome (List Param)
  | [] => .ok []
  | piece :: rest => do
    let param ← readParam text index rest.isEmpty piece
    let params ← readParams text (index + 1) rest
    return param :: params

/-- The pieces of a parameter list; a blank list has none. -/
def paramPieces (list : Text) : List Text :=
  let list := Text.trim list
  if list.isEmpty then [] else (Text.split ',' list).map Text.trim

/-- Reads a written signature under a name. The return type is read before the parameters. -/
def readSignature (name : Option Text) (text : Text) : Outcome CallShape := do
  let shown := Text.trim text
  match splitSignature? text with
  | none => .error (.invalidSignature (.unreadable shown))
  | some (list, written) =>
    let returns ← Ty.parse written
    let params ← readParams shown 0 (paramPieces list)
    let signature ←
      (Signature.make name (params.map Param.ty) (params.any Param.variadic) returns).mapError
        .invalidSignature
    return ⟨signature, params.map Param.name⟩

end SealedScript.Header

namespace SealedScript
set_option autoImplicit false

/-- Reads a written signature; the names of its parameters are dropped. -/
def Signature.ofText (text : Text) : Outcome Signature :=
  (Header.readSignature none text).map CallShape.signature

end SealedScript
