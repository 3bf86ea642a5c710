import SealedScript.Error
import SealedScript.Text.Blank

/-!
Reading type names. A name may stand in white space, may carry the package in front of it, and each
closing pair of brackets makes it an array.
-/

namespace SealedScript.Ty
set_option autoImplicit false

/-- The types that have a name of their own; `Any` is a second name of `Object`. -/
def names : List (Text × Ty) :=
  [("Object", .object), ("Any", .object), ("Void", .void), ("Boolean", .boolean),
    ("Number", .number), ("Byte", .byte), ("Short", .short), ("Integer", .integer),
    ("Long", .long), ("Float", .float), ("Double", .double), ("String", .text),
    ("boolean", .primitive .boolean), ("byte", .primitive .byte), ("short", .primitive .short),
    ("int", .primitive .int), ("long", .primitive .long), ("float", .primitive .float),
    ("double", .primitive .double), ("char", .primitive .char), ("void", .primitive .void)]

def package : Text := "java.lang."

/-- The type with this name, which has neither brackets nor white space around it. -/
def ofName (name : Text) : Outcome Ty :=
  match names.lookup ((Text.dropLead? package name).getD name) with
  | some ty => .ok ty
  | none => .error (.unknownType name)

/-- The type that a text writes, given backwards so that brackets and white space come off its end. -/
def ofReversed : Text → Outcome Ty
  | [] => ofName []
  | ']' :: '[' :: r => (ofReversed r).map .array
  | c :: r => if Text.isBlank c then ofReversed r else ofName (c :: r).reverse

def parse (t : Text) : Outcome Ty := ofReversed (Text.trimStart t).reverse

end SealedScript.Ty
