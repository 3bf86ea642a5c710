import SealedScript.Text.Basic

/-!
Declared types and their order.

`Ty.covers` says where a value of one type may be stored in place of another: everything but
a primitive fits `Object`, the numeric wrappers fit `Number`, arrays are covariant, and a primitive is
related to itself alone. Primitive types can be named but no value has one.
-/

namespace SealedScript
set_option autoImplicit false

/-- The unboxed types, which signatures reject. -/
inductive Primitive
  | boolean
  | byte
  | short
  | int
  | long
  | float
  | double
  | char
  | void
deriving DecidableEq, Repr

def Primitive.display : Primitive → Text
  | .boolean => "boolean"
  | .byte => "byte"
  | .short => "short"
  | .int => "int"
  | .long => "long"
  | .float => "float"
  | .double => "double"
  | .char => "char"
  | .void => "void"

/-- A declared type. Only null is an instance of `void`. -/
inductive Ty
  | object
  | void
  | boolean
  | number
  | byte
  | short
  | integer
  | long
  | float
  | double
  | text
  | array (element : Ty)
  | primitive (p : Primitive)
deriving DecidableEq, Repr

namespace Ty

/-- The name of a type in front of a text; an array adds a pair of brackets to its element type. -/
def displayBefore (behind : Text) : Ty → Text
  | .object => "Object" ++ behind
  | .void => "Void" ++ behind
  | .boolean => "Boolean" ++ behind
  | .number => "Number" ++ behind
  | .byte => "Byte" ++ behind
  | .short => "Short" ++ behind
  | .integer => "Integer" ++ behind
  | .long => "Long" ++ behind
  | .float => "Float" ++ behind
  | .double => "Double" ++ behind
  | .text => "String" ++ behind
  | .array element => element.displayBefore ('[' :: ']' :: behind)
  | .primitive p => p.display ++ behind

def display (ty : Ty) : Text := ty.displayBefore []

theorem displayBefore_append (ty : Ty) (s t : Text) :
    ty.displayBefore (s ++ t) = ty.displayBefore s ++ t := by
  induction ty generalizing s with
  | array element ih => exact ih ('[' :: ']' :: s)
  | _ => exact (List.append_assoc _ _ _).symm

theorem display_array (element : Ty) : (array element).display = element.display ++ ['[', ']'] :=
  element.displayBefore_append [] ['[', ']']

def isPrimitive : Ty → Bool
  | .primitive _ => true
  | _ => false

/-- Is this one of the six types of numbers? -/
def isNumeric : Ty → Bool
  | .byte | .short | .integer | .long | .float | .double => true
  | _ => false

def element? : Ty → Option Ty
  | .array element => some element
  | _ => none

/-- May a value of type `other` be stored where `target` is declared? -/
def covers (target other : Ty) : Bool :=
  match target, other with
  | .array mine, .array theirs => mine.covers theirs
  | .object, _ => !other.isPrimitive
  | .number, _ => other == .number || other.isNumeric
  | _, _ => target == other

end Ty
end SealedScript
