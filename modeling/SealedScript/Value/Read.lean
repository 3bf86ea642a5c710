import SealedScript.Error

/-!
Reading the texts of a command line as values of declared types.
-/

namespace SealedScript.Value
set_option autoImplicit false

open Floating (Single Double)

/-- A whole number of the shortest of the two long types that holds it, else a double. -/
def readNumber? (t : Text) : Option Value :=
  match Numeral.readSigned? 32 t, Numeral.readSigned? 64 t with
  | some n, _ => some (.int (Int32.ofInt n))
  | none, some n => some (.long (Int64.ofInt n))
  | none, none => (Double.read? t).map .double

/-- The value of the type that the text writes, if the type has written values. -/
def read? (t : Text) : Ty → Option Value
  | .object | .text => some (.text (String.ofList t))
  | .boolean =>
    if t = "true".toList then some (.bool true)
    else if t = "false".toList then some (.bool false)
    else none
  | .byte => (Numeral.readSigned? 8 t).map fun n => .byte (Int8.ofInt n)
  | .short => (Numeral.readSigned? 16 t).map fun n => .short (Int16.ofInt n)
  | .integer => (Numeral.readSigned? 32 t).map fun n => .int (Int32.ofInt n)
  | .long => (Numeral.readSigned? 64 t).map fun n => .long (Int64.ofInt n)
  | .float => (Single.read? t).map .float
  | .double => (Double.read? t).map .double
  | .number => readNumber? t
  | _ => none

/-- The value of the declared type that the text writes. -/
def ofText (t : Text) (ty : Ty) : Outcome Value :=
  match read? t ty with
  | some v => .ok v
  | none => .error (.scope (.unreadable t ty))

end SealedScript.Value
