import SealedScript.Ty
import SealedScript.Floating.Decimal

/-!
The values that flow through calls, scopes and programs: their runtime types, their text, numeric
conversion and comparison.
-/

namespace SealedScript
set_option autoImplicit false

open Floating (Single Double)

/-- A value. The items of an array need not be instances of its element type. Programs put texts together
piece by piece, so a text value holds its characters packed. -/
inductive Value
  | null
  | bool (v : Bool)
  | byte (v : Int8)
  | short (v : Int16)
  | int (v : Int32)
  | long (v : Int64)
  | float (v : Single)
  | double (v : Double)
  | text (v : String)
  | array (element : Ty) (items : List Value)

namespace Value

instance : Inhabited Value := ⟨.null⟩

/-! ## Types of values -/

def isNull : Value → Bool
  | .null => true
  | _ => false

def ty? : Value → Option Ty
  | .null => none
  | .bool _ => some .boolean
  | .byte _ => some .byte
  | .short _ => some .short
  | .int _ => some .integer
  | .long _ => some .long
  | .float _ => some .float
  | .double _ => some .double
  | .text _ => some .text
  | .array element _ => some (.array element)

end Value

/-- Is `v` an instance of the type, null being one of none? -/
def Ty.contains (ty : Ty) (v : Value) : Bool := v.ty?.any ty.covers

/-- Is `v` null or an instance of the type? -/
def Ty.accepts (ty : Ty) (v : Value) : Bool := v.isNull || ty.contains v

namespace Value

/-! ## Text -/

mutual
def display : Value → Text
  | .null => "null"
  | .bool v => if v then "true" else "false"
  | .byte v => Numeral.decimal v.toInt
  | .short v => Numeral.decimal v.toInt
  | .int v => Numeral.decimal v.toInt
  | .long v => Numeral.decimal v.toInt
  | .float v => v.text
  | .double v => v.text
  | .text v => v.toList
  | .array _ items => '[' :: (Text.join [',', ' '] (displayAll items) ++ [']'])
def displayAll : List Value → List Text
  | [] => []
  | v :: vs => v.display :: displayAll vs
end

/-- The text of a value as a text value holds it. -/
def packed : Value → String
  | .text v => v
  | v => String.ofList v.display

theorem toList_packed (v : Value) : v.packed.toList = v.display := by
  cases v <;> simp [packed, display]

/-- A text with its control characters and quotes escaped. -/
def escaped (t : Text) : Text :=
  t.flatMap fun c =>
    if c == '\n' then ['\\', 'n']
    else if c == '\t' then ['\\', 't']
    else if c == '\r' then ['\\', 'r']
    else if c == '\x0c' then ['\\', 'f']
    else if c == '\'' then ['\\', '\'']
    else if c == '"' then ['\\', '"']
    else [c]

/-- A value with its type, as messages show it; null shows as an `Object`, a text in quotes. -/
def describe (v : Value) : Text :=
  let shown :=
    match v with
    | .text t => '"' :: (escaped t.toList ++ ['"'])
    | _ => v.display
  shown ++ ':' :: (v.ty?.getD .object).display

/-! ## Numbers -/

/-- A number, seen as an integer or as a real. -/
inductive Numeric
  | integral (v : Int)
  | real (v : Double)

def numeric? : Value → Option Numeric
  | .byte v => some (.integral v.toInt)
  | .short v => some (.integral v.toInt)
  | .int v => some (.integral v.toInt)
  | .long v => some (.integral v.toInt)
  | .float v => some (.real (.ofSingle v))
  | .double v => some (.real v)
  | _ => none

def isNumeric (v : Value) : Bool := v.numeric?.isSome

def isReal (v : Value) : Bool :=
  match v.numeric? with
  | some (.real _) => true
  | _ => false

def wordRange (bits : Nat) : Int × Int := (-(Nat.pow 2 (bits - 1)), (Nat.pow 2 (bits - 1) : Int) - 1)

/-- A real without its fraction, held to the integers of `bits` bits. -/
def saturate (bits : Nat) (v : Double) : Int :=
  v.truncate (wordRange bits).1 (wordRange bits).2

def asInt? (v : Value) : Option Int :=
  v.numeric?.map fun
    | .integral n => n
    | .real x => saturate 64 x

def asDouble? (v : Value) : Option Double :=
  v.numeric?.map fun
    | .integral n => .ofInt n
    | .real x => x

/-- A number as an integer for a word of at most 32 bits: integers pass, reals saturate. -/
def Numeric.toWord : Numeric → Int
  | .integral n => n
  | .real x => saturate 32 x

/-- A number converted to a numeric type. Integers wrap, reals saturate, for the two shortest types at
32 bits before they wrap. -/
def convertTo? (target : Ty) (v : Value) : Option Value :=
  match v.numeric? with
  | none => none
  | some n =>
    match target with
    | .byte => some (.byte (Int8.ofInt n.toWord))
    | .short => some (.short (Int16.ofInt n.toWord))
    | .integer => some (.int (Int32.ofInt n.toWord))
    | .long =>
      match n with
      | .integral i => some (.long (Int64.ofInt i))
      | .real x => some (.long (Int64.ofInt (saturate 64 x)))
    | .float =>
      match n with
      | .integral i => some (.float (.ofInt i))
      | .real x => some (.float x.toSingle)
    | .double =>
      match n with
      | .integral i => some (.double (.ofInt i))
      | .real x => some (.double x)
    | _ => none

/-! ## Comparison -/

mutual
/-- Equality of values, numeric on floating-point numbers. -/
def equals : Value → Value → Bool
  | .null, .null => true
  | .bool a, .bool b => a == b
  | .byte a, .byte b => a == b
  | .short a, .short b => a == b
  | .int a, .int b => a == b
  | .long a, .long b => a == b
  | .float a, .float b => a.equals b
  | .double a, .double b => a.equals b
  | .text a, .text b => a == b
  | .array e as, .array f bs => e == f && equalsAll as bs
  | _, _ => false
def equalsAll : List Value → List Value → Bool
  | [], [] => true
  | a :: as, b :: bs => a.equals b && equalsAll as bs
  | _, _ => false
end

end Value
end SealedScript
