/-!
Binary floating-point formats, as bit patterns with exact meaning.

`Format.datum` says what a bit pattern denotes, `Format.round` finds the pattern of the representable
number nearest to a quotient of natural numbers (a tie goes to the even significand, values past the
largest finite one become infinite). Everything else about floating-point numbers in this library is
exact arithmetic between these two.
-/

namespace SealedScript.Floating
set_option autoImplicit false

/-- A binary interchange format: the widths of its fraction and exponent fields in bits. -/
structure Format where
  fractionBits : Nat
  exponentBits : Nat
deriving DecidableEq, Repr

def Format.single : Format := ⟨23, 8⟩

def Format.double : Format := ⟨52, 11⟩

/-- What a bit pattern denotes: no number, an infinity, or `± significand · 2 ^ exponent`. -/
inductive Datum
  | nan
  | infinite (negative : Bool)
  | finite (negative : Bool) (significand : Nat) (exponent : Int)
deriving DecidableEq, Repr

namespace Format

variable (f : Format)

/-! ## The parts of a pattern -/

/-- The exponent of the smallest positive number, which is also that of all subnormal ones. -/
def leastExponent : Int := 2 - Nat.pow 2 (f.exponentBits - 1) - f.fractionBits

def topField : Nat := Nat.pow 2 f.exponentBits - 1

def signBit : Nat := Nat.pow 2 (f.fractionBits + f.exponentBits)

/-- The fraction bit that marks a quiet NaN. -/
def quietBit : Nat := Nat.pow 2 (f.fractionBits - 1)

def isNegative (bits : Nat) : Bool := f.signBit ≤ bits

def withSign (negative : Bool) (magnitude : Nat) : Nat :=
  if negative then f.signBit + magnitude else magnitude

def infinity (negative : Bool) : Nat := f.withSign negative (f.topField * Nat.pow 2 f.fractionBits)

/-- The pattern of the number a failed operation gives: quiet, negative, no payload. -/
def invalid : Nat := f.withSign true (f.topField * Nat.pow 2 f.fractionBits + f.quietBit)

/-- The pattern that the word for no number is read as. -/
def plainNaN (negative : Bool) : Nat :=
  f.withSign negative (f.topField * Nat.pow 2 f.fractionBits + f.quietBit)

def datum (bits : Nat) : Datum :=
  let negative := f.isNegative bits
  let fraction := bits % Nat.pow 2 f.fractionBits
  let field := bits / Nat.pow 2 f.fractionBits % Nat.pow 2 f.exponentBits
  if field = f.topField then
    if fraction = 0 then .infinite negative else .nan
  else if field = 0 then .finite negative fraction f.leastExponent
  else .finite negative (Nat.pow 2 f.fractionBits + fraction) (f.leastExponent + (field - 1 : Nat))

/-! ## Rounding -/

/-- The quotient rounded to the nearest whole number, a tie going to the even one. -/
def roundDiv (num den : Nat) : Nat :=
  let q := num / den
  let twice := 2 * (num % den)
  if twice < den then q
  else if den < twice then q + 1
  else if q % 2 = 0 then q else q + 1

/-- `num / den · 2 ^ shift` as a fraction. -/
def scaled (num den : Nat) (shift : Int) : Nat × Nat :=
  (num * Nat.pow 2 shift.toNat, den * Nat.pow 2 (-shift).toNat)

/-- The greatest `e` with `2 ^ e ≤ num / den`, for positive arguments. -/
def floorLog2 (num den : Nat) : Int :=
  let guess : Int := (num.log2 : Int) - den.log2
  let (n, d) := scaled num den (-guess)
  if n < d then guess - 1 else guess

/-- The pattern of the representable number nearest to `± num / den`. -/
def round (negative : Bool) (num den : Nat) : Nat :=
  if num = 0 then f.withSign negative 0
  else
    let exponent := max (floorLog2 num den - f.fractionBits) f.leastExponent
    let (n, d) := scaled num den (-exponent)
    let magnitude := (exponent - f.leastExponent).toNat * Nat.pow 2 f.fractionBits + roundDiv n d
    if f.topField * Nat.pow 2 f.fractionBits ≤ magnitude then f.infinity negative
    else f.withSign negative magnitude

/-- The pattern nearest to `± significand · 2 ^ exponent`. -/
def ofDatum (negative : Bool) (significand : Nat) (exponent : Int) : Nat :=
  let (n, d) := scaled significand 1 exponent
  f.round negative n d

end Format
end SealedScript.Floating
