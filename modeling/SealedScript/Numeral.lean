import SealedScript.Text.Basic

/-!
Whole numbers as text: decimal with an optional sign, and hexadecimal as the integrity lines of an
artifact carry it.
-/

namespace SealedScript.Numeral
set_option autoImplicit false

/-- The value of a digit below `base` (at most sixteen), letters counting from ten in either case. -/
def digit? (base : Nat) (c : Char) : Option Nat :=
  let v :=
    if c.isDigit then c.toNat - '0'.toNat
    else if 'a' ≤ c ∧ c ≤ 'f' then c.toNat - 'a'.toNat + 10
    else if 'A' ≤ c ∧ c ≤ 'F' then c.toNat - 'A'.toNat + 10
    else base
  if v < base then some v else none

def readDigits (base acc : Nat) : Text → Option Nat
  | [] => some acc
  | c :: t =>
    match digit? base c with
    | some d => readDigits base (acc * base + d) t
    | none => none

/-- A number without a sign: at least one digit and nothing else. -/
def readNat? (base : Nat) (t : Text) : Option Nat :=
  if t.isEmpty then none else readDigits base 0 t

def readUnsigned? (base : Nat) : Text → Option Nat
  | '+' :: t => readNat? base t
  | t => readNat? base t

/-- The digits of `t` read after the value `acc`, which must not pass `limit` at any digit. -/
def readDigitsUpTo (base limit acc : Nat) : Text → Option Nat
  | [] => some acc
  | c :: t =>
    match digit? base c with
    | some d =>
      if acc * base + d ≤ limit then readDigitsUpTo base limit (acc * base + d) t else none
    | none => none

/-- A number without a sign that is at most `limit`. -/
def readUpTo? (base limit : Nat) (t : Text) : Option Nat :=
  if t.isEmpty then none else readDigitsUpTo base limit 0 t

/-- A decimal number after an optional sign that fits a signed word of `bits` bits. -/
def readSigned? (bits : Nat) : Text → Option Int
  | '-' :: t => (readUpTo? 10 (Nat.pow 2 (bits - 1)) t).map fun n => -(n : Int)
  | '+' :: t => (readUpTo? 10 (Nat.pow 2 (bits - 1) - 1) t).map Int.ofNat
  | t => (readUpTo? 10 (Nat.pow 2 (bits - 1) - 1) t).map Int.ofNat

/-- Decimal digits, after a minus sign for a negative number. -/
def decimal (n : Int) : Text :=
  if n < 0 then '-' :: Nat.toDigits 10 n.natAbs else Nat.toDigits 10 n.natAbs

def hexUpper (n : Nat) : Text := (Nat.toDigits 16 n).map Char.toUpper

/-- Two lower-case hexadecimal digits for each byte. -/
def hexBytes (bs : List UInt8) : Text :=
  bs.flatMap fun b => [Nat.digitChar (b.toNat / 16), Nat.digitChar (b.toNat % 16)]

end SealedScript.Numeral
