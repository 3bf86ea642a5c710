import SealedScript.Floating.Number
import SealedScript.Floating.Shortest
import SealedScript.Numeral

/-!
Floating-point numbers as decimal text, both ways.

Printing uses the shortest digits: positional with at least one digit after the point from `1e-4` up
to but excluding `1e16` and for the zeros, otherwise one digit before the point and an exponent
without a plus sign. Reading accepts an optional sign, digits with an optional point (not the point
alone) and an optional exponent, and the words for infinity and NaN in any case; the value is rounded
once.
-/

namespace SealedScript.Floating
set_option autoImplicit false

/-! ## Printing -/

def Digits.positional (d : Digits) : Text :=
  let n := d.digits.length
  if d.point ≤ 0 then
    '0' :: '.' :: (List.replicate (-d.point).toNat '0' ++ d.digits)
  else if (n : Int) ≤ d.point then
    d.digits ++ List.replicate (d.point.toNat - n) '0' ++ ['.', '0']
  else d.digits.take d.point.toNat ++ '.' :: d.digits.drop d.point.toNat

/-- One digit, the others after a point, and the exponent. -/
def Digits.scientific (d : Digits) : Text :=
  let fraction := d.digits.drop 1
  d.digits.take 1 ++ (if fraction.isEmpty then [] else '.' :: fraction)
    ++ 'e' :: Numeral.decimal (d.point - 1)

/-- Positional from `1e-4` up to but excluding `1e16`. -/
def Digits.text (d : Digits) : Text :=
  if -3 ≤ d.point ∧ d.point ≤ 16 then d.positional else d.scientific

def Format.text (f : Format) : Datum → Text
  | .nan => "NaN"
  | .infinite s => if s then "-inf" else "inf"
  | .finite s m e =>
    let magnitude : Text := if m = 0 then "0.0" else (f.shortest m e).text
    if s then '-' :: magnitude else magnitude

def Single.text (x : Single) : Text := Format.single.text x.datum

def Double.text (x : Double) : Text := Format.double.text x.datum

/-! ## Reading -/

/-- An exponent stops growing once it has passed any exponent a finite number can need. -/
def readExponentDigits (t : Text) : Nat :=
  t.foldl (fun e c => if e < 65536 then 10 * e + (c.toNat - '0'.toNat) else e) 0

/-- The exponent part of a number: absent, or a mark, an optional sign and digits up to the end. -/
def readExponent? : Text → Option Int
  | [] => some 0
  | mark :: t =>
    if mark == 'e' || mark == 'E' then
      let (negative, ds) :=
        match t with
        | '-' :: r => (true, r)
        | '+' :: r => (false, r)
        | r => (false, r)
      if ds.isEmpty || ds.any (fun c => !c.isDigit) then none
      else some (signed negative (readExponentDigits ds))
    else none

/-- Digits with a point behind the first `point` of them, without the zeros in front. -/
def Digits.ofText (digits : Text) (point : Int) : Digits :=
  let significant := digits.dropWhile (· == '0')
  ⟨significant, point - (digits.length - significant.length : Nat)⟩

def readDigits? (t : Text) : Option Digits := do
  let (whole, rest) := t.span Char.isDigit
  let (fraction, rest) :=
    match rest with
    | '.' :: r => r.span Char.isDigit
    | r => ([], r)
  if whole.isEmpty && fraction.isEmpty then none
  else
    let exponent ← readExponent? rest
    return .ofText (whole ++ fraction) (whole.length + exponent)

/-- How many digits decide a rounding: no number halfway between two neighbours has as many. -/
def decisiveDigits : Nat := 800

def wholeNumber (digits : Text) : Nat := digits.foldl (fun n c => 10 * n + (c.toNat - '0'.toNat)) 0

/-- A whole number and a power of ten that round like the number. For all digits behind the decisive ones
a single one is read, which tells whether any of them is not zero. -/
def Digits.decisive (d : Digits) : Nat × Int :=
  match d.digits.splitAt decisiveDigits with
  | (front, []) => (wholeNumber front, d.point - front.length)
  | (front, behind) =>
    (10 * wholeNumber front + (if behind.all (· == '0') then 0 else 1), d.point - front.length - 1)

/-- The pattern nearest to a number. Beyond four hundred places the outcome is settled. -/
def Format.ofDigits (f : Format) (negative : Bool) (d : Digits) : Nat :=
  if d.digits.isEmpty ∨ d.point < -400 then f.withSign negative 0
  else if 400 < d.point then f.infinity negative
  else
    let (value, place) := d.decisive
    f.round negative (value * Nat.pow 10 place.toNat) (Nat.pow 10 (-place).toNat)

/-- The pattern of the number that an unsigned text writes. -/
def Format.readUnsigned? (f : Format) (negative : Bool) (t : Text) : Option Nat :=
  match readDigits? t with
  | some d => some (f.ofDigits negative d)
  | none =>
    let word := t.map Char.toLower
    if word = "inf".toList ∨ word = "infinity".toList then some (f.infinity negative)
    else if word = "nan".toList then some (f.plainNaN negative)
    else none

def Format.read? (f : Format) : Text → Option Nat
  | '-' :: t => f.readUnsigned? true t
  | '+' :: t => f.readUnsigned? false t
  | t => f.readUnsigned? false t

def Single.read? (t : Text) : Option Single := (Format.single.read? t).map .ofBits

def Double.read? (t : Text) : Option Double := (Format.double.read? t).map .ofBits

end SealedScript.Floating
