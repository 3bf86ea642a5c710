import SealedScript.Floating.Format

/-!
Single and double precision numbers and the operations programs and values need: the four arithmetic
operations on doubles, comparison, conversion between the two precisions, from integers, and back to
integers by truncation.

A number is its bit pattern, so equality of values is equality of bits; `equals` is the numeric
comparison, under which the two zeros agree and NaN differs from everything. Results of the
arithmetic operations are the exact result rounded once. An operand that is no number is the result,
made quiet, the first operand before the second.
-/

namespace SealedScript.Floating
set_option autoImplicit false

/-- A number of 32 bits. -/
structure Single where
  bits : UInt32
deriving DecidableEq, Repr

/-- A number of 64 bits. -/
structure Double where
  bits : UInt64
deriving DecidableEq, Repr

def Datum.equals : Datum → Datum → Bool
  | .infinite s, .infinite t => s == t
  | .finite s m e, .finite t n d => (m == 0 && n == 0) || (s == t && m == n && e == d)
  | _, _ => false

def signed (negative : Bool) (significand : Nat) : Int :=
  if negative then -(significand : Int) else significand

/-! ## Single precision -/

namespace Single

def datum (x : Single) : Datum := Format.single.datum x.bits.toNat

def ofBits (bits : Nat) : Single := ⟨UInt32.ofNat bits⟩

def equals (x y : Single) : Bool := x.datum.equals y.datum

def ofInt (n : Int) : Single := ofBits (Format.single.round (n < 0) n.natAbs 1)

end Single

/-! ## Double precision -/

namespace Double

def datum (x : Double) : Datum := Format.double.datum x.bits.toNat

def ofBits (bits : Nat) : Double := ⟨UInt64.ofNat bits⟩

def equals (x y : Double) : Bool := x.datum.equals y.datum

def isFinite (x : Double) : Bool :=
  match x.datum with
  | .finite .. => true
  | _ => false

def ofInt (n : Int) : Double := ofBits (Format.double.round (n < 0) n.natAbs 1)

/-- Every single is a double; a NaN keeps its leading fraction bits and becomes quiet. -/
def ofSingle (x : Single) : Double :=
  let bits := x.bits.toNat
  match x.datum with
  | .nan =>
    let fraction := bits % Nat.pow 2 23 % Format.single.quietBit * Nat.pow 2 29
    ofBits (Format.double.plainNaN (Format.single.isNegative bits) + fraction)
  | .infinite s => ofBits (Format.double.infinity s)
  | .finite s m e => ofBits (Format.double.ofDatum s m e)

/-- The nearest single; a NaN keeps its leading fraction bits and becomes quiet. -/
def toSingle (x : Double) : Single :=
  let bits := x.bits.toNat
  match x.datum with
  | .nan =>
    let fraction := bits % Nat.pow 2 52 % Format.double.quietBit / Nat.pow 2 29
    .ofBits (Format.single.plainNaN (Format.double.isNegative bits) + fraction)
  | .infinite s => .ofBits (Format.single.infinity s)
  | .finite s m e => .ofBits (Format.single.ofDatum s m e)

/-- The number without its fractional part, held between `least` and `greatest`; zero for NaN. -/
def truncate (least greatest : Int) (x : Double) : Int :=
  match x.datum with
  | .nan => 0
  | .infinite s => if s then least else greatest
  | .finite s m e =>
    let (n, d) := Format.scaled m 1 e
    max least (min greatest (signed s (n / d)))

def quieted (x : Double) : Double := ⟨x.bits ||| 0x0008000000000000⟩

/-- The result of an operation one of whose operands is NaN. -/
def propagate (x y : Double) : Double :=
  match x.datum with
  | .nan => x.quieted
  | _ => y.quieted

def invalid : Double := ofBits Format.double.invalid

def opposite (x : Double) : Double := ⟨x.bits ^^^ 0x8000000000000000⟩

/-- The sum of two data, `none` where it is no number. An exact zero is negative only when both
summands are. -/
def addData : Datum → Datum → Option Nat
  | .finite s m e, .finite t n d =>
    let low := min e d
    let total := signed s m * Nat.pow 2 (e - low).toNat + signed t n * Nat.pow 2 (d - low).toNat
    if total = 0 then some (Format.double.withSign (s && t) 0)
    else some (Format.double.ofDatum (total < 0) total.natAbs low)
  | .infinite s, .infinite t => if s == t then some (Format.double.infinity s) else none
  | .infinite s, _ => some (Format.double.infinity s)
  | _, .infinite t => some (Format.double.infinity t)
  | _, _ => none

/-- The product of two data, `none` where it is no number. -/
def mulData : Datum → Datum → Option Nat
  | .finite s m e, .finite t n d => some (Format.double.ofDatum (s != t) (m * n) (e + d))
  | .infinite s, .infinite t => some (Format.double.infinity (s != t))
  | .infinite s, .finite t n _ =>
    if n = 0 then none else some (Format.double.infinity (s != t))
  | .finite s m _, .infinite t =>
    if m = 0 then none else some (Format.double.infinity (s != t))
  | _, _ => none

/-- The quotient of two data, `none` where it is no number. -/
def divData : Datum → Datum → Option Nat
  | .finite s m e, .finite t n d =>
    if n = 0 then if m = 0 then none else some (Format.double.infinity (s != t))
    else
      let (num, den) := Format.scaled m n (e - d)
      some (Format.double.round (s != t) num den)
  | .infinite s, .finite t _ _ => some (Format.double.infinity (s != t))
  | .finite s _ _, .infinite t => some (Format.double.withSign (s != t) 0)
  | _, _ => none

def lift (op : Datum → Datum → Option Nat) (x y : Double) : Double :=
  match x.datum, y.datum with
  | .nan, _ => propagate x y
  | _, .nan => propagate x y
  | a, b => (op a b).elim invalid ofBits

def add (x y : Double) : Double := lift addData x y

def sub (x y : Double) : Double :=
  match y.datum with
  | .nan => propagate x y
  | _ => add x y.opposite

def mul (x y : Double) : Double := lift mulData x y

def div (x y : Double) : Double := lift divData x y

end Double
end SealedScript.Floating
