import SealedScript.Error
import SealedScript.Text.Utf8

/-!
The binary format, from its smallest parts.

A `Codec` writes values of a type as bytes and reads one back from the front of a byte string, leaving
the rest. Numbers have fixed widths with the low byte first; texts, byte strings and sequences carry
their length in front as a number of eight bytes; an option or a truth value is a byte that is 0 or 1.
-/

namespace SealedScript
set_option autoImplicit false

/-- Reads a value from the front of a byte string and answers what is left. -/
abbrev Reader (α : Type) := StateT Bytes (Except CodecFault) α

/-- A way to write the values of a type and to read them back. -/
structure Codec (α : Type) where
  write : α → Bytes
  read : Reader α

namespace Codec

/-! ## Raw bytes and numbers -/

def takeBytes (n : Nat) : Reader Bytes := fun bs =>
  let (front, rest) := bs.splitAt n
  if front.length = n then .ok (front, rest) else .error .malformed

/-- A number as `width` bytes, low byte first; higher digits are lost. -/
def toLow : Nat → Nat → Bytes
  | 0, _ => []
  | width + 1, n => UInt8.ofNat n :: toLow width (n / 256)

def ofLow : Bytes → Nat
  | [] => 0
  | b :: bs => b.toNat + 256 * ofLow bs

def number (width : Nat) : Codec Nat where
  write := toLow width
  read := ofLow <$> takeBytes width

def refuse {α : Type} : Reader α := fun _ => .error .malformed

/-- A codec of another type, over the values that `back` accepts. -/
def via {α β : Type} (c : Codec α) (out : β → α) (back : α → Option β) : Codec β where
  write b := c.write (out b)
  read := do
    match back (← c.read) with
    | some b => return b
    | none => refuse

def bool : Codec Bool :=
  (number 1).via (fun b => b.toNat) fun n =>
    if n = 0 then some false else if n = 1 then some true else none

def int8 : Codec Int8 := (number 1).via (·.toUInt8.toNat) fun n => some (UInt8.ofNat n).toInt8

def int16 : Codec Int16 := (number 2).via (·.toUInt16.toNat) fun n => some (UInt16.ofNat n).toInt16

def int32 : Codec Int32 := (number 4).via (·.toUInt32.toNat) fun n => some (UInt32.ofNat n).toInt32

def int64 : Codec Int64 := (number 8).via (·.toUInt64.toNat) fun n => some (UInt64.ofNat n).toInt64

/-- A single-precision number, bit for bit. -/
def single : Codec Floating.Single := (number 4).via (·.bits.toNat) fun n => some (.ofBits n)

/-- A double-precision number, bit for bit. -/
def double : Codec Floating.Double := (number 8).via (·.bits.toNat) fun n => some (.ofBits n)

/-- The number of a case among the cases of an enumeration. -/
def tag : Codec Nat := number 4

/-! ## Lengths and sequences -/

/-- How many items or bytes follow. -/
def length : Codec Nat := number 8

def bytes : Codec Bytes where
  write bs := length.write bs.length ++ bs
  read := do takeBytes (← length.read)

def text : Codec Text := bytes.via Utf8.encode Utf8.decode

/-- Reads `n` more items, those read so far standing in reverse in `done`. -/
def readMany {α : Type} (read : Reader α) :
    Nat → List α → Bytes → Except CodecFault (List α × Bytes)
  | 0, done, bs => .ok (done.reverse, bs)
  | n + 1, done, bs =>
    match read bs with
    | .ok (a, rest) => readMany read n (a :: done) rest
    | .error e => .error e

def list {α : Type} (c : Codec α) : Codec (List α) where
  write as := length.write as.length ++ as.flatMap c.write
  read := do readMany c.read (← length.read) []

def option {α : Type} (c : Codec α) : Codec (Option α) where
  write
    | none => bool.write false
    | some a => bool.write true ++ c.write a
  read := do
    if ← bool.read then some <$> c.read else return none

def pair {α β : Type} (c : Codec α) (d : Codec β) : Codec (α × β) where
  write p := c.write p.1 ++ d.write p.2
  read := do
    let a ← c.read
    let b ← d.read
    return (a, b)

end Codec
end SealedScript
