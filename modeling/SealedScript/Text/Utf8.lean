import SealedScript.Text.Basic

/-!
UTF-8: `encode` writes a text as bytes and `decode` reads bytes back, refusing every byte string that
no text encodes to (stray or missing continuation bytes, overlong forms, surrogates, values above the
last code point).
-/

namespace SealedScript

/-- Bytes in transmission order. -/
abbrev Bytes := List UInt8

namespace Utf8
set_option autoImplicit false

def byte (n : Nat) : UInt8 := UInt8.ofNat n

def encodeChar (c : Char) : Bytes :=
  let n := c.toNat
  if n < 0x80 then [byte n]
  else if n < 0x800 then [byte (0xC0 + n / 64), byte (0x80 + n % 64)]
  else if n < 0x10000 then
    [byte (0xE0 + n / 4096), byte (0x80 + n / 64 % 64), byte (0x80 + n % 64)]
  else
    [byte (0xF0 + n / 262144), byte (0x80 + n / 4096 % 64), byte (0x80 + n / 64 % 64),
      byte (0x80 + n % 64)]

def encode (t : Text) : Bytes := t.flatMap encodeChar

/-- The six bits a continuation byte carries. -/
def continuation? (b : UInt8) : Option Nat :=
  if 0x80 ≤ b.toNat ∧ b.toNat < 0xC0 then some (b.toNat - 0x80) else none

/-- The character with code point `n`, when it needs more than the values below `least`. -/
def charFrom? (least n : Nat) : Option Char :=
  if least ≤ n ∧ n.isValidChar then some (Char.ofNat n) else none

def decodeChar? : Bytes → Option (Char × Bytes)
  | [] => none
  | b :: r =>
    let n := b.toNat
    if n < 0x80 then some (Char.ofNat n, r)
    else if n < 0xC0 then none
    else if n < 0xE0 then
      match r with
      | b1 :: r => do
        let x ← continuation? b1
        return (← charFrom? 0x80 ((n - 0xC0) * 64 + x), r)
      | _ => none
    else if n < 0xF0 then
      match r with
      | b1 :: b2 :: r => do
        let x ← continuation? b1
        let y ← continuation? b2
        return (← charFrom? 0x800 ((n - 0xE0) * 4096 + x * 64 + y), r)
      | _ => none
    else
      match r with
      | b1 :: b2 :: b3 :: r => do
        let x ← continuation? b1
        let y ← continuation? b2
        let z ← continuation? b3
        return (← charFrom? 0x10000 ((n - 0xF0) * 262144 + x * 4096 + y * 64 + z), r)
      | _ => none

/-- Reads at most `fuel` characters, the ones read so far standing in reverse in `read`. -/
def decodeFrom : Nat → Text → Bytes → Option Text
  | _, read, [] => some read.reverse
  | 0, _, _ :: _ => none
  | fuel + 1, read, bs => do
    let (c, rest) ← decodeChar? bs
    decodeFrom fuel (c :: read) rest

/-- The text that the bytes encode. Every character takes a byte, so their count bounds the steps. -/
def decode (bs : Bytes) : Option Text := decodeFrom bs.length [] bs

end Utf8
end SealedScript
