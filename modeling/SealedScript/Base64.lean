import SealedScript.Text.Utf8

/-!
Base64 with the standard alphabet.

Three bytes become four characters of six bits each; a last group of one or two bytes is filled up
with equals signs. Reading is strict: whole groups, padding only in the last one and exactly as
writing would place it, and no stray bits in the last character before it, so every text that is
accepted is the one that writing produces.
-/

namespace SealedScript.Base64
set_option autoImplicit false

def alphabet : Text := "ABCDEFGHIJKLMNOPQRSTUVWXYZabcdefghijklmnopqrstuvwxyz0123456789+/"

def digit (v : Nat) : Char := alphabet.getD v '='

def value? (c : Char) : Option Nat :=
  if 'A' ≤ c ∧ c ≤ 'Z' then some (c.toNat - 'A'.toNat)
  else if 'a' ≤ c ∧ c ≤ 'z' then some (c.toNat - 'a'.toNat + 26)
  else if '0' ≤ c ∧ c ≤ '9' then some (c.toNat - '0'.toNat + 52)
  else if c = '+' then some 62
  else if c = '/' then some 63
  else none

def encode : Bytes → Text
  | [] => []
  | [x] => [digit (x.toNat / 4), digit (x.toNat % 4 * 16), '=', '=']
  | [x, y] =>
    [digit (x.toNat / 4), digit (x.toNat % 4 * 16 + y.toNat / 16), digit (y.toNat % 16 * 4), '=']
  | x :: y :: z :: rest =>
    digit (x.toNat / 4) :: digit (x.toNat % 4 * 16 + y.toNat / 16)
      :: digit (y.toNat % 16 * 4 + z.toNat / 64) :: digit (z.toNat % 64) :: encode rest

def firstByte (a b : Nat) : UInt8 := UInt8.ofNat (a * 4 + b / 16)

def secondByte (b c : Nat) : UInt8 := UInt8.ofNat (b % 16 * 16 + c / 4)

def thirdByte (c d : Nat) : UInt8 := UInt8.ofNat (c % 4 * 64 + d)

def decodePadded (a b c : Char) : Option Bytes := do
  let x ← value? a
  let y ← value? b
  if c = '=' then if y % 16 = 0 then some [firstByte x y] else none
  else do
    let z ← value? c
    if z % 4 = 0 then some [firstByte x y, secondByte y z] else none

def decode : Text → Option Bytes
  | [] => some []
  | a :: b :: c :: d :: rest =>
    if d = '=' then if rest.isEmpty then decodePadded a b c else none
    else do
      let x ← value? a
      let y ← value? b
      let z ← value? c
      let w ← value? d
      let bytes ← decode rest
      return firstByte x y :: secondByte y z :: thirdByte z w :: bytes
  | _ => none

end SealedScript.Base64
