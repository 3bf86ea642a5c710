import SealedScript.Numeral
import SealedScript.Text.Measure

/-!
Digests of texts, which notice edits without any claim to resist forgery.

The digest of a text is the sum of its UTF-16 code units as a signed word of 32 bits, without its sign,
in upper-case hexadecimal filled up with spaces to eight columns.
-/

namespace SealedScript
set_option autoImplicit false

namespace Digest

def columns : Nat := 8

def field (n : Nat) : Text := Text.padLeft columns (Numeral.hexUpper n)

-- The instances are named because which ones are found depends on what is imported beside.
def unitSum (t : Text) : Nat := @List.sum Nat instAddNat Zero.ofOfNat0 (Text.units t)

@[simp] theorem unitSum_nil : unitSum [] = 0 := rfl

/-- The sum of a text is the sum over its parts. -/
@[simp] theorem unitSum_append (s t : Text) : unitSum (s ++ t) = unitSum s + unitSum t := by
  rw [unitSum, Text.units, List.flatMap_append]
  exact List.sum_append_nat

/-- The magnitude of a sum taken as a signed word of 32 bits. -/
def magnitude (sum : Nat) : Nat :=
  let word := sum % Nat.pow 2 32
  if word < Nat.pow 2 31 then word else Nat.pow 2 32 - word

def ofText (t : Text) : Text := field (magnitude (unitSum t))

end Digest
end SealedScript
