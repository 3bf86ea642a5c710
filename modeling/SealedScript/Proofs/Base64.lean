import SealedScript.Base64
import SealedScript.Text.Blank

/-!
Base64 read back: every byte string is what its characters decode to (`decode_encode`).

Characters are digits with a value of six bits or the sign that pads the last group. None of them is
blank or a number sign, which is what keeps them apart from the lines around them.
-/

namespace SealedScript.Base64
set_option autoImplicit false

/-! ## Digits -/

theorem value?_digit {v : Nat} (h : v < 64) : value? (digit v) = some v := by
  revert v
  decide +kernel

theorem digit_ne_pad {v : Nat} (h : v < 64) : digit v ≠ '=' := by
  revert v
  decide +kernel

def IsSymbol (c : Char) : Prop := c = '=' ∨ ∃ v, v < 64 ∧ c = digit v

theorem isSymbol_digit {v : Nat} (h : v < 64) : IsSymbol (digit v) := Or.inr ⟨v, h, rfl⟩

theorem encode_symbols (bs : Bytes) : ∀ c ∈ encode bs, IsSymbol c := by
  have hbyte : ∀ x : UInt8, x.toNat < 256 := fun x => x.toNat_lt
  induction bs using encode.induct with
  | case1 => simp [encode]
  | case2 x =>
    have hx := hbyte x
    intro c hc
    simp only [encode, List.mem_cons, List.not_mem_nil, or_false] at hc
    rcases hc with rfl | rfl | rfl | rfl
    · exact isSymbol_digit (by omega)
    · exact isSymbol_digit (by omega)
    · exact Or.inl rfl
    · exact Or.inl rfl
  | case3 x y =>
    have hx := hbyte x
    have hy := hbyte y
    intro c hc
    simp only [encode, List.mem_cons, List.not_mem_nil, or_false] at hc
    rcases hc with rfl | rfl | rfl | rfl
    · exact isSymbol_digit (by omega)
    · exact isSymbol_digit (by omega)
    · exact isSymbol_digit (by omega)
    · exact Or.inl rfl
  | case4 x y z rest ih =>
    have hx := hbyte x
    have hy := hbyte y
    have hz := hbyte z
    intro c hc
    simp only [encode, List.mem_cons] at hc
    rcases hc with rfl | rfl | rfl | rfl | hc
    · exact isSymbol_digit (by omega)
    · exact isSymbol_digit (by omega)
    · exact isSymbol_digit (by omega)
    · exact isSymbol_digit (by omega)
    · exact ih c hc

theorem IsSymbol.plain {c : Char} (h : IsSymbol c) : c ≠ '#' ∧ Text.isAsciiBlank c = false := by
  have hdigit : ∀ v, v < 64 → digit v ≠ '#' ∧ Text.isAsciiBlank (digit v) = false := by decide +kernel
  rcases h with rfl | ⟨v, hv, rfl⟩
  · decide
  · exact hdigit v hv

theorem length_le_encode (bs : Bytes) : bs.length ≤ (encode bs).length := by
  induction bs using encode.induct with
  | case4 x y z rest ih =>
    rw [encode]
    simp only [List.length_cons]
    omega
  | _ => simp [encode]

/-! ## Groups -/

section Groups
variable (x y z : UInt8)

theorem firstByte_split : firstByte (x.toNat / 4) (x.toNat % 4 * 16 + y.toNat / 16) = x := by
  have hx : x.toNat < 256 := x.toNat_lt
  have hy : y.toNat < 256 := y.toNat_lt
  rw [firstByte, show x.toNat / 4 * 4 + (x.toNat % 4 * 16 + y.toNat / 16) / 16 = x.toNat by omega,
    UInt8.ofNat_toNat]

theorem secondByte_split :
    secondByte (x.toNat % 4 * 16 + y.toNat / 16) (y.toNat % 16 * 4 + z.toNat / 64) = y := by
  have hy : y.toNat < 256 := y.toNat_lt
  have hz : z.toNat < 256 := z.toNat_lt
  rw [secondByte, show (x.toNat % 4 * 16 + y.toNat / 16) % 16 * 16 + (y.toNat % 16 * 4 + z.toNat / 64) / 4 =
    y.toNat by omega, UInt8.ofNat_toNat]

theorem thirdByte_split : thirdByte (y.toNat % 16 * 4 + z.toNat / 64) (z.toNat % 64) = z := by
  have hz : z.toNat < 256 := z.toNat_lt
  rw [thirdByte, show (y.toNat % 16 * 4 + z.toNat / 64) % 4 * 64 + z.toNat % 64 = z.toNat by omega,
    UInt8.ofNat_toNat]

end Groups

/-- **A byte string is what its characters decode to.** -/
theorem decode_encode (bs : Bytes) : decode (encode bs) = some bs := by
  have hbyte : ∀ x : UInt8, x.toNat < 256 := fun x => x.toNat_lt
  induction bs using encode.induct with
  | case1 => rfl
  | case2 x =>
    have hx := hbyte x
    have ha := value?_digit (v := x.toNat / 4) (by omega)
    have hb := value?_digit (v := x.toNat % 4 * 16) (by omega)
    have hfirst := firstByte_split x 0
    rw [UInt8.toNat_zero, Nat.zero_div, Nat.add_zero] at hfirst
    rw [encode, decode, if_pos rfl, List.isEmpty_nil, if_pos rfl, decodePadded]
    simp only [ha, hb, Option.bind_eq_bind, Option.bind_some, if_true]
    rw [if_pos (by omega), hfirst]
  | case3 x y =>
    have hx := hbyte x
    have hy := hbyte y
    have ha := value?_digit (v := x.toNat / 4) (by omega)
    have hb := value?_digit (v := x.toNat % 4 * 16 + y.toNat / 16) (by omega)
    have hc := value?_digit (v := y.toNat % 16 * 4) (by omega)
    have hpad := digit_ne_pad (v := y.toNat % 16 * 4) (by omega)
    have hsecond := secondByte_split x y 0
    rw [UInt8.toNat_zero, Nat.zero_div, Nat.add_zero] at hsecond
    rw [encode, decode, if_pos rfl, List.isEmpty_nil, if_pos rfl, decodePadded]
    simp only [ha, hb, hc, hpad, Option.bind_eq_bind, Option.bind_some, if_false]
    rw [if_pos (by omega), firstByte_split, hsecond]
  | case4 x y z rest ih =>
    have hx := hbyte x
    have hy := hbyte y
    have hz := hbyte z
    have ha := value?_digit (v := x.toNat / 4) (by omega)
    have hb := value?_digit (v := x.toNat % 4 * 16 + y.toNat / 16) (by omega)
    have hc := value?_digit (v := y.toNat % 16 * 4 + z.toNat / 64) (by omega)
    have hd := value?_digit (v := z.toNat % 64) (by omega)
    have hpad := digit_ne_pad (v := z.toNat % 64) (by omega)
    rw [encode, decode, if_neg hpad]
    simp only [ha, hb, hc, hd, ih, Option.bind_eq_bind, Option.bind_some, firstByte_split, secondByte_split,
      thirdByte_split]
    rfl

end SealedScript.Base64
