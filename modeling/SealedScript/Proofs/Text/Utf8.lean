import SealedScript.Text.Utf8

/-!
UTF-8 read back: every text is what its bytes decode to (`decode_encode`).

A character is read off the front of any byte string that starts with its bytes, one case for each
number of bytes; the text follows by induction, each character paying for a step with its bytes.
-/

namespace SealedScript.Utf8
set_option autoImplicit false

theorem toNat_byte {n : Nat} (h : n < 256) : (byte n).toNat = n := by
  rw [byte, UInt8.toNat_ofNat']
  exact Nat.mod_eq_of_lt h

theorem continuation?_byte {n : Nat} (h : n < 64) : continuation? (byte (0x80 + n)) = some n := by
  rw [continuation?, toNat_byte (by omega), if_pos (by omega), Nat.add_sub_cancel_left]

theorem charFrom?_toNat (least : Nat) {c : Char} (h : least ≤ c.toNat) :
    charFrom? least c.toNat = some c := by
  rw [charFrom?, if_pos ⟨h, c.valid⟩, Char.ofNat_toNat]

/-! ## Characters -/

theorem encodeChar_ne_nil (c : Char) : encodeChar c ≠ [] := by
  unfold encodeChar
  dsimp only
  split
  · simp
  · split
    · simp
    · split <;> simp

/-- A character is read from its bytes, whatever follows them. -/
theorem decodeChar?_encodeChar (c : Char) (rest : Bytes) :
    decodeChar? (encodeChar c ++ rest) = some (c, rest) := by
  have hvalid : c.toNat < 0x110000 := by
    rcases c.valid with h | h
    · exact Nat.lt_trans h (by omega)
    · exact h.2
  unfold encodeChar
  dsimp only
  split
  case isTrue h1 =>
    have hb := toNat_byte (n := c.toNat) (by omega)
    simp only [List.cons_append, List.nil_append, decodeChar?, hb]
    rw [if_pos h1, Char.ofNat_toNat]
  case isFalse h1 =>
    split
    case isTrue h2 =>
      have hb := toNat_byte (n := 0xC0 + c.toNat / 64) (by omega)
      have hc1 := continuation?_byte (n := c.toNat % 64) (by omega)
      have hsum : (0xC0 + c.toNat / 64 - 0xC0) * 64 + c.toNat % 64 = c.toNat := by omega
      have hchar := charFrom?_toNat 0x80 (c := c) (by omega)
      simp only [List.cons_append, List.nil_append, decodeChar?, hb]
      rw [if_neg (by omega), if_neg (by omega), if_pos (by omega)]
      refine Option.bind_eq_some_iff.mpr ⟨_, hc1, Option.bind_eq_some_iff.mpr ⟨c, ?_, rfl⟩⟩
      rw [hsum, hchar]
    case isFalse h2 =>
      split
      case isTrue h3 =>
        have hb := toNat_byte (n := 0xE0 + c.toNat / 4096) (by omega)
        have hc1 := continuation?_byte (n := c.toNat / 64 % 64) (by omega)
        have hc2 := continuation?_byte (n := c.toNat % 64) (by omega)
        have hsum : (0xE0 + c.toNat / 4096 - 0xE0) * 4096 + c.toNat / 64 % 64 * 64 + c.toNat % 64 =
            c.toNat := by omega
        have hchar := charFrom?_toNat 0x800 (c := c) (by omega)
        simp only [List.cons_append, List.nil_append, decodeChar?, hb]
        rw [if_neg (by omega), if_neg (by omega), if_neg (by omega), if_pos (by omega)]
        refine Option.bind_eq_some_iff.mpr ⟨_, hc1, Option.bind_eq_some_iff.mpr ⟨_, hc2, ?_⟩⟩
        refine Option.bind_eq_some_iff.mpr ⟨c, ?_, rfl⟩
        rw [hsum, hchar]
      case isFalse h3 =>
        have hb := toNat_byte (n := 0xF0 + c.toNat / 262144) (by omega)
        have hc1 := continuation?_byte (n := c.toNat / 4096 % 64) (by omega)
        have hc2 := continuation?_byte (n := c.toNat / 64 % 64) (by omega)
        have hc3 := continuation?_byte (n := c.toNat % 64) (by omega)
        have hsum : (0xF0 + c.toNat / 262144 - 0xF0) * 262144 + c.toNat / 4096 % 64 * 4096 +
            c.toNat / 64 % 64 * 64 + c.toNat % 64 = c.toNat := by omega
        have hchar := charFrom?_toNat 0x10000 (c := c) (by omega)
        simp only [List.cons_append, List.nil_append, decodeChar?, hb]
        rw [if_neg (by omega), if_neg (by omega), if_neg (by omega), if_neg (by omega)]
        refine Option.bind_eq_some_iff.mpr ⟨_, hc1, Option.bind_eq_some_iff.mpr ⟨_, hc2, ?_⟩⟩
        refine Option.bind_eq_some_iff.mpr ⟨_, hc3, Option.bind_eq_some_iff.mpr ⟨c, ?_, rfl⟩⟩
        rw [hsum, hchar]

/-! ## Texts -/

theorem encode_cons (c : Char) (t : Text) : encode (c :: t) = encodeChar c ++ encode t := rfl

theorem decodeFrom_encode (fuel : Nat) (read t : Text) (h : (encode t).length ≤ fuel) :
    decodeFrom fuel read (encode t) = some (read.reverse ++ t) := by
  induction t generalizing fuel read with
  | nil =>
    rw [show encode [] = [] from rfl, List.append_nil]
    cases fuel <;> rfl
  | cons c t ih =>
    obtain ⟨b, bs, hbytes⟩ := List.exists_cons_of_ne_nil (encodeChar_ne_nil c)
    rw [encode_cons, hbytes, List.cons_append, List.length_cons, List.length_append] at h
    obtain ⟨fuel, rfl⟩ : ∃ f, fuel = f + 1 := ⟨fuel - 1, by omega⟩
    have hchar := decodeChar?_encodeChar c (encode t)
    rw [hbytes, List.cons_append] at hchar
    rw [encode_cons, hbytes, List.cons_append, decodeFrom, hchar]
    · simp only [Option.bind_eq_bind, Option.bind_some]
      rw [ih fuel (c :: read) (by omega), List.reverse_cons, List.append_assoc, List.singleton_append]
    · exact fun hnil => List.cons_ne_nil _ _ hnil

/-- **A text is what its bytes decode to.** -/
theorem decode_encode (t : Text) : decode (encode t) = some t := by
  rw [decode, decodeFrom_encode _ [] t (Nat.le_refl _)]
  rfl

end SealedScript.Utf8
