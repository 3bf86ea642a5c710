import SealedScript.Proofs.Base64

/-!
Base64 has one spelling for every byte string: a text that is accepted is the one that writing produces
(`decode_eq_some_iff`).

A group of four digits determines its three bytes and is determined by them. In the last group the bits that no byte
takes are checked to be zero, so that nothing is lost there either.
-/

namespace SealedScript.Base64
set_option autoImplicit false

variable {x y z w : Nat} {t : Text} {bs : Bytes}

/-! ## Digits -/

/-- A character with a value is the digit of that value. -/
theorem value?_eq_some {c : Char} {v : Nat} (h : value? c = some v) : v < 64 ∧ digit v = c := by
  have hascii : c.toNat < 123 := by
    unfold value? at h
    split at h
    case isTrue hupper => exact Nat.lt_of_le_of_lt hupper.2 (by decide)
    case isFalse =>
      split at h
      case isTrue hlower => exact Nat.lt_of_le_of_lt hlower.2 (by decide)
      case isFalse =>
        split at h
        case isTrue hdecimal => exact Nat.lt_of_le_of_lt hdecimal.2 (by decide)
        case isFalse =>
          split at h
          case isTrue hplus => rw [hplus]; decide
          case isFalse =>
            split at h
            case isTrue hslash => rw [hslash]; decide
            case isFalse => cases h
  have hall : ∀ n < 123, (value? (Char.ofNat n)).all (fun v => decide (v < 64) && digit v == Char.ofNat n) = true := by
    decide +kernel
  have hc := hall c.toNat hascii
  rw [Char.ofNat_toNat, h, Option.all_some, Bool.and_eq_true, decide_eq_true_eq, beq_iff_eq] at hc
  exact hc

/-! ## Groups -/

theorem toNat_firstByte (hx : x < 64) (hy : y < 64) : (firstByte x y).toNat = x * 4 + y / 16 := by
  rw [firstByte, UInt8.toNat_ofNat_of_lt' (show x * 4 + y / 16 < 256 by omega)]

theorem toNat_secondByte (hz : z < 64) : (secondByte y z).toNat = y % 16 * 16 + z / 4 := by
  rw [secondByte, UInt8.toNat_ofNat_of_lt' (show y % 16 * 16 + z / 4 < 256 by omega)]

theorem toNat_thirdByte (hw : w < 64) : (thirdByte z w).toNat = z % 4 * 64 + w := by
  rw [thirdByte, UInt8.toNat_ofNat_of_lt' (show z % 4 * 64 + w < 256 by omega)]

section Groups
variable (hx : x < 64) (hy : y < 64)
include hx hy

/-- One byte takes all of two digits but the last four bits. -/
theorem encode_one (hstray : y % 16 = 0) : encode [firstByte x y] = [digit x, digit y, '=', '='] := by
  rw [encode, toNat_firstByte hx hy, show (x * 4 + y / 16) / 4 = x by omega,
    show (x * 4 + y / 16) % 4 * 16 = y by omega]

/-- Two bytes take all of three digits but the last two bits. -/
theorem encode_two (hz : z < 64) (hstray : z % 4 = 0) :
    encode [firstByte x y, secondByte y z] = [digit x, digit y, digit z, '='] := by
  rw [encode, toNat_firstByte hx hy, toNat_secondByte hz, show (x * 4 + y / 16) / 4 = x by omega,
    show (x * 4 + y / 16) % 4 * 16 + (y % 16 * 16 + z / 4) / 16 = y by omega,
    show (y % 16 * 16 + z / 4) % 16 * 4 = z by omega]

/-- Three bytes take all of four digits. -/
theorem encode_three (hz : z < 64) (hw : w < 64) (bs : Bytes) :
    encode (firstByte x y :: secondByte y z :: thirdByte z w :: bs) =
      digit x :: digit y :: digit z :: digit w :: encode bs := by
  rw [encode, toNat_firstByte hx hy, toNat_secondByte hz, toNat_thirdByte hw,
    show (x * 4 + y / 16) / 4 = x by omega,
    show (x * 4 + y / 16) % 4 * 16 + (y % 16 * 16 + z / 4) / 16 = y by omega,
    show (y % 16 * 16 + z / 4) % 16 * 4 + (z % 4 * 64 + w) / 64 = z by omega,
    show (z % 4 * 64 + w) % 64 = w by omega]

end Groups

theorem eq_encode_of_decodePadded {a b c : Char} (h : decodePadded a b c = some bs) : [a, b, c, '='] = encode bs := by
  obtain ⟨x, hfirst, h⟩ := Option.bind_eq_some_iff.mp h
  obtain ⟨y, hsecond, h⟩ := Option.bind_eq_some_iff.mp h
  obtain ⟨hx, ha⟩ := value?_eq_some hfirst
  obtain ⟨hy, hb⟩ := value?_eq_some hsecond
  by_cases hpad : c = '='
  · rw [if_pos hpad, Option.ite_none_right_eq_some, Option.some.injEq] at h
    rw [← h.2, encode_one hx hy h.1, ha, hb, hpad]
  · rw [if_neg hpad] at h
    obtain ⟨z, hthird, h⟩ := Option.bind_eq_some_iff.mp h
    obtain ⟨hz, hc⟩ := value?_eq_some hthird
    rw [Option.ite_none_right_eq_some, Option.some.injEq] at h
    rw [← h.2, encode_two hx hy hz h.1, ha, hb, hc]

/-! ## Texts -/

/-- **What is accepted is what writing produces.** -/
theorem eq_encode_of_decode (h : decode t = some bs) : t = encode bs := by
  induction t using decode.induct generalizing bs with
  | case1 =>
    rw [← Option.some.inj h]
    rfl
  | case2 a b c rest hlast =>
    rw [decode, if_pos rfl, if_pos hlast] at h
    rw [List.isEmpty_iff.mp hlast]
    exact eq_encode_of_decodePadded h
  | case3 a b c rest hmore =>
    rw [decode, if_pos rfl, if_neg hmore] at h
    cases h
  | case4 a b c d rest hd ih =>
    rw [decode, if_neg hd] at h
    obtain ⟨x, hfirst, h⟩ := Option.bind_eq_some_iff.mp h
    obtain ⟨y, hsecond, h⟩ := Option.bind_eq_some_iff.mp h
    obtain ⟨z, hthird, h⟩ := Option.bind_eq_some_iff.mp h
    obtain ⟨w, hfourth, h⟩ := Option.bind_eq_some_iff.mp h
    obtain ⟨behind, hbehind, h⟩ := Option.bind_eq_some_iff.mp h
    obtain ⟨hx, ha⟩ := value?_eq_some hfirst
    obtain ⟨hy, hb⟩ := value?_eq_some hsecond
    obtain ⟨hz, hc⟩ := value?_eq_some hthird
    obtain ⟨hw, hd'⟩ := value?_eq_some hfourth
    rw [← Option.some.inj h, encode_three hx hy hz hw, ha, hb, hc, hd', ih hbehind]
  | case5 t hnil hgroup =>
    rw [decode] at h
    · cases h
    · exact hnil
    · exact hgroup

theorem decode_eq_some_iff : decode t = some bs ↔ t = encode bs :=
  ⟨eq_encode_of_decode, fun h => h ▸ decode_encode bs⟩

end SealedScript.Base64
