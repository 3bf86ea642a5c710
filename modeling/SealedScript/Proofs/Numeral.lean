import SealedScript.Numeral
import SealedScript.Text.Blank

/-!
Hexadecimal numbers read back.

A number in upper-case digits reads as itself, and no text of digits reads as more than its length
allows. What the integrity lines need of the characters is collected in `hexDigit_plain`.
-/

namespace SealedScript.Numeral
set_option autoImplicit false

/-! ## Digits -/

def hexDigit (d : Nat) : Char := (Nat.digitChar d).toUpper

theorem digit?_hexDigit {d : Nat} (h : d < 16) : digit? 16 (hexDigit d) = some d := by
  revert d
  decide

/-- A digit is one byte long and is neither blank nor one of the signs that stand next to a number. -/
theorem hexDigit_plain {d : Nat} (h : d < 16) :
    (hexDigit d).utf8Size = 1 ∧ Text.isBlank (hexDigit d) = false ∧ hexDigit d ≠ '+' ∧
      hexDigit d ≠ '-' ∧ hexDigit d ≠ '\n' := by
  revert d
  decide

theorem digit?_lt {base d : Nat} {c : Char} (h : digit? base c = some d) : d < base := by
  rw [digit?, Option.ite_none_right_eq_some, Option.some.injEq] at h
  exact h.2 ▸ h.1

/-! ## Numbers -/

theorem hexUpper_of_lt {n : Nat} (h : n < 16) : hexUpper n = [hexDigit n] := by
  rw [hexUpper, Nat.toDigits_of_lt_base h]
  rfl

theorem hexUpper_of_le {n : Nat} (h : 16 ≤ n) :
    hexUpper n = hexUpper (n / 16) ++ [hexDigit (n % 16)] := by
  rw [hexUpper, Nat.toDigits_of_base_le (by omega) h, List.map_append]
  rfl

theorem hexUpper_ne_nil (n : Nat) : hexUpper n ≠ [] := by
  rw [hexUpper]
  simp

theorem length_hexUpper_le (n : Nat) : (hexUpper n).length ≤ 8 ↔ n < Nat.pow 2 32 := by
  rw [hexUpper, List.length_map]
  exact Nat.length_toDigits_le_iff (by omega) (by omega)

theorem exists_hexDigit {n : Nat} {c : Char} (h : c ∈ hexUpper n) : ∃ d, d < 16 ∧ c = hexDigit d := by
  induction n using Nat.strongRecOn with
  | ind n ih =>
    by_cases hn : n < 16
    · rw [hexUpper_of_lt hn, List.mem_singleton] at h
      exact ⟨n, hn, h⟩
    · rw [hexUpper_of_le (by omega), List.mem_append, List.mem_singleton] at h
      rcases h with h | h
      · exact ih (n / 16) (by omega) h
      · exact ⟨n % 16, by omega, h⟩

/-! ## Reading -/

theorem readDigits_append (base acc : Nat) (s t : Text) :
    readDigits base acc (s ++ t) = (readDigits base acc s).bind fun v => readDigits base v t := by
  induction s generalizing acc with
  | nil => rfl
  | cons c s ih =>
    rw [List.cons_append, readDigits, readDigits]
    cases digit? base c with
    | none => rfl
    | some d => exact ih (acc * base + d)

theorem readDigits_hexUpper (n : Nat) : readDigits 16 0 (hexUpper n) = some n := by
  induction n using Nat.strongRecOn with
  | ind n ih =>
    by_cases hn : n < 16
    · rw [hexUpper_of_lt hn, readDigits, digit?_hexDigit hn]
      simp only [readDigits]
      congr 1
      omega
    · have hlast : n % 16 < 16 := by omega
      rw [hexUpper_of_le (by omega), readDigits_append, ih (n / 16) (by omega), Option.bind_some,
        readDigits, digit?_hexDigit hlast]
      simp only [readDigits]
      congr 1
      omega

/-- **A number reads as itself.** -/
theorem readUnsigned?_hexUpper (n : Nat) : readUnsigned? 16 (hexUpper n) = some n := by
  obtain ⟨c, t, ht⟩ := List.exists_cons_of_ne_nil (hexUpper_ne_nil n)
  obtain ⟨d, hd, rfl⟩ := exists_hexDigit (ht ▸ List.mem_cons_self .. : c ∈ hexUpper n)
  have hread := readDigits_hexUpper n
  rw [ht] at hread ⊢
  rw [readUnsigned?.eq_2 16 _ (fun r hr => (hexDigit_plain hd).2.2.1 (List.cons.inj hr).1), readNat?]
  exact hread

theorem readDigits_lt {base acc v : Nat} {t : Text} (h : readDigits base acc t = some v) :
    v < (acc + 1) * Nat.pow base t.length := by
  induction t generalizing acc with
  | nil =>
    rw [readDigits, Option.some.injEq] at h
    rw [← h, List.length_nil, show Nat.pow base 0 = 1 from rfl]
    omega
  | cons c t ih =>
    rw [readDigits] at h
    cases hd : digit? base c with
    | none =>
      rw [hd] at h
      cases h
    | some d =>
      rw [hd] at h
      have hlt := digit?_lt hd
      have hgrow : acc * base + d + 1 ≤ (acc + 1) * base := by
        rw [Nat.succ_mul]
        omega
      calc v < (acc * base + d + 1) * Nat.pow base t.length := ih h
        _ ≤ (acc + 1) * base * Nat.pow base t.length := Nat.mul_le_mul_right _ hgrow
        _ = (acc + 1) * Nat.pow base (c :: t).length := by
          rw [List.length_cons, show Nat.pow base (t.length + 1) = Nat.pow base t.length * base from rfl,
            Nat.mul_assoc, Nat.mul_comm base]

/-- A text of digits reads as a number that its length allows. -/
theorem readUnsigned?_lt {base v : Nat} {t : Text} (hbase : 0 < base) (h : readUnsigned? base t = some v) :
    v < Nat.pow base t.length := by
  have hnat : ∀ s : Text, readNat? base s = some v → v < Nat.pow base s.length := by
    intro s hs
    rw [readNat?] at hs
    split at hs
    case isTrue => cases hs
    case isFalse => simpa using readDigits_lt hs
  unfold readUnsigned? at h
  split at h
  case h_1 s =>
    exact Nat.lt_of_lt_of_le (hnat s h) (Nat.pow_le_pow_right hbase (by simp))
  case h_2 => exact hnat t h

end SealedScript.Numeral
