import SealedScript.Digest
import SealedScript.Proofs.Numeral
import SealedScript.Proofs.Text.Measure

/-!
Fields of integrity lines.

A number below `2 ^ 32` takes exactly the eight columns of a field and reads back from them
(`readUnsigned?_trim_field`). A larger one outgrows its field and then shows nothing but digits, so
what stands in the first eight columns is a smaller number.

A digest is a field with the magnitude of a sum, so it tells apart all texts but those whose sums are equal
or opposite modulo `2 ^ 32` (`ofText_eq_iff`).
-/

namespace SealedScript
set_option autoImplicit false

/-! ## White space around a number -/

theorem Text.trim_of_not_blank {t : Text} (n : Nat) (h : ∀ c ∈ t, Text.isBlank c = false) :
    Text.trim (List.replicate n ' ' ++ t) = t := by
  have hkeep : ∀ s : Text, (∀ c ∈ s, Text.isBlank c = false) → s.dropWhile Text.isBlank = s := by
    intro s hs
    cases s with
    | nil => rfl
    | cons c s => rw [List.dropWhile_cons, if_neg (by rw [hs c (List.mem_cons_self ..)]; decide)]
  have hspace : ∀ c ∈ List.replicate n ' ', Text.isBlank c = true := by
    intro c hc
    rw [List.eq_of_mem_replicate hc]
    decide
  rw [Text.trim, Text.trimStart, List.dropWhile_append_of_pos hspace, hkeep t h, Text.trimEnd,
    hkeep t.reverse (fun c hc => h c (List.mem_reverse.mp hc)), List.reverse_reverse]

namespace Digest
open Numeral (hexUpper hexDigit exists_hexDigit hexDigit_plain)

/-! ## Fields -/

theorem field_eq (n : Nat) :
    field n = List.replicate (columns - (hexUpper n).length) ' ' ++ hexUpper n := rfl

theorem trim_field (n : Nat) : Text.trim (field n) = hexUpper n := by
  refine Text.trim_of_not_blank _ fun c hc => ?_
  obtain ⟨d, hd, rfl⟩ := exists_hexDigit hc
  exact (hexDigit_plain hd).2.1

/-- **A field reads back.** -/
theorem readUnsigned?_trim_field (n : Nat) : Numeral.readUnsigned? 16 (Text.trim (field n)) = some n := by
  rw [trim_field, Numeral.readUnsigned?_hexUpper]

theorem field_plain {n : Nat} {c : Char} (h : c ∈ field n) :
    c.utf8Size = 1 ∧ c ≠ '-' ∧ c ≠ '\n' := by
  rw [field_eq, List.mem_append] at h
  rcases h with h | h
  · rw [List.eq_of_mem_replicate h]
    decide
  · obtain ⟨d, hd, rfl⟩ := exists_hexDigit h
    obtain ⟨hsize, -, -, hminus, hline⟩ := hexDigit_plain hd
    exact ⟨hsize, hminus, hline⟩

theorem length_field {n : Nat} (h : n < Nat.pow 2 32) : (field n).length = columns := by
  have hle := (Numeral.length_hexUpper_le n).mpr h
  rw [field_eq, List.length_append, List.length_replicate]
  simp only [columns]
  omega

theorem byteLength_field {n : Nat} (h : n < Nat.pow 2 32) : Text.byteLength (field n) = columns := by
  rw [Text.byteLength_eq_length fun c hc => (field_plain hc).1, length_field h]

/-- A number that outgrows its field is shown as its first eight digits, which stand for a smaller
number, and at least one digit behind them. -/
theorem field_of_le {n : Nat} (h : Nat.pow 2 32 ≤ n) :
    ∃ front c rest, field n = front ++ c :: rest ∧ Text.byteLength front = columns ∧ c ≠ '-' ∧
      ∀ k, Numeral.readUnsigned? 16 (Text.trim front) = some k → k < n := by
  have hlong : columns < (hexUpper n).length := by
    have := mt (Numeral.length_hexUpper_le n).mp (by omega)
    simp only [columns]
    omega
  have hfield : field n = hexUpper n := by
    rw [field_eq, Nat.sub_eq_zero_of_le (by omega)]
    rfl
  have hfront : ∀ c ∈ (hexUpper n).take columns, c.utf8Size = 1 ∧ Text.isBlank c = false := by
    intro c hc
    obtain ⟨d, hd, rfl⟩ := exists_hexDigit (List.mem_of_mem_take hc)
    exact ⟨(hexDigit_plain hd).1, (hexDigit_plain hd).2.1⟩
  have hlength : ((hexUpper n).take columns).length = columns := by
    rw [List.length_take]
    omega
  refine ⟨(hexUpper n).take columns, (hexUpper n)[columns], (hexUpper n).drop (columns + 1), ?_, ?_, ?_, ?_⟩
  · rw [hfield, ← List.drop_eq_getElem_cons hlong, List.take_append_drop]
  · rw [Text.byteLength_eq_length fun c hc => (hfront c hc).1, hlength]
  · obtain ⟨d, hd, hc⟩ := exists_hexDigit (List.getElem_mem hlong)
    rw [hc]
    exact (hexDigit_plain hd).2.2.2.1
  · intro k hk
    have htrim := Text.trim_of_not_blank 0 fun c hc => (hfront c hc).2
    rw [List.replicate_zero, List.nil_append] at htrim
    rw [htrim] at hk
    have hlt := Numeral.readUnsigned?_lt (by omega) hk
    rw [hlength] at hlt
    exact Nat.lt_of_lt_of_le hlt h

/-! ## Digests -/

/-- A sum taken as a signed word has a magnitude that a field holds. -/
theorem magnitude_lt (sum : Nat) : magnitude sum < Nat.pow 2 32 := by
  rw [magnitude]
  simp only [Nat.pow_eq]
  split <;> omega

theorem byteLength_ofText (t : Text) : Text.byteLength (ofText t) = columns :=
  byteLength_field (magnitude_lt _)

theorem newline_not_mem_ofText (t : Text) : '\n' ∉ ofText t :=
  fun h => (field_plain h).2.2 rfl

/-! ## Collisions -/

theorem field_inj {m n : Nat} : field m = field n ↔ m = n := by
  refine ⟨fun h => ?_, fun h => h ▸ rfl⟩
  have hread := readUnsigned?_trim_field m
  rw [h, readUnsigned?_trim_field, Option.some.injEq] at hread
  exact hread.symm

/-- The magnitude of a signed word forgets its sign and nothing else. -/
theorem magnitude_eq_iff (a b : Nat) :
    magnitude a = magnitude b ↔ a % Nat.pow 2 32 = b % Nat.pow 2 32 ∨ (a + b) % Nat.pow 2 32 = 0 := by
  have ha : a % Nat.pow 2 32 < Nat.pow 2 32 := Nat.mod_lt _ (by decide)
  have hb : b % Nat.pow 2 32 < Nat.pow 2 32 := Nat.mod_lt _ (by decide)
  have hsum := Nat.add_mod a b (Nat.pow 2 32)
  simp only [magnitude, Nat.pow_eq] at ha hb hsum ⊢
  by_cases hpositive : a % 2 ^ 32 < 2 ^ 31
  · by_cases hother : b % 2 ^ 32 < 2 ^ 31
    · rw [if_pos hpositive, if_pos hother]
      omega
    · rw [if_pos hpositive, if_neg hother]
      omega
  · by_cases hother : b % 2 ^ 32 < 2 ^ 31
    · rw [if_neg hpositive, if_pos hother]
      omega
    · rw [if_neg hpositive, if_neg hother]
      omega

/-- The sums of two texts are equal or opposite modulo `2 ^ 32`. -/
def Alike (s t : Text) : Prop :=
  unitSum s % Nat.pow 2 32 = unitSum t % Nat.pow 2 32 ∨ (unitSum s + unitSum t) % Nat.pow 2 32 = 0

instance (s t : Text) : Decidable (Alike s t) := inferInstanceAs (Decidable (_ ∨ _))

/-- **What a digest tells apart**: all texts but those whose sums are equal or opposite. -/
theorem ofText_eq_iff {s t : Text} : ofText s = ofText t ↔ Alike s t := by
  rw [ofText, ofText, field_inj, magnitude_eq_iff, Alike]

/-- Sums that a signed word holds without a sign are told apart. -/
theorem unitSum_eq_of_ofText {s t : Text} (hs : unitSum s < Nat.pow 2 31) (ht : unitSum t < Nat.pow 2 31)
    (h : ofText s = ofText t) : unitSum s = unitSum t := by
  have halike := ofText_eq_iff.mp h
  simp only [Alike, Nat.pow_eq] at halike hs ht
  omega

/-! ## Sums of parts -/

theorem unitSum_singleton_pos {c : Char} (h : c ≠ '\x00') : 0 < unitSum [c] := by
  have hc : c.toNat ≠ 0 := fun hzero => h (Char.toNat_inj.mp hzero)
  have hsum : unitSum [c] = (Text.unitsOf c).foldr (· + ·) 0 := by
    rw [unitSum, Text.units, List.flatMap_singleton]
    exact List.sum_eq_foldr
  rw [hsum, Text.unitsOf]
  split
  · exact Nat.add_pos_left (Nat.pos_of_ne_zero hc) 0
  · rw [List.foldr_cons]
    exact Nat.add_pos_left (Nat.add_pos_left (Nat.succ_pos _) _) _

/-- A text with a character other than the null character in it has a sum. -/
theorem unitSum_pos {c : Char} {t : Text} (h : c ∈ t) (hc : c ≠ '\x00') : 0 < unitSum t := by
  obtain ⟨a, b, rfl⟩ := List.append_of_mem h
  have hpos := unitSum_singleton_pos hc
  rw [← List.singleton_append, unitSum_append, unitSum_append]
  omega

theorem unitSum_le_of_infix {s t : Text} (h : s <:+: t) : unitSum s ≤ unitSum t := by
  obtain ⟨a, b, rfl⟩ := h
  rw [unitSum_append, unitSum_append]
  omega

end Digest
end SealedScript
