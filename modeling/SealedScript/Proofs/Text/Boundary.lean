import Mathlib.Data.List.Basic
import Mathlib.Order.Bounds.Basic
import SealedScript.Proofs.Text.Offset

/-!
Offsets in code units and in bytes.

Both measures order the fronts of a text alike (`byteLength_le_iff`), and a place in one of them becomes a place in the
other by the front that ends there. `unitOfByte` goes from boundaries to code units, and two functions go back:
`byteOfUnit?` is its inverse and `floorByteOfUnit?` its upper adjoint (`offsets_adjoint`). They differ between the two
units of a surrogate pair and nowhere else.
-/

namespace SealedScript.Text
set_option autoImplicit false

variable {width : Char → Nat} {a b s t : Text} {c : Char} {m n u : Nat}

/-! ## Fronts of a text -/

/-- Of two fronts of one text, one starts the other exactly when it is not longer, in whichever measure. -/
theorem front_iff_lengthBy_le (hwidth : ∀ c, 0 < width c) (ha : a <+: t) (hb : b <+: t) :
    a <+: b ↔ lengthBy width a ≤ lengthBy width b := by
  refine ⟨lengthBy_le_of_front, fun hle => ?_⟩
  rcases List.prefix_or_prefix_of_prefix ha hb with h | ⟨rest, rfl⟩
  · exact h
  · cases rest with
    | nil => simp
    | cons c rest =>
      have hpos := hwidth c
      rw [lengthBy_append, lengthBy_cons] at hle
      omega

theorem byteLength_le_iff (ha : a <+: t) (hb : b <+: t) :
    byteLength a ≤ byteLength b ↔ unitLength a ≤ unitLength b := by
  have hbytes := front_iff_lengthBy_le Char.utf8Size_pos ha hb
  have hunits := front_iff_lengthBy_le unitWidth_pos ha hb
  exact hbytes.symm.trans hunits

/-- A front that ends before a character does, ends where the character starts or before that. -/
theorem unitLength_le_of_lt (ha : a <+: s ++ c :: b) (hlt : unitLength a < unitLength s + unitWidth c) :
    unitLength a ≤ unitLength s := by
  by_contra hlonger
  obtain ⟨rest, hrest⟩ := ha
  obtain ⟨more, hmore, rfl, hbehind⟩ := append_eq_append_of_lt hrest.symm (Nat.lt_of_not_le hlonger)
  obtain ⟨d, more, rfl⟩ := List.exists_cons_of_ne_nil hmore
  obtain ⟨rfl, -⟩ := List.cons.inj hbehind
  rw [unitLength_append, unitLength_cons] at hlt
  omega

/-! ## From bytes to code units -/

theorem isBoundary_iff : isBoundary t n = true ↔ ∃ a, a <+: t ∧ byteLength a = n := by
  constructor
  · intro h
    obtain ⟨a, b, rfl, hn⟩ := exists_append_of_isBoundary h
    exact ⟨a, List.prefix_append a b, hn⟩
  · rintro ⟨a, ⟨b, rfl⟩, rfl⟩
    exact isBoundary_append a b

theorem unitOfByte_of_front (h : a <+: t) : unitOfByte t (byteLength a) = unitLength a := by
  obtain ⟨b, rfl⟩ := h
  rw [unitOfByte, floorByteIndex_append, List.take_left]

/-! ## From code units to bytes -/

theorem byteOfUnit?_iff_front : byteOfUnit? t u = some n ↔ ∃ a, a <+: t ∧ unitLength a = u ∧ byteLength a = n := by
  rw [byteOfUnit?, Option.map_eq_some_iff]
  constructor
  · rintro ⟨i, hi, rfl⟩
    exact ⟨t.take i, List.take_prefix i t, unitIndex?_eq_some hi, rfl⟩
  · rintro ⟨a, ⟨b, rfl⟩, rfl, rfl⟩
    exact ⟨a.length, unitIndex?_append a b, by rw [List.take_left]⟩

theorem byteOfUnit?_iff_unitOfByte : byteOfUnit? t u = some n ↔ isBoundary t n = true ∧ unitOfByte t n = u := by
  rw [byteOfUnit?_iff_front, isBoundary_iff]
  constructor
  · rintro ⟨a, ha, rfl, rfl⟩
    exact ⟨⟨a, ha, rfl⟩, unitOfByte_of_front ha⟩
  · rintro ⟨⟨a, ha, rfl⟩, rfl⟩
    exact ⟨a, ha, (unitOfByte_of_front ha).symm, rfl⟩

/-- The front that ends where the search that moves back stops. It ends at the place, or the next character goes on
past the place. -/
theorem floorByteOfUnit?_spec (h : u ≤ unitLength t) :
    ∃ s, s <+: t ∧ floorByteOfUnit? t u = some (byteLength s) ∧
      (unitLength s = u ∨ ∃ c b, t = s ++ c :: b ∧ unitLength s < u ∧ u < unitLength s + unitWidth c) := by
  have hfound : ∀ s b, t = s ++ b → floorUnitIndex? t u = some s.length →
      floorByteOfUnit? t u = some (byteLength s) := by
    intro s b ht hindex
    rw [floorByteOfUnit?, hindex, Option.map_some, ht, List.take_left]
  rcases around unitWidth t h with hend | ⟨s, c, b, ht, hle, hlt⟩
  · have hindex := floorUnitIndex?_append t []
    rw [List.append_nil, unitLength, ← hend] at hindex
    exact ⟨t, List.prefix_refl t, hfound t [] (List.append_nil t).symm hindex, Or.inl hend.symm⟩
  · have hindex : floorUnitIndex? t u = some s.length := by
      rw [floorUnitIndex?, ht, floorIndexAt_inside hle hlt, Nat.zero_add]
    refine ⟨s, ht ▸ List.prefix_append s _, hfound s _ ht hindex, ?_⟩
    rcases Nat.eq_or_lt_of_le hle with heq | hinside
    · exact Or.inl heq
    · exact Or.inr ⟨c, b, ht, hinside, hlt⟩

theorem floorByteOfUnit?_eq_none_iff : floorByteOfUnit? t u = none ↔ unitLength t < u := by
  constructor
  · intro hnone
    by_contra hle
    obtain ⟨s, -, hfound, -⟩ := floorByteOfUnit?_spec (Nat.le_of_not_lt hle)
    rw [hnone] at hfound
    cases hfound
  · intro hlt
    rw [floorByteOfUnit?, floorUnitIndex?, floorIndexAt_past hlt, Option.map_none]

theorem le_of_floorByteOfUnit? (h : floorByteOfUnit? t u = some n) : u ≤ unitLength t := by
  by_contra hlt
  rw [floorByteOfUnit?_eq_none_iff.mpr (Nat.lt_of_not_le hlt)] at h
  cases h

theorem floorByteOfUnit?_of_byteOfUnit? (h : byteOfUnit? t u = some n) : floorByteOfUnit? t u = some n := by
  obtain ⟨a, ⟨b, rfl⟩, rfl, rfl⟩ := byteOfUnit?_iff_front.mp h
  rw [floorByteOfUnit?, floorUnitIndex?_append, Option.map_some, List.take_left]

/-! ## The adjunction -/

/-- A front is within the place exactly when it is within the offset that the place moves back to. -/
theorem unitLength_le_iff (hfloor : floorByteOfUnit? t u = some n) (ha : a <+: t) :
    unitLength a ≤ u ↔ byteLength a ≤ n := by
  obtain ⟨s, hs, hfound, hplace⟩ := floorByteOfUnit?_spec (le_of_floorByteOfUnit? hfloor)
  obtain rfl : byteLength s = n := Option.some.inj (hfound.symm.trans hfloor)
  rw [byteLength_le_iff ha hs]
  rcases hplace with rfl | ⟨c, b, rfl, hlt, hcrossed⟩
  · exact Iff.rfl
  · constructor
    · intro hle
      exact unitLength_le_of_lt ha (Nat.lt_of_le_of_lt hle hcrossed)
    · intro hle
      exact Nat.le_trans hle (Nat.le_of_lt hlt)

theorem unitOfByte_le_iff (hfloor : floorByteOfUnit? t u = some n) (hm : isBoundary t m = true) :
    unitOfByte t m ≤ u ↔ m ≤ n := by
  obtain ⟨a, ha, rfl⟩ := isBoundary_iff.mp hm
  rw [unitOfByte_of_front ha, unitLength_le_iff hfloor ha]

theorem isBoundary_of_floorByteOfUnit? (hfloor : floorByteOfUnit? t u = some n) : isBoundary t n = true := by
  obtain ⟨s, hs, hfound, -⟩ := floorByteOfUnit?_spec (le_of_floorByteOfUnit? hfloor)
  exact isBoundary_iff.mpr ⟨s, hs, Option.some.inj (hfound.symm.trans hfloor)⟩

theorem isGreatest_floorByteOfUnit? (hfloor : floorByteOfUnit? t u = some n) :
    IsGreatest {m | isBoundary t m = true ∧ unitOfByte t m ≤ u} n := by
  have hn := isBoundary_of_floorByteOfUnit? hfloor
  refine ⟨⟨hn, (unitOfByte_le_iff hfloor hn).mpr (Nat.le_refl n)⟩, ?_⟩
  rintro m ⟨hm, hle⟩
  exact (unitOfByte_le_iff hfloor hm).mp hle

theorem floorByteOfUnit?_iff_isGreatest : floorByteOfUnit? t u = some n ↔
    u ≤ unitLength t ∧ IsGreatest {m | isBoundary t m = true ∧ unitOfByte t m ≤ u} n := by
  constructor
  · intro hfloor
    exact ⟨le_of_floorByteOfUnit? hfloor, isGreatest_floorByteOfUnit? hfloor⟩
  · rintro ⟨hle, hgreatest⟩
    obtain ⟨s, -, hfound, -⟩ := floorByteOfUnit?_spec hle
    rw [hfound, (isGreatest_floorByteOfUnit? hfound).unique hgreatest]

/-! ## Surrogate pairs -/

/-- Is the place between the two code units of one character? -/
def InsidePair (t : Text) (u : Nat) : Prop :=
  ∃ s c b high low, t = s ++ c :: b ∧ unitsOf c = [high, low] ∧ u = unitLength s + 1

theorem insidePair_of_crossed (ht : t = s ++ c :: b) (hlt : unitLength s < u) (hcrossed : u < unitLength s + unitWidth c) :
    InsidePair t u := by
  have hwidth : unitWidth c ≤ 2 := by
    unfold unitWidth
    split <;> omega
  have htwo : (unitsOf c).length = 2 := by
    rw [length_unitsOf]
    omega
  obtain ⟨high, low, hunits⟩ := List.length_eq_two.mp htwo
  exact ⟨s, c, b, high, low, ht, hunits, by omega⟩

theorem byteOfUnit?_of_insidePair (h : InsidePair t u) : byteOfUnit? t u = none := by
  obtain ⟨s, c, b, high, low, rfl, hunits, rfl⟩ := h
  have htwo : unitWidth c = 2 := by rw [← length_unitsOf, hunits, List.length_cons, List.length_singleton]
  rw [Option.eq_none_iff_forall_not_mem]
  intro n hn
  obtain ⟨a, ha, hu, -⟩ := byteOfUnit?_iff_front.mp hn
  have hle := unitLength_le_of_lt ha (by omega)
  omega

theorem le_unitLength_of_insidePair (h : InsidePair t u) : u ≤ unitLength t := by
  obtain ⟨s, c, b, high, low, rfl, -, rfl⟩ := h
  have hpos := unitWidth_pos c
  rw [unitLength_append, unitLength_cons]
  omega

theorem floorByteOfUnit?_ne_iff : floorByteOfUnit? t u ≠ byteOfUnit? t u ↔ InsidePair t u := by
  constructor
  · intro hdiffer
    cases hbyte : byteOfUnit? t u with
    | some n => exact absurd ((floorByteOfUnit?_of_byteOfUnit? hbyte).trans hbyte.symm) hdiffer
    | none =>
      have hle : u ≤ unitLength t := by
        by_contra hlt
        exact hdiffer ((floorByteOfUnit?_eq_none_iff.mpr (Nat.lt_of_not_le hlt)).trans hbyte.symm)
      obtain ⟨s, hs, -, rfl | ⟨c, b, ht, hlt, hcrossed⟩⟩ := floorByteOfUnit?_spec hle
      · rw [byteOfUnit?_iff_front.mpr ⟨s, hs, rfl, rfl⟩] at hbyte
        cases hbyte
      · exact insidePair_of_crossed ht hlt hcrossed
  · intro hinside hsame
    rw [byteOfUnit?_of_insidePair hinside, floorByteOfUnit?_eq_none_iff] at hsame
    exact Nat.not_lt_of_le (le_unitLength_of_insidePair hinside) hsame

/-- **Offsets in code units and in bytes are a Galois pair.** Where a character starts or the text ends, `byteOfUnit?`
undoes `unitOfByte`. Up to the length of the text `floorByteOfUnit?` answers the greatest boundary that is not past the
place, so a boundary is within the answer exactly when its code units are within the place. -/
theorem offsets_adjoint (t : Text) (u : Nat) :
    (∀ n, byteOfUnit? t u = some n ↔ isBoundary t n = true ∧ unitOfByte t n = u) ∧
    (floorByteOfUnit? t u = none ↔ unitLength t < u) ∧
    (∀ n, floorByteOfUnit? t u = some n ↔
      u ≤ unitLength t ∧ IsGreatest {m | isBoundary t m = true ∧ unitOfByte t m ≤ u} n) ∧
    (∀ m n, isBoundary t m = true → floorByteOfUnit? t u = some n → (unitOfByte t m ≤ u ↔ m ≤ n)) ∧
    (∀ n, byteOfUnit? t u = some n → floorByteOfUnit? t u = some n) ∧
    (floorByteOfUnit? t u ≠ byteOfUnit? t u ↔ InsidePair t u) :=
  ⟨fun _ => byteOfUnit?_iff_unitOfByte, floorByteOfUnit?_eq_none_iff, fun _ => floorByteOfUnit?_iff_isGreatest,
    fun _ _ hm hfloor => unitOfByte_le_iff hfloor hm, fun _ => floorByteOfUnit?_of_byteOfUnit?,
    floorByteOfUnit?_ne_iff⟩

/-- Inside of the surrogate pair of a text, and behind it. -/
theorem offsets_adjoint_pair :
    floorByteOfUnit? "a😀b" 2 = some 1 ∧ isBoundary "a😀b" 5 = true ∧ (unitOfByte "a😀b" 5 ≤ 2 ↔ 5 ≤ 1) ∧
      InsidePair "a😀b" 2 ∧ byteOfUnit? "a😀b" 3 = some 5 ∧ floorByteOfUnit? "a😀b" 3 = some 5 := by
  obtain ⟨-, -, -, hadjoint, -, hdiffer⟩ := offsets_adjoint "a😀b" 2
  obtain ⟨-, -, -, -, hsame, -⟩ := offsets_adjoint "a😀b" 3
  exact ⟨by decide, by decide, hadjoint 5 1 (by decide) (by decide), hdiffer.mp (by decide), by decide,
    hsame 5 (by decide)⟩

end SealedScript.Text
