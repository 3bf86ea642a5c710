import SealedScript.Text.Measure

/-!
Indices that lie a number of units from the start of a text.

Both searches go on behind a front as in what follows it (`indexAt_behind`, `floorIndexAt_behind`). So `indexAt` finds
the end of a front by the length of the front, in any measure in which no character is without length, and what it finds
has that length. `floorIndexAt` finds the same index, and inside of a character the one where that character starts.
-/

namespace SealedScript.Text
set_option autoImplicit false

variable {width : Char → Nat}

theorem lengthBy_nil (width : Char → Nat) : lengthBy width [] = 0 := rfl

theorem lengthBy_le_of_front {s t : Text} (h : s <+: t) : lengthBy width s ≤ lengthBy width t := by
  obtain ⟨rest, rfl⟩ := h
  rw [lengthBy_append]
  exact Nat.le_add_right _ _

/-- A place is the end of the text, the start of a character, or inside one. -/
theorem around (width : Char → Nat) (t : Text) {n : Nat} (h : n ≤ lengthBy width t) :
    n = lengthBy width t ∨
      ∃ s c u, t = s ++ c :: u ∧ lengthBy width s ≤ n ∧ n < lengthBy width s + width c := by
  induction t generalizing n with
  | nil => exact Or.inl (Nat.le_zero.mp h)
  | cons c t ih =>
    rw [lengthBy_cons] at h ⊢
    by_cases hlt : n < width c
    · exact Or.inr ⟨[], c, t, rfl, Nat.zero_le n, by rwa [lengthBy_nil, Nat.zero_add]⟩
    · rcases ih (n := n - width c) (by omega) with hend | ⟨s, d, u, rfl, hle, hlt'⟩
      · exact Or.inl (by omega)
      · refine Or.inr ⟨c :: s, d, u, rfl, ?_, ?_⟩ <;> rw [lengthBy_cons] <;> omega

/-! ## The exact search -/

/-- Behind a front a search goes on as in what follows it. -/
theorem indexAt_behind (hwidth : ∀ c, 0 < width c) (here goal : Nat) (s t : Text) :
    indexAt width here (lengthBy width s + goal) (s ++ t) = indexAt width (here + s.length) goal t := by
  induction s generalizing here with
  | nil => rw [lengthBy_nil, Nat.zero_add, List.nil_append, List.length_nil, Nat.add_zero]
  | cons c s ih =>
    have hpos := hwidth c
    have hlength := lengthBy_cons width c s
    obtain ⟨n, hn⟩ : ∃ n, lengthBy width (c :: s) + goal = n + 1 := ⟨lengthBy width (c :: s) + goal - 1, by omega⟩
    have hrest : n + 1 - width c = lengthBy width s + goal := by omega
    rw [hn, List.cons_append, indexAt, if_pos (by omega), hrest, ih, List.length_cons]
    congr 1
    omega

/-- The end of a front lies as far from the start as the front is long. -/
theorem indexAt_append (hwidth : ∀ c, 0 < width c) (here : Nat) (s t : Text) :
    indexAt width here (lengthBy width s) (s ++ t) = some (here + s.length) := by
  have h := indexAt_behind hwidth here 0 s t
  rwa [Nat.add_zero, indexAt] at h

/-- The index that is found ends a front of the length that was asked for. -/
theorem indexAt_eq_some {here goal i : Nat} {t : Text} (h : indexAt width here goal t = some i) :
    ∃ k, i = here + k ∧ lengthBy width (t.take k) = goal := by
  induction t generalizing here goal with
  | nil =>
    cases goal with
    | zero =>
      rw [indexAt, Option.some.injEq] at h
      exact ⟨0, by omega, rfl⟩
    | succ goal => cases h
  | cons c t ih =>
    cases goal with
    | zero =>
      rw [indexAt, Option.some.injEq] at h
      exact ⟨0, by omega, rfl⟩
    | succ goal =>
      rw [indexAt] at h
      by_cases hle : width c ≤ goal + 1
      · rw [if_pos hle] at h
        obtain ⟨k, rfl, hk⟩ := ih h
        exact ⟨k + 1, by omega, by rw [List.take_succ_cons, lengthBy_cons, hk]; omega⟩
      · rw [if_neg hle] at h
        cases h

/-! ## The search that moves back -/

theorem floorIndexAt_behind (here goal : Nat) (s t : Text) :
    floorIndexAt width here (lengthBy width s + goal) (s ++ t) = floorIndexAt width (here + s.length) goal t := by
  induction s generalizing here with
  | nil => rw [lengthBy_nil, Nat.zero_add, List.nil_append, List.length_nil, Nat.add_zero]
  | cons c s ih =>
    have hlength := lengthBy_cons width c s
    have hrest : lengthBy width (c :: s) + goal - width c = lengthBy width s + goal := by omega
    rw [List.cons_append, floorIndexAt, if_pos (by omega), hrest, ih, List.length_cons]
    congr 1
    omega

/-- It stops in front of the character that it cannot pass as a whole. -/
theorem floorIndexAt_inside {here goal : Nat} {s u : Text} {c : Char} (hle : lengthBy width s ≤ goal)
    (hlt : goal < lengthBy width s + width c) :
    floorIndexAt width here goal (s ++ c :: u) = some (here + s.length) := by
  obtain ⟨k, rfl⟩ := Nat.exists_eq_add_of_le hle
  rw [floorIndexAt_behind, floorIndexAt, if_neg (by omega)]

/-- At the end of a front it has nothing to move back over. -/
theorem floorIndexAt_append (hwidth : ∀ c, 0 < width c) (here : Nat) (s t : Text) :
    floorIndexAt width here (lengthBy width s) (s ++ t) = some (here + s.length) := by
  cases t with
  | nil =>
    have h := @floorIndexAt_behind width here 0 s []
    rwa [Nat.add_zero, floorIndexAt, if_pos rfl] at h
  | cons c t => exact floorIndexAt_inside (Nat.le_refl _) (Nat.lt_add_of_pos_right (hwidth c))

theorem floorIndexAt_past {here goal : Nat} {t : Text} (h : lengthBy width t < goal) :
    floorIndexAt width here goal t = none := by
  obtain ⟨k, rfl⟩ := Nat.exists_eq_add_of_lt h
  have hbehind := @floorIndexAt_behind width here (k + 1) t []
  rwa [List.append_nil, floorIndexAt, if_neg (Nat.succ_ne_zero k)] at hbehind

/-! ## The two measures -/

theorem unitIndex?_append (s t : Text) : unitIndex? (s ++ t) (unitLength s) = some s.length := by
  rw [unitIndex?, unitLength, indexAt_append unitWidth_pos, Nat.zero_add]

theorem unitIndex?_eq_some {t : Text} {goal i : Nat} (h : unitIndex? t goal = some i) :
    unitLength (t.take i) = goal := by
  obtain ⟨k, rfl, hk⟩ := indexAt_eq_some h
  rwa [Nat.zero_add]

theorem floorUnitIndex?_append (s t : Text) :
    floorUnitIndex? (s ++ t) (unitLength s) = some s.length := by
  rw [floorUnitIndex?, unitLength, floorIndexAt_append unitWidth_pos, Nat.zero_add]

theorem floorByteIndex_append (s t : Text) : floorByteIndex (s ++ t) (byteLength s) = s.length := by
  rw [floorByteIndex, byteLength, floorIndexAt_append Char.utf8Size_pos, Nat.zero_add]
  rfl

theorem splitBytes?_append (s t : Text) : splitBytes? (byteLength s) (s ++ t) = some (s, t) := by
  rw [splitBytes?, byteIndex?, byteLength, indexAt_append Char.utf8Size_pos, Nat.zero_add,
    Option.map_some, List.splitAt_eq, List.take_left, List.drop_left]

theorem length_le_unitLength (t : Text) : t.length ≤ unitLength t := by
  induction t with
  | nil => exact Nat.le_refl 0
  | cons c t ih =>
    have hpos := unitWidth_pos c
    rw [List.length_cons, unitLength_cons]
    omega

/-- Of two ways to split a text, the one with the longer front goes on where the other one ends. -/
theorem append_eq_append_of_lt {a b c d : Text} (h : a ++ b = c ++ d) (hlt : unitLength a < unitLength c) :
    ∃ u, u ≠ [] ∧ c = a ++ u ∧ b = u ++ d := by
  rcases List.append_eq_append_iff.mp h with ⟨u, hc, hb⟩ | ⟨u, ha, -⟩
  · refine ⟨u, ?_, hc, hb⟩
    rintro rfl
    rw [hc, List.append_nil] at hlt
    omega
  · rw [ha, unitLength_append] at hlt
    omega

/-- A text of characters of one byte has as many bytes as characters. -/
theorem byteLength_eq_length {t : Text} (h : ∀ c ∈ t, c.utf8Size = 1) : byteLength t = t.length := by
  induction t with
  | nil => rfl
  | cons c t ih =>
    have hc := h c (List.mem_cons_self ..)
    have ht := ih (fun d hd => h d (List.mem_cons_of_mem c hd))
    rw [byteLength_cons, hc, ht, List.length_cons, Nat.add_comm]

end SealedScript.Text
