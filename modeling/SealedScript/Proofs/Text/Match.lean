import SealedScript.Proofs.Text.Offset

/-!
All places of a pattern.

The places are looked for one behind another, so that they do not overlap. A pattern none of whose beginnings is an end
of it is met wherever it stands (`mem_matchesOf`), and its places rise (`matchesOf_sorted`).
-/

namespace SealedScript.Text
set_option autoImplicit false

variable {t : Text}

/-- The byte offsets at which `pat` is met, `here` being the offset of the text and `skip` the number of characters
that still belong to the last place. -/
def matchesFrom (pat : Text) (here : Nat) : Nat → Text → List Nat
  | _, [] => []
  | skip + 1, c :: t => matchesFrom pat (here + c.utf8Size) skip t
  | 0, c :: t =>
    if pat.isPrefixOf (c :: t) then here :: matchesFrom pat (here + c.utf8Size) (pat.length - 1) t
    else matchesFrom pat (here + c.utf8Size) 0 t

/-- The byte offsets at which `pat` is met, one place behind another. -/
def matchesOf (pat t : Text) : List Nat := matchesFrom pat 0 0 t

/-- No beginning of the pattern is an end of it, so that its places cannot overlap. -/
def Unbordered (pat : Text) : Prop := pat ≠ [] ∧ ∀ j < pat.length, 0 < j → ¬ pat.drop j <+: pat

instance (pat : Text) : Decidable (Unbordered pat) := inferInstanceAs (Decidable (_ ∧ _))

theorem le_of_mem_matchesFrom {pat : Text} {here skip n : Nat} (h : n ∈ matchesFrom pat here skip t) : here ≤ n := by
  induction t generalizing here skip with
  | nil => cases h
  | cons c t ih =>
    cases skip with
    | succ skip =>
      have hle := ih h
      omega
    | zero =>
      rw [matchesFrom] at h
      split at h
      case isTrue =>
        rcases List.mem_cons.mp h with rfl | h
        · exact Nat.le_refl _
        · have hle := ih h
          omega
      case isFalse =>
        have hle := ih h
        omega

theorem matchesFrom_sorted (pat : Text) (here skip : Nat) (t : Text) :
    (matchesFrom pat here skip t).Pairwise (· < ·) := by
  induction t generalizing here skip with
  | nil => exact .nil
  | cons c t ih =>
    cases skip with
    | succ skip => exact ih _ _
    | zero =>
      rw [matchesFrom]
      split
      case isTrue =>
        refine .cons (fun n hn => ?_) (ih _ _)
        have hle := le_of_mem_matchesFrom hn
        have hpos := c.utf8Size_pos
        omega
      case isFalse => exact ih _ _

theorem mem_matchesFrom {pat : Text} (hpat : Unbordered pat) {here skip n : Nat}
    (hskip : ∀ j < skip, ¬ pat <+: t.drop j) :
    n ∈ matchesFrom pat here skip t ↔ ∃ a, a ++ pat <+: t ∧ n = here + byteLength a := by
  induction t generalizing here skip with
  | nil =>
    have hnone : ∀ a, ¬ a ++ pat <+: [] := fun a h => hpat.1 (List.append_eq_nil_iff.mp (List.prefix_nil.mp h)).2
    simp [matchesFrom, hnone]
  | cons c t ih =>
    -- A place of the pattern is here or behind the first character.
    have hplaces : (∃ a, a ++ pat <+: c :: t ∧ n = here + byteLength a) ↔
        (pat <+: c :: t ∧ n = here) ∨ ∃ a, a ++ pat <+: t ∧ n = here + c.utf8Size + byteLength a := by
      constructor
      · rintro ⟨a, ha, rfl⟩
        cases a with
        | nil => exact Or.inl ⟨ha, rfl⟩
        | cons d a =>
          rw [List.cons_append, List.cons_prefix_cons] at ha
          refine Or.inr ⟨a, ha.2, ?_⟩
          rw [byteLength_cons, ha.1]
          omega
      · rintro (⟨ha, rfl⟩ | ⟨a, ha, rfl⟩)
        · exact ⟨[], ha, rfl⟩
        · refine ⟨c :: a, List.cons_prefix_cons.mpr ⟨rfl, ha⟩, ?_⟩
          rw [byteLength_cons]
          omega
    rw [hplaces]
    cases skip with
    | succ skip =>
      have hhere : ¬ pat <+: c :: t := hskip 0 (Nat.succ_pos skip)
      rw [matchesFrom, ih fun j hj => hskip (j + 1) (by omega)]
      exact ⟨Or.inr, fun h => h.resolve_left fun h => hhere h.1⟩
    | zero =>
      rw [matchesFrom]
      by_cases hhere : pat <+: c :: t
      · have hoverlap : ∀ j < pat.length - 1, ¬ pat <+: t.drop j := by
          intro j hj hlater
          obtain ⟨v, hv⟩ := hhere
          have hrest : pat.drop (j + 1) <+: t.drop j :=
            ⟨v, by rw [← List.drop_append_of_le_length (by omega), hv, List.drop_succ_cons]⟩
          refine hpat.2 (j + 1) (by omega) (Nat.succ_pos j) ?_
          exact List.prefix_of_prefix_length_le hrest hlater (by rw [List.length_drop]; omega)
        rw [if_pos (List.isPrefixOf_iff_prefix.mpr hhere), List.mem_cons, ih hoverlap]
        simp only [hhere, true_and]
      · rw [if_neg (fun h => hhere (List.isPrefixOf_iff_prefix.mp h)), ih fun j hj => absurd hj (Nat.not_lt_zero j)]
        exact ⟨Or.inr, fun h => h.resolve_left fun h => hhere h.1⟩

theorem mem_matchesOf {pat : Text} (hpat : Unbordered pat) {n : Nat} :
    n ∈ matchesOf pat t ↔ ∃ a, a ++ pat <+: t ∧ n = byteLength a := by
  rw [matchesOf, mem_matchesFrom hpat fun j hj => absurd hj (Nat.not_lt_zero j)]
  simp only [Nat.zero_add]

theorem matchesOf_sorted (pat t : Text) : (matchesOf pat t).Pairwise (· < ·) := matchesFrom_sorted pat 0 0 t

end SealedScript.Text
