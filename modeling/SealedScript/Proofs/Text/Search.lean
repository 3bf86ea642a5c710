import SealedScript.Text.Basic

/-!
What the searches and cuts of a text find.

`LastAt` says that a pattern starts somewhere and nowhere behind it, and the search for the last place
answers exactly that. A line that is looked for with the line feed in front of it can only be found
where a line starts, so nothing inside such a line hides it (`lastAt_line`).
-/

namespace SealedScript.Text
set_option autoImplicit false

/-! ## The last place -/

/-- `pat` starts at the index `k` of `t` and at no later one. -/
def LastAt (pat t : Text) (k : Nat) : Prop := pat <+: t.drop k ∧ ∀ j, k < j → ¬ pat <+: t.drop j

theorem LastAt.unique {pat t : Text} {i j : Nat} (hi : LastAt pat t i) (hj : LastAt pat t j) : i = j := by
  rcases Nat.lt_trichotomy i j with h | h | h
  · exact absurd hj.1 (hi.2 j h)
  · exact h
  · exact absurd hi.1 (hj.2 i h)

theorem lastAt_cons_succ {pat t : Text} {c : Char} {k : Nat} :
    LastAt pat (c :: t) (k + 1) ↔ LastAt pat t k := by
  refine and_congr Iff.rfl ⟨fun h j hj => h (j + 1) (by omega), fun h j hj => ?_⟩
  obtain ⟨j, rfl⟩ : ∃ j', j = j' + 1 := ⟨j - 1, by omega⟩
  exact h j (by omega)

theorem lastAt_cons_zero {pat t : Text} {c : Char} :
    LastAt pat (c :: t) 0 ↔ pat <+: c :: t ∧ ∀ j, ¬ pat <+: t.drop j := by
  refine and_congr Iff.rfl ⟨fun h j => h (j + 1) (by omega), fun h j hj => ?_⟩
  obtain ⟨j, rfl⟩ : ∃ j', j = j' + 1 := ⟨j - 1, by omega⟩
  exact h j

/-- A search that is at the index `here` answers the last place ahead of it, and the latest one met so
far only if there is none. -/
theorem lastIndexFrom_eq_some {pat : Text} (hpat : pat ≠ []) (here : Nat) (last : Option Nat) (t : Text)
    (i : Nat) :
    lastIndexFrom pat here last t = some i ↔
      (∃ k, i = here + k ∧ LastAt pat t k) ∨ (last = some i ∧ ∀ j, ¬ pat <+: t.drop j) := by
  induction t generalizing here last with
  | nil =>
    have hnone : ∀ j, ¬ pat <+: ([] : Text).drop j := by
      intro j h
      rw [List.drop_nil, List.prefix_nil] at h
      exact hpat h
    have hempty : pat.isEmpty = false := by simpa using hpat
    rw [lastIndexFrom, hempty]
    constructor
    · intro h
      exact Or.inr ⟨h, hnone⟩
    · rintro (⟨k, -, hk, -⟩ | ⟨h, -⟩)
      · exact absurd hk (hnone k)
      · exact h
  | cons c t ih =>
    rw [lastIndexFrom, ih]
    constructor
    · rintro (⟨k, rfl, hk⟩ | ⟨hlast, hnone⟩)
      · exact Or.inl ⟨k + 1, by omega, lastAt_cons_succ.mpr hk⟩
      · by_cases hhere : pat <+: c :: t
        · rw [if_pos (List.isPrefixOf_iff_prefix.mpr hhere), Option.some.injEq] at hlast
          exact Or.inl ⟨0, by omega, lastAt_cons_zero.mpr ⟨hhere, hnone⟩⟩
        · rw [if_neg (fun h => hhere (List.isPrefixOf_iff_prefix.mp h))] at hlast
          refine Or.inr ⟨hlast, fun j => ?_⟩
          cases j with
          | zero => exact hhere
          | succ j => exact hnone j
    · rintro (⟨k, rfl, hk⟩ | ⟨hlast, hnone⟩)
      · cases k with
        | zero =>
          obtain ⟨hhere, hnone⟩ := lastAt_cons_zero.mp hk
          rw [if_pos (List.isPrefixOf_iff_prefix.mpr hhere)]
          exact Or.inr ⟨rfl, hnone⟩
        | succ k => exact Or.inl ⟨k, by omega, lastAt_cons_succ.mp hk⟩
      · have hhere : ¬ pat <+: c :: t := hnone 0
        rw [if_neg (fun h => hhere (List.isPrefixOf_iff_prefix.mp h))]
        exact Or.inr ⟨hlast, fun j => hnone (j + 1)⟩

/-- **The last place.** -/
theorem lastIndexOf?_eq_some {pat : Text} (hpat : pat ≠ []) {t : Text} {i : Nat} :
    lastIndexOf? pat t = some i ↔ LastAt pat t i := by
  rw [lastIndexOf?, lastIndexFrom_eq_some hpat]
  constructor
  · rintro (⟨k, rfl, hk⟩ | ⟨h, -⟩)
    · rwa [Nat.zero_add]
    · cases h
  · exact fun h => Or.inl ⟨i, by omega, h⟩

theorem exists_lastAt {pat t : Text} (hpat : pat ≠ []) (h : pat <:+: t) : ∃ k, LastAt pat t k := by
  induction t with
  | nil => exact absurd (List.infix_nil.mp h) hpat
  | cons c t ih =>
    by_cases ht : pat <:+: t
    · obtain ⟨k, hk⟩ := ih ht
      exact ⟨k + 1, lastAt_cons_succ.mpr hk⟩
    · have hhere : pat <+: c :: t := (List.infix_cons_iff.mp h).resolve_right ht
      refine ⟨0, lastAt_cons_zero.mpr ⟨hhere, fun j hj => ht ?_⟩⟩
      exact hj.isInfix.trans (List.drop_suffix j t).isInfix

/-- A line that no later line starts like is the last one that starts so, whatever stands in front of
it. -/
theorem lastAt_line {p a b : Text} (hp : '\n' ∉ p) (hb : ¬ ('\n' :: p) <:+: b) :
    LastAt ('\n' :: p) (a ++ '\n' :: (p ++ b)) a.length := by
  refine ⟨by simp, fun j hj hpre => ?_⟩
  obtain ⟨k, rfl⟩ : ∃ k, j = a.length + (k + 1) := ⟨j - a.length - 1, by omega⟩
  rw [← List.drop_drop, List.drop_left, List.drop_succ_cons, List.drop_append] at hpre
  by_cases hk : k < p.length
  · rw [List.drop_eq_getElem_cons hk, List.cons_append, List.cons_prefix_cons] at hpre
    exact hp (hpre.1 ▸ List.getElem_mem hk)
  · rw [List.drop_eq_nil_of_le (by omega), List.nil_append] at hpre
    exact hb (hpre.isInfix.trans (List.drop_suffix _ b).isInfix)

/-- What occurs behind `a` has its last place there. -/
theorem LastAt.length_le {pat a b : Text} {i : Nat} (h : LastAt pat (a ++ b) i) (hb : pat <:+: b) :
    a.length ≤ i := by
  obtain ⟨u, v, rfl⟩ := hb
  by_cases hlt : a.length + u.length ≤ i
  · omega
  · have hpre : pat <+: (a ++ (u ++ pat ++ v)).drop (a.length + u.length) := by
      rw [← List.drop_drop, List.drop_left, List.append_assoc, List.drop_left]
      exact List.prefix_append _ _
    exact absurd hpre (h.2 _ (by omega))

/-! ## The first place -/

theorem indexFrom_eq_some {pat t : Text} {here i : Nat} (h : indexFrom pat here t = some i) :
    ∃ k, i = here + k ∧ pat <+: t.drop k ∧ ∀ j < k, ¬ pat <+: t.drop j := by
  induction t generalizing here with
  | nil =>
    rw [indexFrom] at h
    split at h
    case isTrue hempty =>
      cases h
      exact ⟨0, rfl, List.isEmpty_iff.mp hempty ▸ List.nil_prefix, nofun⟩
    case isFalse => cases h
  | cons c t ih =>
    rw [indexFrom] at h
    split at h
    case isTrue hhere =>
      cases h
      exact ⟨0, rfl, List.isPrefixOf_iff_prefix.mp hhere, nofun⟩
    case isFalse hhere =>
      obtain ⟨k, rfl, hk, hbefore⟩ := ih h
      refine ⟨k + 1, by omega, hk, fun j hj => ?_⟩
      cases j with
      | zero => exact fun hpre => hhere (List.isPrefixOf_iff_prefix.mpr hpre)
      | succ j => exact hbefore j (by omega)

/-- **The first place** ends a front in which the pattern does not occur. -/
theorem indexOf?_eq_some {pat t : Text} {i : Nat} (h : indexOf? pat t = some i) :
    ∃ more, t = t.take i ++ (pat ++ more) ∧ (pat ≠ [] → ¬ pat <:+: t.take i) := by
  obtain ⟨k, rfl, ⟨more, hmore⟩, hbefore⟩ := indexFrom_eq_some h
  rw [Nat.zero_add]
  refine ⟨more, by rw [hmore, List.take_append_drop], fun hpat hinfix => ?_⟩
  obtain ⟨u, v, huv⟩ := hinfix
  have hlength := congrArg List.length huv
  have hpos := List.length_pos_iff.mpr hpat
  rw [List.length_append, List.length_append, List.length_take] at hlength
  refine hbefore u.length (by omega) ⟨v ++ t.drop k, ?_⟩
  conv => rhs; rw [← List.take_append_drop k t, ← huv]
  simp

theorem indexFrom_eq_none {pat t : Text} {here : Nat} (h : indexFrom pat here t = none) : ¬ pat <:+: t := by
  induction t generalizing here with
  | nil =>
    rw [indexFrom] at h
    split at h
    case isTrue => cases h
    case isFalse hpat => exact fun hinfix => hpat (List.isEmpty_iff.mpr (List.infix_nil.mp hinfix))
  | cons c t ih =>
    rw [indexFrom] at h
    split at h
    case isTrue => cases h
    case isFalse hhere =>
      rw [List.infix_cons_iff]
      rintro (hpre | hinfix)
      · exact hhere (List.isPrefixOf_iff_prefix.mpr hpre)
      · exact ih h hinfix

/-! ## Lines -/

/-- What stands in front of a line feed and reaches over it holds a line feed. -/
theorem prefix_of_prefix_line {p a b : Text} (hp : '\n' ∉ p) (h : p <+: a ++ '\n' :: b) : p <+: a := by
  by_cases hlength : p.length ≤ a.length
  · exact List.prefix_of_prefix_length_le h (List.prefix_append a _) hlength
  · have hline : a ++ ['\n'] <+: a ++ '\n' :: b := ⟨b, by simp⟩
    have hover := List.prefix_of_prefix_length_le hline h (by simp; omega)
    exact absurd (hover.subset (by simp)) hp

/-- A line occurs on either side of a line feed or starts right behind it. -/
theorem infix_line_iff {p a b : Text} (hp : '\n' ∉ p) :
    ('\n' :: p) <:+: a ++ '\n' :: b ↔ ('\n' :: p) <:+: a ∨ p <+: b ∨ ('\n' :: p) <:+: b := by
  induction a with
  | nil =>
    rw [List.nil_append, List.infix_cons_iff, List.cons_prefix_cons, List.infix_nil]
    simp
  | cons c a ih =>
    rw [List.cons_append, List.infix_cons_iff, ih, List.infix_cons_iff, or_assoc]
    refine or_congr_left ⟨fun h => ?_, fun h => h.trans ⟨'\n' :: b, by simp⟩⟩
    rw [List.cons_prefix_cons] at h ⊢
    exact ⟨h.1, prefix_of_prefix_line hp h.2⟩

/-- What has no line feed occurs on one side of it. -/
theorem infix_across_line_iff {p a b : Text} (hp : '\n' ∉ p) : p <:+: a ++ '\n' :: b ↔ p <:+: a ∨ p <:+: b := by
  induction a with
  | nil =>
    rw [List.nil_append, List.infix_cons_iff, List.infix_nil]
    refine or_congr_left ⟨fun h => ?_, fun h => h ▸ List.nil_prefix⟩
    exact List.prefix_nil.mp (prefix_of_prefix_line (a := []) hp h)
  | cons c a ih =>
    rw [List.cons_append, List.infix_cons_iff, ih, List.infix_cons_iff, or_assoc]
    refine or_congr_left ⟨fun h => ?_, fun h => h.trans ⟨'\n' :: b, by simp⟩⟩
    exact prefix_of_prefix_line (a := c :: a) hp h

theorem not_infix_of_no_line {p b : Text} (hb : '\n' ∉ b) : ¬ ('\n' :: p) <:+: b :=
  fun h => hb (h.subset (List.mem_cons_self ..))

/-! ## Cutting -/

theorem dropLead?_eq_some {lead t r : Text} : dropLead? lead t = some r ↔ t = lead ++ r := by
  induction lead generalizing t with
  | nil =>
    show some t = some r ↔ t = r
    rw [Option.some.injEq]
  | cons c lead ih =>
    cases t with
    | nil =>
      show none = some r ↔ [] = c :: (lead ++ r)
      exact ⟨fun h => (Option.some_ne_none r h.symm).elim, fun h => (List.cons_ne_nil _ _ h.symm).elim⟩
    | cons d t =>
      show (if c == d then dropLead? lead t else none) = some r ↔ d :: t = c :: (lead ++ r)
      rw [List.cons.injEq]
      by_cases hcd : c = d
      · rw [if_pos (beq_iff_eq.mpr hcd), ih]
        exact ⟨fun h => ⟨hcd.symm, h⟩, fun h => h.2⟩
      · rw [if_neg (by simpa using hcd)]
        exact ⟨fun h => (Option.some_ne_none _ h.symm).elim, fun h => absurd h.1.symm hcd⟩

theorem dropTail?_eq_some {tail t r : Text} : dropTail? tail t = some r ↔ t = r ++ tail := by
  have hlead : tail.reverse.isPrefixOf? t.reverse = dropLead? tail.reverse t.reverse := rfl
  rw [dropTail?, hlead, Option.map_eq_some_iff]
  constructor
  · rintro ⟨s, hs, rfl⟩
    have h := congrArg List.reverse (dropLead?_eq_some.mp hs)
    simpa using h
  · rintro rfl
    exact ⟨r.reverse, dropLead?_eq_some.mpr List.reverse_append, List.reverse_reverse r⟩

end SealedScript.Text
