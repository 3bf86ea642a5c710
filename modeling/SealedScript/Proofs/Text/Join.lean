import SealedScript.Proofs.Text.Blank

/-!
Texts that are joined with a separator. They are split again where none of them holds the separator (`split_join`), and
where all of them begin and end with ink, so does the whole (`Firm.join`). The pieces of a text up to one of them are
those of a front of it (`split_front`).
-/

namespace SealedScript.Text
set_option autoImplicit false

variable {sep : Char} {s t p : Text} {ps : List Text}

/-! ## Joining -/

theorem join_cons_cons (sep a b : Text) (ts : List Text) :
    join sep (a :: b :: ts) = a ++ (sep ++ join sep (b :: ts)) := by
  simp [join, List.intersperse_cons_cons]

theorem join_append (sep : Text) {qs : List Text} (hps : ps ≠ []) (hqs : qs ≠ []) :
    join sep (ps ++ qs) = join sep ps ++ (sep ++ join sep qs) := by
  induction ps with
  | nil => exact absurd rfl hps
  | cons a ps ih =>
    cases ps with
    | nil =>
      obtain ⟨b, qs, rfl⟩ := List.exists_cons_of_ne_nil hqs
      simp [join, List.intersperse_cons_cons]
    | cons b ps =>
      rw [List.cons_append, List.cons_append, join_cons_cons, ← List.cons_append, ih (List.cons_ne_nil b ps),
        join_cons_cons, List.append_assoc, List.append_assoc]

theorem getLast?_join_concat (sep : Text) (hp : p ≠ []) : (join sep (ps ++ [p])).getLast? = p.getLast? := by
  cases ps with
  | nil => simp [join]
  | cons q ps =>
    have hlast : (join sep [p]).getLast? = some (p.getLast hp) := by simp [join, List.getLast?_eq_some_getLast hp]
    rw [join_append sep (List.cons_ne_nil q ps) (List.cons_ne_nil p []), List.getLast?_append, List.getLast?_append,
      hlast, Option.some_or, Option.some_or, List.getLast?_eq_some_getLast hp]

theorem mem_join {c : Char} {sep : Text} (h : c ∈ join sep ps) : c ∈ sep ∨ ∃ p ∈ ps, c ∈ p := by
  induction ps with
  | nil => cases h
  | cons p ps ih =>
    cases ps with
    | nil => exact Or.inr ⟨p, List.mem_cons_self, by simpa [join] using h⟩
    | cons q ps =>
      rw [join_cons_cons, List.mem_append, List.mem_append] at h
      rcases h with h | h | h
      · exact Or.inr ⟨p, List.mem_cons_self, h⟩
      · exact Or.inl h
      · exact (ih h).imp_right fun ⟨r, hr, hc⟩ => ⟨r, List.mem_cons_of_mem p hr, hc⟩

/-! ## Splitting -/

theorem splitFrom_append (piece : Text) (hs : sep ∉ s) :
    splitFrom sep piece (s ++ t) = splitFrom sep (s.reverse ++ piece) t := by
  induction s generalizing piece with
  | nil => rfl
  | cons c s ih =>
    rw [List.mem_cons, not_or] at hs
    rw [List.cons_append, splitFrom, if_neg (by simpa using Ne.symm hs.1), ih _ hs.2, List.reverse_cons,
      List.append_assoc]
    rfl

theorem split_of_not_mem (hs : sep ∉ s) : split sep s = [s] := by
  have h := splitFrom_append (t := []) [] hs
  rw [List.append_nil] at h
  rw [split, h]
  simp [splitFrom]

theorem splitFrom_append_split (sep : Char) (piece s t : Text) :
    splitFrom sep piece (s ++ sep :: t) = splitFrom sep piece s ++ split sep t := by
  induction s generalizing piece with
  | nil => simp [splitFrom, split]
  | cons c s ih =>
    rw [List.cons_append, splitFrom, splitFrom]
    split
    case isTrue => rw [ih, List.cons_append]
    case isFalse => exact ih (c :: piece)

/-- A separator parts the pieces in front of it from those behind it. -/
theorem split_append_split (sep : Char) (s t : Text) : split sep (s ++ sep :: t) = split sep s ++ split sep t :=
  splitFrom_append_split sep [] s t

theorem split_append (hs : sep ∉ s) : split sep (s ++ sep :: t) = s :: split sep t := by
  rw [split_append_split, split_of_not_mem hs, List.singleton_append]

/-- Pieces that are joined with a separator and a space are split at the separators. -/
theorem split_join (hps : ∀ q ∈ p :: ps, sep ∉ q) (hsep : sep ≠ ' ') :
    split sep (join [sep, ' '] (p :: ps)) = p :: ps.map (' ' :: ·) := by
  induction ps generalizing p with
  | nil => simpa [join] using split_of_not_mem (hps p List.mem_cons_self)
  | cons q ps ih =>
    have hspaced : [sep, ' '] ++ join [sep, ' '] (q :: ps) = sep :: join [sep, ' '] ((' ' :: q) :: ps) := by
      cases ps with
      | nil => simp [join]
      | cons r ps => simp [join_cons_cons]
    rw [join_cons_cons, hspaced, split_append (hps p List.mem_cons_self), ih]
    · rfl
    · intro r hr
      rcases List.mem_cons.mp hr with rfl | hr
      · rw [List.mem_cons, not_or]
        exact ⟨hsep, hps q (by simp)⟩
      · exact hps r (by simp [hr])

/-- Pieces that are joined with a separator alone are split into the same pieces. -/
theorem split_join_self (hps : ∀ q ∈ p :: ps, sep ∉ q) : split sep (join [sep] (p :: ps)) = p :: ps := by
  induction ps generalizing p with
  | nil => simpa [join] using split_of_not_mem (hps p List.mem_cons_self)
  | cons q ps ih =>
    rw [join_cons_cons, List.singleton_append, split_append (hps p List.mem_cons_self),
      ih fun r hr => hps r (List.mem_cons_of_mem p hr)]

theorem split_join_append (hps : ∀ q ∈ p :: ps, sep ∉ q) (t : Text) :
    split sep (join [sep] (p :: ps) ++ sep :: t) = p :: ps ++ split sep t := by
  rw [split_append_split, split_join_self hps]

theorem splitFrom_ne_nil (sep : Char) (piece t : Text) : splitFrom sep piece t ≠ [] := by
  induction t generalizing piece with
  | nil => exact List.cons_ne_nil _ _
  | cons c t ih =>
    rw [splitFrom]
    split
    case isTrue => exact List.cons_ne_nil _ _
    case isFalse => exact ih (c :: piece)

theorem join_splitFrom (sep : Char) (piece t : Text) : join [sep] (splitFrom sep piece t) = piece.reverse ++ t := by
  induction t generalizing piece with
  | nil => simp [splitFrom, join]
  | cons c t ih =>
    rw [splitFrom]
    split
    case isTrue hc =>
      obtain ⟨q, qs, hrest⟩ := List.exists_cons_of_ne_nil (splitFrom_ne_nil sep [] t)
      have hjoin := ih []
      rw [hrest] at hjoin ⊢
      rw [join_cons_cons, hjoin, beq_iff_eq.mp hc]
      rfl
    case isFalse => rw [ih, List.reverse_cons, List.append_assoc, List.singleton_append]

theorem not_mem_of_mem_splitFrom {piece q : Text} (hpiece : sep ∉ piece) (h : q ∈ splitFrom sep piece t) : sep ∉ q := by
  induction t generalizing piece with
  | nil =>
    rw [splitFrom, List.mem_singleton] at h
    rwa [h, List.mem_reverse]
  | cons c t ih =>
    rw [splitFrom] at h
    split at h
    case isTrue =>
      rcases List.mem_cons.mp h with rfl | h
      · rwa [List.mem_reverse]
      · exact ih List.not_mem_nil h
    case isFalse hc =>
      refine ih ?_ h
      rw [List.mem_cons, not_or]
      exact ⟨fun heq => hc (beq_iff_eq.mpr heq.symm), hpiece⟩

/-- The pieces of a text up to one of them, joined, are a front of it, of which they are all the pieces. -/
theorem split_front {qs : List Text} (h : split sep t = p :: ps ++ qs) (hqs : qs ≠ []) :
    t = join [sep] (p :: ps) ++ sep :: join [sep] qs ∧ split sep (join [sep] (p :: ps)) = p :: ps := by
  constructor
  · have hwhole := join_splitFrom sep [] t
    rw [← split, h, join_append [sep] (List.cons_ne_nil p ps) hqs] at hwhole
    exact hwhole.symm
  · refine split_join_self fun q hq => not_mem_of_mem_splitFrom (List.not_mem_nil (a := sep)) (t := t) ?_
    rw [← split, h]
    exact List.mem_append_left qs hq

theorem splitFrom_tail (piece t : Text) (hs : sep ∉ s) :
    ∃ front last, splitFrom sep piece t = front ++ [last] ∧ splitFrom sep piece (t ++ s) = front ++ [last ++ s] ∧
      (last = [] → t = [] ∨ t.getLast? = some sep) := by
  induction t generalizing piece with
  | nil =>
    have htail := splitFrom_append (t := []) piece hs
    rw [List.append_nil, splitFrom, List.reverse_append, List.reverse_reverse] at htail
    exact ⟨[], piece.reverse, rfl, htail, fun _ => Or.inl rfl⟩
  | cons c t ih =>
    have hlast : t = [] ∧ c = sep ∨ t.getLast? = some sep → (c :: t).getLast? = some sep := by
      rintro (⟨rfl, rfl⟩ | h)
      · rfl
      · rw [List.getLast?_cons, h, Option.getD_some]
    rw [List.cons_append, splitFrom, splitFrom]
    by_cases hc : (c == sep) = true
    · rw [if_pos hc, if_pos hc]
      obtain ⟨front, last, hsplit, htail, hends⟩ := ih []
      rw [hsplit, htail]
      exact ⟨piece.reverse :: front, last, rfl, rfl, fun h =>
        Or.inr (hlast ((hends h).imp_left fun hnil => ⟨hnil, beq_iff_eq.mp hc⟩))⟩
    · rw [if_neg hc, if_neg hc]
      obtain ⟨front, last, hsplit, htail, hends⟩ := ih (c :: piece)
      refine ⟨front, last, hsplit, htail, fun h => Or.inr (hlast (Or.inr ((hends h).resolve_left ?_)))⟩
      rintro rfl
      have hpiece := congrArg List.getLast? hsplit
      simp [splitFrom, h] at hpiece

/-- What is written behind a text goes on with its last piece, which is empty only if the text is or ends with a
separator. -/
theorem split_tail (t : Text) (hs : sep ∉ s) :
    ∃ front last, split sep t = front ++ [last] ∧ split sep (t ++ s) = front ++ [last ++ s] ∧
      (last = [] → t = [] ∨ t.getLast? = some sep) :=
  splitFrom_tail [] t hs

/-! ## Ends -/

/-- The text is not empty and has no white space at its ends. -/
structure Firm (t : Text) : Prop where
  ne_nil : t ≠ []
  head : ∀ c, t.head? = some c → isBlank c = false
  last : ∀ c, t.getLast? = some c → isBlank c = false

theorem Firm.trim_eq (h : Firm t) : trim t = t := trim_eq_self h.head h.last

theorem Firm.append {u : Text} (hs : Firm s) (ht : Firm t) : Firm (s ++ (u ++ t)) := by
  obtain ⟨c, s', rfl⟩ := List.exists_cons_of_ne_nil hs.ne_nil
  refine ⟨List.cons_ne_nil c _, fun d hd => hs.head d hd, fun d hd => ?_⟩
  obtain ⟨e, he⟩ := List.getLast?_isSome.mpr ht.ne_nil |> Option.isSome_iff_exists.mp
  rw [List.getLast?_append, List.getLast?_append, he] at hd
  exact ht.last d (he.trans hd)

theorem Firm.join (h : ∀ q ∈ p :: ps, Firm q) (sep : Text) : Firm (Text.join sep (p :: ps)) := by
  induction ps generalizing p with
  | nil => simpa [Text.join] using h p List.mem_cons_self
  | cons q ps ih =>
    rw [join_cons_cons]
    exact (h p List.mem_cons_self).append (ih fun r hr => h r (List.mem_cons_of_mem p hr))

end SealedScript.Text
