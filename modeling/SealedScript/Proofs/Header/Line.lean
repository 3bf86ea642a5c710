import Mathlib.Data.List.TakeDrop
import SealedScript.Header.Info
import SealedScript.Header.Marker

/-!
Headers are read line by line.

A launch line ends with a line feed, and no engine marker or info block reaches over one. So a line feed and what
stands behind it leave the header in front of them as it is (`behindLaunchLines_line`, `markerFrom_line`,
`blockIn?_line`), but for one case: a last line that would be a launch line becomes one when it is ended.
-/

namespace SealedScript
set_option autoImplicit false

/-! ## Scans that stop in front of a line feed -/

theorem Text.span_line {p : Char → Bool} (hp : p '\n' = false) (t u : Text) :
    (t ++ '\n' :: u).span p = ((t.span p).1, (t.span p).2 ++ '\n' :: u) := by
  simp only [List.span_eq_takeWhile_dropWhile]
  induction t with
  | nil => simp [hp]
  | cons c t ih =>
    simp only [Prod.mk.injEq] at ih
    by_cases hc : p c = true
    · simp [hc, ih.1, ih.2]
    · simp [hc]

theorem Text.skipSpacing_line (t u : Text) :
    Text.skipSpacing (t ++ '\n' :: u) = Text.skipSpacing t ++ '\n' :: u := by
  have hspan := congrArg Prod.snd (span_line (p := isSpacing) (by decide) t u)
  rwa [List.span_eq_takeWhile_dropWhile, List.span_eq_takeWhile_dropWhile] at hspan

namespace Header

/-! ## Launch lines -/

theorem skipLaunchLines_suffix (line t : Text) :
    skipLaunchLines (line.reverse ++ t) line t <:+ line.reverse ++ t := by
  induction t generalizing line with
  | nil => exact List.suffix_refl _
  | cons c t ih =>
    rw [skipLaunchLines]
    split
    · split
      · have h := ih []
        rw [List.reverse_nil, List.nil_append] at h
        exact h.trans ((List.suffix_cons c t).trans (List.suffix_append _ _))
      · exact List.suffix_refl _
    · have h := ih (c :: line)
      rwa [List.reverse_cons, List.append_assoc, List.singleton_append] at h

theorem behindLaunchLines_suffix (t : Text) : behindLaunchLines t <:+ t := skipLaunchLines_suffix [] t

/-- A line that has ended the search ends it whatever follows. -/
theorem skipLaunchLines_ended {line t : Text} (hline : '\n' ∉ line)
    (h : '\n' ∈ skipLaunchLines (line.reverse ++ t) line t) (u : Text) :
    skipLaunchLines (line.reverse ++ t ++ u) line (t ++ u) = skipLaunchLines (line.reverse ++ t) line t ++ u := by
  induction t generalizing line with
  | nil =>
    rw [skipLaunchLines, List.append_nil, List.mem_reverse] at h
    exact absurd h hline
  | cons c t ih =>
    rw [skipLaunchLines] at h
    rw [List.cons_append, skipLaunchLines, skipLaunchLines]
    by_cases hc : (c == '\n') = true
    · rw [if_pos hc] at h ⊢
      rw [if_pos hc]
      by_cases hlaunch : isLaunchLine line = true
      · rw [if_pos hlaunch] at h ⊢
        rw [if_pos hlaunch]
        exact ih List.not_mem_nil h
      · rw [if_neg hlaunch, if_neg hlaunch]
    · rw [if_neg hc] at h ⊢
      rw [if_neg hc]
      have hnext : line.reverse ++ c :: t = (c :: line).reverse ++ t := by simp
      rw [hnext] at h ⊢
      refine ih (fun hmem => ?_) h
      rcases List.mem_cons.mp hmem with hnew | hold
      · exact hc (beq_iff_eq.mpr hnew.symm)
      · exact hline hold

/-- A search that is still within a line goes on there. -/
theorem skipLaunchLines_open {line t : Text} (h : '\n' ∉ skipLaunchLines (line.reverse ++ t) line t) (u : Text) :
    skipLaunchLines (line.reverse ++ t ++ u) line (t ++ u) =
      skipLaunchLines (skipLaunchLines (line.reverse ++ t) line t ++ u)
        (skipLaunchLines (line.reverse ++ t) line t).reverse u := by
  induction t generalizing line with
  | nil => simp [skipLaunchLines]
  | cons c t ih =>
    rw [skipLaunchLines] at h
    rw [List.cons_append, skipLaunchLines, skipLaunchLines]
    by_cases hc : (c == '\n') = true
    · rw [if_pos hc] at h ⊢
      rw [if_pos hc]
      by_cases hlaunch : isLaunchLine line = true
      · rw [if_pos hlaunch] at h ⊢
        rw [if_pos hlaunch]
        exact @ih [] h
      · rw [if_neg hlaunch] at h
        refine absurd ?_ h
        rw [beq_iff_eq.mp hc]
        simp
    · rw [if_neg hc] at h ⊢
      rw [if_neg hc]
      have hnext : line.reverse ++ c :: t = (c :: line).reverse ++ t := by simp
      rw [hnext] at h ⊢
      exact ih h

/-- The text consists of launch lines, the last of which lacks its line feed. -/
def EndsInLaunchLine (t : Text) : Prop :=
  '\n' ∉ behindLaunchLines t ∧ isLaunchLine (behindLaunchLines t).reverse = true

instance (t : Text) : Decidable (EndsInLaunchLine t) := inferInstanceAs (Decidable (_ ∧ _))

/-- **A line feed ends no launch line** unless it is the one that the last launch line lacks. -/
theorem behindLaunchLines_line {t : Text} (h : ¬ EndsInLaunchLine t) (u : Text) :
    behindLaunchLines (t ++ '\n' :: u) = behindLaunchLines t ++ '\n' :: u := by
  by_cases hopen : '\n' ∈ behindLaunchLines t
  · exact skipLaunchLines_ended List.not_mem_nil hopen _
  · have hlast : isLaunchLine (behindLaunchLines t).reverse ≠ true := fun hlaunch => h ⟨hopen, hlaunch⟩
    have hgoes : behindLaunchLines (t ++ '\n' :: u) =
        skipLaunchLines (behindLaunchLines t ++ '\n' :: u) (behindLaunchLines t).reverse ('\n' :: u) :=
      @skipLaunchLines_open [] t hopen _
    rw [hgoes, skipLaunchLines, if_pos (by decide), if_neg hlast]

/-- The last launch line is skipped with its line feed. -/
theorem behindLaunchLines_ended {t : Text} (h : EndsInLaunchLine t) (u : Text) :
    behindLaunchLines (t ++ '\n' :: u) = behindLaunchLines u := by
  obtain ⟨hopen, hlast⟩ := h
  have hgoes : behindLaunchLines (t ++ '\n' :: u) =
      skipLaunchLines (behindLaunchLines t ++ '\n' :: u) (behindLaunchLines t).reverse ('\n' :: u) :=
    @skipLaunchLines_open [] t hopen _
  rw [hgoes, skipLaunchLines, if_pos (by decide), if_pos hlast, behindLaunchLines]

theorem not_endsInLaunchLine_line (t : Text) : ¬ EndsInLaunchLine (t ++ ['\n']) := by
  rintro ⟨hopen, hlast⟩
  obtain ⟨front, hfront⟩ := behindLaunchLines_suffix (t ++ ['\n'])
  rcases List.eq_nil_or_concat (behindLaunchLines (t ++ ['\n'])) with hnil | ⟨init, c, hinit⟩
  · rw [hnil] at hlast
    cases hlast
  · rw [hinit, List.concat_eq_append, ← List.append_assoc] at hfront
    have hc : c = '\n' := by simpa using (List.append_inj' hfront rfl).2
    rw [hinit, hc] at hopen
    simp at hopen

/-! ## Engine markers -/

theorem readOption?_line (t u : Text) : readOption? (t ++ '\n' :: u) = readOption? t := by
  rw [readOption?, readOption?, Text.span_line (by decide)]
  rcases t.span isOptionChar with ⟨inner, _ | ⟨c, _ | ⟨d, rest⟩⟩⟩
  · rfl
  · grind
  · grind

theorem readMarker?_line (barred : Bool) (t u : Text) :
    readMarker? barred (t ++ '\n' :: u) = readMarker? barred t := by
  rw [readMarker?, readMarker?, Text.span_line (by decide)]
  rcases t.span isDottedChar with ⟨name, _ | ⟨c, rest⟩⟩
  · simp
  · grind [readOption?_line]

theorem opensOption_line (t u : Text) : opensOption (t ++ '\n' :: u) = opensOption t := by
  rw [opensOption, opensOption, Text.span_line (by decide)]
  rcases t.span isDottedChar with ⟨name, _ | ⟨c, rest⟩⟩
  · simp
  · rfl

theorem markerFrom_of_no_sign {t : Text} (h : '@' ∉ t) (barred : Bool) : markerFrom barred t = none := by
  induction t generalizing barred with
  | nil => rfl
  | cons c t ih =>
    have hc : c ≠ '@' := fun heq => h (heq ▸ List.mem_cons_self ..)
    rw [markerFrom, if_neg (by simpa using hc)]
    exact ih (fun hmem => h (List.mem_cons_of_mem c hmem)) _

/-- **A marker is found in its line**, whatever stands behind the line, unless another one is there. -/
theorem markerFrom_line (t : Text) {u : Text} (h : '@' ∉ u) (barred : Bool) :
    markerFrom barred (t ++ '\n' :: u) = markerFrom barred t := by
  induction t generalizing barred with
  | nil => exact markerFrom_of_no_sign (by simpa using h) barred
  | cons c t ih =>
    rw [List.cons_append, markerFrom, markerFrom, readMarker?_line, opensOption_line, ih, ih]

/-! ## Info blocks -/

theorem bracketsFrom_line (done pending behind : Text) (inside : Bool) (t u : Text) :
    bracketsFrom done pending (behind ++ '\n' :: u) inside (t ++ '\n' :: u) =
      ((bracketsFrom done pending behind inside t).1, (bracketsFrom done pending behind inside t).2 ++ '\n' :: u) := by
  induction t generalizing done pending behind inside with
  | nil =>
    cases inside with
    | true => rfl
    | false => rfl
  | cons c t ih =>
    rw [List.cons_append, bracketsFrom, bracketsFrom]
    split
    · exact ih _ _ _ _
    · split
      · exact ih _ _ _ _
      · split
        · exact ih _ _ _ _
        · rfl

theorem readBrackets_line (t u : Text) :
    readBrackets (t ++ '\n' :: u) = ((readBrackets t).1, (readBrackets t).2 ++ '\n' :: u) :=
  bracketsFrom_line [] [] t false t u

/-- What a reader answers of a text that goes on behind a line feed: the same, with the rest going on. -/
def WithinLine {α : Type} (read : Text → Option (α × Text)) : Prop :=
  ∀ t u, read (t ++ '\n' :: u) = (read t).map fun found => (found.1, found.2 ++ '\n' :: u)

theorem readBlockReturn?_line : WithinLine readBlockReturn? := by
  intro t u
  rw [readBlockReturn?, readBlockReturn?, Text.span_line (by decide)]
  rcases t.span Text.isSpacing with ⟨gap, _ | ⟨c, r⟩⟩
  · simp
  · by_cases hc : c = ':'
    · subst hc
      simp only [List.cons_append, Text.span_line (show Text.isSpacing '\n' = false by decide)]
      rw [Text.span_line (by decide)]
      rcases (r.span Text.isSpacing).2.span isTypeChar with ⟨_ | ⟨d, name⟩, rest⟩
      · rfl
      · simp only [readBrackets_line]
        rfl
    · simp [hc]

theorem readBlockSignature?_line : WithinLine readBlockSignature? := by
  intro t u
  rcases t with _ | ⟨c, t⟩
  · rfl
  · by_cases hc : c = '('
    · subst hc
      rw [List.cons_append, readBlockSignature?, readBlockSignature?, Text.span_line (by decide)]
      rcases t.span isParamChar with ⟨params, _ | ⟨d, r⟩⟩
      · simp
      · by_cases hd : d = ')'
        · subst hd
          simp only [List.cons_append, readBlockReturn?_line r u, Option.map_map]
          rfl
        · simp [hd]
    · simp [readBlockSignature?, hc]

theorem readBlock?_line (t u : Text) : readBlock? (t ++ '\n' :: u) = readBlock? t := by
  rw [readBlock?, readBlock?, Text.skipSpacing_line, Text.span_line (by decide)]
  rcases (Text.skipSpacing t).span Text.isLetter with ⟨_ | ⟨c, word⟩, rest⟩
  · rfl
  · simp only [Text.skipSpacing_line, readBlockSignature?_line _ u]
    rcases readBlockSignature? (Text.skipSpacing rest) with _ | ⟨signatureText, rest⟩
    · rfl
    · simp only [Option.map_some, Text.skipSpacing_line]
      rcases Text.skipSpacing rest with _ | ⟨d, rest⟩
      · simp
      · by_cases hd : d = '}'
        · subst hd
          rfl
        · simp [hd]

theorem blockIn?_of_no_brace {t : Text} (h : '\x7b' ∉ t) : blockIn? t = none := by
  induction t with
  | nil => rfl
  | cons c t ih =>
    have hc : c ≠ '\x7b' := fun heq => h (heq ▸ List.mem_cons_self ..)
    rw [blockIn?, if_neg (by simpa using hc)]
    exact ih fun hmem => h (List.mem_cons_of_mem c hmem)

/-- **An info block is found in its line**: in front of a line feed, or else behind it. -/
theorem blockIn?_line (t u : Text) : blockIn? (t ++ '\n' :: u) = (blockIn? t).or (blockIn? u) := by
  induction t with
  | nil => rfl
  | cons c t ih =>
    rw [List.cons_append, blockIn?, blockIn?, readBlock?_line, ih]
    by_cases hc : (c == '\x7b') = true
    · rw [if_pos hc, if_pos hc]
      cases readBlock? t with
      | none => rfl
      | some block => rfl
    · rw [if_neg hc, if_neg hc]

end Header
end SealedScript
