import SealedScript.Program.Parse
import SealedScript.Proofs.Outcome

/-!
What the scanner makes of line feeds and comments.

The end of a text counts like the end of a line: line feeds at the end change nothing (`parse_lines`). And a comment
that starts a line of its own is skipped as a whole, so a program with a comment behind it is the program without it
(`parse_comment`).
-/

namespace SealedScript
set_option autoImplicit false

namespace Scanner

variable {s : Scanner} {start : Nat} {ops : List Op}

/-! ## Line feeds -/

/-- **The end of a text counts like the end of a line.** -/
theorem finish_line (s : Scanner) : (s.step '\n' >>= finish) = s.finish := by
  obtain ⟨place, offset, ops⟩ := s
  cases place with
  | between => rfl
  | slash start => rfl
  | word start chars =>
    have hblank : Text.isBlank '\n' = true := by decide
    simp only [step, take, hblank, if_true, finish, endWord]
    cases Op.ofWord? chars.reverse with
    | none => rfl
    | some op => rfl
  | lineComment => rfl
  | comment start star =>
    cases star with
    | true => rfl
    | false => rfl
  | quoted start escaped chars =>
    cases escaped with
    | true => rfl
    | false => rfl

/-- Behind a line feed a text that can end there has no token open. -/
theorem step_line_of_finish (h : s.finish = .ok ops) :
    ∃ s', s.step '\n' = .ok s' ∧ s'.place = .between ∧ s'.ops.reverse = ops := by
  obtain ⟨place, offset, read⟩ := s
  cases place with
  | between | slash start | lineComment => exact ⟨_, rfl, rfl, Except.ok.inj h⟩
  | word start chars =>
    have hblank : Text.isBlank '\n' = true := by decide
    simp only [finish, endWord] at h
    simp only [step, take, hblank, if_true, endWord]
    cases hword : Op.ofWord? chars.reverse with
    | none =>
      rw [hword] at h
      cases h
    | some op =>
      rw [hword] at h
      exact ⟨_, rfl, rfl, Except.ok.inj h⟩
  | comment start star => cases h
  | quoted start escaped chars => cases h

theorem finish_lines (s : Scanner) (n : Nat) :
    ((List.replicate n '\n').foldlM step s >>= finish) = s.finish := by
  induction n generalizing s with
  | zero => rfl
  | succ n ih =>
    rw [List.replicate_succ, List.foldlM_cons, bind_assoc, ← finish_line s]
    exact congrArg (s.step '\n' >>= ·) (funext ih)

/-! ## Comments -/

/-- A comment goes on for as long as its end does not come. -/
theorem foldlM_comment {star : Bool} {body : Text} (hplace : s.place = .comment start star)
    (hbody : ¬ ['*', '/'] <:+: (if star then ['*'] else []) ++ body) :
    ∃ s' star', body.foldlM step s = .ok s' ∧ s'.place = .comment start star' ∧ s'.ops = s.ops := by
  induction body generalizing s star with
  | nil => exact ⟨s, star, rfl, hplace, rfl⟩
  | cons c body ih =>
    have hopen : ¬ ((star && c == '/') = true) := by
      intro hends
      obtain ⟨rfl, hc⟩ := Bool.and_eq_true_iff.mp hends
      rw [beq_iff_eq.mp hc] at hbody
      exact hbody ⟨[], body, rfl⟩
    have hrest : ¬ ['*', '/'] <:+: (if (c == '*') = true then ['*'] else []) ++ body := by
      intro hends
      refine hbody (hends.trans ?_)
      by_cases hc : (c == '*') = true
      · rw [if_pos hc, beq_iff_eq.mp hc]
        exact (List.suffix_append _ _).isInfix
      · rw [if_neg hc]
        exact ((List.suffix_cons c body).trans (List.suffix_append _ _)).isInfix
    have hstep : s.step c = .ok ⟨.comment start (c == '*'), s.offset + c.utf8Size, s.ops⟩ := by
      simp only [step, take, hplace, if_neg hopen]
      rfl
    obtain ⟨s', star', hrun, hplace', hops⟩ :=
      ih (s := ⟨.comment start (c == '*'), s.offset + c.utf8Size, s.ops⟩) rfl hrest
    refine ⟨s', star', ?_, hplace', hops⟩
    rw [List.foldlM_cons, hstep]
    exact hrun

/-- **A comment is skipped.** -/
theorem foldlM_whole_comment {body : Text} (hplace : s.place = .between) (hbody : ¬ ['*', '/'] <:+: body) :
    ∃ s', ('/' :: '*' :: (body ++ ['*', '/'])).foldlM step s = .ok s' ∧ s'.place = .between ∧ s'.ops = s.ops := by
  obtain ⟨place, offset, ops⟩ := s
  subst hplace
  obtain ⟨inner, star, hrun, hplace, hops⟩ :=
    foldlM_comment (s := ⟨.comment offset false, offset + '/'.utf8Size + '*'.utf8Size, ops⟩) rfl hbody
  have hopens : ∀ rest, ('/' :: '*' :: rest).foldlM step ⟨.between, offset, ops⟩ =
      rest.foldlM step ⟨.comment offset false, offset + '/'.utf8Size + '*'.utf8Size, ops⟩ := fun _ => rfl
  have hends : ['*', '/'].foldlM step inner =
      .ok ⟨.between, inner.offset + '*'.utf8Size + '/'.utf8Size, inner.ops⟩ := by
    obtain ⟨place, offset', ops'⟩ := inner
    subst hplace
    cases star with
    | true => rfl
    | false => rfl
  refine ⟨⟨.between, inner.offset + '*'.utf8Size + '/'.utf8Size, inner.ops⟩, ?_, rfl, hops⟩
  rw [hopens, List.foldlM_append, hrun]
  exact hends

end Scanner

namespace Op

/-- **Line feeds at the end change nothing.** -/
theorem parse_lines (t : Text) (n : Nat) : parse (t ++ List.replicate n '\n') = parse t := by
  rw [parse, parse, List.foldlM_append, bind_assoc]
  exact congrArg (t.foldlM Scanner.step Scanner.start >>= ·) (funext fun s => s.finish_lines n)

/-- **A comment on lines of its own changes nothing.** -/
theorem parse_comment {t body : Text} {ops : List Op} (h : parse t = .ok ops) (hbody : ¬ ['*', '/'] <:+: body) :
    parse (t ++ '\n' :: '/' :: '*' :: (body ++ ['*', '/'])) = .ok ops := by
  obtain ⟨s, hs, hfinish⟩ := bind_eq_ok.mp h
  obtain ⟨s', hline, hplace, hops⟩ := Scanner.step_line_of_finish hfinish
  obtain ⟨s'', hcomment, hplace', hops'⟩ := Scanner.foldlM_whole_comment hplace hbody
  rw [parse, List.foldlM_append]
  refine bind_eq_ok.mpr ⟨s'', bind_eq_ok.mpr ⟨s, hs, bind_eq_ok.mpr ⟨s', hline, hcomment⟩⟩, ?_⟩
  rw [Scanner.finish, hplace', hops', hops]

end Op
end SealedScript
