import SealedScript.Artifact.Extract
import SealedScript.Proofs.Artifact.Trailer

/-!
What extracting finds in a text with a line of lengths, by what reading its trailer finds.
-/

namespace SealedScript.Artifact
set_option autoImplicit false

variable {r : Registry} {text before counts : Text} {t : Trailer}

theorem extract_error {fault : TrailerFault} (hsplit : splitAtCounts? text = some (before, counts))
    (hread : readTrailer before counts = .error fault) :
    extract r text = ⟨.malformed fault, sourceBefore text before, none⟩ := by
  rw [extract, hsplit]
  simp only [hread]

theorem extract_ok (hsplit : splitAtCounts? text = some (before, counts))
    (hread : readTrailer before counts = .ok t) : extract r text = extractTrailer r text t := by
  rw [extract, hsplit]
  simp only [hread]

/-- A digest that disagrees sends the reader back to the text in front of the comment. -/
theorem code_of_changed (h : t.sourceChanged = true ∨ t.blockChanged = true) :
    (extractTrailer r text t).code = sourceBefore text t.head := by
  unfold extractTrailer
  by_cases hsource : t.sourceChanged = true
  · rw [if_pos hsource]
  · rw [if_neg hsource, if_pos (h.resolve_left hsource)]

theorem not_fresh_of_changed (h : t.sourceChanged = true ∨ t.blockChanged = true) :
    (extractTrailer r text t).validation ≠ .fresh ∧ (extractTrailer r text t).executable = none := by
  unfold extractTrailer
  by_cases hsource : t.sourceChanged = true
  · rw [if_pos hsource]
    exact ⟨Validation.noConfusion, rfl⟩
  · rw [if_neg hsource, if_pos (h.resolve_left hsource)]
    exact ⟨Validation.noConfusion, rfl⟩

/-- Digests that agree leave the decoding of the block to decide. -/
theorem extractTrailer_unchanged (hsource : t.sourceChanged = false) (hblock : t.blockChanged = false) :
    (∀ e, decode r t = .ok e → extractTrailer r text t = ⟨.fresh, t.source, some e⟩) ∧
      ∀ err, decode r t = .error err → extractTrailer r text t = ⟨.staleCompiled, t.source, none⟩ := by
  rw [extractTrailer, hsource, hblock]
  constructor
  · intro e hdecode
    rw [hdecode]
    rfl
  · intro err hdecode
    rw [hdecode]
    rfl

theorem extractTrailer_cases (r : Registry) (text : Text) (t : Trailer) :
    (∃ e, extractTrailer r text t = ⟨.fresh, t.source, some e⟩) ∨
      ((extractTrailer r text t).validation ≠ .fresh ∧ (extractTrailer r text t).executable = none) := by
  unfold extractTrailer
  by_cases hsource : t.sourceChanged = true
  · rw [if_pos hsource]
    exact .inr ⟨nofun, rfl⟩
  · rw [if_neg hsource]
    by_cases hblock : t.blockChanged = true
    · rw [if_pos hblock]
      exact .inr ⟨nofun, rfl⟩
    · rw [if_neg hblock]
      cases decode r t with
      | error err => exact .inr ⟨nofun, rfl⟩
      | ok e => exact .inl ⟨e, rfl⟩

/-- A fresh artifact, and no other, has an executable. -/
theorem extract_cases (r : Registry) (text : Text) :
    (∃ code e, extract r text = ⟨.fresh, code, some e⟩) ∨
      ((extract r text).validation ≠ .fresh ∧ (extract r text).executable = none) := by
  cases hsplit : splitAtCounts? text with
  | none =>
    rw [extract, hsplit]
    exact .inr ⟨nofun, rfl⟩
  | some parts =>
    cases hread : readTrailer parts.1 parts.2 with
    | error fault =>
      rw [extract_error hsplit hread]
      exact .inr ⟨nofun, rfl⟩
    | ok t =>
      rw [extract_ok hsplit hread]
      rcases extractTrailer_cases r text t with ⟨e, he⟩ | hnone
      · exact .inl ⟨t.source, e, he⟩
      · exact .inr hnone

theorem extract_fresh {e : Executable} (h : (extract r text).executable = some e) :
    extract r text = ⟨.fresh, (extract r text).code, some e⟩ := by
  rcases extract_cases r text with ⟨code, stored, hextract⟩ | ⟨-, hnone⟩
  · rw [hextract] at h ⊢
    rw [show stored = e from Option.some.inj h]
  · rw [hnone] at h
    cases h

/-! ## Trailers that are refused -/

/-- The text has a trailer that can be read, and its block is not the one that the trailer vouches for. -/
def BlockChanged (text : Text) : Prop :=
  ∃ before counts t, splitAtCounts? text = some (before, counts) ∧ readTrailer before counts = .ok t ∧
    t.blockChanged = true

/-- Nothing is made of the trailer: it cannot be read, or its block is not the one that it vouches for. -/
def TrailerRefused (text : Text) : Prop :=
  ∀ before counts t, splitAtCounts? text = some (before, counts) → readTrailer before counts = .ok t →
    t.blockChanged = true

theorem blockChanged_iff (hsplit : splitAtCounts? text = some (before, counts))
    (hread : readTrailer before counts = .ok t) : BlockChanged text ↔ t.blockChanged = true := by
  refine ⟨fun ⟨before', counts', t', hsplit', hread', hchanged⟩ => ?_, fun h => ⟨_, _, _, hsplit, hread, h⟩⟩
  rw [hsplit, Option.some.injEq, Prod.mk.injEq] at hsplit'
  rw [← hsplit'.1, ← hsplit'.2, hread, Except.ok.injEq] at hread'
  rwa [hread']

theorem trailerRefused_iff (hsplit : splitAtCounts? text = some (before, counts))
    (hread : readTrailer before counts = .ok t) : TrailerRefused text ↔ t.blockChanged = true := by
  refine ⟨fun h => h before counts t hsplit hread, fun h before' counts' t' hsplit' hread' => ?_⟩
  rw [hsplit, Option.some.injEq, Prod.mk.injEq] at hsplit'
  rw [← hsplit'.1, ← hsplit'.2, hread, Except.ok.injEq] at hread'
  rwa [← hread']

theorem trailerRefused_of_error {fault : TrailerFault} (hsplit : splitAtCounts? text = some (before, counts))
    (hread : readTrailer before counts = .error fault) : TrailerRefused text := by
  intro before' counts' t' hsplit' hread'
  rw [hsplit, Option.some.injEq, Prod.mk.injEq] at hsplit'
  rw [← hsplit'.1, ← hsplit'.2, hread] at hread'
  cases hread'

end SealedScript.Artifact
