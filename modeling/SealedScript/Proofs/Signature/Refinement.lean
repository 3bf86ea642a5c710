import SealedScript.Proofs.Signature.Adjust

/-!
Substitution of signatures is a sound order.

`refines` compares declared types only (`refines_iff`). It is reflexive and transitive, although a caller that expects
nothing back takes any result, and a signature in the place of another takes every call that suits the other and
lets out only what the other lets out (`refines_sound`).
-/

namespace SealedScript
set_option autoImplicit false

namespace Ty

variable {a b : Ty} {v w : Value}

theorem takes_of_covers (h : a.covers b = true) (hv : b.Takes v) : a.Takes v :=
  accepts_iff.mp (accepts_of_covers h (accepts_iff.mpr hv))

/-- Only `Void` itself and `Object` cover `Void`. -/
theorem covers_void (h : a.covers .void = true) : a = .void ∨ a = .object := by
  rcases covers_iff.mp h with rfl | ⟨rfl, -⟩ | ⟨-, hnumeric⟩ | ⟨_, _, -, harray, -⟩
  · exact Or.inl rfl
  · exact Or.inr rfl
  · cases hnumeric
  · cases harray

/-- A converted number has the type that was asked for. -/
theorem contains_convertTo? (h : v.convertTo? a = some w) : a.contains w = true := by
  have hty : w.ty? = some a := by
    unfold Value.convertTo? at h
    split at h
    case h_1 => cases h
    case h_2 n _ =>
      cases a with
      | byte | short | integer =>
        cases h
        rfl
      | long | float | double =>
        cases n with
        | integral i =>
          cases h
          rfl
        | real x =>
          cases h
          rfl
      | _ => cases h
  rw [contains, hty, Option.any_some, covers_refl]

end Ty

namespace Signature

variable {a b c s : Signature} {args : List Value} {v w : Value}

/-! ## Type by type -/

theorem forall₂_comp {α β γ : Type} {R : α → β → Prop} {S : β → γ → Prop} {T : α → γ → Prop} {xs : List α}
    {ys : List β} {zs : List γ} (hxy : List.Forall₂ R xs ys) (hyz : List.Forall₂ S ys zs)
    (hstep : ∀ x y z, R x y → S y z → T x z) : List.Forall₂ T xs zs := by
  induction hxy generalizing zs with
  | nil =>
    cases hyz
    exact .nil
  | cons hx _ ih =>
    cases hyz with
    | cons hy hrest => exact .cons (hstep _ _ _ hx hy) (ih hrest)

/-- Each of the first types covers the second type at its place. -/
def CoversEach : List Ty → List Ty → Prop := List.Forall₂ fun mine theirs => mine.covers theirs = true

theorem coversEach_iff {mine theirs : List Ty} : coversEach mine theirs = true ↔ CoversEach mine theirs := by
  rw [CoversEach]
  induction mine generalizing theirs with
  | nil => cases theirs <;> simp [coversEach]
  | cons ty mine ih =>
    cases theirs with
    | nil => simp [coversEach]
    | cons ty' theirs => rw [coversEach, Bool.and_eq_true, ih, List.forall₂_cons]

theorem CoversEach.refl (types : List Ty) : CoversEach types types :=
  List.forall₂_same.mpr fun ty _ => ty.covers_refl

theorem CoversEach.trans {xs ys zs : List Ty} (hxy : CoversEach xs ys) (hyz : CoversEach ys zs) : CoversEach xs zs :=
  forall₂_comp hxy hyz fun _ _ _ => Ty.covers_trans

theorem CoversEach.takes {mine theirs : List Ty} {vs : List Value} (h : CoversEach mine theirs)
    (hvs : List.Forall₂ Ty.Takes theirs vs) : List.Forall₂ Ty.Takes mine vs :=
  forall₂_comp h hvs fun _ _ _ => Ty.takes_of_covers

/-! ## The order -/

/-- Equal contracts are no case of their own. -/
theorem refines_iff : a.refines b = true ↔ a.variadic = b.variadic ∧
    (b.returns = .void ∨ b.returns.covers a.returns = true) ∧ CoversEach a.params b.params := by
  constructor
  · intro h
    rcases (Bool.or_eq_true _ _).mp h with hsame | h
    · simp only [sameContract, Bool.and_eq_true, beq_iff_eq] at hsame
      obtain ⟨⟨hparams, hvariadic⟩, hreturns⟩ := hsame
      rw [hparams, hreturns]
      exact ⟨hvariadic, Or.inr (Ty.covers_refl _), .refl _⟩
    · simp only [Bool.and_eq_true, Bool.or_eq_true, beq_iff_eq, coversEach_iff] at h
      exact ⟨h.1.1, h.1.2, h.2⟩
  · rintro ⟨hvariadic, hreturns, hparams⟩
    simp [refines, hvariadic, hreturns, coversEach_iff.mpr hparams]

theorem refines_refl (a : Signature) : a.refines a = true :=
  refines_iff.mpr ⟨rfl, Or.inr (Ty.covers_refl _), .refl _⟩

theorem refines_trans (hab : a.refines b = true) (hbc : b.refines c = true) : a.refines c = true := by
  obtain ⟨hvariadic, hreturns, hparams⟩ := refines_iff.mp hab
  obtain ⟨hvariadic', hreturns', hparams'⟩ := refines_iff.mp hbc
  refine refines_iff.mpr ⟨hvariadic.trans hvariadic', ?_, hparams.trans hparams'⟩
  rcases hreturns' with hvoid | hcovers'
  · exact Or.inl hvoid
  · rcases hreturns with hvoid | hcovers
    · -- The one in the middle takes any result, and so does everything that covers `Void`.
      rw [hvoid] at hcovers'
      rcases Ty.covers_void hcovers' with hc | hc
      · exact Or.inl hc
      · exact Or.inr (hc ▸ Ty.covers_object_iff.mpr a.returns_boxed)
    · exact Or.inr (Ty.covers_trans hcovers' hcovers)

/-! ## Calls -/

theorem TrailingFits.of_covers {mine theirs : Ty} {trailing : List Value} (h : mine.covers theirs = true)
    (htrailing : TrailingFits theirs trailing) : TrailingFits mine trailing := by
  match trailing with
  | [] => trivial
  | _ :: _ :: _ => exact fun v hv => Ty.takes_of_covers h (htrailing v hv)
  | [v] =>
    rcases htrailing with hnull | hinstance | ⟨inner, items, hv, hcovers | hitems⟩
    · exact Or.inl hnull
    · exact (Ty.takes_of_covers h (Or.inr hinstance)).imp_right Or.inl
    · exact Or.inr (Or.inr ⟨inner, items, hv, Or.inl (Ty.covers_trans h hcovers)⟩)
    · exact Or.inr (Or.inr ⟨inner, items, hv, Or.inr fun item hitem => Ty.takes_of_covers h (hitems item hitem)⟩)

/-- **Every call that suits the expected signature suits the one in its place.** -/
theorem Admits.of_refines (h : a.refines b = true) (hargs : b.Admits args) : a.Admits args := by
  obtain ⟨hvariadic, -, hparams⟩ := refines_iff.mp h
  cases hargs with
  | fixed hfixed hargs => exact .fixed (hvariadic.trans hfixed) (hparams.takes hargs)
  | @variadic leading element firsts trailing hb hsplit hfirsts htrailing =>
    rw [hsplit] at hparams
    have hfirst := List.forall₂_take_append _ _ _ hparams
    have hlast := List.forall₂_drop_append _ _ _ hparams
    obtain ⟨mine, _, hcovers, hnil, hdrop⟩ := List.forall₂_cons_right_iff.mp hlast
    rw [List.forall₂_nil_right_iff.mp hnil] at hdrop
    have hsplit' : a.params = a.params.take leading.length ++ [mine] := by rw [← hdrop, List.take_append_drop]
    exact .variadic (hvariadic.trans hb) hsplit' (CoversEach.takes hfirst hfirsts) (htrailing.of_covers hcovers)

/-! ## Results -/

theorem accepts_of_ensureReturn (h : s.ensureReturn v = .ok w) : s.returns.accepts w = true := by
  unfold ensureReturn at h
  split at h
  case isTrue haccepts =>
    cases h
    exact haccepts
  case isFalse =>
    split at h
    case h_1 converted hconverted =>
      cases h
      split at hconverted
      case isTrue => exact Ty.accepts_iff.mpr (Or.inr (Ty.contains_convertTo? hconverted))
      case isFalse => cases hconverted
    case h_2 => cases h

/-- **What is let out in place of the expected signature, that signature lets out unchanged.** -/
theorem ensureReturn_of_refines (h : a.refines b = true) (hvoid : b.returns ≠ .void) (hv : a.ensureReturn v = .ok w) :
    b.ensureReturn w = .ok w := by
  obtain ⟨-, hreturns, -⟩ := refines_iff.mp h
  have hcovers := hreturns.resolve_left hvoid
  rw [ensureReturn, if_pos (Ty.accepts_of_covers hcovers (accepts_of_ensureReturn hv))]

/-- **Substitution is a sound order.** -/
theorem refines_sound (a b c : Signature) :
    a.refines a = true ∧
      (a.refines b = true → b.refines c = true → a.refines c = true) ∧
      (a.refines b = true →
        (∀ args, (∃ values, b.adjust args = .ok values) → ∃ values, a.adjust args = .ok values) ∧
          (b.returns ≠ .void → ∀ v w, a.ensureReturn v = .ok w → b.ensureReturn w = .ok w)) := by
  refine ⟨refines_refl a, refines_trans, fun h =>
    ⟨fun args hargs => ?_, fun hvoid v w => ensureReturn_of_refines h hvoid⟩⟩
  simp only [adjust_eq_ok, exists_adjusts_iff] at hargs ⊢
  exact hargs.of_refines h

theorem refines_sound_free : Signature.free.refines .main = true ∧
    ∃ values, Signature.free.adjust [.text "a", .null] = .ok values :=
  have hrefines : Signature.free.refines .main = true := by decide
  ⟨hrefines, ((refines_sound .free .main .main).2.2 hrefines).1 _ ⟨_, rfl⟩⟩

end Signature
end SealedScript
