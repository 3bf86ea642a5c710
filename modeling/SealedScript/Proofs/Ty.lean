import Mathlib.Order.Defs.Unbundled
import SealedScript.Value

/-!
The order of types. `covers_iff` says what a type covers besides itself; from it, covering is transitive and
antisymmetric, and a type accepts what every type it covers accepts. `covers_order` puts this together with the places
of arrays, of `Object` and of the primitives.
-/

namespace SealedScript.Ty
set_option autoImplicit false

variable {a b c : Ty} {p : Primitive}

theorem covers_refl (a : Ty) : a.covers a = true := by
  induction a with
  | array element ih => exact ih
  | object | number => rfl
  | _ => simp [covers]

/-- What a type covers. -/
theorem covers_iff : a.covers b = true ↔ a = b ∨ a = .object ∧ b.isPrimitive = false ∨
    a = .number ∧ b.isNumeric = true ∨ ∃ mine theirs, a = .array mine ∧ b = .array theirs ∧ mine.covers theirs = true := by
  constructor
  · intro h
    cases a with
    | array mine =>
      cases b with
      | array theirs => exact Or.inr (Or.inr (Or.inr ⟨mine, theirs, rfl, rfl, h⟩))
      | _ => cases h
    | object => exact Or.inr (Or.inl ⟨rfl, by simpa [covers] using h⟩)
    | number =>
      have hnumber : b = .number ∨ b.isNumeric = true := by simpa [covers] using h
      exact hnumber.elim (fun h => Or.inl h.symm) fun h => Or.inr (Or.inr (Or.inl ⟨rfl, h⟩))
    | _ => exact Or.inl (by simpa [covers] using h)
  · rintro (rfl | ⟨rfl, h⟩ | ⟨rfl, h⟩ | ⟨mine, theirs, rfl, rfl, h⟩)
    · exact covers_refl a
    · rw [covers, h, Bool.not_false]
    · rw [covers, h, Bool.or_true]
    · exact h

theorem covers_object_iff : object.covers b = true ↔ b.isPrimitive = false := by rw [covers, Bool.not_eq_true']

theorem eq_object_of_covers (h : a.covers object = true) : a = object := by
  rcases covers_iff.mp h with h | ⟨h, -⟩ | ⟨-, hnumeric⟩ | ⟨_, _, -, harray, -⟩
  · exact h
  · exact h
  · cases hnumeric
  · cases harray

theorem eq_primitive_of_covers (h : a.covers (primitive p) = true) : a = primitive p := by
  rcases covers_iff.mp h with h | ⟨-, hboxed⟩ | ⟨-, hnumeric⟩ | ⟨_, _, -, harray, -⟩
  · exact h
  · cases hboxed
  · cases hnumeric
  · cases harray

theorem eq_primitive_of_primitive_covers (h : (primitive p).covers b = true) : b = primitive p := by
  rcases covers_iff.mp h with h | ⟨hobject, -⟩ | ⟨hnumber, -⟩ | ⟨_, _, harray, -, -⟩
  · exact h.symm
  · cases hobject
  · cases hnumber
  · cases harray

theorem isPrimitive_of_covers (h : a.covers b = true) : b.isPrimitive = a.isPrimitive := by
  rcases covers_iff.mp h with rfl | ⟨rfl, hb⟩ | ⟨rfl, hb⟩ | ⟨mine, theirs, rfl, rfl, -⟩
  · rfl
  · exact hb
  · cases b with
    | byte | short | integer | long | float | double => rfl
    | _ => cases hb
  · rfl

/-- One level of transitivity; the hypothesis is about the elements of arrays. -/
theorem covers_trans_of_elements (helements : ∀ mine theirs others, a = .array mine → mine.covers theirs = true →
    theirs.covers others = true → mine.covers others = true) (hab : a.covers b = true) (hbc : b.covers c = true) :
    a.covers c = true := by
  rcases covers_iff.mp hab with rfl | ⟨rfl, hb⟩ | ⟨rfl, hb⟩ | ⟨mine, theirs, rfl, rfl, hmine⟩
  · exact hbc
  · exact covers_iff.mpr (Or.inr (Or.inl ⟨rfl, (isPrimitive_of_covers hbc).trans hb⟩))
  · rcases covers_iff.mp hbc with rfl | ⟨rfl, -⟩ | ⟨rfl, -⟩ | ⟨_, _, rfl, -, -⟩
    · exact hab
    · cases hb
    · cases hb
    · cases hb
  · rcases covers_iff.mp hbc with rfl | ⟨h, -⟩ | ⟨h, -⟩ | ⟨_, others, h, rfl, htheirs⟩
    · exact hab
    · cases h
    · cases h
    · cases h
      exact helements mine theirs others rfl hmine htheirs

theorem covers_trans (hab : a.covers b = true) (hbc : b.covers c = true) : a.covers c = true := by
  induction a generalizing b c with
  | array mine ih =>
    refine covers_trans_of_elements (fun _ theirs others h hmine htheirs => ?_) hab hbc
    cases h
    exact ih hmine htheirs
  | _ => exact covers_trans_of_elements nofun hab hbc

theorem covers_antisymm (hab : a.covers b = true) (hba : b.covers a = true) : a = b := by
  induction a generalizing b with
  | array mine ih =>
    cases b with
    | array theirs => exact congrArg array (ih hab hba)
    | _ => cases hab
  | object => exact (eq_object_of_covers hba).symm
  | number =>
    -- Besides itself `Number` covers the numeric types, none of which covers `Number`.
    rcases covers_iff.mp hab with h | ⟨hobject, -⟩ | ⟨-, hnumeric⟩ | ⟨_, _, harray, -, -⟩
    · exact h
    · cases hobject
    · cases b with
      | byte | short | integer | long | float | double => cases hba
      | _ => cases hnumeric
    · cases harray
  | _ => simpa [covers] using hab

theorem accepts_of_covers {v : Value} (h : a.covers b = true) (hv : b.accepts v = true) : a.accepts v = true := by
  rw [accepts, contains] at hv ⊢
  rcases (Bool.or_eq_true _ _).mp hv with hnull | hinstance
  · rw [hnull, Bool.true_or]
  · obtain ⟨ty, hty, hcovers⟩ := (Option.any_eq_true _ _).mp hinstance
    rw [hty, Option.any_some, covers_trans h hcovers, Bool.or_true]

/-- **Covering is a partial order.** Array layers keep it and show it, `Object` is above everything but the primitives,
a primitive is related to itself alone, and what a type covers it accepts every value of. -/
theorem covers_order :
    IsPartialOrder Ty (fun a b => a.covers b = true) ∧
    (∀ a b : Ty, (array a).covers (array b) = true ↔ a.covers b = true) ∧
    (∀ b : Ty, object.covers b = true ↔ b.isPrimitive = false) ∧
    (∀ (p : Primitive) (b : Ty), ((primitive p).covers b = true ∨ b.covers (primitive p) = true) ↔ b = primitive p) ∧
    ∀ a b : Ty, a.covers b = true → ∀ v, b.accepts v = true → a.accepts v = true := by
  refine ⟨?_, fun _ _ => Iff.rfl, fun _ => covers_object_iff, fun p b => ⟨?_, ?_⟩, fun a b h v => accepts_of_covers h⟩
  · exact { refl := covers_refl, trans := fun _ _ _ => covers_trans, antisymm := fun _ _ => covers_antisymm }
  · exact fun h => h.elim eq_primitive_of_primitive_covers eq_primitive_of_covers
  · rintro rfl
    exact Or.inl (covers_refl _)

/-- `Object` is above arrays of primitives, so an array of `Object` takes an array of such arrays. -/
theorem covers_order_nested :
    (array object).covers (array (array (primitive .int))) = true ∧
      (array (array (primitive .int))).accepts (.array (array (primitive .int)) []) = true ∧
      (array object).accepts (.array (array (primitive .int)) []) = true := by
  obtain ⟨-, -, -, -, haccepts⟩ := covers_order
  have hcovers : (array object).covers (array (array (primitive .int))) = true := by decide
  have hvalue : (array (array (primitive .int))).accepts (.array (array (primitive .int)) []) = true := by decide
  exact ⟨hcovers, hvalue, haccepts _ _ hcovers _ hvalue⟩

example : (array object).covers (array (primitive .int)) = false := by decide

end SealedScript.Ty
