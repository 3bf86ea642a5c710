import Mathlib.Data.List.Forall2
import SealedScript.Proofs.Ty
import SealedScript.Signature.Adjust

/-!
What the call adapter takes and what it makes of it.

`Admits` says which arguments fit a signature, `Adjusts` what the body then receives: one value for each parameter,
the arguments in their order, and under a variable arity an array in the last place. The adapter answers exactly so
(`adjust_spec`), and what it answers suits the types that the body declares (`Adjusts.received`).
-/

namespace SealedScript
set_option autoImplicit false

namespace Ty

/-- The value is null or an instance of the type. -/
def Takes (ty : Ty) (v : Value) : Prop := v = .null ∨ ty.contains v = true

variable {ty : Ty} {v : Value}

theorem isNull_iff : v.isNull = true ↔ v = .null := by
  cases v <;> simp [Value.isNull]

theorem accepts_iff : ty.accepts v = true ↔ ty.Takes v := by
  rw [accepts, Bool.or_eq_true, isNull_iff, Takes]

theorem all_accepts_iff {vs : List Value} : vs.all ty.accepts = true ↔ ∀ v ∈ vs, ty.Takes v := by
  simp [List.all_eq_true, accepts_iff]

theorem contains_array {inner : Ty} {items : List Value} :
    ty.contains (.array inner items) = ty.covers (.array inner) := rfl

end Ty

namespace Signature

variable {s : Signature} {element : Ty} {v w : Value} {args trailing values : List Value}

/-! ## The trailing arguments -/

/-- The trailing arguments suit the element type of a variable arity. -/
def TrailingFits (element : Ty) : List Value → Prop
  | [] => True
  | [v] => v = .null ∨ element.contains v = true ∨ ∃ inner items, v = .array inner items ∧
      (element.covers inner = true ∨ ∀ item ∈ items, element.Takes item)
  | vs => ∀ v ∈ vs, element.Takes v

/-- The array that stands for the trailing arguments. A single argument is taken by the first of the cases
`null`, `wrapped`, `passed` and `copied` that applies to it. -/
inductive Collects (element : Ty) : List Value → Value → Prop
  | absent : Collects element [] (.array element [])
  | null : Collects element [.null] (.array element [])
  | wrapped {v : Value} (hinstance : element.contains v = true) : Collects element [v] (.array element [v])
  | passed {inner : Ty} {items : List Value} (hinstance : element.contains (.array inner items) = false)
      (hcovers : element.covers inner = true) : Collects element [.array inner items] (.array inner items)
  | copied {inner : Ty} {items : List Value} (hinstance : element.contains (.array inner items) = false)
      (hcovers : element.covers inner = false) (hitems : ∀ item ∈ items, element.Takes item) :
      Collects element [.array inner items] (.array element items)
  | gathered {vs : List Value} (htwo : 2 ≤ vs.length) (hitems : ∀ v ∈ vs, element.Takes v) :
      Collects element vs (.array element vs)

theorem adjustLast_eq_some : adjustLast element v = some w ↔ Collects element [v] w := by
  constructor
  · intro h
    unfold adjustLast at h
    split at h
    case isTrue hnull =>
      cases h
      rw [Ty.isNull_iff.mp hnull]
      exact .null
    case isFalse =>
      split at h
      case isTrue hinstance =>
        cases h
        exact .wrapped hinstance
      case isFalse hinstance =>
        rw [Bool.not_eq_true] at hinstance
        split at h
        case h_1 inner items =>
          split at h
          case isTrue hcovers =>
            cases h
            exact .passed hinstance hcovers
          case isFalse hcovers =>
            rw [Bool.not_eq_true] at hcovers
            split at h
            case isTrue hitems =>
              cases h
              exact .copied hinstance hcovers (Ty.all_accepts_iff.mp hitems)
            case isFalse => cases h
        case h_2 => cases h
  · intro h
    cases h with
    | null => rfl
    | wrapped hinstance =>
      have hnull : v.isNull = false := by
        cases v with
        | null => cases hinstance
        | _ => rfl
      simp [adjustLast, hnull, hinstance]
    | passed hinstance hcovers => simp [adjustLast, Value.isNull, hinstance, hcovers]
    | copied hinstance hcovers hitems =>
      have hall := Ty.all_accepts_iff.mpr hitems
      simp [adjustLast, Value.isNull, hinstance, hcovers, hall]
    | gathered htwo => simp at htwo

theorem collect_eq_some : collect element trailing = some w ↔ Collects element trailing w := by
  match trailing with
  | [] =>
    constructor
    · intro h
      cases h
      exact .absent
    · intro h
      cases h with
      | absent => rfl
      | gathered htwo => simp at htwo
  | [v] => exact adjustLast_eq_some
  | v :: v' :: vs =>
    have hcollect : collect element (v :: v' :: vs) =
        if (v :: v' :: vs).all element.accepts then some (.array element (v :: v' :: vs)) else none := rfl
    rw [hcollect]
    constructor
    · intro h
      split at h
      case isTrue hall =>
        cases h
        exact .gathered (by simp) (Ty.all_accepts_iff.mp hall)
      case isFalse => cases h
    · intro h
      cases h with
      | gathered _ hitems => rw [if_pos (Ty.all_accepts_iff.mpr hitems)]

theorem exists_collects_iff : (∃ w, Collects element trailing w) ↔ TrailingFits element trailing := by
  constructor
  · rintro ⟨w, h⟩
    cases h with
    | absent => trivial
    | null => exact Or.inl rfl
    | wrapped hinstance => exact Or.inr (Or.inl hinstance)
    | passed _ hcovers => exact Or.inr (Or.inr ⟨_, _, rfl, Or.inl hcovers⟩)
    | copied _ _ hitems => exact Or.inr (Or.inr ⟨_, _, rfl, Or.inr hitems⟩)
    | gathered htwo hitems =>
      match trailing, htwo with
      | _ :: _ :: _, _ => exact hitems
  · intro h
    match trailing with
    | [] => exact ⟨_, .absent⟩
    | _ :: _ :: _ => exact ⟨_, .gathered (by simp) h⟩
    | [v] =>
      cases hinstance : element.contains v with
      | true => exact ⟨_, .wrapped hinstance⟩
      | false =>
        rcases h with rfl | h | ⟨inner, items, rfl, hfits⟩
        · exact ⟨_, .null⟩
        · rw [hinstance] at h
          cases h
        · cases hcovers : element.covers inner with
          | true => exact ⟨_, .passed hinstance hcovers⟩
          | false =>
            rcases hfits with h | hitems
            · rw [hcovers] at h
              cases h
            · exact ⟨_, .copied hinstance hcovers hitems⟩

/-- The trailing array is an instance of an array of the element type. Its own element type is that very type,
unless it is an array that was passed. -/
theorem Collects.array (h : Collects element trailing w) :
    ∃ inner items, w = .array inner items ∧ element.covers inner = true ∧ (inner = element ∨ trailing = [w]) := by
  cases h with
  | passed _ hcovers => exact ⟨_, _, rfl, hcovers, Or.inr rfl⟩
  | _ => exact ⟨_, _, rfl, element.covers_refl, Or.inl rfl⟩

/-! ## All arguments -/

theorem acceptsEach_iff {types : List Ty} {vs : List Value} :
    acceptsEach types vs = true ↔ List.Forall₂ Ty.Takes types vs := by
  induction types generalizing vs with
  | nil => cases vs <;> simp [acceptsEach]
  | cons ty types ih =>
    cases vs with
    | nil => simp [acceptsEach]
    | cons v vs => rw [acceptsEach, Bool.and_eq_true, Ty.accepts_iff, ih, List.forall₂_cons]

/-- The arguments fit the signature. -/
inductive Admits (s : Signature) : List Value → Prop
  | fixed {args : List Value} (hfixed : s.variadic = false) (hargs : List.Forall₂ Ty.Takes s.params args) :
      Admits s args
  | variadic {leading : List Ty} {element : Ty} {firsts trailing : List Value} (hvariadic : s.variadic = true)
      (hparams : s.params = leading ++ [element]) (hfirsts : List.Forall₂ Ty.Takes leading firsts)
      (htrailing : TrailingFits element trailing) : Admits s (firsts ++ trailing)

/-- The body receives the values for the arguments. -/
inductive Adjusts (s : Signature) : List Value → List Value → Prop
  | fixed {args : List Value} (hfixed : s.variadic = false) (hargs : List.Forall₂ Ty.Takes s.params args) :
      Adjusts s args args
  | variadic {leading : List Ty} {element : Ty} {firsts trailing : List Value} {collected : Value}
      (hvariadic : s.variadic = true) (hparams : s.params = leading ++ [element])
      (hfirsts : List.Forall₂ Ty.Takes leading firsts) (htrailing : Collects element trailing collected) :
      Adjusts s (firsts ++ trailing) (firsts ++ [collected])

/-- The types of what a body receives. -/
def receives (s : Signature) : List Ty :=
  if s.variadic then s.params.dropLast ++ s.params.getLast?.toList.map .array else s.params

theorem exists_adjusts_iff : (∃ values, s.Adjusts args values) ↔ s.Admits args := by
  constructor
  · rintro ⟨values, h⟩
    cases h with
    | fixed hfixed hargs => exact .fixed hfixed hargs
    | variadic hvariadic hparams hfirsts htrailing =>
      exact .variadic hvariadic hparams hfirsts (exists_collects_iff.mp ⟨_, htrailing⟩)
  · intro h
    cases h with
    | fixed hfixed hargs => exact ⟨_, .fixed hfixed hargs⟩
    | variadic hvariadic hparams hfirsts htrailing =>
      obtain ⟨collected, hcollected⟩ := exists_collects_iff.mpr htrailing
      exact ⟨_, .variadic hvariadic hparams hfirsts hcollected⟩

theorem Adjusts.length_eq (h : s.Adjusts args values) : values.length = s.params.length := by
  cases h with
  | fixed _ hargs => exact hargs.length_eq.symm
  | variadic _ hparams hfirsts _ => simp [hparams, hfirsts.length_eq]

/-- **What a body receives suits the types it declares.** -/
theorem Adjusts.received (h : s.Adjusts args values) : List.Forall₂ Ty.Takes s.receives values := by
  cases h with
  | fixed hfixed hargs =>
    rw [receives, hfixed]
    exact hargs
  | variadic hvariadic hparams hfirsts htrailing =>
    obtain ⟨inner, items, rfl, hcovers, -⟩ := htrailing.array
    have hlast : (Ty.array _).Takes (.array inner items) := Or.inr (Ty.contains_array.trans hcovers)
    simp only [receives, hvariadic, if_true, hparams, List.dropLast_concat, List.getLast?_concat, Option.toList_some,
      List.map_cons, List.map_nil]
    exact List.rel_append hfirsts (.cons hlast .nil)

theorem adjust?_eq_some : s.adjust? args = some values ↔ s.Adjusts args values := by
  constructor
  · intro h
    unfold adjust? at h
    split at h
    case isTrue hvariadic =>
      simp only at h
      split at h
      case isTrue hleading =>
        obtain ⟨collected, hcollected, rfl⟩ := Option.map_eq_some_iff.mp h
        have hadjusts := Adjusts.variadic hvariadic (List.dropLast_concat_getLast _).symm (acceptsEach_iff.mp hleading)
          (collect_eq_some.mp hcollected)
        rwa [List.take_append_drop] at hadjusts
      case isFalse => cases h
    case isFalse hfixed =>
      split at h
      case isTrue hargs =>
        cases h
        exact .fixed (Bool.not_eq_true _ ▸ hfixed) (acceptsEach_iff.mp hargs)
      case isFalse => cases h
  · intro h
    cases h with
    | fixed hfixed hargs => simp [adjust?, hfixed, acceptsEach_iff.mpr hargs]
    | @variadic leading element firsts trailing collected hvariadic hparams hfirsts htrailing =>
      have htake : (firsts ++ trailing).take leading.length = firsts := by rw [hfirsts.length_eq, List.take_left]
      have hdrop : (firsts ++ trailing).drop leading.length = trailing := by rw [hfirsts.length_eq, List.drop_left]
      simp [adjust?, hvariadic, hparams, htake, hdrop, acceptsEach_iff.mpr hfirsts, collect_eq_some.mpr htrailing]

theorem adjust_eq_ok : s.adjust args = .ok values ↔ s.Adjusts args values := by
  rw [← adjust?_eq_some, adjust]
  cases s.adjust? args <;> simp

/-- **The call adapter.** It takes the arguments that fit and no others, and the body receives a value for each
parameter, of the type that it declares. -/
theorem adjust_spec (s : Signature) (args : List Value) :
    ((∃ values, s.adjust args = .ok values) ↔ s.Admits args) ∧
      (s.adjust args = .error (.incompatibleArguments args (some s)) ↔ ¬ s.Admits args) ∧
      ∀ values, s.adjust args = .ok values ↔
        s.Adjusts args values ∧ values.length = s.params.length ∧ List.Forall₂ Ty.Takes s.receives values := by
  have hadmits : (∃ values, s.adjust args = .ok values) ↔ s.Admits args := by
    simp only [adjust_eq_ok, exists_adjusts_iff]
  refine ⟨hadmits, ?_, fun values => ?_⟩
  · rw [← hadmits, adjust]
    cases s.adjust? args <;> simp
  · rw [adjust_eq_ok]
    exact ⟨fun h => ⟨h, h.length_eq, h.received⟩, fun h => h.1⟩

end Signature
end SealedScript
