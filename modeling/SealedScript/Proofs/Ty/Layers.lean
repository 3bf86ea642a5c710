import SealedScript.Proofs.Ty

/-!
Arrays of arrays.

Each type is its innermost type under its array layers (`layered_depth`). A type that covers another has as many layers
itself, unless it ends in `Object`, which covers any further ones: so a type takes the arrays of what it covers exactly
when its innermost type is `Object` (`covers_array_iff`).
-/

namespace SealedScript.Ty
set_option autoImplicit false

/-- The type without any of its array layers. -/
def innermost : Ty → Ty
  | .array element => element.innermost
  | ty => ty

/-- How many array layers the type has. -/
def depth : Ty → Nat
  | .array element => element.depth + 1
  | _ => 0

/-- The type under `k` further array layers. -/
def layered (ty : Ty) : Nat → Ty
  | 0 => ty
  | k + 1 => .array (ty.layered k)

variable {a b : Ty}

theorem layered_depth (ty : Ty) : ty.innermost.layered ty.depth = ty := by
  induction ty with
  | array element ih => exact congrArg Ty.array ih
  | _ => rfl

theorem layered_array (ty : Ty) (k : Nat) : (array ty).layered k = ty.layered (k + 1) := by
  induction k with
  | zero => rfl
  | succ k ih => exact congrArg Ty.array ih

theorem isPrimitive_layered {ty : Ty} (h : ty.isPrimitive = false) (k : Nat) : (ty.layered k).isPrimitive = false := by
  cases k with
  | zero => exact h
  | succ k => rfl

/-- **When an array of what fits, fits as well.** -/
theorem covers_array_iff (h : a.covers b = true) : a.covers (.array b) = true ↔ a.innermost = .object := by
  induction a generalizing b with
  | array mine ih =>
    cases b with
    | array theirs => exact ih h
    | _ => cases h
  | object => exact ⟨fun _ => rfl, fun _ => rfl⟩
  | _ => exact ⟨fun h => (nomatch h), fun h => (nomatch h)⟩

end SealedScript.Ty
