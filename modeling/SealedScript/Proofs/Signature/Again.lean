import SealedScript.Proofs.Signature.Adjust
import SealedScript.Proofs.Ty.Layers

/-!
Arguments that are adjusted a second time.

What a body receives is passed on unchanged by a second adjustment, unless the arity is variable and the innermost type
of the elements is `Object`: then the collected array is itself an instance of the element type, and is collected once
more (`adjust_adjust`).
-/

namespace SealedScript.Signature
set_option autoImplicit false

variable {s : Signature} {element : Ty} {w : Value} {args trailing values : List Value}

/-- What a second adjustment makes of the collected array. -/
def collectedAgain (element : Ty) (w : Value) : Value :=
  if element.innermost = .object then .array element [w] else w

/-- A collected array is wrapped when it is an instance of the element type, and else it is passed on. -/
theorem Collects.again (h : Collects element trailing w) : Collects element [w] (collectedAgain element w) := by
  obtain ⟨inner, items, rfl, hcovers, -⟩ := h.array
  have hinstance : element.contains (.array inner items) = true ↔ element.innermost = .object := by
    rw [Ty.contains_array, Ty.covers_array_iff hcovers]
  unfold collectedAgain
  split
  case isTrue hobject => exact .wrapped (hinstance.mpr hobject)
  case isFalse hother => exact .passed (Bool.eq_false_iff.mpr fun h => hother (hinstance.mp h)) hcovers

/-- **Adjusting twice.** What a body receives is left as it is when the arity is fixed or the innermost type of what is
collected is not `Object`. Else its last value, which is an array, is collected as a single item. -/
theorem adjust_adjust (h : s.adjust args = .ok values) :
    (s.variadic = false ∨ (∀ element, s.params.getLast? = some element → element.innermost ≠ .object) →
        s.adjust values = .ok values) ∧
      ∀ element, s.variadic = true → s.params.getLast? = some element → element.innermost = .object →
        ∃ firsts inner items, values = firsts ++ [.array inner items] ∧
          s.adjust values = .ok (firsts ++ [.array element [.array inner items]]) := by
  cases adjust_eq_ok.mp h with
  | fixed hfixed hargs =>
    refine ⟨fun _ => h, fun _ hvariadic => ?_⟩
    rw [hfixed] at hvariadic
    cases hvariadic
  | @variadic leading element firsts trailing collected hvariadic hparams hfirsts htrailing =>
    have hlast : s.params.getLast? = some element := by rw [hparams, List.getLast?_concat]
    have hagain : s.adjust (firsts ++ [collected]) = .ok (firsts ++ [collectedAgain element collected]) :=
      adjust_eq_ok.mpr (.variadic hvariadic hparams hfirsts htrailing.again)
    constructor
    · rintro (hfixed | hother)
      · rw [hfixed] at hvariadic
        cases hvariadic
      · rwa [collectedAgain, if_neg (hother element hlast)] at hagain
    · intro element' _ hlast' hobject
      obtain rfl : element = element' := Option.some.inj (hlast.symm.trans hlast')
      obtain ⟨inner, items, rfl, -, -⟩ := htrailing.array
      rw [collectedAgain, if_pos hobject] at hagain
      exact ⟨firsts, inner, items, rfl, hagain⟩

/-- Takes a title and rows of numbers. -/
def titledRows : Signature :=
  { free with
    params := [.text, .array .number]
    params_of_variadic := by decide
    params_boxed := by decide }

/-- Rows that come as an array of objects are copied once and then passed on; an array of objects under a free signature
is collected both times. -/
theorem adjust_adjust_rows :
    (titledRows.adjust [.null, .array .object [.array .long [.long 7]]] =
        .ok [.null, .array (.array .number) [.array .long [.long 7]]] ∧
      titledRows.adjust [.null, .array (.array .number) [.array .long [.long 7]]] =
        .ok [.null, .array (.array .number) [.array .long [.long 7]]]) ∧
      free.adjust [.array .object []] = .ok [.array .object [.array .object []]] ∧
      ∃ firsts inner items, [Value.array .object [.array .object []]] = firsts ++ [.array inner items] ∧
        free.adjust [.array .object [.array .object []]] = .ok (firsts ++ [.array .object [.array inner items]]) := by
  have hrows : titledRows.adjust [.null, .array .object [.array .long [.long 7]]] =
      .ok [.null, .array (.array .number) [.array .long [.long 7]]] := rfl
  have hfree : free.adjust [.array .object []] = .ok [.array .object [.array .object []]] := rfl
  refine ⟨⟨hrows, (adjust_adjust hrows).1 (Or.inr fun element hlast => ?_)⟩, hfree,
    (adjust_adjust hfree).2 .object rfl rfl rfl⟩
  cases hlast
  decide

end SealedScript.Signature
