import SealedScript.Error

/-!
Building a signature from its parts, with the reason when the parts make none.
-/

namespace SealedScript.Signature
set_option autoImplicit false

/-- The signature with these parts. Of several faults the arity is reported before the return type and
the return type before the first primitive parameter. -/
def make (name : Option Text) (params : List Ty) (variadic : Bool) (returns : Ty) :
    Except SignatureFault Signature :=
  if harity : variadic = true ∧ params = [] then .error .variadicWithoutParams
  else if hreturns : returns.isPrimitive = true then .error (.primitiveReturn returns)
  else
    match hparams : params.find? Ty.isPrimitive with
    | some p => .error (.primitiveParam p)
    | none =>
      .ok
        { name := usableName name
          params, variadic, returns
          name_ne_empty := usableName_ne_empty name
          params_of_variadic := fun hv hp => harity ⟨hv, hp⟩
          returns_boxed := by simpa using hreturns
          params_boxed := by simpa using hparams }

end SealedScript.Signature
