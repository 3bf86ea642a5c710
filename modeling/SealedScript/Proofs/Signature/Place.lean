import SealedScript.CommandLine.Arguments
import SealedScript.Proofs.Access
import SealedScript.Proofs.Signature.Adjust
import SealedScript.Proofs.Text.Join

/-!
Parameters and arguments found by their places.

The last parameter is the one before the end of the list, arguments are cut in front of it and from it on, and the text
of a signature ends the last of its parameters with an ellipsis. All of these places are found by subtraction. A
variable arity has at least one parameter, so none of the differences falls below zero and no cut leaves the list of
arguments.
-/

namespace SealedScript
set_option autoImplicit false

namespace Signature

/-! ## Texts of signatures -/

/-- The ellipsis behind the parameter at the index `i`, where it collects arguments. -/
def ellipsisAt (s : Signature) (i : Nat) : Option Text :=
  if s.variadic then (minus? s.params.length 1).map fun last => if i = last then " ...".toList else [] else some []

/-- The texts of the parameters, the first of them at the index `i`. -/
def displayFrom (s : Signature) (i : Nat) : List Ty → Option Text
  | [] => some []
  | ty :: types => do
    let ellipsis ← s.ellipsisAt i
    let rest ← s.displayFrom (i + 1) types
    return (if i = 0 then [] else [',', ' ']) ++ ty.display ++ ellipsis ++ rest

def displayAt (s : Signature) : Option Text := do
  let params ← s.displayFrom 0 s.params
  return "function (" ++ params ++ ")" ++ ':' :: s.returns.display

/-! ## The adapter -/

/-- The refusal of the arguments, whose message shows the signature. -/
def refuseAt (s : Signature) (args : List Value) : Guarded Failure (List Value) := do
  let _ ← s.displayAt
  throw (.incompatibleArguments args (some s))

/-- One value for each parameter, the trailing ones collected; the leading ones are not looked at. -/
def arrangeAt (s : Signature) (args : List Value) : Guarded Failure (List Value) :=
  let count := s.params.length
  if s.variadic then
    match s.params.getLast? with
    | none => s.refuseAt args
    | some element =>
      if args.length < count then
        if args.length + 1 < count then s.refuseAt args else return args ++ [.array element []]
      else if args.length = count then do
        let place ← minus? count 1
        let leading ← upTo? place args
        let last ← (args[place]? : Option Value)
        match adjustLast element last with
        | some trailing => return leading ++ [trailing]
        | none => s.refuseAt args
      else do
        let place ← minus? count 1
        let excess ← onward? place args
        if excess.all element.accepts then do
          let leading ← upTo? place args
          return leading ++ [.array element excess]
        else s.refuseAt args
  else if args.length = count then return args
  else s.refuseAt args

/-- How many parameters take one argument each. -/
def fixedCount? (s : Signature) : Option Nat := if s.variadic then minus? s.params.length 1 else some s.params.length

def adjustAt (s : Signature) (args : List Value) : Guarded Failure (List Value) := do
  let adjusted ← s.arrangeAt args
  let fixed ← s.fixedCount?
  if ((s.params.zip adjusted).take fixed).all fun p => p.1.accepts p.2 then return adjusted
  else s.refuseAt args

def ensureReturnAt (s : Signature) (v : Value) : Guarded Failure Value :=
  if s.returns.accepts v then return v
  else
    match if s.returns.isNumeric then v.convertTo? s.returns else none with
    | some converted => return converted
    | none => do
      let _ ← s.displayAt
      throw (.invalidReturn v s)

/-! ## The command line -/

/-- The type that the text at an index is read as. -/
def argumentTypeAt (s : Signature) (index : Nat) : Option Ty := do
  let declared ← if s.variadic then (minus? s.params.length 1).map (min index) else some index
  return s.params[declared]?.getD .object

def readFromAt (s : Signature) (index : Nat) : List Text → Guarded Failure (List Value)
  | [] => return []
  | t :: ts => do
    let ty ← s.argumentTypeAt index
    let v ← within (Value.ofText t ty)
    let vs ← s.readFromAt (index + 1) ts
    return v :: vs

variable {s : Signature} {args : List Value}

/-! ## Texts -/

theorem params_length_pos (h : s.variadic = true) : 1 ≤ s.params.length :=
  List.length_pos_iff.mpr (s.params_of_variadic h)

/-- The last parameter is the one with none behind it. -/
theorem ellipsisAt_eq {i : Nat} {ty : Ty} {types : List Ty} (h : s.params.length = i + (ty :: types).length) :
    s.ellipsisAt i = some (if s.variadic ∧ types = [] then " ...".toList else []) := by
  rw [List.length_cons] at h
  have hlast : i = s.params.length - 1 ↔ types = [] := by
    rw [← List.length_eq_zero_iff]
    omega
  rw [ellipsisAt, minus?_of_le (by omega), Option.map_some]
  simp only [hlast]
  cases s.variadic <;> simp

/-- The loop over the parameters joins their texts. -/
theorem displayFrom_eq {i : Nat} {types : List Ty} (h : s.params.length = i + types.length) :
    s.displayFrom i types = some (if types = [] then [] else
      (if i = 0 then [] else [',', ' ']) ++ Text.join [',', ' '] (types.map Ty.display) ++
        (if s.variadic then " ...".toList else [])) := by
  induction types generalizing i with
  | nil => rfl
  | cons ty types ih =>
    rw [displayFrom, ellipsisAt_eq h, ih (by rw [h, List.length_cons]; omega)]
    cases types with
    | nil => simp [Text.join]
    | cons ty' types => simp [Text.join_cons_cons]

theorem displayAt_eq (s : Signature) : s.displayAt = some s.display := by
  have hlength : s.params.length = 0 + s.params.length := (Nat.zero_add _).symm
  have hparams : s.displayFrom 0 s.params = some s.displayParams := by
    rw [displayFrom_eq hlength, displayParams]
    cases hparams : s.params with
    | nil =>
      have hfixed : s.variadic = false := Bool.eq_false_iff.mpr fun hv => s.params_of_variadic hv hparams
      simp [hfixed, Text.join]
    | cons ty types => simp
  rw [displayAt, hparams]
  rfl

theorem refuseAt_eq (s : Signature) (args : List Value) :
    s.refuseAt args = within (.error (.incompatibleArguments args (some s))) := by
  rw [refuseAt, displayAt_eq, lift_some_bind, throw_eq_within]

/-! ## Arguments -/

theorem acceptsEach_eq (types : List Ty) (vs : List Value) : acceptsEach types vs =
    (decide (types.length = vs.length) && (types.zip vs).all fun p => p.1.accepts p.2) := by
  induction types generalizing vs with
  | nil => cases vs <;> simp [acceptsEach]
  | cons ty types ih =>
    cases vs with
    | nil => simp [acceptsEach]
    | cons v vs => simp [acceptsEach, ih, Bool.and_left_comm]

theorem arrangeAt_fixed (h : s.variadic = false) : s.arrangeAt args =
    within (if args.length = s.params.length then .ok args else .error (.incompatibleArguments args (some s))) := by
  simp only [arrangeAt, h, Bool.false_eq_true, if_false, refuseAt_eq]
  split <;> rfl

section Variadic
variable {leading : List Ty} {element : Ty} {firsts trailing : List Value}

theorem fixedCount?_eq (hv : s.variadic = true) (hparams : s.params = leading ++ [element]) :
    s.fixedCount? = some leading.length := by
  rw [fixedCount?, if_pos hv, hparams, List.length_append, List.length_singleton, minus?_of_le (by omega)]
  rfl

/-- Too few arguments are refused before anything is cut. -/
theorem arrangeAt_of_lt (hv : s.variadic = true) (hparams : s.params = leading ++ [element])
    (hargs : args.length < leading.length) :
    s.arrangeAt args = within (.error (.incompatibleArguments args (some s))) := by
  simp only [arrangeAt, hv, if_true, hparams, List.getLast?_concat, List.length_append, List.length_singleton,
    refuseAt_eq]
  rw [if_pos (by omega), if_pos (by omega)]

/-- The arguments behind the leading ones are collected. -/
theorem arrangeAt_append (hv : s.variadic = true) (hparams : s.params = leading ++ [element])
    (hfirsts : firsts.length = leading.length) : s.arrangeAt (firsts ++ trailing) =
      within (match collect element trailing with
        | some w => .ok (firsts ++ [w])
        | none => .error (.incompatibleArguments (firsts ++ trailing) (some s))) := by
  simp only [arrangeAt, hv, if_true, hparams, List.getLast?_concat, List.length_append, List.length_singleton,
    refuseAt_eq, hfirsts]
  -- Fewer arguments than parameters, as many, and more.
  match trailing with
  | [] =>
    rw [if_pos (by simp), if_neg (by simp)]
    simp [collect]
  | [v] =>
    have hlast : (firsts ++ [v])[leading.length]? = some v := by rw [← hfirsts, List.getElem?_concat_length]
    rw [if_neg (by simp), if_pos (by simp), minus?_of_le (by omega), lift_some_bind, Nat.add_sub_cancel,
      upTo?_of_le (by simp [hfirsts]), lift_some_bind, hlast, lift_some_bind, List.take_left' hfirsts, collect]
    cases adjustLast element v <;> rfl
  | v :: v' :: rest =>
    have hcollect : collect element (v :: v' :: rest) =
        if (v :: v' :: rest).all element.accepts then some (.array element (v :: v' :: rest)) else none := rfl
    have hplace : leading.length ≤ (firsts ++ v :: v' :: rest).length := by simp [hfirsts]
    rw [if_neg (by simp), if_neg (by simp), minus?_of_le (by omega), lift_some_bind, Nat.add_sub_cancel,
      onward?_of_le hplace, lift_some_bind, upTo?_of_le hplace, List.drop_left' hfirsts, List.take_left' hfirsts,
      hcollect]
    split <;> rfl

theorem adjust?_variadic (hv : s.variadic = true) (hparams : s.params = leading ++ [element]) (args : List Value) :
    s.adjust? args = if acceptsEach leading (args.take leading.length) then
      (collect element (args.drop leading.length)).map (args.take leading.length ++ [·]) else none := by
  simp [adjust?, hv, hparams]

/-- The check behind the arrangement looks at the leading arguments only. -/
theorem checked_append (hparams : s.params = leading ++ [element]) (hfirsts : firsts.length = leading.length)
    (w : Value) : ((s.params.zip (firsts ++ [w])).take leading.length).all (fun p => p.1.accepts p.2) =
      acceptsEach leading firsts := by
  have hzip : s.params.zip (firsts ++ [w]) = leading.zip firsts ++ [(element, w)] := by
    rw [hparams, List.zip_append hfirsts.symm]
    rfl
  have hlength : (leading.zip firsts).length = leading.length := by simp [hfirsts]
  rw [hzip, List.take_left' hlength, acceptsEach_eq, decide_eq_true hfirsts.symm, Bool.true_and]

theorem adjustAt_variadic (hv : s.variadic = true) (hparams : s.params = leading ++ [element]) (args : List Value) :
    s.adjustAt args = within (s.adjust args) := by
  rw [adjustAt, adjust, adjust?_variadic hv hparams, fixedCount?_eq hv hparams]
  by_cases hlt : args.length < leading.length
  · have htake : (args.take leading.length).length ≠ leading.length := by
      rw [List.length_take]
      omega
    have haccepts : acceptsEach leading (args.take leading.length) = false := by
      rw [acceptsEach_eq, decide_eq_false htake.symm, Bool.false_and]
    rw [arrangeAt_of_lt hv hparams hlt, haccepts]
    rfl
  · obtain ⟨firsts, trailing, rfl, hfirsts⟩ :
        ∃ firsts trailing, args = firsts ++ trailing ∧ firsts.length = leading.length :=
      ⟨_, _, (List.take_append_drop leading.length args).symm, by rw [List.length_take]; omega⟩
    rw [arrangeAt_append hv hparams hfirsts, List.take_left' hfirsts, List.drop_left' hfirsts]
    cases hcollect : collect element trailing with
    | none =>
      rw [within_error_bind, Option.map_none, ite_self]
    | some w =>
      simp only [within_ok_bind, lift_some_bind, checked_append hparams hfirsts, refuseAt_eq]
      cases acceptsEach leading firsts <;> rfl

end Variadic

/-- **No place leaves the parameters or the arguments.** -/
theorem adjustAt_eq (s : Signature) (args : List Value) : s.adjustAt args = within (s.adjust args) := by
  cases hv : s.variadic with
  | true => exact adjustAt_variadic hv (List.dropLast_concat_getLast (s.params_of_variadic hv)).symm args
  | false =>
    have hadjust : s.adjust? args = if acceptsEach s.params args then some args else none := by simp [adjust?, hv]
    have hcount : s.fixedCount? = some s.params.length := by rw [fixedCount?, hv, if_neg Bool.false_ne_true]
    rw [adjustAt, arrangeAt_fixed hv, adjust, hadjust, hcount, acceptsEach_eq]
    by_cases hlength : args.length = s.params.length
    · have htake : (s.params.zip args).take s.params.length = s.params.zip args :=
        List.take_of_length_le (by rw [List.length_zip]; omega)
      rw [if_pos hlength, within_ok_bind, lift_some_bind, htake, decide_eq_true hlength.symm, Bool.true_and,
        refuseAt_eq]
      cases (s.params.zip args).all fun p => p.1.accepts p.2 <;> rfl
    · rw [if_neg hlength, within_error_bind, decide_eq_false (fun h => hlength h.symm), Bool.false_and]
      rfl

/-! ## Results -/

theorem ensureReturnAt_eq (s : Signature) (v : Value) : s.ensureReturnAt v = within (s.ensureReturn v) := by
  unfold ensureReturnAt ensureReturn
  cases s.returns.accepts v with
  | true => rfl
  | false =>
    simp only [Bool.false_eq_true, if_false, displayAt_eq]
    cases if s.returns.isNumeric = true then v.convertTo? s.returns else none <;> rfl

/-! ## Texts of a command line -/

theorem argumentTypeAt_eq (s : Signature) (index : Nat) : s.argumentTypeAt index = some (s.argumentType index) := by
  unfold argumentTypeAt argumentType
  cases hv : s.variadic with
  | true =>
    rw [minus?_of_le (params_length_pos hv)]
    rfl
  | false => rfl

theorem readFromAt_eq (s : Signature) (index : Nat) (texts : List Text) :
    s.readFromAt index texts = within (s.readFrom index texts) := by
  induction texts generalizing index with
  | nil => rfl
  | cons t ts ih =>
    rw [readFromAt, argumentTypeAt_eq, lift_some_bind, readFrom]
    refine within_bind_eq fun v _ => ?_
    rw [ih]
    exact within_bind_eq fun vs _ => rfl

end Signature
end SealedScript
