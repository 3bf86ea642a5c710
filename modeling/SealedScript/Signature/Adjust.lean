import SealedScript.Error

/-!
The call adapter: arguments are brought into the shape a body expects, returned values into the type
its signature promises, and one signature may stand in for another.

`adjust` answers one value for each parameter. Under a variable arity the last one is an array of the
element type: it collects the surplus arguments, wraps a single one, or is the array that was passed
in their place. `refines` is the order on signatures under which every call that suits the
expected signature suits the one that takes its place.
-/

namespace SealedScript.Signature
set_option autoImplicit false

/-! ## Arguments -/

/-- The trailing array for a single argument in its place: null stands for no items, an instance of the
element type is wrapped, and an array is passed on when its items fit. -/
def adjustLast (element : Ty) (last : Value) : Option Value :=
  if last.isNull then some (.array element [])
  else if element.contains last then some (.array element [last])
  else
    match last with
    | .array inner items =>
      if element.covers inner then some last
      else if items.all element.accepts then some (.array element items)
      else none
    | _ => none

def acceptsEach : List Ty → List Value → Bool
  | [], [] => true
  | ty :: tys, v :: vs => ty.accepts v && acceptsEach tys vs
  | _, _ => false

/-- The trailing array for the arguments from the last parameter's place on. -/
def collect (element : Ty) : List Value → Option Value
  | [] => some (.array element [])
  | [v] => adjustLast element v
  | vs => if vs.all element.accepts then some (.array element vs) else none

/-- The values for the parameters, when the arguments fit. -/
def adjust? (s : Signature) (args : List Value) : Option (List Value) :=
  if hv : s.variadic = true then
    let element := s.params.getLast (s.params_of_variadic hv)
    let leading := s.params.dropLast
    if acceptsEach leading (args.take leading.length) then
      (collect element (args.drop leading.length)).map (args.take leading.length ++ [·])
    else none
  else if acceptsEach s.params args then some args
  else none

def adjust (s : Signature) (args : List Value) : Outcome (List Value) :=
  match s.adjust? args with
  | some vs => .ok vs
  | none => .error (.incompatibleArguments args (some s))

/-! ## Results -/

/-- The result as the signature promises it: null and instances pass, and a number is converted to a
promised numeric type. -/
def ensureReturn (s : Signature) (v : Value) : Outcome Value :=
  if s.returns.accepts v then .ok v
  else
    match if s.returns.isNumeric then v.convertTo? s.returns else none with
    | some converted => .ok converted
    | none => .error (.invalidReturn v s)

/-! ## Substitution -/

/-- Does each of the first types take every value of the second type at its place? -/
def coversEach : List Ty → List Ty → Bool
  | [], [] => true
  | a :: as, b :: bs => a.covers b && coversEach as bs
  | _, _ => false

/-- May a body with this signature stand in where `expected` is called? What a caller that expects
nothing back is given does not matter. -/
def refines (s expected : Signature) : Bool :=
  s.sameContract expected ||
    (s.variadic == expected.variadic
      && (expected.returns == .void || expected.returns.covers s.returns)
      && coversEach s.params expected.params)

end SealedScript.Signature
