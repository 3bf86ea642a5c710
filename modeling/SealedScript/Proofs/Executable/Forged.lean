import SealedScript.Proofs.Executable.Origin
import SealedScript.Proofs.Program.Stack
import SealedScript.Proofs.Record
import SealedScript.Proofs.Signature.Parts
import SealedScript.Proofs.Signature.Place

/-!
Forged executables do no harm.

Bytes that decode to an executable need not come from a compiler, so that its program, its signature and its values may
be anything that bytes can say. What they say of its signature keeps the rules nevertheless, and whatever it is called
with no subtraction, no place, no word and no stack leaves its range (`forged_safe`).
-/

namespace SealedScript
set_option autoImplicit false

/-! ## Calls that say when they leave their range -/

namespace Shape

/-- The shape of a routine. The refusal of a wrong number of names shows the signature. -/
def ofCallAt (make : CallShape → Shape) (call : CallShape) : Guarded Failure Shape :=
  if call.paramNames.length ≠ call.signature.params.length then do
    let _ ← call.signature.displayAt
    throw (.invalidSignature (.paramNameCount call.paramNames.length call.signature))
  else if call.paramNames.any List.isEmpty then throw (.invalidSignature .emptyParamName)
  else return make call

def admitArgsAt (s : Shape) (args : List Value) : Guarded Failure (List Value) :=
  match s.call? with
  | some call => call.signature.adjustAt args
  | none => if args.isEmpty then return [] else throw (.incompatibleArguments args none)

def releaseAt (s : Shape) (v : Value) : Guarded Failure Value :=
  match s.call? with
  | some call => call.signature.ensureReturnAt v
  | none => return v

theorem ofCallAt_eq (make : CallShape → Shape) (call : CallShape) : ofCallAt make call = within (ofCall make call) := by
  unfold ofCallAt ofCall
  split
  case isTrue => rw [Signature.displayAt_eq, lift_some_bind, throw_eq_within]
  case isFalse => split <;> rfl

theorem admitArgsAt_eq (s : Shape) (args : List Value) : s.admitArgsAt args = within (s.admitArgs args) := by
  unfold admitArgsAt admitArgs
  cases s.call? with
  | none => cases args <;> rfl
  | some call => exact call.signature.adjustAt_eq args

theorem releaseAt_eq (s : Shape) (v : Value) : s.releaseAt v = within (s.release v) := by
  unfold releaseAt release
  cases s.call? with
  | none => rfl
  | some call => exact call.signature.ensureReturnAt_eq v

theorem bind_releaseAt (s : Shape) (result : Outcome Value) :
    (within result >>= s.releaseAt) = within (result.bind s.release) :=
  within_bind_eq fun v _ => s.releaseAt_eq v

end Shape

namespace Executable

def shapeOfRecordAt (r : Record) : Guarded Failure Shape :=
  match r.kind, r.signature with
  | .script, _ => return .script
  | .function, some s => Shape.ofCallAt .function ⟨s, r.paramNames⟩
  | .macroRoutine, some s => Shape.ofCallAt .macroRoutine ⟨s, r.paramNames⟩
  | kind, none => throw (.codec (.noSignature kind))

def ofRecordAt (r : Record) (engine : Engine) : Guarded Failure Executable := do
  let shape ← shapeOfRecordAt r
  return {
    engine, shape
    code := r.code
    frozen := r.frozen
    captured := r.captured
    body := .stored r.image }

def readArgumentsAt (e : Executable) (texts : List Text) : Guarded CommandFault (List Value) :=
  match e.signature? with
  | some s => (s.readFromAt 0 texts).mapFault .script
  | none => if texts.isEmpty then return [] else throw .scriptArguments

def callInAt (e : Executable) (scope : Scope) (args : List Value) : Option Call := do
  match ← (e.shape.admitArgsAt args).run with
  | .error err => return ⟨.error err, scope, e⟩
  | .ok adjusted =>
    match e.program with
    | .error err => return ⟨.error err, scope, e⟩
    | .ok program =>
      let frame : Frame := ⟨e.paramNames, adjusted, e.captured⟩
      let (result, after) ←
        program.runAt e.engine.name frame (if e.shape.seesScope then some scope else none)
      let released ← (within result >>= e.shape.releaseAt).run
      return ⟨released, after.getD scope, { e with body := .attached program }⟩

def callAt (e : Executable) (args : List Value) : Option Call := e.callInAt .empty args

theorem shapeOfRecordAt_eq (r : Record) : shapeOfRecordAt r = within (shapeOfRecord r) := by
  unfold shapeOfRecordAt shapeOfRecord
  cases r.kind with
  | script => rfl
  | function | macroRoutine =>
    cases r.signature with
    | none => rfl
    | some s => exact Shape.ofCallAt_eq _ _

theorem ofRecordAt_eq (r : Record) (engine : Engine) : ofRecordAt r engine = within (ofRecord r engine) := by
  rw [ofRecordAt, ofRecord, shapeOfRecordAt_eq]
  exact within_bind_eq fun shape _ => rfl

theorem readArgumentsAt_eq (e : Executable) (texts : List Text) :
    e.readArgumentsAt texts = within (e.readArguments texts) := by
  unfold readArgumentsAt readArguments
  cases e.signature? with
  | none => cases texts <;> rfl
  | some s => exact congrArg (Guarded.mapFault CommandFault.script) (s.readFromAt_eq 0 texts)

theorem callInAt_eq (e : Executable) (scope : Scope) (args : List Value) :
    e.callInAt scope args = some (e.callIn scope args) := by
  rw [callInAt, callIn, Shape.admitArgsAt_eq]
  cases e.shape.admitArgs args with
  | error err => rfl
  | ok adjusted =>
    cases e.program with
    | error err => rfl
    | ok program =>
      simp only [Program.runAt_eq, Shape.bind_releaseAt]
      rfl

/-! ## Forged data -/

variable {bs : Bytes} {p : Payload} {record : Record} {g : Engine} {e : Executable} {s : Signature}

/-- The signature and the parameter names of what was stored are those of the record. -/
theorem ofRecord_signature (h : ofRecord record g = .ok e) (hs : e.signature? = some s) :
    record.signature = some s ∧ e.paramNames = record.paramNames := by
  obtain ⟨shape, hshape, he⟩ := bind_eq_ok.mp h
  cases he
  unfold shapeOfRecord at hshape
  split at hshape
  case h_1 =>
    cases hshape
    cases hs
  case h_2 made _ hsignature =>
    obtain ⟨rfl, -⟩ := Shape.ofCall_eq_ok.mp hshape
    cases hs
    exact ⟨hsignature, rfl⟩
  case h_3 made _ hsignature =>
    obtain ⟨rfl, -⟩ := Shape.ofCall_eq_ok.mp hshape
    cases hs
    exact ⟨hsignature, rfl⟩
  case h_4 => cases hshape

theorem signature?_sound (h : e.shape.Sound) (hs : e.signature? = some s) :
    e.paramNames.length = s.params.length ∧ ∀ n ∈ e.paramNames, n ≠ [] := by
  obtain ⟨call, hcall, rfl⟩ := Option.map_eq_some_iff.mp hs
  have hnames : e.paramNames = call.paramNames := by rw [paramNames, Shape.paramNames, hcall]; rfl
  rw [hnames]
  exact h call hcall

/-- **Forged data cannot make a call leave its range.** What the bytes say of a signature keeps the rules, there is a
usable name for each parameter, and reading texts as arguments and calling end with an answer or a fault. -/
theorem forged_safe (hdecode : Payload.decode bs = .ok p) (hrecord : ofRecord p.executable g = .ok e) :
    (∀ s, e.signature? = some s →
      (∃ q rest, Codec.readCall bs = .ok ((some q, e.paramNames), rest) ∧ q.Lawful ∧ s.parts = q.usable) ∧
        s.parts.Lawful ∧ e.paramNames.length = s.params.length ∧ ∀ n ∈ e.paramNames, n ≠ []) ∧
      (∀ texts, e.readArgumentsAt texts = within (e.readArguments texts)) ∧
      (∀ args, e.callAt args = some (e.call args)) ∧
      ∀ scope args, e.callInAt scope args = some (e.callIn scope args) := by
  refine ⟨fun s hs => ⟨?_, s.parts_lawful, signature?_sound (Made.read hrecord).sound hs⟩, e.readArgumentsAt_eq,
    e.callInAt_eq .empty, e.callInAt_eq⟩
  obtain ⟨⟨_, behind⟩, hread, rfl⟩ := map_eq_ok.mp hdecode
  obtain ⟨q, rest, hcall, hchecked⟩ := Codec.payload_call hread
  obtain ⟨hsignature, hnames⟩ := ofRecord_signature hrecord hs
  rw [hsignature] at hchecked
  cases hchecked with
  | some hlawful => exact ⟨_, rest, hnames ▸ hcall, hlawful⟩

/-- A payload that no compiler writes: a function whose program exchanges two values where there are none. -/
def swappingNothing : Payload where
  executable :=
    { kind := .function, code := [], frozen := ⟨[]⟩, captured := [], signature := some .free, paramNames := ["x"],
      image := Program.image ⟨[.swap], false⟩ }
  sourceDigest := []

theorem forged_safe_swappingNothing :
    Payload.decode swappingNothing.encode = .ok swappingNothing ∧
      ∃ e, ofRecord swappingNothing.executable .compiling = .ok e ∧
        (e.callAt []).map Call.result = some (.error (.engine "RPN" .stackUnderflow)) := by
  have hdecode := Payload.decode_encode swappingNothing (by decide)
  refine ⟨hdecode, _, rfl, ?_⟩
  rw [(forged_safe hdecode rfl).2.2.1 []]
  rfl

end Executable
end SealedScript
