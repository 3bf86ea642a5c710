import SealedScript.CommandLine.Arguments
import SealedScript.Proofs.Outcome
import SealedScript.Proofs.Signature.Adjust

/-!
The texts of a command line as arguments.

A text is read as the type at its place, and what it is read as is an instance of that type. So arguments that were
read from texts can be refused for their number only, and those that a variable arity collects are the surplus ones
in their order (`readArguments_fit`).
-/

namespace SealedScript
set_option autoImplicit false

/-! ## Single texts -/

namespace Value

variable {t : Text} {ty : Ty} {v : Value}

theorem contains_readNumber? (h : readNumber? t = some v) : Ty.number.contains v = true := by
  unfold readNumber? at h
  split at h
  · cases h
    rfl
  · cases h
    rfl
  · obtain ⟨x, -, rfl⟩ := Option.map_eq_some_iff.mp h
    rfl

/-- What a text is read as is an instance of the type. -/
theorem contains_read? (h : read? t ty = some v) : ty.contains v = true := by
  cases ty with
  | object | text =>
    cases h
    rfl
  | boolean =>
    rw [read?] at h
    split at h
    · cases h
      rfl
    · split at h
      · cases h
        rfl
      · cases h
  | byte | short | integer | long | float | double =>
    obtain ⟨n, -, rfl⟩ := Option.map_eq_some_iff.mp h
    rfl
  | number => exact contains_readNumber? h
  | void | array | primitive => cases h

theorem contains_ofText (h : ofText t ty = .ok v) : ty.contains v = true := by
  unfold ofText at h
  split at h
  case h_1 hread =>
    cases h
    exact contains_read? hread
  case h_2 => cases h

end Value

namespace Signature

variable {s : Signature} {element : Ty} {leading : List Ty} {texts : List Text} {args trailing values : List Value}

/-! ## Places -/

theorem argumentType_of_lt {index : Nat} (h : index < s.params.length) : s.argumentType index = s.params[index] := by
  have hmin : min index (s.params.length - 1) = index := by omega
  rw [argumentType, hmin, ite_self, List.getElem?_eq_getElem h, Option.getD_some]

/-- From the place of the last parameter on, texts are read as its type. -/
theorem argumentType_of_le {index : Nat} (hvariadic : s.variadic = true) (hparams : s.params = leading ++ [element])
    (h : leading.length ≤ index) : s.argumentType index = element := by
  have hmin : min index leading.length = leading.length := Nat.min_eq_right h
  simp [argumentType, hvariadic, hparams, hmin]

theorem readFrom_spec {start : Nat} (h : s.readFrom start texts = .ok values) : values.length = texts.length ∧
    ∀ i (ht : i < texts.length) (hv : i < values.length),
      Value.ofText texts[i] (s.argumentType (start + i)) = .ok values[i] := by
  induction texts generalizing start values with
  | nil =>
    cases h
    exact ⟨rfl, fun i ht => absurd ht (Nat.not_lt_zero i)⟩
  | cons t ts ih =>
    obtain ⟨v, hfirst, h⟩ := bind_eq_ok.mp h
    obtain ⟨vs, hrest, h⟩ := bind_eq_ok.mp h
    cases h
    obtain ⟨hlength, hread⟩ := ih hrest
    refine ⟨congrArg (· + 1) hlength, fun i ht hv => ?_⟩
    cases i with
    | zero => exact hfirst
    | succ i =>
      have hstart : start + (i + 1) = start + 1 + i := by omega
      rw [hstart]
      exact hread i (Nat.lt_of_succ_lt_succ ht) (Nat.lt_of_succ_lt_succ hv)

/-! ## Numbers of arguments -/

/-- The number of arguments suits the arity: one for each parameter, but any number for the last one of a variable
arity. -/
def SuitsCount (s : Signature) (count : Nat) : Prop :=
  if s.variadic then s.params.length ≤ count + 1 else count = s.params.length

instance (s : Signature) (count : Nat) : Decidable (s.SuitsCount count) :=
  inferInstanceAs (Decidable (if s.variadic then s.params.length ≤ count + 1 else count = s.params.length))

theorem Admits.suitsCount (h : s.Admits args) : s.SuitsCount args.length := by
  cases h with
  | fixed hfixed hargs =>
    rw [SuitsCount, hfixed]
    exact hargs.length_eq.symm
  | variadic hvariadic hparams hfirsts _ =>
    rw [SuitsCount, hvariadic, if_pos rfl, hparams, List.length_append, List.length_append, hfirsts.length_eq,
      List.length_singleton]
    omega

theorem Collects.of_instances (h : ∀ v ∈ trailing, element.contains v = true) :
    Collects element trailing (.array element trailing) := by
  match trailing with
  | [] => exact .absent
  | [v] => exact .wrapped (h v List.mem_cons_self)
  | _ :: _ :: _ => exact .gathered (by simp) fun v hv => Or.inr (h v hv)

/-! ## Calls -/

/-- The texts in the places of the first parameters are read as instances of their types. -/
theorem takes_of_readFrom {types : List Ty} (hparams : types <+: s.params) (hread : s.readFrom 0 texts = .ok values)
    (hcount : types.length ≤ texts.length) : List.Forall₂ Ty.Takes types (values.take types.length) := by
  obtain ⟨hlength, htexts⟩ := readFrom_spec hread
  refine List.forall₂_iff_get.mpr ⟨by rw [List.length_take]; omega, fun i hi hv => ?_⟩
  rw [List.length_take] at hv
  have htype : s.argumentType i = types[i] := by
    rw [argumentType_of_lt (Nat.lt_of_lt_of_le hi hparams.length_le), hparams.getElem hi]
  have hvalue := htexts i (by omega) (by omega)
  rw [Nat.zero_add, htype] at hvalue
  have htakes : types[i].Takes values[i] := Or.inr (Value.contains_ofText hvalue)
  simpa using htakes

/-- The texts from the place of the last parameter on are read as its type. -/
theorem reads_of_readFrom (hvariadic : s.variadic = true) (hparams : s.params = leading ++ [element])
    (hread : s.readFrom 0 texts = .ok values) :
    List.Forall₂ (fun t v => Value.ofText t element = .ok v) (texts.drop leading.length)
      (values.drop leading.length) := by
  obtain ⟨hlength, htexts⟩ := readFrom_spec hread
  refine List.forall₂_iff_get.mpr ⟨by rw [List.length_drop, List.length_drop, hlength], fun i ht hv => ?_⟩
  rw [List.length_drop] at ht hv
  have hvalue := htexts (leading.length + i) (by omega) (by omega)
  rw [Nat.zero_add, argumentType_of_le hvariadic hparams (Nat.le_add_right _ _)] at hvalue
  simpa using hvalue

/-- Values that were read and are enough fit, and the surplus ones are collected. -/
theorem adjusts_of_readFrom (hvariadic : s.variadic = true) (hparams : s.params = leading ++ [element])
    (hread : s.readFrom 0 texts = .ok values) (hcount : leading.length ≤ texts.length) :
    s.Adjusts values (values.take leading.length ++ [.array element (values.drop leading.length)]) := by
  have hfirsts : List.Forall₂ Ty.Takes leading (values.take leading.length) :=
    takes_of_readFrom (hparams ▸ List.prefix_append leading [element]) hread hcount
  have hreads := reads_of_readFrom hvariadic hparams hread
  have htrailing : ∀ v ∈ values.drop leading.length, element.contains v = true := by
    intro v hv
    obtain ⟨i, hi, rfl⟩ := List.getElem_of_mem hv
    exact Value.contains_ofText (hreads.get (hreads.length_eq ▸ hi) hi)
  have hadjusts := Adjusts.variadic hvariadic hparams hfirsts (Collects.of_instances htrailing)
  rwa [List.take_append_drop] at hadjusts

/-- **Values that were read are refused for their number only.** -/
theorem exists_adjust_iff_of_readFrom (hread : s.readFrom 0 texts = .ok values) :
    (∃ adjusted, s.adjust values = .ok adjusted) ↔ s.SuitsCount texts.length := by
  have hlength := (readFrom_spec hread).1
  constructor
  · rintro ⟨adjusted, h⟩
    exact hlength ▸ (exists_adjusts_iff.mp ⟨adjusted, adjust_eq_ok.mp h⟩).suitsCount
  · intro hcount
    cases hvariadic : s.variadic with
    | true =>
      have hparams := (List.dropLast_concat_getLast (s.params_of_variadic hvariadic)).symm
      have hleading : s.params.dropLast.length ≤ texts.length := by
        rw [SuitsCount, hvariadic, if_pos rfl] at hcount
        rw [List.length_dropLast]
        omega
      exact ⟨_, adjust_eq_ok.mpr (adjusts_of_readFrom hvariadic hparams hread hleading)⟩
    | false =>
      rw [SuitsCount, hvariadic, if_neg Bool.false_ne_true] at hcount
      have htakes := takes_of_readFrom (List.prefix_refl s.params) hread (Nat.le_of_eq hcount.symm)
      rw [List.take_of_length_le (Nat.le_of_eq (hlength.trans hcount))] at htakes
      exact ⟨values, adjust_eq_ok.mpr (.fixed hvariadic htakes)⟩

/-- What a variable arity collects of values that were read. -/
theorem adjust_of_readFrom {adjusted : List Value} (hvariadic : s.variadic = true)
    (hparams : s.params = leading ++ [element]) (hread : s.readFrom 0 texts = .ok values)
    (h : s.adjust values = .ok adjusted) :
    adjusted = values.take leading.length ++ [.array element (values.drop leading.length)] := by
  have hcount := (exists_adjust_iff_of_readFrom hread).mp ⟨adjusted, h⟩
  rw [SuitsCount, hvariadic, if_pos rfl, hparams, List.length_append, List.length_singleton] at hcount
  have hadjusts := adjust_eq_ok.mpr (adjusts_of_readFrom hvariadic hparams hread (by omega))
  exact Except.ok.inj (h.symm.trans hadjusts)

end Signature

namespace Executable

variable {e : Executable} {texts : List Text} {values : List Value}

theorem signature?_of_kind (hkind : e.kind ≠ .script) : ∃ s, e.signature? = some s := by
  rw [kind] at hkind
  rw [signature?]
  cases hshape : e.shape with
  | script =>
    rw [hshape] at hkind
    exact absurd rfl hkind
  | function call => exact ⟨call.signature, rfl⟩
  | macroRoutine call => exact ⟨call.signature, rfl⟩

/-- **Texts of a command line that can be read fit the call**, if there are as many as the arity wants. Each is one
value, and what a variable arity collects is read from the texts in the place of the last parameter and behind it, in
their order. -/
theorem readArguments_fit (hkind : e.kind ≠ .script) (h : e.readArguments texts = .ok values) :
    values.length = texts.length ∧ ∃ s, e.signature? = some s ∧
      ((∃ fault, s.adjust values = .error fault) ↔ ¬ s.SuitsCount texts.length) ∧
      ∀ leading element, s.variadic = true → s.params = leading ++ [element] →
        ∀ adjusted, s.adjust values = .ok adjusted → ∃ firsts items, adjusted = firsts ++ [.array element items] ∧
          firsts = values.take leading.length ∧
          List.Forall₂ (fun t v => Value.ofText t element = .ok v ∧ element.contains v = true)
            (texts.drop leading.length) items := by
  obtain ⟨s, hs⟩ := signature?_of_kind hkind
  rw [readArguments, hs] at h
  have hread : s.readFrom 0 texts = .ok values := mapError_eq_ok.mp h
  refine ⟨(Signature.readFrom_spec hread).1, s, hs, ?_, ?_⟩
  · rw [← Signature.exists_adjust_iff_of_readFrom hread]
    cases s.adjust values with
    | ok adjusted => simp
    | error fault => simp
  · intro leading element hvariadic hparams adjusted hadjusted
    refine ⟨_, _, Signature.adjust_of_readFrom hvariadic hparams hread hadjusted, rfl, ?_⟩
    exact (Signature.reads_of_readFrom hvariadic hparams hread).imp fun _ _ ht => ⟨ht, Value.contains_ofText ht⟩

/-- A function of a title and numbers. -/
def tallying : Executable where
  engine := .compiling
  code := "// \x7b function (title:String, counts:Number ...):Object \x7d\ncounts sum"
  frozen := .empty
  captured := []
  shape := .function
    { signature :=
        { Signature.free with
          params := [.text, .number]
          params_of_variadic := by decide
          params_boxed := by decide }
      paramNames := ["title", "counts"] }
  body := .attached ⟨[.load "counts", .sum], false⟩

/-- A title and two numbers, and nothing at all. -/
theorem readArguments_fit_tallying : tallying.kind ≠ .script ∧
    tallying.readArguments ["a", "1", "4294967296"] = .ok [.text "a", .int 1, .long 4294967296] ∧
      (∃ s, tallying.signature? = some s ∧
        ∃ firsts items, [Value.text "a", .array .number [.int 1, .long 4294967296]] = firsts ++ [.array .number items] ∧
          List.Forall₂ (fun t v => Value.ofText t .number = .ok v ∧ Ty.number.contains v = true)
            ["1".toList, "4294967296".toList] items) ∧
      tallying.readArguments [] = .ok [] ∧ ∃ s fault, tallying.signature? = some s ∧ s.adjust [] = .error fault := by
  have hkind : tallying.kind ≠ .script := by decide
  have hthree : tallying.readArguments ["a", "1", "4294967296"] = .ok [.text "a", .int 1, .long 4294967296] := rfl
  have hnone : tallying.readArguments [] = .ok [] := rfl
  obtain ⟨-, s, hs, -, hcollected⟩ := readArguments_fit hkind hthree
  obtain ⟨-, s', hs', hrefused, -⟩ := readArguments_fit hkind hnone
  cases hs
  cases hs'
  obtain ⟨firsts, items, hadjusted, -, hitems⟩ := hcollected [.text] .number rfl rfl _ rfl
  obtain ⟨fault, hfault⟩ := hrefused.mpr (by decide)
  exact ⟨hkind, hthree, ⟨_, rfl, firsts, items, hadjusted, hitems⟩, hnone, _, fault, rfl, hfault⟩

end Executable
end SealedScript
