import SealedScript.Executable.Compile
import SealedScript.Proofs.Outcome

/-!
Whatever a header declares, it names each of its parameters (`Info.sound_call`).
-/

namespace SealedScript
set_option autoImplicit false

theorem Signature.params_of_make {name : Option Text} {params : List Ty} {variadic : Bool} {returns : Ty} {s : Signature}
    (h : Signature.make name params variadic returns = .ok s) : s.params = params := by
  unfold Signature.make at h
  split at h
  · cases h
  · split at h
    · cases h
    · split at h
      · cases h
      · cases h
        rfl

/-- There are as many names as parameters, and none is empty. -/
def CallShape.Sound (call : CallShape) : Prop :=
  call.paramNames.length = call.signature.params.length ∧ ∀ n ∈ call.paramNames, n ≠ []

instance (call : CallShape) : Decidable call.Sound := inferInstanceAs (Decidable (_ ∧ _))

namespace Header

theorem readNamed_spec {name text : Text} {index : Nat} {written : Outcome (Text × Bool)} {param : Param}
    (h : (written >>= fun (written, variadic) =>
      if name.isEmpty then .error (.invalidSignature (.unnamedParam index text))
      else do
        let ty ← Ty.parse written
        return ⟨name, ty, variadic⟩) = .ok param) : param.name ≠ [] := by
  obtain ⟨⟨written, variadic⟩, -, h⟩ := bind_eq_ok.mp h
  simp only at h
  split at h
  case isTrue => cases h
  case isFalse hempty =>
    obtain ⟨ty, -, h⟩ := bind_eq_ok.mp h
    cases h
    exact fun hname => hempty (List.isEmpty_iff.mpr hname)

theorem readParam_spec {text piece : Text} {index : Nat} {isLast : Bool} {param : Param}
    (h : readParam text index isLast piece = .ok param) : param.name ≠ [] := by
  unfold readParam at h
  simp only at h
  -- The cases are the ellipsis and its place; the check of the name follows in each that goes on.
  split at h
  · split at h
    · exact readNamed_spec h
    · cases h
  · exact readNamed_spec h

theorem readParams_spec {text : Text} {pieces : List Text} {index : Nat} {params : List Param}
    (h : readParams text index pieces = .ok params) : ∀ param ∈ params, param.name ≠ [] := by
  induction pieces generalizing index params with
  | nil =>
    cases h
    nofun
  | cons piece rest ih =>
    obtain ⟨first, hfirst, h⟩ := bind_eq_ok.mp h
    obtain ⟨others, hothers, h⟩ := bind_eq_ok.mp h
    cases h
    intro param hparam
    rcases List.mem_cons.mp hparam with rfl | hparam
    · exact readParam_spec hfirst
    · exact ih hothers param hparam

theorem readSignature_spec {name : Option Text} {text : Text} {call : CallShape}
    (h : readSignature name text = .ok call) : call.Sound := by
  unfold readSignature at h
  simp only at h
  split at h
  · cases h
  · obtain ⟨returns, -, h⟩ := bind_eq_ok.mp h
    obtain ⟨params, hparams, h⟩ := bind_eq_ok.mp h
    obtain ⟨signature, hsignature, h⟩ := bind_eq_ok.mp h
    cases h
    have hmade := Signature.params_of_make (mapError_eq_ok.mp hsignature)
    constructor
    · rw [hmade, List.length_map, List.length_map]
    · intro n hn
      obtain ⟨param, hparam, rfl⟩ := List.mem_map.mp hn
      exact readParams_spec hparams param hparam

/-! ## Blocks -/

namespace Info

theorem sound_call_main (fileName : Option Text) : (main fileName).call.Sound := by
  show CallShape.main.Sound
  decide

theorem sound_call_bare (fileName : Option Text) (kind : DeclaredKind) : (bare fileName kind).call.Sound := by
  show CallShape.Sound (if kind = .main then .main else .free)
  split <;> decide

theorem sound_call_ofBlock {fileName : Option Text} {block : Block} {info : Info}
    (h : ofBlock fileName block = .ok info) : info.call.Sound := by
  obtain ⟨kind, -, h⟩ := bind_eq_ok.mp h
  simp only at h
  split at h
  case isTrue =>
    cases h
    split
    · exact sound_call_main fileName
    · exact sound_call_bare fileName kind
  case isFalse =>
    split at h
    case isTrue => cases h
    case isFalse =>
      obtain ⟨shape, hshape, h⟩ := bind_eq_ok.mp h
      cases h
      exact readSignature_spec hshape

/-- What a text is called with, whatever it declares. -/
theorem sound_call {g : Engine} {fileName : Option Text} {code : Text} {declared : Option Info}
    (h : ofCode? fileName code = .ok declared) : (declared.getD (g.defaultInfo fileName)).call.Sound := by
  unfold ofCode? at h
  split at h
  · cases h
    exact sound_call_main fileName
  · obtain ⟨info, hinfo, rfl⟩ := map_eq_ok.mp h
    exact sound_call_ofBlock hinfo

end Info
end Header
end SealedScript
