import SealedScript.Proofs.Wire.Codec
import SealedScript.Record

/-!
Signatures as they stand in bytes.

The parts of a signature are read before anything is known of them, and only parts that keep the rules of signatures
make one (`make_eq_ok`). So whatever the bytes are, a signature that was decoded keeps the rules, and bytes whose parts
break them do not decode (`Codec.payload_call`).
-/

namespace SealedScript
set_option autoImplicit false

namespace Signature

/-- The parts of a signature, of which nothing is known. -/
structure Parts where
  name : Option Text
  params : List Ty
  variadic : Bool
  returns : Ty

/-- The rules that parts must keep to make a signature. -/
structure Parts.Lawful (q : Parts) : Prop where
  params_of_variadic : q.variadic = true → q.params ≠ []
  returns_boxed : q.returns.isPrimitive = false
  params_boxed : ∀ p ∈ q.params, p.isPrimitive = false

/-- An empty name is none. -/
def Parts.usable (q : Parts) : Parts := { q with name := usableName q.name }

def parts (s : Signature) : Parts := ⟨s.name, s.params, s.variadic, s.returns⟩

variable {s : Signature} {q : Parts}

theorem parts_lawful (s : Signature) : s.parts.Lawful := ⟨s.params_of_variadic, s.returns_boxed, s.params_boxed⟩

theorem make_eq_ok {name : Option Text} {params : List Ty} {variadic : Bool} {returns : Ty} :
    make name params variadic returns = .ok s ↔
      Parts.Lawful ⟨name, params, variadic, returns⟩ ∧ s.parts = Parts.usable ⟨name, params, variadic, returns⟩ := by
  constructor
  · intro h
    unfold make at h
    split at h
    case isTrue => cases h
    case isFalse harity =>
      split at h
      case isTrue => cases h
      case isFalse hreturns =>
        split at h
        case h_1 => cases h
        case h_2 hparams =>
          cases h
          exact ⟨⟨fun hv hp => harity ⟨hv, hp⟩, by simpa using hreturns, by simpa using hparams⟩, rfl⟩
  · rintro ⟨⟨harity, hreturns, hparams⟩, hparts⟩
    obtain ⟨name', params', variadic', returns'⟩ := s
    simp only [parts, Parts.usable, Parts.mk.injEq] at hparts
    obtain ⟨rfl, rfl, rfl, rfl⟩ := hparts
    unfold make
    rw [dif_neg fun h => harity h.1 h.2, dif_neg (by simp [hreturns])]
    split
    case h_1 p hfind =>
      have hprimitive := List.find?_some hfind
      rw [hparams p (List.mem_of_find?_eq_some hfind)] at hprimitive
      cases hprimitive
    case h_2 => rfl

end Signature

/-! ## Bytes -/

namespace Reader
variable {α β : Type} {r : Reader α} {f : α → Reader β} {b : β} {bs rest : Bytes}

theorem bind_read_eq_ok : (r >>= f) bs = .ok (b, rest) ↔
    ∃ a behind, r bs = .ok (a, behind) ∧ f a behind = .ok (b, rest) := by
  show (r bs).bind (fun p => f p.1 p.2) = .ok (b, rest) ↔ _
  cases r bs with
  | error e => exact ⟨fun h => (nomatch h), fun ⟨_, _, h, _⟩ => (nomatch h)⟩
  | ok p => exact ⟨fun h => ⟨p.1, p.2, rfl, h⟩, fun ⟨_, _, h, hf⟩ => by cases h; exact hf⟩

theorem map_read_eq_ok {g : α → β} : (g <$> r) bs = .ok (b, rest) ↔ ∃ a, r bs = .ok (a, rest) ∧ g a = b := by
  show (r bs).bind (fun p => .ok (g p.1, p.2)) = .ok (b, rest) ↔ _
  cases r bs with
  | error e => exact ⟨fun h => (nomatch h), fun ⟨_, h, _⟩ => (nomatch h)⟩
  | ok p =>
    constructor
    · intro h
      cases h
      exact ⟨p.1, rfl, rfl⟩
    · rintro ⟨a, h, rfl⟩
      cases h
      rfl

end Reader

namespace Codec

/-- The parts of a signature, unchecked. -/
def parts : Codec Signature.Parts where
  write q :=
    (option text).write q.name ++ (list ty).write q.params ++ bool.write q.variadic ++ ty.write q.returns
  read := do
    let name ← (option text).read
    let params ← (list ty).read
    let variadic ← bool.read
    let returns ← ty.read
    return ⟨name, params, variadic, returns⟩

/-- What the front of a payload says about calls: the parts of a signature and the names of its parameters. -/
def readCall : Reader (Option Signature.Parts × List Text) := do
  let _ ← kind.read
  let _ ← text.read
  let _ ← (list (pair text ty)).read
  let _ ← (list (pair text value)).read
  let q ← (option parts).read
  let names ← (list text).read
  return (q, names)

variable {bs rest : Bytes} {s : Signature} {o : Option Signature} {p : Payload}

theorem signature_read_eq_ok : signature.read bs = .ok (s, rest) ↔
    ∃ q, parts.read bs = .ok (q, rest) ∧ q.Lawful ∧ s.parts = q.usable := by
  simp only [signature, parts, Reader.bind_read_eq_ok]
  constructor
  · rintro ⟨name, b₁, hname, params, b₂, hparams, variadic, b₃, hvariadic, returns, _, hreturns, h⟩
    cases hmake : Signature.make name params variadic returns with
    | error fault =>
      rw [hmake] at h
      cases h
    | ok made =>
      rw [hmake] at h
      cases h
      obtain ⟨hlawful, hparts⟩ := Signature.make_eq_ok.mp hmake
      exact ⟨_, ⟨name, b₁, hname, params, b₂, hparams, variadic, b₃, hvariadic, returns, _, hreturns, rfl⟩, hlawful,
        hparts⟩
  · rintro ⟨q, ⟨name, b₁, hname, params, b₂, hparams, variadic, b₃, hvariadic, returns, _, hreturns, h⟩, hlawful,
      hparts⟩
    cases h
    refine ⟨name, b₁, hname, params, b₂, hparams, variadic, b₃, hvariadic, returns, _, hreturns, ?_⟩
    rw [Signature.make_eq_ok.mpr ⟨hlawful, hparts⟩]
    rfl

theorem option_read {α β : Type} {c : Codec α} {d : Codec β} {R : β → α → Prop}
    (hread : ∀ bs a rest, c.read bs = .ok (a, rest) → ∃ b, d.read bs = .ok (b, rest) ∧ R b a) {o : Option α}
    (h : (option c).read bs = .ok (o, rest)) : ∃ o', (option d).read bs = .ok (o', rest) ∧ Option.Rel R o' o := by
  simp only [option, Reader.bind_read_eq_ok] at h ⊢
  obtain ⟨present, behind, hpresent, h⟩ := h
  cases present with
  | false =>
    cases h
    exact ⟨none, ⟨false, _, hpresent, rfl⟩, .none⟩
  | true =>
    obtain ⟨a, ha, rfl⟩ := Reader.map_read_eq_ok.mp h
    obtain ⟨b, hb, hrel⟩ := hread _ _ _ ha
    exact ⟨some b, ⟨true, behind, hpresent, Reader.map_read_eq_ok.mpr ⟨b, hb, rfl⟩⟩, .some hrel⟩

/-- **What a payload that decodes says about calls keeps the rules.** -/
theorem payload_call (h : payload.read bs = .ok (p, rest)) : ∃ q behind,
    readCall bs = .ok ((q, p.executable.paramNames), behind) ∧
      Option.Rel (fun q s => q.Lawful ∧ s.parts = q.usable) q p.executable.signature := by
  simp only [payload, record, Reader.bind_read_eq_ok] at h
  obtain ⟨r, _, ⟨k, b₁, hkind, code, b₂, hcode, frozen, b₃, hfrozen, captured, b₄, hcaptured, o, b₅, hsignature, names,
    b₆, hnames, image, b₇, himage, hr⟩, digest, _, hdigest, hp⟩ := h
  cases hr
  cases hp
  obtain ⟨q, hq, hchecked⟩ := option_read (fun _ _ _ => signature_read_eq_ok.mp) hsignature
  refine ⟨q, b₆, ?_, hchecked⟩
  simp only [readCall, Reader.bind_read_eq_ok]
  exact ⟨k, b₁, hkind, code, b₂, hcode, frozen, b₃, hfrozen, captured, b₄, hcaptured, q, b₅, hq, names, b₆, hnames, rfl⟩

end Codec
end SealedScript
