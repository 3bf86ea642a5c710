import SealedScript.Proofs.Wire.Data
import SealedScript.Record

/-!
Records, payloads and envelopes are recovered from their bytes (`Payload.decode_encode`,
`Envelope.decode_encode`).
-/

namespace SealedScript
set_option autoImplicit false

namespace Codec

theorem kind_recovers (k : Kind) : kind.Recovers k := by
  refine Recovers.via ?_ (number_recovers ?_) <;> cases k <;> decide

theorem pair_write_ne_nil {α : Type} (c : Codec α) (p : Text × α) : (pair text c).write p ≠ [] := by
  intro h
  exact text_write_ne_nil p.1 (List.append_eq_nil_iff.mp h).1

theorem record_recovers (r : Record) : record.Recovers r := by
  intro hsize rest
  have hbytes : (record.write r).length = (kind.write r.kind).length + (text.write r.code).length +
      ((list (pair text ty)).write r.frozen.entries).length +
      ((list (pair text value)).write r.captured).length +
      ((option signature).write r.signature).length + ((list text).write r.paramNames).length +
      (bytes.write r.image).length := by
    rw [show record.write r = kind.write r.kind ++ text.write r.code ++
      (list (pair text ty)).write r.frozen.entries ++ (list (pair text value)).write r.captured ++
      (option signature).write r.signature ++ (list text).write r.paramNames ++ bytes.write r.image from rfl]
    simp only [List.length_append]
  have hkind := kind_recovers r.kind (by omega)
  have hcode := text_recovers r.code (by omega)
  have hfrozen := list_recovers (pair_write_ne_nil ty) r.frozen.entries
    (fun p _ => pair_recovers (text_recovers p.1) (ty_recovers p.2)) (by omega)
  have hcaptured := list_recovers (pair_write_ne_nil value) r.captured
    (fun p _ => pair_recovers (text_recovers p.1) (value_recovers p.2)) (by omega)
  have hsignature := option_recovers (o := r.signature) (fun s _ => signature_recovers s) (by omega)
  have hnames := list_recovers text_write_ne_nil r.paramNames (fun n _ => text_recovers n) (by omega)
  have himage := bytes_recovers r.image (by omega)
  show (kind.read >>= _) (kind.write r.kind ++ text.write r.code ++
    (list (pair text ty)).write r.frozen.entries ++ (list (pair text value)).write r.captured ++
    (option signature).write r.signature ++ (list text).write r.paramNames ++ bytes.write r.image ++ rest) = _
  rw [List.append_assoc, List.append_assoc, List.append_assoc, List.append_assoc, List.append_assoc,
    List.append_assoc, Reader.bind_ok _ (hkind _), Reader.bind_ok _ (hcode _), Reader.bind_ok _ (hfrozen _),
    Reader.bind_ok _ (hcaptured _), Reader.bind_ok _ (hsignature _), Reader.bind_ok _ (hnames _),
    Reader.bind_ok _ (himage _)]
  rfl

theorem payload_recovers (p : Payload) : payload.Recovers p := by
  intro hsize rest
  have hbytes : (payload.write p).length =
      (record.write p.executable).length + (text.write p.sourceDigest).length := List.length_append
  have hrecord := record_recovers p.executable (by omega)
  have hdigest := text_recovers p.sourceDigest (by omega)
  show (record.read >>= _) (record.write p.executable ++ text.write p.sourceDigest ++ rest) = _
  rw [List.append_assoc, Reader.bind_ok _ (hrecord _), Reader.bind_ok _ (hdigest _)]
  rfl

theorem envelope_recovers {e : Envelope} (hversion : e.version < Nat.pow 256 2) : envelope.Recovers e := by
  intro hsize rest
  have hbytes : (envelope.write e).length = ((number 2).write e.version).length +
      (text.write e.engine).length + ((option text).write e.parameter).length +
      (bytes.write e.payload).length := by
    rw [show envelope.write e = (number 2).write e.version ++ text.write e.engine ++
      (option text).write e.parameter ++ bytes.write e.payload from rfl]
    simp only [List.length_append]
  have hengine := text_recovers e.engine (by omega)
  have hparameter := option_recovers (o := e.parameter) (fun n _ => text_recovers n) (by omega)
  have hpayload := bytes_recovers e.payload (by omega)
  show ((number 2).read >>= _) ((number 2).write e.version ++ text.write e.engine ++
    (option text).write e.parameter ++ bytes.write e.payload ++ rest) = _
  rw [List.append_assoc, List.append_assoc, List.append_assoc, Reader.bind_ok _ (number_read hversion _),
    Reader.bind_ok _ (hengine _), Reader.bind_ok _ (hparameter _), Reader.bind_ok _ (hpayload _)]
  rfl

end Codec

/-- **A payload is what its bytes decode to.** -/
theorem Payload.decode_encode (p : Payload) (h : p.encode.length < Nat.pow 2 64) :
    Payload.decode p.encode = .ok p := by
  have hread := Codec.payload_recovers p h []
  rw [List.append_nil] at hread
  show (Codec.payload.read (Codec.payload.write p)).map Prod.fst = _
  rw [hread]
  rfl

/-- **An envelope of the supported version is what its bytes decode to.** -/
theorem Envelope.decode_encode (e : Envelope) (hversion : e.version = supportedVersion)
    (h : e.encode.length < Nat.pow 2 64) : Envelope.decode e.encode = .ok e := by
  have hread := Codec.envelope_recovers (by rw [hversion]; decide) h []
  rw [List.append_nil] at hread
  show (Codec.envelope.read (Codec.envelope.write e)).bind _ = _
  rw [hread]
  show (if e.version = supportedVersion then _ else _) = _
  rw [if_pos hversion]
  rfl

/-! ## Sizes -/

theorem Envelope.length_payload_le (e : Envelope) : e.payload.length ≤ e.encode.length := by
  rw [show e.encode = (Codec.number 2).write e.version ++ Codec.text.write e.engine ++
    (Codec.option Codec.text).write e.parameter ++ (Codec.length.write e.payload.length ++ e.payload) from rfl]
  simp only [List.length_append]
  omega

theorem Payload.length_image_le (p : Payload) : p.executable.image.length ≤ p.encode.length := by
  have hbytes : p.encode.length =
      (Codec.record.write p.executable).length + (Codec.text.write p.sourceDigest).length :=
    List.length_append
  have hrecord : p.executable.image.length ≤ (Codec.record.write p.executable).length := by
    rw [show Codec.record.write p.executable = Codec.kind.write p.executable.kind ++
      Codec.text.write p.executable.code ++
      (Codec.list (Codec.pair Codec.text Codec.ty)).write p.executable.frozen.entries ++
      (Codec.list (Codec.pair Codec.text Codec.value)).write p.executable.captured ++
      (Codec.option Codec.signature).write p.executable.signature ++
      (Codec.list Codec.text).write p.executable.paramNames ++
      (Codec.length.write p.executable.image.length ++ p.executable.image) from rfl]
    simp only [List.length_append]
    omega
  omega

end SealedScript
