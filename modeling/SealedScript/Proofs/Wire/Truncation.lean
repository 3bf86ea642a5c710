import SealedScript.Proofs.Outcome
import SealedScript.Proofs.Record

/-!
Encoded values mark their own end.

What a reader takes off the front of a byte string does not depend on what follows: it takes the same off every
longer one (`Reader.Extends`). The readers of types and values take the input itself as the bound on nesting,
and a longer input is a looser bound, so the property relates two readers instead of being one of a reader.
Together with reading back it leaves no room for a beginning that reads as a message (`binary_forms_delimited`).
-/

namespace SealedScript
set_option autoImplicit false

/-! ## Readers -/

namespace Reader
variable {α β : Type} {r r' : Reader α}

/-- What the first reader takes off the front of a byte string, the second takes off every longer one. -/
def Extends (r r' : Reader α) : Prop :=
  ∀ bs a rest, r bs = .ok (a, rest) → ∀ more, r' (bs ++ more) = .ok (a, rest ++ more)

theorem Extends.pure (a : α) : Extends (Pure.pure a : Reader α) (Pure.pure a) := by
  intro bs b rest h more
  cases h
  rfl

theorem Extends.refuse (r' : Reader α) : Extends Codec.refuse r' := nofun

theorem Extends.throw (fault : CodecFault) (r' : Reader α) : Extends (MonadExcept.throw fault) r' := nofun

theorem Extends.bind {f f' : α → Reader β} (h : Extends r r') (hf : ∀ a, Extends (f a) (f' a)) :
    Extends (r >>= f) (r' >>= f') := by
  intro bs b rest hread more
  obtain ⟨⟨a, middle⟩, hfirst, hsecond⟩ := bind_eq_ok.mp hread
  have hfirst' := h bs a middle hfirst more
  rw [bind_ok f' hfirst']
  exact hf a middle b rest hsecond more

theorem Extends.map (f : α → β) (h : Extends r r') : Extends (f <$> r) (f <$> r') :=
  h.bind fun a => Extends.pure (f a)

/-- A reader that does not depend on what follows reads no proper beginning of what it reads whole. -/
theorem Extends.error_of_cut (h : Extends r r) {front rest : Bytes} {a : α} (hrest : rest ≠ [])
    (hwhole : r (front ++ rest) = .ok (a, [])) : ∃ fault, r front = .error fault := by
  cases hread : r front with
  | error fault => exact ⟨fault, rfl⟩
  | ok p =>
    obtain ⟨b, left⟩ := p
    have hlonger := h front b left hread rest
    rw [hwhole, Except.ok.injEq, Prod.mk.injEq] at hlonger
    have hnil : left ++ rest = [] := hlonger.2.symm
    exact absurd (List.append_eq_nil_iff.mp hnil).2 hrest

end Reader

/-! ## Numbers, texts and sequences -/

namespace Codec
open Reader (Extends)

variable {α β : Type} {c : Codec α} {d : Codec β}

theorem takeBytes_extends (n : Nat) : Extends (takeBytes n) (takeBytes n) := by
  intro bs front rest h more
  simp only [takeBytes, List.splitAt_eq, List.length_take] at h ⊢
  split at h
  case isFalse => cases h
  case isTrue hlength =>
    cases h
    have hle : n ≤ bs.length := by omega
    rw [if_pos (by rw [List.length_append]; omega), List.take_append_of_le_length hle,
      List.drop_append_of_le_length hle]

theorem number_extends (width : Nat) : Extends (number width).read (number width).read :=
  (takeBytes_extends width).map ofLow

theorem via_extends (h : Extends c.read c.read) (out : β → α) (back : α → Option β) :
    Extends (c.via out back).read (c.via out back).read := by
  refine h.bind fun a => ?_
  cases back a with
  | none => exact Extends.refuse _
  | some b => exact Extends.pure b

theorem tag_extends : Extends tag.read tag.read := number_extends 4

theorem bool_extends : Extends bool.read bool.read := via_extends (number_extends 1) _ _

theorem bytes_extends : Extends bytes.read bytes.read := (number_extends 8).bind takeBytes_extends

theorem text_extends : Extends text.read text.read := via_extends bytes_extends _ _

theorem readMany_extends {read read' : Reader α} (h : Extends read read') (n : Nat) (done : List α) :
    Extends (readMany read n done) (readMany read' n done) := by
  induction n generalizing done with
  | zero =>
    intro bs as rest hread more
    cases hread
    rfl
  | succ n ih =>
    intro bs as rest hread more
    rw [readMany] at hread ⊢
    cases hitem : read bs with
    | error fault =>
      rw [hitem] at hread
      cases hread
    | ok p =>
      obtain ⟨a, left⟩ := p
      rw [hitem] at hread
      rw [h bs a left hitem more]
      exact ih (a :: done) left as rest hread more

theorem list_extends (h : Extends c.read c.read) : Extends (list c).read (list c).read :=
  (number_extends 8).bind fun n => readMany_extends h n []

theorem option_extends (h : Extends c.read c.read) : Extends (option c).read (option c).read := by
  refine bool_extends.bind fun b => ?_
  cases b with
  | false => exact Extends.pure none
  | true => exact h.map some

theorem pair_extends (hc : Extends c.read c.read) (hd : Extends d.read d.read) :
    Extends (pair c d).read (pair c d).read :=
  hc.bind fun _ => hd.bind fun _ => Extends.pure _

/-! ## Types and values -/

theorem primitive_extends : Extends primitive.read primitive.read := via_extends tag_extends _ _

/-- Where the first bound allows a level below, so does the second, and the readers of those levels are alike. -/
def LevelsBelow (read : Bytes → Reader α) (bound bound' : Bytes) : Prop :=
  ∀ b inner, bound = b :: inner → ∃ b' inner', bound' = b' :: inner' ∧ Extends (read inner) (read inner')

/-- A reader that takes its input for the bound does not depend on what follows, if no level of it does. -/
theorem extends_of_levels (read : Bytes → Reader α)
    (hlevel : ∀ bound bound', LevelsBelow read bound bound' → Extends (read bound) (read bound')) :
    Extends (fun bs => read bs bs) (fun bs => read bs bs) := by
  -- Over the bound; a level below is bounded by the rest of it.
  have hbound : ∀ bound bound' : Bytes, bound.length ≤ bound'.length → Extends (read bound) (read bound') := by
    intro bound
    induction bound with
    | nil => exact fun bound' _ => hlevel [] bound' nofun
    | cons b bound ih =>
      intro bound' h
      obtain ⟨b', bound', rfl⟩ := List.exists_cons_of_length_pos (Nat.lt_of_lt_of_le (Nat.succ_pos _) h)
      rw [List.length_cons, List.length_cons] at h
      refine hlevel _ _ fun _ _ hsame => ⟨b', bound', rfl, ?_⟩
      cases hsame
      exact ih bound' (by omega)
  intro bs a rest hread more
  refine hbound bs (bs ++ more) ?_ bs a rest hread more
  rw [List.length_append]
  exact Nat.le_add_right _ _

theorem readTy_level (bound bound' : Bytes) (h : LevelsBelow readTy bound bound') :
    Extends (readTy bound) (readTy bound') := by
  rw [readTy.eq_def, readTy.eq_def]
  refine tag_extends.bind fun n => ?_
  split
  case h_12 =>
    cases bound with
    | nil => exact Extends.refuse _
    | cons b inner =>
      obtain ⟨b', inner', rfl, hinner⟩ := h b inner rfl
      exact hinner.map Ty.array
  case h_13 => exact primitive_extends.map Ty.primitive
  case h_14 => exact Extends.refuse _
  all_goals exact Extends.pure _

theorem ty_extends : Extends ty.read ty.read := extends_of_levels readTy readTy_level

theorem readValue_level (bound bound' : Bytes) (h : LevelsBelow readValue bound bound') :
    Extends (readValue bound) (readValue bound') := by
  rw [readValue.eq_def, readValue.eq_def]
  refine tag_extends.bind fun n => ?_
  match n with
  | 0 => exact Extends.pure _
  | 1 => exact bool_extends.map _
  | 2 | 3 | 4 | 5 | 6 | 7 => exact (via_extends (number_extends _) _ _).map _
  | 8 => exact text_extends.map _
  | 9 =>
    cases bound with
    | nil => exact Extends.refuse _
    | cons b inner =>
      obtain ⟨b', inner', rfl, hinner⟩ := h b inner rfl
      refine ty_extends.bind fun element => (number_extends 8).bind fun count => ?_
      exact (readMany_extends hinner count []).bind fun items => Extends.pure _
  | n + 10 => exact Extends.refuse _

theorem value_extends : Extends value.read value.read := extends_of_levels readValue readValue_level

/-! ## Signatures, programs and records -/

theorem signature_extends : Extends signature.read signature.read := by
  refine (option_extends text_extends).bind fun name => (list_extends ty_extends).bind fun params => ?_
  refine bool_extends.bind fun variadic => ty_extends.bind fun returns => ?_
  cases Signature.make name params variadic returns with
  | ok s => exact Extends.pure s
  | error fault => exact Extends.throw _ _

theorem op_extends : Extends op.read op.read := by
  refine tag_extends.bind fun n => ?_
  match n with
  | 0 => exact value_extends.map Op.push
  | 1 => exact text_extends.map Op.load
  | 2 => exact text_extends.map Op.store
  | 3 | 4 | 5 | 6 | 7 | 8 | 9 | 10 | 11 | 12 => exact Extends.pure _
  | n + 13 => exact Extends.refuse _

theorem program_extends : Extends program.read program.read :=
  (list_extends op_extends).bind fun _ => bool_extends.bind fun _ => Extends.pure _

theorem record_extends : Extends record.read record.read := by
  refine (via_extends tag_extends _ _).bind fun kind => text_extends.bind fun code => ?_
  refine (list_extends (pair_extends text_extends ty_extends)).bind fun frozen => ?_
  refine (list_extends (pair_extends text_extends value_extends)).bind fun captured => ?_
  refine (option_extends signature_extends).bind fun signature => ?_
  refine (list_extends text_extends).bind fun paramNames => bytes_extends.bind fun image => ?_
  exact Extends.pure _

theorem payload_extends : Extends payload.read payload.read :=
  record_extends.bind fun _ => text_extends.bind fun _ => Extends.pure _

theorem envelope_extends : Extends envelope.read envelope.read := by
  refine (number_extends 2).bind fun version => text_extends.bind fun engine => ?_
  refine (option_extends text_extends).bind fun parameter => bytes_extends.bind fun payload => ?_
  exact Extends.pure _

end Codec

/-! ## Messages -/

/-- A value is what its bytes decode to, whatever follows them, and no proper beginning of them decodes. -/
structure Delimited {α : Type} (encode : α → Bytes) (decode : Bytes → Except CodecFault α) (a : α) : Prop where
  whole : ∀ rest, decode (encode a ++ rest) = .ok a
  cut : ∀ front, front <+: encode a → front ≠ encode a → ∃ fault, decode front = .error fault

theorem Codec.Recovers.delimited {α : Type} {c : Codec α} {a : α} (h : c.Recovers a)
    (hextends : Reader.Extends c.read c.read) (hsize : (c.write a).length < Nat.pow 2 64) :
    Delimited c.write (fun bs => (c.read bs).map Prod.fst) a := by
  constructor
  · intro rest
    rw [h hsize rest]
    rfl
  · rintro front ⟨rest, hrest⟩ hproper
    have hwhole := h hsize []
    rw [List.append_nil, ← hrest] at hwhole
    have hne : rest ≠ [] := by
      rintro rfl
      exact hproper (by rw [← hrest, List.append_nil])
    obtain ⟨fault, hfault⟩ := hextends.error_of_cut hne hwhole
    exact ⟨fault, by rw [hfault]; rfl⟩

theorem Payload.delimited (p : Payload) (hsize : p.encode.length < Nat.pow 2 64) :
    Delimited Payload.encode Payload.decode p :=
  (Codec.payload_recovers p).delimited Codec.payload_extends hsize

theorem Program.delimited (p : Program) (hsize : p.image.length < Nat.pow 2 64) :
    Delimited Program.image Program.ofImage p :=
  (Codec.program_recovers p).delimited Codec.program_extends hsize

theorem Envelope.delimited (e : Envelope) (hversion : e.version = supportedVersion)
    (hsize : e.encode.length < Nat.pow 2 64) : Delimited Envelope.encode Envelope.decode e := by
  have hrecovers := Codec.envelope_recovers (e := e) (by rw [hversion]; decide)
  constructor
  · intro rest
    show (Codec.envelope.read (Codec.envelope.write e ++ rest)).bind _ = _
    rw [hrecovers hsize rest]
    show (if e.version = supportedVersion then _ else _) = _
    rw [if_pos hversion]
    rfl
  · intro front hfront hproper
    -- The reading fails already, so the check of the version behind it is never reached.
    obtain ⟨fault, hfault⟩ := (hrecovers.delimited Codec.envelope_extends hsize).cut front hfront hproper
    refine ⟨fault, ?_⟩
    show (Codec.envelope.read front).bind _ = _
    cases hread : Codec.envelope.read front with
    | error fault' =>
      rw [hread] at hfault
      cases hfault
      rfl
    | ok p =>
      rw [hread] at hfault
      cases hfault

/-- **Every message marks its own end**: payloads, envelopes of the supported version and programs are read back
exactly, whatever follows their bytes, and nothing is read from a proper beginning of them. Lengths are written in
eight bytes, and no message has more bytes than those can count. -/
theorem binary_forms_delimited :
    (∀ p : Payload, p.encode.length < Nat.pow 2 64 → Delimited Payload.encode Payload.decode p) ∧
      (∀ e : Envelope, e.version = Envelope.supportedVersion → e.encode.length < Nat.pow 2 64 →
        Delimited Envelope.encode Envelope.decode e) ∧
      ∀ p : Program, p.image.length < Nat.pow 2 64 → Delimited Program.image Program.ofImage p :=
  ⟨Payload.delimited, Envelope.delimited, Program.delimited⟩

/-- Arrays in an array, with a number that is none and of which the bits count. -/
def nestedValue : Value :=
  .array (.array .double) [.array .double [.double ⟨0xFFF8000000000001⟩, .null], .null, .text "π"]

def nestedProgram : Program := ⟨[.push nestedValue, .load "x", .arith .div, .store "y", .sum], true⟩

def nestedPayload : Payload :=
  ⟨{ kind := .function, code := "x // π", frozen := ⟨[("x", .array (.array .double))]⟩
     captured := [("x", nestedValue)], signature := some .main, paramNames := ["$Args"]
     image := nestedProgram.image }, "      29"⟩

theorem binary_forms_delimited_nested :
    Delimited Payload.encode Payload.decode nestedPayload ∧
      Delimited Envelope.encode Envelope.decode ⟨1, "RPN", some "", nestedPayload.encode⟩ ∧
      Delimited Program.image Program.ofImage nestedProgram :=
  ⟨binary_forms_delimited.1 _ (by decide +kernel), binary_forms_delimited.2.1 _ rfl (by decide +kernel),
    binary_forms_delimited.2.2 _ (by decide +kernel)⟩

end SealedScript
