import SealedScript.Proofs.Wire.Codec
import SealedScript.Wire.Data

/-!
Types, values, signatures and programs are recovered from their bytes.

The readers of types and values take a byte string that bounds how deep they may descend. They succeed as
soon as the bound is no shorter than what was written, which the induction needs for the parts: an array
spends one byte of the bound and at least four of its own bytes on the level it opens.
-/

namespace SealedScript
set_option autoImplicit false

namespace Codec

theorem single_recovers (x : Floating.Single) : single.Recovers x := by
  refine Recovers.via ?_ (number_recovers x.bits.toNat_lt)
  rw [Floating.Single.ofBits, UInt32.ofNat_toNat]

theorem double_recovers (x : Floating.Double) : double.Recovers x := by
  refine Recovers.via ?_ (number_recovers x.bits.toNat_lt)
  rw [Floating.Double.ofBits, UInt64.ofNat_toNat]

/-- The number of a case leads to the reader of its fields. -/
theorem tag_bind {α : Type} {n : Nat} (h : n < 256) (f : Nat → Reader α) (fields rest : Bytes) :
    (tag.read >>= f) (tag.write n ++ fields ++ rest) = f n (fields ++ rest) := by
  rw [List.append_assoc, Reader.bind_ok f (tag_read h _)]

theorem tag_bind_nil {α : Type} {n : Nat} (h : n < 256) (f : Nat → Reader α) (rest : Bytes) :
    (tag.read >>= f) (tag.write n ++ rest) = f n rest := Reader.bind_ok f (tag_read h rest)

theorem tag_append_ne_nil (n : Nat) (fields : Bytes) : tag.write n ++ fields ≠ [] := by
  intro h
  have hlength := congrArg List.length h
  rw [List.length_append, length_tag, List.length_nil] at hlength
  omega

/-! ## Types -/

theorem primitive_recovers (p : Primitive) : primitive.Recovers p := by
  refine Recovers.via ?_ (number_recovers ?_) <;> cases p <;> decide

theorem length_writeTy (t : Ty) : 4 ≤ (writeTy t).length := by
  cases t <;> simp [writeTy, length_tag]

theorem readTy_write (t : Ty) (bound rest : Bytes) (h : (writeTy t).length ≤ bound.length) :
    readTy bound (writeTy t ++ rest) = .ok (t, rest) := by
  induction t generalizing bound with
  | array element ih =>
    have hbytes : (writeTy (.array element)).length = 4 + (writeTy element).length := by
      rw [writeTy, List.length_append, length_tag]
    obtain ⟨b, bound, rfl⟩ := List.exists_cons_of_length_pos (by omega : 0 < bound.length)
    rw [List.length_cons] at h
    rw [readTy, writeTy, tag_bind (by omega)]
    exact Reader.map_ok Ty.array (ih bound (by omega))
  | primitive p =>
    have hread := primitive_recovers p (by cases p <;> decide) rest
    rw [readTy.eq_def, writeTy, tag_bind (by omega)]
    exact Reader.map_ok Ty.primitive hread
  | _ =>
    rw [readTy.eq_def, writeTy, tag_bind_nil (by omega)]
    rfl

theorem ty_read (t : Ty) (rest : Bytes) : ty.read (ty.write t ++ rest) = .ok (t, rest) := by
  refine readTy_write t _ rest ?_
  rw [List.length_append]
  exact Nat.le_add_right _ _

theorem ty_recovers (t : Ty) : ty.Recovers t := fun _ => ty_read t

theorem ty_write_ne_nil (t : Ty) : ty.write t ≠ [] := by
  have hlength := length_writeTy t
  intro h
  rw [show writeTy t = [] from h, List.length_nil] at hlength
  omega

/-! ## Values -/

theorem writeValues_eq (vs : List Value) : writeValues vs = vs.flatMap writeValue := by
  induction vs with
  | nil => rfl
  | cons v vs ih => rw [writeValues, List.flatMap_cons, ih]

theorem writeValue_ne_nil (v : Value) : writeValue v ≠ [] := by
  cases v with
  | null => exact tag_append_ne_nil 0 []
  | array element items =>
    rw [writeValue, List.append_assoc, List.append_assoc]
    exact tag_append_ne_nil 9 _
  | _ => exact tag_append_ne_nil _ _

/-- A value is read under any bound that is no shorter than its bytes. -/
def ReadsBack (v : Value) : Prop :=
  ∀ bound rest : Bytes, (writeValue v).length ≤ bound.length → (writeValue v).length < Nat.pow 2 64 →
    readValue bound (writeValue v ++ rest) = .ok (v, rest)

/-- A case with one field is read back when its field is. -/
theorem readsBack_field {α : Type} {c : Codec α} {a : α} {n : Nat} (make : α → Value)
    (hwrite : writeValue (make a) = tag.write n ++ c.write a)
    (hread : ∀ bound bs, readValue bound (tag.write n ++ bs) = (make <$> c.read) bs)
    (hc : c.Recovers a) : ReadsBack (make a) := by
  intro bound rest _ hsize
  rw [hwrite, List.length_append] at hsize
  rw [hwrite, List.append_assoc, hread]
  exact Reader.map_ok make (hc (by omega) rest)

/-- An array is read back when its items are. -/
theorem readsBack_array {element : Ty} {items : List Value} (h : ∀ v ∈ items, ReadsBack v) :
    ReadsBack (.array element items) := by
  intro bound rest hbound hsize
  have hbytes : (writeValue (.array element items)).length =
      4 + (ty.write element).length + 8 + (items.flatMap writeValue).length := by
    rw [writeValue, writeValues_eq, List.length_append, List.length_append, List.length_append, length_tag,
      show (length.write items.length).length = 8 from length_toLow 8 _]
  have hcount := length_le_flatMap writeValue_ne_nil items
  obtain ⟨b, bound, rfl⟩ := List.exists_cons_of_length_pos (by omega : 0 < bound.length)
  rw [List.length_cons] at hbound
  have hitems : ∀ v ∈ items, ∀ rest, readValue bound (writeValue v ++ rest) = .ok (v, rest) := by
    intro v hv rest
    have hitem := length_write_le writeValue hv
    exact h v hv bound rest (by omega) (by omega)
  rw [readValue, writeValue, writeValues_eq, List.append_assoc, List.append_assoc, List.append_assoc,
    tag_bind_nil (by omega)]
  simp only
  rw [Reader.bind_ok _ (ty_read element _), Reader.bind_ok _ (length_read (by omega) _),
    Reader.bind_ok _ (readMany_write hitems [] rest)]
  rfl

mutual
/-- The induction follows the nesting of arrays. -/
theorem readsBack : ∀ v : Value, ReadsBack v
  | .null => by
    intro bound rest _ _
    rw [readValue.eq_def, writeValue, tag_bind_nil (by omega)]
    rfl
  | .bool v => readsBack_field .bool (by rw [writeValue])
      (fun _ _ => by rw [readValue.eq_def, tag_bind_nil (by omega)]; rfl) (bool_recovers v)
  | .byte v => readsBack_field .byte (by rw [writeValue])
      (fun _ _ => by rw [readValue.eq_def, tag_bind_nil (by omega)]; rfl) (int8_recovers v)
  | .short v => readsBack_field .short (by rw [writeValue])
      (fun _ _ => by rw [readValue.eq_def, tag_bind_nil (by omega)]; rfl) (int16_recovers v)
  | .int v => readsBack_field .int (by rw [writeValue])
      (fun _ _ => by rw [readValue.eq_def, tag_bind_nil (by omega)]; rfl) (int32_recovers v)
  | .long v => readsBack_field .long (by rw [writeValue])
      (fun _ _ => by rw [readValue.eq_def, tag_bind_nil (by omega)]; rfl) (int64_recovers v)
  | .float v => readsBack_field .float (by rw [writeValue])
      (fun _ _ => by rw [readValue.eq_def, tag_bind_nil (by omega)]; rfl) (single_recovers v)
  | .double v => readsBack_field .double (by rw [writeValue])
      (fun _ _ => by rw [readValue.eq_def, tag_bind_nil (by omega)]; rfl) (double_recovers v)
  | .text v => by
    have h := readsBack_field (a := v.toList) (fun t => .text (String.ofList t))
      (by rw [writeValue, String.toList_ofList])
      (fun _ _ => by rw [readValue.eq_def, tag_bind_nil (by omega)]; rfl) (text_recovers v.toList)
    rwa [String.ofList_toList] at h
  | .array _ items => readsBack_array (readsBack_all items)
theorem readsBack_all : ∀ vs : List Value, ∀ v ∈ vs, ReadsBack v
  | [] => fun _ hv => absurd hv List.not_mem_nil
  | v :: vs => by
    have hhead := readsBack v
    have htail := readsBack_all vs
    intro w hw
    rcases List.mem_cons.mp hw with rfl | hw
    · exact hhead
    · exact htail w hw
end

theorem value_recovers (v : Value) : value.Recovers v := by
  intro hsize rest
  refine readsBack v _ rest ?_ hsize
  rw [List.length_append]
  exact Nat.le_add_right _ _

/-! ## Signatures -/

theorem make_parts (s : Signature) : Signature.make s.name s.params s.variadic s.returns = .ok s := by
  have harity : ¬ (s.variadic = true ∧ s.params = []) := fun h => s.params_of_variadic h.1 h.2
  have hreturns : ¬ s.returns.isPrimitive = true := by
    rw [s.returns_boxed]
    decide
  have hparams : s.params.find? Ty.isPrimitive = none := by
    rw [List.find?_eq_none]
    intro p hp
    rw [s.params_boxed p hp]
    decide
  have hname : Signature.usableName s.name = s.name := by
    cases hn : s.name with
    | none => rfl
    | some n =>
      have hne : n ≠ [] := fun h => s.name_ne_empty (by rw [hn, h])
      rw [Signature.usableName, Option.filter_some, if_pos (by simpa using hne)]
  unfold Signature.make
  rw [dif_neg harity, dif_neg hreturns]
  split
  · simp_all
  · rw [Except.ok.injEq]
    cases s
    simp_all

theorem signature_recovers (s : Signature) : signature.Recovers s := by
  intro hsize rest
  have hbytes : (signature.write s).length = ((option text).write s.name).length +
      ((list ty).write s.params).length + (bool.write s.variadic).length + (ty.write s.returns).length := by
    rw [show signature.write s = (option text).write s.name ++ (list ty).write s.params ++
      bool.write s.variadic ++ ty.write s.returns from rfl, List.length_append, List.length_append,
      List.length_append]
  have hname := option_recovers (o := s.name) (fun n _ => text_recovers n) (by omega)
  have hparams := list_recovers ty_write_ne_nil s.params (fun t _ => ty_recovers t) (by omega)
  have hvariadic := bool_recovers s.variadic (by omega)
  show ((option text).read >>= _) ((option text).write s.name ++ (list ty).write s.params ++
    bool.write s.variadic ++ ty.write s.returns ++ rest) = _
  rw [List.append_assoc, List.append_assoc, List.append_assoc, Reader.bind_ok _ (hname _),
    Reader.bind_ok _ (hparams _), Reader.bind_ok _ (hvariadic _), Reader.bind_ok _ (ty_read s.returns rest),
    make_parts]
  rfl

/-! ## Programs -/

theorem op_write_ne_nil (o : Op) : op.write o ≠ [] := by
  cases o with
  | arith o => cases o <;> exact tag_append_ne_nil _ []
  | push _ | load _ | store _ => exact tag_append_ne_nil _ _
  | _ => exact tag_append_ne_nil _ []

theorem op_recovers (o : Op) : op.Recovers o := by
  intro hsize rest
  cases o with
  | push v =>
    have hbytes : (op.write (.push v)).length = 4 + (value.write v).length := by
      rw [← length_tag 0]
      exact List.length_append
    show (tag.read >>= _) (tag.write 0 ++ value.write v ++ rest) = _
    rw [tag_bind (by omega)]
    exact Reader.map_ok Op.push (value_recovers v (by omega) rest)
  | load name =>
    have hbytes : (op.write (.load name)).length = 4 + (text.write name).length := by
      rw [← length_tag 1]
      exact List.length_append
    show (tag.read >>= _) (tag.write 1 ++ text.write name ++ rest) = _
    rw [tag_bind (by omega)]
    exact Reader.map_ok Op.load (text_recovers name (by omega) rest)
  | store name =>
    have hbytes : (op.write (.store name)).length = 4 + (text.write name).length := by
      rw [← length_tag 2]
      exact List.length_append
    show (tag.read >>= _) (tag.write 2 ++ text.write name ++ rest) = _
    rw [tag_bind (by omega)]
    exact Reader.map_ok Op.store (text_recovers name (by omega) rest)
  | arith o => cases o <;> exact tag_bind_nil (by omega) _ rest
  | _ => exact tag_bind_nil (by omega) _ rest

theorem program_recovers (p : Program) : program.Recovers p := by
  intro hsize rest
  have hbytes : (program.write p).length = ((list op).write p.ops).length + (bool.write p.void).length :=
    List.length_append
  have hops := list_recovers op_write_ne_nil p.ops (fun o _ => op_recovers o) (by omega)
  have hvoid := bool_recovers p.void (by omega)
  show ((list op).read >>= _) ((list op).write p.ops ++ bool.write p.void ++ rest) = _
  rw [List.append_assoc, Reader.bind_ok _ (hops _), Reader.bind_ok _ (hvoid _)]
  rfl

end Codec

/-- **A program is what its image loads as.** -/
theorem Program.ofImage_image (p : Program) (h : p.image.length < Nat.pow 2 64) :
    Program.ofImage p.image = .ok p := by
  have hread := Codec.program_recovers p h []
  rw [List.append_nil] at hread
  show (Codec.program.read (Codec.program.write p)).map Prod.fst = _
  rw [hread]
  rfl

end SealedScript
