import SealedScript.Proofs.Text.Utf8
import SealedScript.Wire.Codec

/-!
Codecs that recover what they wrote.

A codec recovers a value when it reads the value off the front of any byte string that starts with its
bytes, provided that eight bytes can count them: lengths are written in eight bytes, and what does not
fit is lost. Every combinator passes the property on, so a codec of the library recovers a value as soon
as the codecs of its parts do.
-/

namespace SealedScript
set_option autoImplicit false

/-! ## Running readers -/

namespace Reader
variable {α β : Type} {r : Reader α} {a : α} {bs rest : Bytes}

theorem bind_ok (f : α → Reader β) (h : r bs = .ok (a, rest)) : (r >>= f) bs = f a rest := by
  show (r bs).bind (fun p => f p.1 p.2) = f a rest
  rw [h]
  rfl

theorem map_ok (f : α → β) (h : r bs = .ok (a, rest)) : (f <$> r) bs = .ok (f a, rest) := by
  show (r bs).bind (fun p => .ok (f p.1, p.2)) = .ok (f a, rest)
  rw [h]
  rfl

end Reader

namespace Codec

/-- The codec reads the value off the front of what starts with its bytes, when eight bytes count them. -/
def Recovers {α : Type} (c : Codec α) (a : α) : Prop :=
  (c.write a).length < Nat.pow 2 64 → ∀ rest, c.read (c.write a ++ rest) = .ok (a, rest)

/-! ## Raw bytes and numbers -/

theorem takeBytes_append (front rest : Bytes) :
    takeBytes front.length (front ++ rest) = .ok (front, rest) := by
  simp [takeBytes]

theorem length_toLow (width n : Nat) : (toLow width n).length = width := by
  induction width generalizing n with
  | zero => rfl
  | succ width ih => rw [toLow, List.length_cons, ih]

theorem ofLow_toLow {width n : Nat} (h : n < Nat.pow 256 width) : ofLow (toLow width n) = n := by
  induction width generalizing n with
  | zero =>
    rw [show Nat.pow 256 0 = 1 from rfl] at h
    rw [toLow, ofLow]
    omega
  | succ width ih =>
    rw [show Nat.pow 256 (width + 1) = Nat.pow 256 width * 256 from rfl] at h
    rw [toLow, ofLow, ih (Nat.div_lt_of_lt_mul (by rwa [Nat.mul_comm])), UInt8.toNat_ofNat']
    omega

theorem number_read {width n : Nat} (h : n < Nat.pow 256 width) (rest : Bytes) :
    (number width).read ((number width).write n ++ rest) = .ok (n, rest) := by
  have htake := takeBytes_append (toLow width n) rest
  rw [length_toLow] at htake
  have hread := Reader.map_ok ofLow htake
  rwa [ofLow_toLow h] at hread

theorem length_read {n : Nat} (h : n < Nat.pow 2 64) (rest : Bytes) :
    length.read (length.write n ++ rest) = .ok (n, rest) := number_read h rest

theorem tag_read {n : Nat} (h : n < 256) (rest : Bytes) : tag.read (tag.write n ++ rest) = .ok (n, rest) :=
  number_read (Nat.lt_trans h (by decide)) rest

theorem length_tag (n : Nat) : (tag.write n).length = 4 := length_toLow 4 n

variable {α β : Type} {c : Codec α} {d : Codec β}

theorem Recovers.via {out : β → α} {back : α → Option β} {b : β} (hback : back (out b) = some b)
    (h : c.Recovers (out b)) : (c.via out back).Recovers b := by
  intro hsize rest
  show (c.read >>= _) (c.write (out b) ++ rest) = _
  rw [Reader.bind_ok _ (h hsize rest), hback]
  rfl

theorem number_recovers {width n : Nat} (h : n < Nat.pow 256 width) : (number width).Recovers n :=
  fun _ rest => number_read h rest

theorem bool_recovers (b : Bool) : bool.Recovers b := by
  refine Recovers.via ?_ (number_recovers ?_) <;> cases b <;> decide

theorem int8_recovers (n : Int8) : int8.Recovers n := by
  refine Recovers.via ?_ (number_recovers n.toUInt8.toNat_lt)
  rw [UInt8.ofNat_toNat]
  rfl

theorem int16_recovers (n : Int16) : int16.Recovers n := by
  refine Recovers.via ?_ (number_recovers n.toUInt16.toNat_lt)
  rw [UInt16.ofNat_toNat]
  rfl

theorem int32_recovers (n : Int32) : int32.Recovers n := by
  refine Recovers.via ?_ (number_recovers n.toUInt32.toNat_lt)
  rw [UInt32.ofNat_toNat]
  rfl

theorem int64_recovers (n : Int64) : int64.Recovers n := by
  refine Recovers.via ?_ (number_recovers n.toUInt64.toNat_lt)
  rw [UInt64.ofNat_toNat]
  rfl

/-! ## Byte strings, texts and sequences -/

theorem bytes_recovers (bs : Bytes) : bytes.Recovers bs := by
  intro hsize rest
  have hlength : bs.length < Nat.pow 2 64 := by
    have : (bytes.write bs).length = 8 + bs.length := by
      rw [← length_toLow 8 bs.length]
      exact List.length_append
    omega
  show (length.read >>= takeBytes) (length.write bs.length ++ bs ++ rest) = _
  rw [List.append_assoc, Reader.bind_ok _ (length_read hlength _), takeBytes_append]

theorem text_recovers (t : Text) : text.Recovers t :=
  Recovers.via (Utf8.decode_encode t) (bytes_recovers _)

/-- Reads back the items one after another, given that each is read back. -/
theorem readMany_write {read : Reader α} {write : α → Bytes} {as : List α}
    (h : ∀ a ∈ as, ∀ rest, read (write a ++ rest) = .ok (a, rest)) (done : List α) (rest : Bytes) :
    readMany read as.length done (as.flatMap write ++ rest) = .ok (done.reverse ++ as, rest) := by
  induction as generalizing done with
  | nil => rw [List.length_nil, readMany, List.flatMap_nil, List.nil_append, List.append_nil]
  | cons a as ih =>
    have hitem := h a (List.mem_cons_self ..) (as.flatMap write ++ rest)
    rw [List.length_cons, List.flatMap_cons, List.append_assoc, readMany, hitem]
    simp only
    rw [ih (fun b hb => h b (List.mem_cons_of_mem a hb)), List.reverse_cons, List.append_assoc,
      List.singleton_append]

theorem length_write_le (write : α → Bytes) {as : List α} {a : α} (h : a ∈ as) :
    (write a).length ≤ (as.flatMap write).length := by
  obtain ⟨s, t, rfl⟩ := List.append_of_mem h
  rw [List.flatMap_append, List.flatMap_cons, List.length_append, List.length_append]
  omega

/-- Items that take a byte or more are no more than their bytes. -/
theorem length_le_flatMap {write : α → Bytes} (hwrite : ∀ a, write a ≠ []) (as : List α) :
    as.length ≤ (as.flatMap write).length := by
  induction as with
  | nil => exact Nat.zero_le _
  | cons a as ih =>
    have hpos := List.length_pos_iff.mpr (hwrite a)
    rw [List.length_cons, List.flatMap_cons, List.length_append]
    omega

theorem list_recovers (hwrite : ∀ a, c.write a ≠ []) (as : List α) (h : ∀ a ∈ as, c.Recovers a) :
    (list c).Recovers as := by
  intro hsize rest
  have hbytes : ((list c).write as).length = 8 + (as.flatMap c.write).length := by
    rw [← length_toLow 8 as.length]
    exact List.length_append
  have hcount := length_le_flatMap hwrite as
  have hitems : ∀ a ∈ as, ∀ rest, c.read (c.write a ++ rest) = .ok (a, rest) := by
    intro a ha
    have hitem := length_write_le c.write ha
    exact h a ha (by omega)
  show (length.read >>= fun n => readMany c.read n [])
    (length.write as.length ++ as.flatMap c.write ++ rest) = _
  rw [List.append_assoc, Reader.bind_ok _ (length_read (by omega) _), readMany_write hitems]
  rfl

theorem option_recovers {o : Option α} (h : ∀ a, o = some a → c.Recovers a) : (option c).Recovers o := by
  intro hsize rest
  have hflag : ∀ (b : Bool) rest, bool.read (bool.write b ++ rest) = .ok (b, rest) :=
    fun b => bool_recovers b (by cases b <;> decide)
  cases o with
  | none =>
    show (bool.read >>= _) (bool.write false ++ rest) = _
    rw [Reader.bind_ok _ (hflag false rest)]
    rfl
  | some a =>
    have hbytes : ((option c).write (some a)).length = (bool.write true).length + (c.write a).length :=
      List.length_append
    show (bool.read >>= _) (bool.write true ++ c.write a ++ rest) = _
    rw [List.append_assoc, Reader.bind_ok _ (hflag true _)]
    exact Reader.map_ok some (h a rfl (by omega) rest)

theorem pair_recovers {p : α × β} (hc : c.Recovers p.1) (hd : d.Recovers p.2) : (pair c d).Recovers p := by
  intro hsize rest
  have hbytes : ((pair c d).write p).length = (c.write p.1).length + (d.write p.2).length :=
    List.length_append
  show (c.read >>= fun a => d.read >>= fun b => pure (a, b)) (c.write p.1 ++ d.write p.2 ++ rest) = _
  rw [List.append_assoc, Reader.bind_ok _ (hc (by omega) _), Reader.bind_ok _ (hd (by omega) _)]
  rfl

theorem text_write_ne_nil (t : Text) : text.write t ≠ [] := by
  have : (length.write (Utf8.encode t).length).length = 8 := length_toLow 8 _
  intro h
  have hnil := congrArg List.length h
  rw [show text.write t = length.write (Utf8.encode t).length ++ Utf8.encode t from rfl, List.length_append,
    List.length_nil] at hnil
  omega

end Codec
end SealedScript
